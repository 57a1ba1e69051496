import SimpleAwait.Scheduler.Spares
import SimpleAwait.System.Control
import SimpleAwait.System.Suspensions
import SimpleAwait.System.TimerOrder
import SimpleAwait.System.Trace

/-!
# Who wakes a sleeper

A step makes a slot ready because it is due, because its child has completed, or because it was
parked or running.  So a slot that is asleep stays as it is until `process_due_timers` finds it
due or the child it waits for completes, and a task keeps its frame and its parent until it
completes itself.
-/

namespace SimpleAwait

variable {N : ℕ} {T : Type} {cfg : Config N} {w w' : World N T} {L : Layout N} {s : Fin N}

/-! ## Waking the parked -/

/-- `wake_all` writes the states and the links of slots only. -/
theorem Scheduler.wakeAllLoop_slots (fuel : ℕ) (c : Scheduler N) (q : WaitQueue N) :
    (Scheduler.wakeAllLoop fuel c q).1.now = c.now ∧
      ∀ t, ((Scheduler.wakeAllLoop fuel c q).1.slots t).deadline = (c.slots t).deadline ∧
        ((Scheduler.wakeAllLoop fuel c q).1.slots t).handle = (c.slots t).handle ∧
        ((Scheduler.wakeAllLoop fuel c q).1.slots t).parent = (c.slots t).parent := by
  induction fuel generalizing c q with
  | zero => exact ⟨rfl, fun _ => ⟨rfl, rfl, rfl⟩⟩
  | succ fuel ih =>
      unfold Scheduler.wakeAllLoop Scheduler.waitPop
      cases hhead : q.head with
      | none => exact ⟨rfl, fun _ => ⟨rfl, rfl, rfl⟩⟩
      | some s =>
          dsimp only
          generalize hnext : (if (c.slots s).next = none then none else q.tail) = tail
          obtain ⟨hnow, hslots⟩ := ih (((c.modify s fun slot => { slot with next := none }).setState s
            .ready).readyPush s) ⟨(c.slots s).next, tail⟩
          refine ⟨by simpa using hnow, fun t => ?_⟩
          obtain ⟨hdeadline, hhandle, hparent⟩ := hslots t
          rw [hdeadline, hhandle, hparent]
          by_cases ht : t = s <;> simp [ht]

namespace Core

theorem parked_awake (h : Core cfg w L) {r : Registration} (hs : L.place s = .parked r) :
    ¬ w.sched.Asleep s := by
  refine Scheduler.not_asleep_of_waitingLocal ?_
  rw [h.sound.threaded.state, hs, Place.state_parked]

/-- `wake_all` wakes the waiters of an event. -/
theorem spares_wakeAll (h : Core cfg w L) (e : ℕ) :
    w.sched.Spares (w.sched.wakeAll (w.event e).waiters).1 := by
  obtain ⟨hnow, hslots⟩ := Scheduler.wakeAllLoop_slots N w.sched (w.event e).waiters
  have hsound := h.sound.wakeAll e
  refine ⟨hnow, fun s hs => ⟨?_, (hslots s).1⟩, fun s hs => ⟨?_, (hslots s).2⟩⟩
  · have hwaiter : s ∉ L.waiters e := fun hmem =>
      h.parked_awake ((h.sound.threaded.mem_waiters e s).mp hmem) hs
    have hplace : ((L.toView.setWaiters e []).enqueueAll (L.waiters e)).place s = L.place s := by
      rw [View.enqueueAll_place, if_neg hwaiter]
      rfl
    rw [hsound.threaded.state, hplace, h.sound.threaded.state]
  · exact ((Scheduler.Calm.wakeAll w.sched (w.event e).waiters).tenant s hs).1

/-- The slot that the oldest parked receiver names is parked with it. -/
theorem parked_receiver (h : Core cfg w L) {k b : ℕ} {q : Queue N T}
    (hhead : q.recvHead = (w.queue k).recvHead)
    (hslot : ∀ a ∈ L.receivers k, (q.receivers a).slot = ((w.queue k).receivers a).slot)
    (hb : q.recvHead = some b) (hs : (q.receivers b).slot = some s) :
    L.place s = .parked (.receiver k b) := by
  have hmem : b ∈ L.receivers k := (h.channel k).recv.head_mem (hhead.symm.trans hb)
  exact ((h.receivers k).place b s).mp ⟨hmem, by rw [← hslot b hmem, hs]⟩

/-- The slot that the oldest parked sender names is parked with it. -/
theorem parked_sender (h : Core cfg w L) {k b : ℕ} {q : Queue N T}
    (hhead : q.sendHead = (w.queue k).sendHead) (hsenders : q.senders = (w.queue k).senders)
    (hb : q.sendHead = some b) (hs : (q.senders b).slot = some s) :
    L.place s = .parked (.sender k b) := by
  have hmem : b ∈ L.senders k := (h.channel k).send.head_mem (hhead.symm.trans hb)
  exact ((h.senders k).place b s).mp ⟨hmem, by rw [← hsenders, hs]⟩

/-- The receiver that a sender serves is parked. -/
theorem spares_doSend (h : Core cfg w L) (k cap : ℕ) (q : Queue N T) (v : Option T)
    (source : Option Storage) (hhead : q.recvHead = (w.queue k).recvHead)
    (hslot : ∀ a ∈ L.receivers k, (q.receivers a).slot = ((w.queue k).receivers a).slot) :
    w.sched.Spares (q.doSend cap w.sched v source).2.1 := by
  unfold Queue.doSend
  split
  · rename_i a ha
    refine Scheduler.Spares.wakeSlot _ fun s hs => ?_
    have hwaiter : (q.receivers a).slot = some s := by
      simpa [Queue.constructResult, Queue.recvPopFront, Queue.modifyReceiver] using hs
    exact h.parked_awake (h.parked_receiver hhead hslot ha hwaiter)
  · split <;> exact Scheduler.Spares.refl _

/-- The sender that a receiver admits is parked. -/
theorem spares_admitOldestSender (h : Core cfg w L) (k cap : ℕ) (q : Queue N T)
    (hhead : q.sendHead = (w.queue k).sendHead)
    (hsenders : q.senders = (w.queue k).senders) :
    w.sched.Spares (q.admitOldestSender cap w.sched).1 := by
  unfold Queue.admitOldestSender
  split
  · exact Scheduler.Spares.refl _
  · rename_i a ha
    refine Scheduler.Spares.wakeSlot _ fun s hs => ?_
    have hwaiter : (q.senders a).slot = some s := by
      simpa [Queue.sendPopFront, Queue.modifySender] using hs
    exact h.parked_awake (h.parked_sender hhead hsenders ha hwaiter)

/-! ## Awaits of the running task -/

theorem spares_suspended {c c' : Scheduler N} {awaiting : Handle}
    (hawake : ∀ s, c.current = some s → ¬ c.Asleep s) (h : c.Suspended awaiting c') :
    c.Spares c' := by
  rcases h with rfl | rfl
  · exact .runningIs c awaiting
  · exact .parkRunning c hawake

theorem spares_awaitSend (h : Core cfg w L) (hawake : ∀ s, w.sched.current = some s →
    ¬ w.sched.Asleep s) (k : ℕ) (v : T) (awaiting : Handle) :
    w.sched.Spares (w.awaitSend cfg k v awaiting).2.sched := by
  rcases w.awaitSend_sched k v awaiting with hready | hsuspended
  · rw [hready]
    exact h.spares_doSend k (cfg.capacity k) _ _ _ rfl fun _ _ => rfl
  · exact spares_suspended hawake hsuspended

theorem spares_awaitReceive (h : Core cfg w L) (hawake : ∀ s, w.sched.current = some s →
    ¬ w.sched.Asleep s) (k : ℕ) (awaiting : Handle) :
    w.sched.Spares (w.awaitReceive cfg k awaiting).2.sched := by
  rcases w.awaitReceive_sched k awaiting with hready | hsuspended
  · rw [hready]
    unfold Queue.receiveReady
    split
    · exact .refl _
    · exact h.spares_admitOldestSender k _ _ rfl rfl
  · exact spares_suspended hawake hsuspended

/-- An await by the running task wakes no sleeper. -/
theorem spares_coAwait (h : Core cfg w L) (hawake : ∀ s, w.sched.current = some s →
    ¬ w.sched.Asleep s) (awaiting : Handle) (awaitable : Awaitable T)
    (hflag : ∀ f, awaitable ≠ .flag f) :
    w.sched.Spares (w.coAwait cfg awaiting awaitable).2.sched := by
  cases awaitable with
  | yield => exact Scheduler.Spares.yieldCurrent _ hawake
  | delay duration => exact Scheduler.Spares.armCurrentTimer _ hawake duration
  | task awaiter =>
      unfold World.coAwait
      dsimp only
      split
      · exact Scheduler.Spares.report _ _
      · exact Scheduler.Spares.startChildAwait _ hawake _ _
  | event e =>
      unfold World.coAwait
      dsimp only
      split
      · exact Scheduler.Spares.refl _
      · exact Scheduler.Spares.waitOn _ hawake _ _
  | send q v => exact h.spares_awaitSend hawake q v awaiting
  | receive q => exact h.spares_awaitReceive hawake q awaiting
  | flag f => exact absurd rfl (hflag f)
  | unknown => exact Scheduler.Spares.refl _

end Core

/-! ## One step -/

/-- What a step from `w` to `w'` by the action does to those asleep. -/
inductive Rouses (w : World N T) : Action T → World N T → Prop
  /-- Nobody is woken. -/
  | nobody {a : Action T} {w' : World N T} (h : w.sched.Spares w'.sched) : Rouses w a w'
  /-- `poll()` samples the clock. -/
  | clock {andWait : Bool} {clock : Tick} {w' : World N T} (hcontrol : w.control = .loop)
      (hslots : w'.sched.slots = w.sched.slots) (hnow : w'.sched.now = clock) :
      Rouses w (.poll andWait clock) w'
  | due {w' : World N T} (hcontrol : w.control = .dueTimers)
      (hsched : w'.sched = w.sched.processDueTimers) : Rouses w .startPass w'
  | parent {s : Fin N} {left : ℕ} {w' : World N T} (hcontrol : w.control = .release s left)
      (hsched : w'.sched = w.sched.afterDestroy s) : Rouses w .destroyed w'

theorem Scheduler.Spares.afterSuspend (c : Scheduler N) (s : Fin N) : c.Spares (c.afterSuspend s) := by
  unfold Scheduler.afterSuspend
  dsimp only
  split
  · rename_i hrunning
    have hreturned : c.Spares { c with current := none } := .of_slots rfl rfl
    refine hreturned.trans (.setState _ ?_ ⟨by simp, by simp⟩)
    exact Scheduler.not_asleep_of_running hrunning
  · exact .of_slots rfl rfl

theorem Scheduler.Spares.afterAwait {left : ℕ} {r : Bool × World N T}
    (h : w.sched.Spares r.2.sched) : w.sched.Spares (World.afterAwait s left r).sched := by
  unfold World.afterAwait
  split
  · exact h.trans (.afterSuspend _ _)
  · exact h

/-- The slot at the head of the ready FIFO starts to run. -/
theorem Scheduler.Spares.run (c : Scheduler N) (hs : (c.slots s).state = .ready) :
    c.Spares ((c.unlinkFront s).enter s) where
  now := rfl
  asleep t ht := by
    have hts : t ≠ s := by
      rintro rfl
      simp [Scheduler.Asleep, hs] at ht
    simp [hts]
  tenant t ht := by
    by_cases hts : t = s
    · simp [Scheduler.Occupied, hts]
    · simpa [Scheduler.Occupied, hts] using ht

theorem Inv.awake_current (h : Inv cfg w L) (s : Fin N) (hs : w.sched.current = some s) :
    ¬ w.sched.Asleep s := by
  have hplace : L.place s = .running := by
    rw [h.staged.running]
    have := h.staged.current.symm.trans hs
    cases hctl : w.control <;> simp_all [Control.current, Control.running]
  refine Scheduler.not_asleep_of_running ?_
  rw [h.core.sound.threaded.state, hplace, Place.state_running]

/-- Only due timers and completions wake those asleep. -/
theorem Inv.step_rouses (h : Inv cfg w L) {a : Action T} (hstep : w.step cfg a = some w') :
    Rouses w a w' := by
  cases World.steps_of_step hstep with
  | createTask _ task => exact .nobody (.schedule _ task)
  | poll hcall andWait clock =>
      have hin := h.staged.inPoll
      obtain ⟨wake, ⟨-, hpoll⟩ | ⟨-, -, hpoll⟩ | ⟨-, hidle, hpoll⟩⟩ := w.poll_cases andWait clock <;>
        rw [hpoll]
      · exact .nobody (.of_slots rfl rfl)
      · exact .nobody (.of_slots rfl rfl)
      · rw [hidle] at hin
        refine .clock ?_ rfl rfl
        cases hctl : w.control <;> simp [hctl, Control.inPoll, Control.isUser] at hin hcall ⊢
  | eventSet _ e => exact .nobody (h.core.spares_wakeAll e)
  | eventClear => exact .nobody (.refl _)
  | trySend _ q v =>
      have hspares := h.core.spares_doSend q (cfg.capacity q) (w.queue q) (some v) none rfl fun _ _ => rfl
      refine .nobody ?_
      rw [World.afterSend_sched]
      exact hspares
  | tryReceive _ q =>
      refine .nobody ?_
      show w.sched.Spares ((w.queue q).tryReceive (cfg.capacity q) w.sched).2.1
      unfold Queue.tryReceive
      split
      · exact .refl _
      · exact h.core.spares_admitOldestSender q _ _ rfl rfl
  | flagClear | flagIsSet | flagTaken | flagNotReady => exact .nobody (.refl _)
  | coAwait s left awaitable _ hflag =>
      exact .nobody (.afterAwait (h.core.spares_coAwait h.awake_current _ awaitable hflag))
  | flagPark s f left hcontrol =>
      refine .nobody (.afterAwait ?_)
      rw [h.flagPark_eq hcontrol]
      split_ifs
      · refine .park _ (h.awake_current s ?_)
        rw [h.staged.current, hcontrol]
        rfl
      · exact .report _ _
  | finish => exact .nobody (.of_slots rfl rfl)
  | destroyed s left hcontrol => exact .parent hcontrol rfl
  | walkStarts | nothingPending => exact .nobody (.refl _)
  | walkStep prev f =>
      refine .nobody ?_
      show w.sched.Spares (w.flags.walkStep w.sched prev f).2.2.1
      rcases w.walkStep_sched prev f with hsched | hsched <;> rw [hsched]
      · exact .refl _
      · refine .wakeSlot _ fun s hs => ?_
        exact h.core.parked_awake ((h.core.armed.waiter _ s).mp hs)
  | startPass hcontrol => exact .due hcontrol rfl
  | passPop left w' hcontrol hpops =>
      obtain ⟨s, rest, hready, rfl, -⟩ := h.pops hcontrol hpops
      refine .nobody ?_
      rw [World.resume_sched]
      refine .run _ ?_
      have hthreaded := h.core.sound.threaded
      rw [hthreaded.state, (hthreaded.mem_ready s).mp (by simp [hready]), Place.state_ready]
  | endPass _ clock =>
      refine .nobody ?_
      rcases w.endPass_cases clock with hend | ⟨timeout, hend⟩ <;> rw [hend] <;>
        exact .of_slots rfl rfl
  | tokenTaken | timedOut | setFlag | give => exact .nobody (.refl _)

/-! ## What a sleeper sees of a step -/

/-- `process_due_timers` writes the states of due slots, and links. -/
theorem Timers.processDueTimers_slots {c : Scheduler N} (h : Timers c) (t : Fin N) :
    c.processDueTimers.slots t = { c.slots t with
      state := if c.isDue t then .ready else (c.slots t).state
      next := (c.processDueTimers.slots t).next } := by
  rw [h.processDueTimers_eq]
  have hslots := Scheduler.foldl_makeReady_slots c.dueSlots c t
  simp only [Scheduler.mem_dueSlots] at hslots
  exact hslots

/-- The completion of slot `s` writes to `s`, and wakes the parent that waits for it. -/
theorem Scheduler.afterDestroy_slots (c : Scheduler N) {s t : Fin N} (hts : t ≠ s) :
    ((c.afterDestroy s).slots t).handle = (c.slots t).handle ∧
      ((c.afterDestroy s).slots t).parent = (c.slots t).parent ∧
      ((c.afterDestroy s).slots t).deadline = (c.slots t).deadline ∧
      ((c.afterDestroy s).slots t).state =
        if (c.slots s).parent = some t ∧ (c.slots t).state = .waitingChild then .ready
        else (c.slots t).state := by
  unfold Scheduler.afterDestroy
  dsimp only
  cases hparent : (c.slots s).parent with
  | none => simp [hts]
  | some p =>
      dsimp only
      by_cases hp : p = s
      · subst hp
        simp [hts, Ne.symm hts]
      · by_cases htp : t = p
        · subst htp
          split <;> rename_i hstate <;> simp_all
        · split <;> simp [hts, htp, Ne.symm htp]

theorem Scheduler.afterDestroy_now (c : Scheduler N) (s : Fin N) :
    (c.afterDestroy s).now = c.now := by
  unfold Scheduler.afterDestroy
  dsimp only
  split
  · rfl
  · split <;> simp

/-- A waiting timer stays as it is until `process_due_timers` finds it due. -/
theorem Inv.step_timer (h : Inv cfg w L) {a : Action T} (hstep : w.step cfg a = some w')
    (hs : (w.sched.slots s).state = .waitingTimer) :
    ((w'.sched.slots s).state = .waitingTimer ∧
        (w'.sched.slots s).deadline = (w.sched.slots s).deadline) ∨
      a = .startPass ∧ (w.sched.slots s).deadline ≤ w.sched.now := by
  cases h.step_rouses hstep with
  | nobody hspares =>
      obtain ⟨hstate, hdeadline⟩ := hspares.asleep s (Or.inl hs)
      exact Or.inl ⟨hstate.trans hs, hdeadline⟩
  | clock _ hslots _ =>
      rw [hslots]
      exact Or.inl ⟨hs, rfl⟩
  | due _ hsched =>
      rw [hsched, h.core.sound.timers.processDueTimers_slots]
      by_cases hdue : w.sched.isDue s = true
      · simp only [Scheduler.isDue, Bool.and_eq_true, decide_eq_true_eq] at hdue
        exact Or.inr ⟨rfl, hdue.2⟩
      · exact Or.inl ⟨by simp [hdue, hs], rfl⟩
  | @parent r _ _ hcontrol hsched =>
      have hrunning : (w.sched.slots r).state = .running := by
        rw [h.core.sound.threaded.state, (h.staged.running r).mpr (by rw [hcontrol]; rfl),
          Place.state_running]
      have hsr : s ≠ r := by
        rintro rfl
        simp [hs] at hrunning
      obtain ⟨-, -, hdeadline, hstate⟩ := w.sched.afterDestroy_slots hsr
      rw [hsched, hdeadline, hstate]
      simp [hs]

/-- A parent waits, and its child keeps its frame, until the child completes. -/
theorem Inv.step_child (h : Inv cfg w L) {a : Action T} (hstep : w.step cfg a = some w')
    {p : Fin N} (hp : (w.sched.slots p).state = .waitingChild)
    (hs : (w.sched.slots s).parent = some p) :
    (∃ left, a = .destroyed ∧ w.control = .release s left) ∨
      (w'.sched.slots p).state = .waitingChild ∧ (w'.sched.slots s).parent = some p ∧
        (w'.sched.slots s).handle = (w.sched.slots s).handle := by
  have hplace : L.place p = .child s := (h.core.sound.kin.parent s p).mp hs
  have hoccupied : w.sched.Occupied s := by
    have hactive := Place.active_iff_state.mp (h.core.sound.kin.alive s p hplace)
    rwa [← h.core.sound.threaded.state] at hactive
  cases h.step_rouses hstep with
  | nobody hspares =>
      obtain ⟨-, hhandle, hparent⟩ := hspares.tenant s hoccupied
      exact Or.inr ⟨(hspares.asleep p (Or.inr hp)).1.trans hp, hparent.trans hs, hhandle⟩
  | clock _ hslots _ =>
      rw [hslots]
      exact Or.inr ⟨hp, hs, rfl⟩
  | due _ hsched =>
      have hnot : w.sched.isDue p = false := by simp [Scheduler.isDue, hp]
      rw [hsched, h.core.sound.timers.processDueTimers_slots p,
        h.core.sound.timers.processDueTimers_slots s]
      exact Or.inr ⟨by simp [hnot, hp], hs, rfl⟩
  | @parent r left _ hcontrol hsched =>
      by_cases hrs : s = r
      · subst hrs
        exact Or.inl ⟨left, rfl, hcontrol⟩
      · have hrunning : L.place r = .running := (h.staged.running r).mpr (by rw [hcontrol]; rfl)
        have hpr : p ≠ r := by
          rintro rfl
          simp [hplace] at hrunning
        -- the completed slot has another parent, if any
        have hother : (w.sched.slots r).parent ≠ some p := by
          rw [Ne, h.core.sound.kin.parent, hplace]
          simpa using hrs
        obtain ⟨hhandle, hparent, -, -⟩ := w.sched.afterDestroy_slots hrs
        obtain ⟨-, -, -, hstate⟩ := w.sched.afterDestroy_slots hpr
        rw [hsched, hhandle, hparent, hstate]
        exact Or.inr ⟨by simp [hother, hp], hs, rfl⟩

/-- Only `poll()` samples the clock. -/
theorem Inv.step_now (h : Inv cfg w L) {a : Action T} (hstep : w.step cfg a = some w') :
    w'.sched.now = w.sched.now ∨
      ∃ andWait, a = .poll andWait w'.sched.now ∧ w.control = .loop := by
  cases h.step_rouses hstep with
  | nobody hspares => exact Or.inl hspares.now
  | @clock andWait _ _ hcontrol _ hnow => exact Or.inr ⟨andWait, by rw [hnow], hcontrol⟩
  | due _ hsched => exact Or.inl (by rw [hsched]; exact (Scheduler.Calm.processDueTimers _).now)
  | @parent r _ _ _ hsched => exact Or.inl (by rw [hsched, Scheduler.afterDestroy_now])

end SimpleAwait
