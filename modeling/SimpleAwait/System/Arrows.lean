import SimpleAwait.Scheduler.Shifts
import SimpleAwait.System.Preservation
import SimpleAwait.System.Sleepers

/-!
# The state diagram of a slot

The arrows that lead from one `State` to another, each with the action that takes it.  In a step every
slot keeps its state or follows an arrow.
-/

namespace SimpleAwait

open Intrusive

variable {N : ℕ} {T : Type} {cfg : Config N} {w w' : World N T} {L : Layout N} {a : Action T}
  {s t : Fin N}

/-- The action fills a slot, if there is one to be filled. -/
def Action.adopts : Action T → Bool
  | .createTask task => task ≠ none
  | .coAwait (.task awaiter) => !awaiter.wasEmpty
  | _ => false

/-- The action parks the running task in `waiting_local`. -/
def Action.parks : Action T → Bool
  | .coAwait (.event _) | .coAwait (.send ..) | .coAwait (.receive _) | .flagPark => true
  | _ => false

/-- The action wakes slot `s` out of `waiting_local`: as a waiter of the event, as the first receiver
or sender of the queue, or as the waiter of the signaled flag that the walk is at. -/
def World.WakesSlot (w : World N T) (s : Fin N) : Action T → Prop
  | .eventSet e => ∃ l, Linked w.sched.next (w.event e).waiters.head l ∧ s ∈ l
  | .trySend q _ | .coAwait (.send q _) =>
      ∃ b, (w.queue q).recvHead = some b ∧ ((w.queue q).receivers b).slot = some s
  | .tryReceive q | .coAwait (.receive q) =>
      ∃ b, (w.queue q).sendHead = some b ∧ ((w.queue q).senders b).slot = some s
  | .walkStep => ∃ prev f, w.control = .walk prev (some f) ∧
      (w.flags.flag f).signaled = true ∧ (w.flags.flag f).waiter = some s
  | _ => False

/-- The arrows of the state diagram that are open to slot `s` in the world `w`. -/
inductive Arrow (w : World N T) (s : Fin N) : State → Action T → State → Prop
  /-- The slot is the one that `acquire_slot` returns. -/
  | acquire {x : State} {a : Action T} (c : Scheduler N) (hx : x = .free ∨ x = .completed)
      (ha : a.adopts = true) (hslot : w.sched.acquireSlot = some (s, c)) : Arrow w s x a .ready
  /-- The slot is the first of the ready FIFO. -/
  | resume (hfirst : w.sched.readyHead = some s) : Arrow w s .ready .passPop .running
  | yield : Arrow w s .running (.coAwait .yield) .ready
  /-- A delay of nothing, or one whose deadline overflows. -/
  | delayYields {d : Tick} (hd : d = 0 ∨ addOverflows w.sched.now d = true) :
      Arrow w s .running (.coAwait (.delay d)) .ready
  | delay {d : Tick} (hpositive : d ≠ 0) (hfits : addOverflows w.sched.now d = false) :
      Arrow w s .running (.coAwait (.delay d)) .waitingTimer
  | child {awaiter : TaskAwaiter} (hempty : awaiter.wasEmpty = false)
      (hslot : w.sched.acquireSlot ≠ none) : Arrow w s .running (.coAwait (.task awaiter)) .waitingChild
  /-- No slot is left for the child. -/
  | childYields {awaiter : TaskAwaiter} (hempty : awaiter.wasEmpty = false)
      (hslot : w.sched.acquireSlot = none) : Arrow w s .running (.coAwait (.task awaiter)) .ready
  | park {a : Action T} (ha : a.parks = true) : Arrow w s .running a .waitingLocal
  | unknown : Arrow w s .running (.coAwait .unknown) .suspended
  | complete {left : ℕ} (hcontrol : w.control = .release s left) :
      Arrow w s .running .destroyed .completed
  /-- The deadline is not ahead of the clock. -/
  | due (hdeadline : (w.sched.slots s).deadline ≤ w.sched.now) :
      Arrow w s .waitingTimer .startPass .ready
  | wake {a : Action T} (ha : w.WakesSlot s a) : Arrow w s .waitingLocal a .ready
  /-- The task in slot `c`, a child of this one, completes. -/
  | childCompleted {c : Fin N} {left : ℕ} (hcontrol : w.control = .release c left)
      (hparent : (w.sched.slots c).parent = some s) : Arrow w s .waitingChild .destroyed .ready

/-- From `w` to the scheduler `c` every slot keeps its state or follows an arrow of `a`. -/
def World.Follows (w : World N T) (a : Action T) (c : Scheduler N) : Prop :=
  w.sched.Shifts (fun s => Arrow w s (w.sched.slots s).state a) c

/-! ## Who is woken -/

namespace Core

theorem waitingLocal (h : Core cfg w L) {r : Registration} (hs : L.place s = .parked r) :
    (w.sched.slots s).state = .waitingLocal := by
  rw [h.sound.threaded.state, hs, Place.state_parked]

theorem follows_wakeAll (h : Core cfg w L) (e : ℕ) :
    w.Follows (.eventSet e) (w.sched.wakeAll (w.event e).waiters).1 := by
  intro s
  have hplace : ((L.toView.setWaiters e []).enqueueAll (L.waiters e)).place s =
      if s ∈ L.waiters e then .ready else L.place s := View.enqueueAll_place ..
  rw [(h.sound.wakeAll e).threaded.state, hplace]
  split_ifs with hs
  · right
    change Arrow w s (w.sched.slots s).state _ .ready
    rw [h.waitingLocal ((h.sound.threaded.mem_waiters e s).mp hs)]
    exact .wake ⟨_, (h.sound.threaded.waiters e).linked, hs⟩
  · exact Or.inl (h.sound.threaded.state s).symm

theorem follows_doSend (h : Core cfg w L) (k cap : ℕ) (q : Queue N T) (v : Option T)
    (source : Option Storage)
    (ha : ∀ {s b}, (w.queue k).recvHead = some b → ((w.queue k).receivers b).slot = some s →
      w.WakesSlot s a)
    (hhead : q.recvHead = (w.queue k).recvHead)
    (hslot : ∀ b, (q.receivers b).slot = ((w.queue k).receivers b).slot) :
    w.Follows a (q.doSend cap w.sched v source).2.1 := by
  unfold Queue.doSend
  split
  · rename_i b hb
    refine Scheduler.Shifts.wakeSlot _ fun s hs => ?_
    have hwaiter : (q.receivers b).slot = some s := by
      simpa [Queue.constructResult, Queue.recvPopFront, Queue.modifyReceiver] using hs
    rw [h.waitingLocal (h.parked_receiver hhead (fun a _ => hslot a) hb hwaiter)]
    exact .wake (ha (hhead.symm.trans hb) ((hslot b).symm.trans hwaiter))
  · split <;> exact Scheduler.Shifts.refl _

theorem follows_admitOldestSender (h : Core cfg w L) (k cap : ℕ) (q : Queue N T)
    (ha : ∀ {s b}, (w.queue k).sendHead = some b → ((w.queue k).senders b).slot = some s →
      w.WakesSlot s a)
    (hhead : q.sendHead = (w.queue k).sendHead) (hsenders : q.senders = (w.queue k).senders) :
    w.Follows a (q.admitOldestSender cap w.sched).1 := by
  unfold Queue.admitOldestSender
  split
  · exact Scheduler.Shifts.refl _
  · rename_i b hb
    refine Scheduler.Shifts.wakeSlot _ fun s hs => ?_
    have hwaiter : (q.senders b).slot = some s := by
      simpa [Queue.sendPopFront, Queue.modifySender] using hs
    rw [h.waitingLocal (h.parked_sender hhead hsenders hb hwaiter)]
    exact .wake (ha (hhead.symm.trans hb) (hsenders ▸ hwaiter))

end Core

/-! ## The running task -/

/-- The current slot is running. -/
theorem Inv.running_current (h : Inv cfg w L) (hs : w.sched.current = some s) :
    (w.sched.slots s).state = .running := by
  have hplace : L.place s = .running := by
    rw [h.staged.running]
    have hcurrent := h.staged.current.symm.trans hs
    cases hctl : w.control <;> simp_all [Control.current, Control.running]
  rw [h.core.sound.threaded.state, hplace, Place.state_running]

theorem Inv.follows_suspended (h : Inv cfg w L) {awaiting : Handle} {c : Scheduler N}
    (ha : a.parks = true) (hsuspended : w.sched.Suspended awaiting c) : w.Follows a c := by
  rcases hsuspended with rfl | rfl
  · exact Scheduler.Shifts.runningIs _ _
  · refine Scheduler.Shifts.parkRunning _ fun s hs => ?_
    rw [h.running_current hs]
    exact .park ha

/-- An await of the running task, other than on a flag, follows the arrows. -/
theorem Inv.follows_coAwait (h : Inv cfg w L) (awaiting : Handle) {awaitable : Awaitable T}
    (hflag : ∀ f, awaitable ≠ .flag f) :
    w.Follows (.coAwait awaitable) (w.coAwait cfg awaiting awaitable).2.sched := by
  have harrow : ∀ {y : State}, (∀ s, Arrow w s .running (.coAwait awaitable) y) → ∀ s,
      w.sched.current = some s → Arrow w s (w.sched.slots s).state (.coAwait awaitable) y := by
    intro y hy s hs
    rw [h.running_current hs]
    exact hy s
  cases awaitable with
  | yield => exact Scheduler.Shifts.yieldCurrent _ (harrow fun _ => .yield)
  | delay duration =>
      exact Scheduler.Shifts.armCurrentTimer _ duration (fun hd => harrow fun _ => .delayYields hd)
        fun hpositive hfits => harrow fun _ => .delay hpositive hfits
  | task awaiter =>
      simp only [World.coAwait]
      split
      · exact Scheduler.Shifts.record _ _
      · rename_i hempty
        have hempty : awaiter.wasEmpty = false := by simpa using hempty
        exact Scheduler.Shifts.startChildAwait _ _ _
          (fun s c hslot => .acquire c (Scheduler.acquireSlot_spec hslot).2.1
            (by simp [Action.adopts, hempty]) hslot)
          (fun hslot => harrow fun _ => .childYields hempty hslot)
          fun hslot => harrow fun _ => .child hempty hslot
  | event e =>
      simp only [World.coAwait]
      split
      · exact Scheduler.Shifts.refl _
      · exact Scheduler.Shifts.waitOn _ (harrow fun _ => .park rfl) _ _
  | send q v =>
      change w.Follows _ (w.awaitSend cfg q v awaiting).2.sched
      rcases w.awaitSend_sched q v awaiting with hready | hsuspended
      · rw [hready]
        exact h.core.follows_doSend q (cfg.capacity q) _ _ _ (fun hb hs => ⟨_, hb, hs⟩) rfl
          fun _ => rfl
      · exact h.follows_suspended rfl hsuspended
  | receive q =>
      change w.Follows _ (w.awaitReceive cfg q awaiting).2.sched
      rcases w.awaitReceive_sched q awaiting with hready | hsuspended
      · rw [hready]
        unfold Queue.receiveReady
        split
        · exact Scheduler.Shifts.refl _
        · exact h.core.follows_admitOldestSender q _ _ (fun hb hs => ⟨_, hb, hs⟩) rfl rfl
      · exact h.follows_suspended rfl hsuspended
  | flag f => exact absurd rfl (hflag f)
  | unknown => exact Scheduler.Shifts.refl _

/-- An await that suspends the running task has registered a wake source. -/
theorem Awaited.not_running {r : Bool × World N T} (h : Awaited cfg s w L r) (hr : r.1 = true) :
    (r.2.sched.slots s).state ≠ .running := by
  obtain ⟨-, L', hcore, ⟨hfalse, -⟩ | ⟨-, hsuspends⟩⟩ := h
  · rw [hfalse] at hr
    cases hr
  · intro hstate
    rw [hcore.sound.threaded.state] at hstate
    exact ((hsuspends.running s).mp (Place.eq_running_of_state hstate)).2 rfl

theorem World.follows_afterAwait {left : ℕ} {r : Bool × World N T}
    (hfollows : w.Follows a r.2.sched)
    (hsuspends : r.1 = true → (r.2.sched.slots s).state ≠ .running ∨
      Arrow w s (w.sched.slots s).state a .suspended) :
    w.Follows a (World.afterAwait s left r).sched := by
  unfold World.afterAwait
  split
  · rename_i hsuspend
    exact Scheduler.Shifts.trans hfollows (.afterSuspend _ s (hsuspends hsuspend))
  · exact hfollows

/-! ## One step -/

/-- `process_due_timers` leaves the deadlines. -/
theorem Inv.startPass_slots (h : Inv cfg w L) (hstep : w.step cfg .startPass = some w') (t : Fin N) :
    (w'.sched.slots t).deadline = (w.sched.slots t).deadline ∧
      (w'.sched.slots t).state =
        if w.sched.isDue t then .ready else (w.sched.slots t).state := by
  cases World.steps_of_step hstep with
  | startPass =>
      change (w.sched.processDueTimers.slots t).deadline = _ ∧
        (w.sched.processDueTimers.slots t).state = _
      rw [h.core.sound.timers.processDueTimers_slots]
      exact ⟨rfl, rfl⟩

/-- In a step every slot keeps its state or follows an arrow of the diagram. -/
theorem Inv.step_follows (h : Inv cfg w L) (hstep : w.step cfg a = some w') :
    w.Follows a w'.sched := by
  cases World.steps_of_step hstep with
  | createTask _ task =>
      refine Scheduler.Shifts.schedule _ task fun frame s c htask hslot => ?_
      exact .acquire c (Scheduler.acquireSlot_spec hslot).2.1 (by simp [Action.adopts, htask]) hslot
  | poll _ andWait clock =>
      obtain ⟨wake, ⟨-, hpoll⟩ | ⟨-, -, hpoll⟩ | ⟨-, -, hpoll⟩⟩ := w.poll_cases andWait clock <;>
        rw [hpoll]
      · exact Scheduler.Shifts.refl _
      · exact Scheduler.Shifts.record _ _
      · exact Scheduler.Shifts.of_slots rfl
  | eventSet _ e => exact h.core.follows_wakeAll e
  | trySend _ q v =>
      rw [World.afterSend_sched]
      exact h.core.follows_doSend q (cfg.capacity q) (w.queue q) (some v) none
        (fun hb hs => ⟨_, hb, hs⟩) rfl fun _ => rfl
  | tryReceive _ q =>
      change w.Follows _ ((w.queue q).tryReceive (cfg.capacity q) w.sched).2.1
      unfold Queue.tryReceive
      split
      · exact Scheduler.Shifts.refl _
      · exact h.core.follows_admitOldestSender q _ _ (fun hb hs => ⟨_, hb, hs⟩) rfl rfl
  | coAwait s left awaitable hcontrol hflag =>
      have hcurrent : w.sched.current = some s := by
        rw [h.staged.current, hcontrol]
        rfl
      refine World.follows_afterAwait (h.follows_coAwait _ hflag) fun hsuspend => ?_
      by_cases hknown : awaitable = .unknown
      · right
        rw [hknown, h.running_current hcurrent]
        exact .unknown
      · -- an awaitable of the library has taken the slot out of `running`
        have hs : L.place s = .running := (h.staged.running s).mpr (by rw [hcontrol]; rfl)
        exact Or.inl ((h.core.coAwait hcurrent hs awaitable hflag hknown).not_running hsuspend)
  | flagPark s f left hcontrol =>
      have hcurrent : w.sched.current = some s := by
        rw [h.staged.current, hcontrol]
        rfl
      rw [h.flagPark_eq hcontrol]
      split_ifs
      · refine World.follows_afterAwait (Scheduler.Shifts.setState _ s ?_) fun _ => Or.inl (by simp)
        rw [h.running_current hcurrent]
        exact .park rfl
      · exact World.follows_afterAwait (Scheduler.Shifts.record _ _) fun hsuspend => by cases hsuspend
  | finish => exact Scheduler.Shifts.of_slots rfl
  | destroyed s left hcontrol =>
      -- the slot of the task is emptied, then its parent is woken
      refine Scheduler.Shifts.afterDestroy _ s ?_ fun p hparent hp => ?_
      · have hs : L.place s = .running := (h.staged.running s).mpr (by rw [hcontrol]; rfl)
        rw [h.core.sound.threaded.state, hs]
        exact .complete hcontrol
      · rw [hp]
        exact .childCompleted hcontrol hparent
  | walkStep prev f hcontrol =>
      change w.Follows _ (w.flags.walkStep w.sched prev f).2.2.1
      unfold Flags.walkStep
      dsimp only
      split_ifs with hsignal
      · -- only a waiter of the flag that the walk is at
        refine Scheduler.Shifts.wakeSlot _ fun s hs => ?_
        rw [h.core.waitingLocal ((h.core.armed.waiter _ s).mp hs)]
        exact .wake ⟨prev, f, hcontrol, hsignal.1, hs⟩
      · exact Scheduler.Shifts.refl _
  | startPass hcontrol =>
      intro s
      obtain ⟨-, hslots⟩ := h.startPass_slots hstep s
      rw [hslots]
      split_ifs with hdue
      · right
        simp only [Scheduler.isDue, Bool.and_eq_true, decide_eq_true_eq] at hdue
        change Arrow w s (w.sched.slots s).state _ .ready
        rw [hdue.1]
        exact .due hdue.2
      · exact Or.inl rfl
  | passPop left w' hcontrol hpops =>
      -- what is popped is the head of the FIFO of the layout, hence the one of the links
      obtain ⟨s, rest, hready, rfl, -⟩ := h.pops hcontrol hpops
      rw [World.resume_sched]
      refine Scheduler.Shifts.pop _ s ?_
      have hthreaded := h.core.sound.threaded
      have hs : L.place s = .ready := (hthreaded.mem_ready s).mp (by simp [hready])
      have hlinked := hthreaded.ready.linked
      rw [hready] at hlinked
      rw [hthreaded.state, hs]
      exact .resume hlinked.1
  | endPass _ clock =>
      rcases w.endPass_cases clock with hend | ⟨timeout, hend⟩ <;> rw [hend] <;>
        exact Scheduler.Shifts.of_slots rfl
  | _ => exact Scheduler.Shifts.refl _

/-- A slot that waits for a timer did so before the step, or its body has just awaited a delay. -/
theorem Inv.step_asleep (h : Inv cfg w L) (hstep : w.step cfg a = some w')
    (ht : (w'.sched.slots t).state = .waitingTimer) : (w.sched.slots t).state = .waitingTimer ∨
      ∃ left d, a = .coAwait (.delay d) ∧ w.control = .body t left := by
  rcases h.step_follows hstep t with hsame | harrow
  · exact Or.inl (hsame.symm.trans ht)
  · right
    rw [ht] at harrow
    generalize hrunning : (w.sched.slots t).state = x at harrow
    cases harrow with
    | delay =>
        cases World.steps_of_step hstep with
        | coAwait s left _ hcontrol =>
            rw [h.core.sound.threaded.state] at hrunning
            have hs := (h.staged.running t).mp (Place.eq_running_of_state hrunning)
            rw [hcontrol] at hs
            cases hs
            exact ⟨left, _, rfl, hcontrol⟩

end SimpleAwait
