import SimpleAwait.System.Invariant

/-!
# Calls keep the invariant

What user code calls outside of awaits, and what the external contexts and FreeRTOS do.
-/

namespace SimpleAwait

variable {N : ℕ} {T : Type} {cfg : Config N} {w w' : World N T} {L L' : Layout N} {s : Fin N}
  {left : ℕ}

/-- `Event::set` moves the waiters, in order, to the ready FIFO. -/
theorem Core.signal_sound (h : Core cfg w L) (e : ℕ) : Sound ((w.event e).signal w.sched).1
    (fun k => ((w.setEvent e ((w.event e).signal w.sched).2).event k).waiters)
    ((L.toView.setWaiters e []).enqueueAll (L.waiters e)) := by
  have hsound := h.sound.wakeAll e
  have hwaiters : Function.update (fun k => (w.event k).waiters) e
      (w.sched.wakeAll (w.event e).waiters).2 =
      fun k => ((w.setEvent e ((w.event e).signal w.sched).2).event k).waiters := by
    funext k
    by_cases hk : k = e
    · subst hk
      simp [World.setEvent, Event.signal]
    · simp [World.setEvent, hk]
  rwa [hwaiters] at hsound

namespace Inv

/-! ## Calls of user code -/

section Calls

variable (h : Inv cfg w L) (hu : w.control.isUser = true)

include h hu

theorem createTask (task : Handle) :
    ∃ L', Inv cfg { w with sched := (w.sched.schedule task).sched } L' := by
  have hcalls : w.Calls { w with sched := (w.sched.schedule task).sched } :=
    ⟨rfl, rfl, rfl, rfl, rfl, Scheduler.Calm.schedule _ _⟩
  rcases h.core.sound.schedule task with hsound | ⟨t, ht, hsound⟩
  · exact ⟨_, h.quiet hcalls (h.core.keeps hsound (Keeps.refl _) rfl rfl rfl rfl)
      (Layout.Quiet.refl L) (awake_of_isUser hu)⟩
  · have hplace : L.place t = .free ∨ L.place t = .completed := Place.not_active_iff.mp ht
    have hkeeps : Keeps L.place (L.toView.enqueue t).place := by
      refine Keeps.update ?_ (fun r _ => ?_) (by simp) <;>
        rcases hplace with hplace | hplace <;> simp [hplace]
    refine ⟨_, h.quiet hcalls (h.core.keeps hsound hkeeps rfl rfl rfl rfl) ?_ (awake_of_isUser hu)⟩
    refine Layout.Quiet.enqueue (t := t) ?_ rfl rfl rfl rfl
    rcases hplace with hplace | hplace <;> simp [hplace]

theorem eventSet (e : ℕ) : ∃ L', Inv cfg { w.setEvent e ((w.event e).signal w.sched).2 with
    sched := ((w.event e).signal w.sched).1 } L' := by
  have hsound := h.core.signal_sound e
  have hparked : ∀ t ∈ L.waiters e, L.place t = .parked (.event e) := fun t ht =>
    (h.core.sound.threaded.mem_waiters e t).mp ht
  have hkeeps : Keeps L.place ((L.toView.setWaiters e []).enqueueAll (L.waiters e)).place := by
    constructor
    · intro t ht
      simp only [View.enqueueAll_place]
      split_ifs
      · rfl
      · exact ht
    · intro t r hr
      simp only [View.enqueueAll_place]
      split_ifs with ht
      · simp [hparked t ht, Ne.symm (hr e)]
      · rfl
  have hcalls : w.Calls { w.setEvent e ((w.event e).signal w.sched).2 with
      sched := ((w.event e).signal w.sched).1 } :=
    ⟨rfl, rfl, rfl, rfl, rfl, Scheduler.Calm.wakeAll _ _⟩
  refine ⟨_, h.quiet hcalls (h.core.keeps hsound hkeeps rfl rfl rfl rfl) ⟨fun t => ?_, ?_, rfl, rfl⟩
    (awake_of_isUser hu)⟩
  · simp only [View.enqueueAll_place]
    split_ifs with ht
    · simp [hparked t ht]
    · rfl
  · simp [View.setWaiters]

theorem eventClear (e : ℕ) : Inv cfg (w.setEvent e (w.event e).clear) L := by
  have hwaiters : (fun k => ((w.setEvent e (w.event e).clear).event k).waiters) =
      fun k => (w.event k).waiters := by
    funext k
    by_cases hk : k = e
    · subst hk
      simp [World.setEvent, Event.clear]
    · simp [World.setEvent, hk]
  refine h.quiet ⟨rfl, rfl, rfl, rfl, rfl, Scheduler.Calm.refl _⟩ ?_ (Layout.Quiet.refl L)
    (awake_of_isUser hu)
  exact h.core.keeps (v := L.toView) (by rw [hwaiters]; exact h.core.sound) (Keeps.refl _) rfl rfl
    rfl rfl

theorem trySend (q : ℕ) (v : T) : ∃ L', Inv cfg
    (if ((w.queue q).trySend (cfg.capacity q) w.sched v).1 then
      (w.withQueue q ((w.queue q).trySend (cfg.capacity q) w.sched v).2.1
        ((w.queue q).trySend (cfg.capacity q) w.sched v).2.2).recordSent q v
    else w.withQueue q ((w.queue q).trySend (cfg.capacity q) w.sched v).2.1
        ((w.queue q).trySend (cfg.capacity q) w.sched v).2.2) L' := by
  obtain ⟨sent, c, q', hsend, L', hquiet, hcore⟩ := h.core.trySend q v
  have hcalm := Scheduler.Calm.doSend w.sched (w.queue q) (cfg.capacity q) (some v) none
  have hdo : (w.queue q).doSend (cfg.capacity q) w.sched (some v) none = (sent, c, q') := hsend
  rw [hdo] at hcalm
  rw [hsend]
  refine ⟨L', h.quiet ?_ hcore hquiet (awake_of_isUser hu)⟩
  cases sent <;> exact ⟨rfl, rfl, rfl, rfl, rfl, hcalm⟩

theorem tryReceive (q : ℕ) : ∃ L', Inv cfg
    (w.withQueue q ((w.queue q).tryReceive (cfg.capacity q) w.sched).2.1
      ((w.queue q).tryReceive (cfg.capacity q) w.sched).2.2) L' := by
  obtain ⟨out, c, q', hreceive, L', hquiet, hcore⟩ := h.core.tryReceive q
  have hcalm : w.sched.Calm ((w.queue q).tryReceive (cfg.capacity q) w.sched).2.1 := by
    unfold Queue.tryReceive
    split
    · exact Scheduler.Calm.refl _
    · exact Scheduler.Calm.admitOldestSender _ _ _
  rw [hreceive] at hcalm ⊢
  exact ⟨L', h.quiet ⟨rfl, rfl, rfl, rfl, rfl, hcalm⟩ hcore hquiet (awake_of_isUser hu)⟩

/-- `poll()` and `poll_and_wait()` start a pass from the user loop, and are rejected from
within one. -/
theorem poll (andWait : Bool) (clock : Tick) : Inv cfg (w.poll andWait clock) L := by
  have hprepared : (platformPrepareSchedulerWait w.wake ≠ none) ∧
      (w.wake = some true → platformPrepareSchedulerWait w.wake = some true) := by
    cases hw : w.wake <;> simp [platformPrepareSchedulerWait]
  have hpolled : ∀ wake, (w.wake = some true → wake = some true) → (w.wake ≠ none → wake ≠ none) →
      Inv cfg { w with wake := wake, sched := w.sched.report .schedulerReentry } L := by
    intro wake htrue hsome
    exact {
      core := h.core.keeps (v := L.toView) (h.core.sound.report _) (Keeps.refl _) rfl rfl rfl rfl
      staged := ⟨h.staged.current, h.staged.running, h.staged.inPoll, h.staged.shuttingDown,
        h.staged.budget, h.staged.asleep⟩
      position := h.position
      signals := ⟨h.signals.heard, fun hand hctl f hf hsig =>
        (h.signals.told hand hctl f hf hsig).imp_right htrue,
        fun hand hctl => hsome (h.signals.wake hand hctl)⟩ }
  have hstarted : ∀ wake, (andWait = true → wake ≠ none) → w.control = .loop →
      Inv cfg { w with
        wake := wake, sched := { w.sched with inPoll := true, now := clock },
        control := .checkPending, andWait := andWait } L := by
    intro wake hwake hloop
    have hsound : Sound { w.sched with inPoll := true, now := clock }
        (fun e => (w.event e).waiters) L.toView :=
      h.core.sound.congr rfl rfl rfl rfl rfl rfl rfl rfl rfl
    have hposition := h.position
    have hrunning := h.staged.running
    have hcurrent := h.staged.current
    rw [hloop] at hposition hcurrent
    simp only [hloop, Control.running] at hrunning
    exact {
      core := h.core.keeps hsound (Keeps.refl _) rfl rfl rfl rfl
      staged := ⟨hcurrent, hrunning, rfl, h.staged.shuttingDown, Nat.zero_le _, by simp⟩
      position := hposition
      signals := {
        heard := fun f hf hsig => h.signals.heard f (by
          simpa [hloop, Control.suspendingOn] using hf) hsig
        told := by simp [Control.polled]
        wake := fun hand _ => hwake hand } }
  have hloop : w.sched.inPoll = false → w.control = .loop := by
    intro hpoll
    have hin := h.staged.inPoll
    rw [hpoll] at hin
    cases hctl : w.control <;> simp [hctl, Control.inPoll, Control.isUser] at hin hu ⊢
  unfold World.poll
  cases andWait with
  | false =>
      simp only [Bool.false_eq_true, if_false]
      rw [if_neg (by simp [h.staged.shuttingDown])]
      split
      · exact hpolled w.wake id id
      · rename_i hpoll
        exact hstarted w.wake (by simp) (hloop (by simpa using hpoll))
  | true =>
      simp only [if_true]
      rw [if_neg (by simp [h.staged.shuttingDown])]
      split
      · exact hpolled _ hprepared.2 fun _ => hprepared.1
      · rename_i hpoll
        exact hstarted _ (fun _ => hprepared.1) (hloop (by simpa using hpoll))

end Calls

theorem flagClear (h : Inv cfg w L) (f : ℕ) : Inv cfg { w with flags := w.flags.clear f } L where
  core := h.core.signal rfl rfl rfl rfl rfl rfl
    (fun k => by by_cases hk : k = f <;> simp [Flags.clear, hk])
    fun k => by by_cases hk : k = f <;> simp [Flags.clear, hk]
  staged := ⟨h.staged.current, h.staged.running, h.staged.inPoll, h.staged.shuttingDown,
    h.staged.budget, h.staged.asleep⟩
  position := h.position
  signals := h.signals.mono (fun k hk => by
      by_cases hkf : k = f
      · simp [Flags.clear, hkf] at hk
      · simpa [Flags.clear, hkf] using hk)
    rfl rfl rfl rfl (fun _ hk _ => hk) id id

/-! ## Steps of the environment -/

/-- The critical section of `set()`, in any context. -/
theorem setFlag (h : Inv cfg w L) (f : ℕ) :
    Inv cfg { w with
      flags := (w.flags.set f).2
      giving := if (w.flags.set f).1 then f :: w.giving else w.giving } L where
  core := h.core.signal rfl rfl rfl rfl rfl rfl
    (fun k => by by_cases hk : k = f <;> simp [Flags.set, hk])
    fun k => by by_cases hk : k = f <;> simp [Flags.set, hk]
  staged := ⟨h.staged.current, h.staged.running, h.staged.inPoll, h.staged.shuttingDown,
    h.staged.budget, h.staged.asleep⟩
  position := h.position
  signals := {
    heard := fun _ _ _ => rfl
    told := fun hand hctl k hk hsig => by
      by_cases hkf : k = f
      · subst hkf
        by_cases hold : (w.flags.flag k).signaled = true
        · refine (h.signals.told hand hctl k hk hold).imp_left fun hmem => ?_
          simpa [Flags.set, hold] using hmem
        · exact Or.inl (by simp [Flags.set, hold])
      · refine (h.signals.told hand hctl k hk (by simpa [Flags.set, hkf] using hsig)).imp_left
          fun hmem => ?_
        dsimp only
        split
        · exact List.mem_cons_of_mem _ hmem
        · exact hmem
    wake := h.signals.wake }

/-- The give of the semaphore after it. -/
theorem give (h : Inv cfg w L) (f : ℕ) :
    Inv cfg { w with wake := platformWakeScheduler w.wake, giving := w.giving.erase f } L where
  core := h.core.congr rfl rfl rfl rfl rfl rfl
  staged := ⟨h.staged.current, h.staged.running, h.staged.inPoll, h.staged.shuttingDown,
    h.staged.budget, h.staged.asleep⟩
  position := h.position
  signals := {
    heard := h.signals.heard
    told := fun hand hctl k hk hsig => by
      have hloop : w.control ≠ .loop := fun he => by simp [he, Control.polled] at hctl
      obtain ⟨token, htoken⟩ := Option.ne_none_iff_exists'.mp (h.signals.wake hand hloop)
      exact Or.inr (by simp [htoken, platformWakeScheduler])
    wake := fun hand hctl => by
      obtain ⟨token, htoken⟩ := Option.ne_none_iff_exists'.mp (h.signals.wake hand hctl)
      simp [htoken, platformWakeScheduler] }

/-- `xSemaphoreTake` returns to the user loop. -/
theorem wakeUp (h : Inv cfg w L) {now : Tick} {timeout : UInt32}
    (hcontrol : w.control = .take now timeout) (wake : Semaphore) :
    Inv cfg { w with wake := wake, control := .loop } L where
  core := h.core.congr rfl rfl rfl rfl rfl rfl
  staged := by
    have hcurrent := h.staged.current
    have hrunning := h.staged.running
    have hinPoll := h.staged.inPoll
    rw [hcontrol] at hcurrent hinPoll
    simp only [hcontrol, Control.running] at hrunning
    exact ⟨hcurrent, hrunning, hinPoll, h.staged.shuttingDown, Nat.zero_le _, by simp⟩
  position := by
    have := h.position
    rwa [hcontrol] at this
  signals := ⟨fun f hf hsig => h.signals.heard f (by
    simpa [hcontrol, Control.suspendingOn] using hf) hsig, by simp [Control.polled], by simp⟩

end Inv

end SimpleAwait
