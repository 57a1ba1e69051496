import SimpleAwait.Properties.Teardown
import SimpleAwait.System.EventWaiters
import SimpleAwait.System.Trace

/-!
# Rejected operations

`create_task`, `poll` and a child await, where they are rejected, and when there is no slot.
-/

namespace SimpleAwait

variable {N : ℕ} {T : Type} {cfg : Config N} {w w' : World N T} {L : Layout N} {s : Fin N}
  {left : ℕ}

namespace Scheduler

variable {c : Scheduler N}

/-- A slot that `acquire_slot` can take. -/
def Acquirable (c : Scheduler N) (s : Fin N) : Prop :=
  ((c.slots s).state = .free ∨ (c.slots s).state = .completed) ∧
    (c.slots s).generation ≠ maxGeneration

instance (c : Scheduler N) : DecidablePred c.Acquirable :=
  fun _ => inferInstanceAs (Decidable (_ ∧ _))

theorem findSlot_eq_none {state : State} : c.findSlot state = none ↔
    ∀ s, (c.slots s).state = state → (c.slots s).generation = maxGeneration := by
  simp [findSlot]

/-- `acquire_slot` fails exactly if it can take no slot. -/
theorem acquireSlot_eq_none : c.acquireSlot = none ↔ ∀ s, ¬ c.Acquirable s := by
  have hboth : c.acquireSlot = none ↔ c.findSlot .free = none ∧ c.findSlot .completed = none := by
    unfold acquireSlot
    cases c.findSlot .free <;> cases c.findSlot .completed <;> simp
  rw [hboth, findSlot_eq_none, findSlot_eq_none]
  constructor
  · rintro ⟨hfree, hcompleted⟩ s ⟨hstate | hstate, hgeneration⟩
    · exact hgeneration (hfree s hstate)
    · exact hgeneration (hcompleted s hstate)
  · intro h
    refine ⟨fun s hstate => ?_, fun s hstate => ?_⟩
    · by_contra hgeneration
      exact h s ⟨Or.inl hstate, hgeneration⟩
    · by_contra hgeneration
      exact h s ⟨Or.inr hstate, hgeneration⟩

/-- Why `schedule` rejects a task. -/
theorem schedule_rejects (hdown : c.shuttingDown = false) {task : Handle}
    (h : task = none ∨ ∀ s, ¬ c.Acquirable s) : c.schedule task =
      ⟨none, task, c.report (if task = none then .invalidTask else .taskLimit)⟩ := by
  unfold schedule
  rw [hdown]
  cases task with
  | none => rfl
  | some frame =>
      have hfull : c.acquireSlot = none :=
        acquireSlot_eq_none.mpr (h.resolve_left (by simp))
      rw [hfull]
      rfl

/-- Outside the teardown a frame is rejected exactly if there is no slot for it. -/
theorem schedule_rejected_iff (hdown : c.shuttingDown = false) (frame : Frame) :
    (c.schedule (some frame)).handle = none ↔ ∀ s, ¬ c.Acquirable s := by
  rw [← acquireSlot_eq_none]
  unfold schedule
  rw [hdown]
  cases c.acquireSlot <;> simp

end Scheduler

/-- While no slot is retired, one can be taken exactly if not all hold tasks. -/
theorem World.exists_acquirable_iff (hw : w.Consistent)
    (hretired : ∀ s, ¬ w.Active s → (w.sched.slots s).generation ≠ maxGeneration) :
    (∃ s, w.sched.Acquirable s) ↔ w.sched.activeCount < N := by
  have hfull : w.sched.activeCount = N ↔ ∀ s, w.Active s := by
    have hall := Finset.card_filter_eq_iff (s := (Finset.univ : Finset (Fin N))) (p := w.Active)
    rw [Finset.card_univ, Fintype.card_fin] at hall
    rw [hw.active, hall]
    simp
  have hle : w.sched.activeCount ≤ N := by
    have hcard := Finset.card_filter_le (Finset.univ : Finset (Fin N)) w.Active
    rwa [Finset.card_univ, Fintype.card_fin, ← hw.active] at hcard
  have hvacant : ∀ s, w.sched.Acquirable s ↔ ¬ w.Active s := by
    intro s
    rw [World.Active, not_and_or, not_not, not_not]
    refine ⟨And.left, fun hs => ⟨hs, hretired s fun hactive => ?_⟩⟩
    exact hs.elim hactive.1 hactive.2
  calc (∃ s, w.sched.Acquirable s) ↔ ¬ ∀ s, w.Active s := by simp only [hvacant, not_forall]
    _ ↔ w.sched.activeCount ≠ N := not_congr hfull.symm
    _ ↔ w.sched.activeCount < N := ⟨fun hne => lt_of_le_of_ne hle hne, ne_of_lt⟩

/-! ## `poll` during a pass -/

/-- What a rejected `poll()` or `poll_and_wait()` leaves: the error is reported, and
`poll_and_wait()` has prepared its semaphore. -/
def World.reentered (w : World N T) (andWait : Bool) : World N T :=
  { w with
    sched := w.sched.report .schedulerReentry
    wake := if andWait then platformPrepareSchedulerWait w.wake else w.wake }

theorem World.poll_reentry (hin : w.sched.inPoll = true) (hdown : w.sched.shuttingDown = false)
    (andWait : Bool) (clock : Tick) : w.poll andWait clock = w.reentered andWait := by
  unfold World.poll World.reentered
  cases andWait <;> simp [hin, hdown]

/-! ## A child without a slot -/

/-- From `w` to `w'` the child of the running task `s` is destroyed, and the task goes to the end of
the ready FIFO. -/
structure World.RejectsChild (w w' : World N T) (s : Fin N) (left : ℕ) (child : Handle) : Prop where
  trace : w'.sched.trace = w.sched.trace ++
    [.destroyed child, .enqueued s (w.sched.slots s).generation, .error .taskLimit]
  ready : w'.sched.readyTasks = w.sched.readyTasks ++ [w.sched.taskIn s]
  waiters : w'.waiters = w.waiters
  slots : ∀ t, w'.sched.slots t = { w.sched.slots t with
    next := w'.sched.next t
    state := if t = s then .ready else (w.sched.slots t).state }
  counters : w'.sched.activeCount = w.sched.activeCount ∧
    w'.sched.nearestDeadline = w.sched.nearestDeadline ∧ w'.sched.now = w.sched.now
  flow : w'.control = .pass left ∧ w'.sched.current = none ∧ w'.sched.inPoll = w.sched.inPoll
  others : w'.event = w.event ∧ w'.queue = w.queue ∧ w'.flags = w.flags ∧ w'.wake = w.wake ∧
    w'.giving = w.giving ∧ w'.receiving = w.receiving

theorem Inv.rejectsChild (h : Inv cfg w L) (hcontrol : w.control = .body s left) (frame : Frame)
    (hfull : ∀ t, ¬ w.sched.Acquirable t) :
    ∃ w', w.step cfg (.coAwait (.task (.ofTask (some frame)))) = some w' ∧
      w.RejectsChild w' s left (some frame) := by
  have hcurrent : w.sched.current = some s := by rw [h.staged.current, hcontrol]; rfl
  have hrunning : L.place s = .running := (h.staged.running s).mpr (by rw [hcontrol]; rfl)
  have hchecked := h.core.sound.isRunning hcurrent hrunning
  have hnone := Scheduler.acquireSlot_eq_none.mpr hfull
  -- the scheduler after the await, and after `resume()` has returned
  have hawait : w.coAwait cfg (w.sched.slots s).handle (.task (.ofTask (some frame))) =
      (true, { w with sched := (((w.sched.record (.destroyed (some frame))).setState s
        .ready).readyPush s).report .taskLimit }) := by
    simp [World.coAwait, TaskAwaiter.ofTask, Scheduler.startChildAwait, hcurrent, hchecked, hnone]
  generalize hc : (((w.sched.record (.destroyed (some frame))).setState s .ready).readyPush
    s).report .taskLimit = c at hawait
  have hsuspend : c.afterSuspend s = { c with current := none } := by
    simp [← hc, Scheduler.afterSuspend, Scheduler.report]
  have hthreaded : Threaded c (fun e => (w.event e).waiters) (L.toView.enqueue s) := by
    rw [← hc]
    exact (((h.core.sound.destroyed (some frame)).enqueue
      (hrunning ▸ Place.plain_running)).report .taskLimit).threaded
  have htask : c.taskIn = w.sched.taskIn := by
    funext t
    simp [← hc, Scheduler.taskIn, Scheduler.report]
  refine ⟨{ w with sched := { c with current := none }, control := .pass left }, ?_, ?_⟩
  · rw [World.step]
    simp only [hcontrol, hawait, World.afterAwait, if_true, World.suspend, hsuspend]
  · exact {
      trace := by simp [← hc, Scheduler.report]
      ready := by
        show c.readyTasks = _
        rw [hthreaded.readyTasks_eq, h.core.sound.threaded.readyTasks_eq, View.enqueue_ready,
          List.map_append, htask]
        rfl
      waiters := by
        rw [h.waiters_eq]
        exact funext hthreaded.follow_waiters
      slots := fun t => by
        show c.slots t = _
        rw [← hc]
        by_cases hts : t = s <;> simp [Scheduler.report, Scheduler.next, hts]
      counters := by simp [← hc, Scheduler.report]
      flow := by simp [← hc, Scheduler.report]
      others := ⟨rfl, rfl, rfl, rfl, rfl, rfl⟩ }

/-- The running task's child is destroyed exactly if there is no slot for it. -/
theorem Inv.child_destroyed_iff (h : Inv cfg w L) (hcontrol : w.control = .body s left)
    (child : Handle) : (w.sched.startChildAwait child (w.sched.slots s).handle).destroyed = true ↔
      ∀ t, ¬ w.sched.Acquirable t := by
  have hcurrent : w.sched.current = some s := by rw [h.staged.current, hcontrol]; rfl
  have hrunning : L.place s = .running := (h.staged.running s).mpr (by rw [hcontrol]; rfl)
  have hchecked := h.core.sound.isRunning hcurrent hrunning
  rw [← Scheduler.acquireSlot_eq_none]
  simp only [Scheduler.startChildAwait, hcurrent, hchecked, if_true]
  cases w.sched.acquireSlot <;> simp

/-! ## All together -/

/-- Where `create_task`, `poll` or a child await is rejected, the error is reported and nothing
changes, besides that `poll_and_wait()` has prepared its semaphore, and that a rejected child is
destroyed and its parent goes to the end of the ready FIFO.  There is no slot exactly if each holds a
task or is exhausted. -/
theorem rejections_intact (hw : w.Reachable cfg) :
    (∀ task, (task = none ∨ ∀ s, ¬ w.sched.Acquirable s) → w.sched.schedule task =
      ⟨none, task, w.sched.report (if task = none then .invalidTask else .taskLimit)⟩) ∧
    (w.control = .loop → ∀ t, Teardown.Reachable cfg w t →
      ∀ task, t.world.sched.schedule task = ⟨none, task, t.world.sched⟩) ∧
    (∀ s left, w.control = .body s left ∨ w.control = .release s left →
      ∀ andWait clock, w.step cfg (.poll andWait clock) = some (w.reentered andWait)) ∧
    (∀ s left, w.control = .body s left → (∀ t, ¬ w.sched.Acquirable t) →
      ∀ frame, ∃ w', w.step cfg (.coAwait (.task (.ofTask (some frame)))) = some w' ∧
        w.RejectsChild w' s left (some frame)) ∧
    (∀ frame, (w.sched.schedule (some frame)).handle = none ↔ ∀ s, ¬ w.sched.Acquirable s) ∧
    (∀ s left, w.control = .body s left → ∀ child,
      (w.sched.startChildAwait child (w.sched.slots s).handle).destroyed = true ↔
        ∀ t, ¬ w.sched.Acquirable t) ∧
    ((∀ s, ¬ w.Active s → (w.sched.slots s).generation ≠ maxGeneration) →
      ∀ frame, (w.sched.schedule (some frame)).handle ≠ none ↔ w.sched.activeCount < N) := by
  obtain ⟨L, hinv⟩ := hw.inv
  have hdown := hinv.staged.shuttingDown
  refine ⟨fun task => Scheduler.schedule_rejects hdown, fun hloop t ht => ?_, ?_,
    fun s left hcontrol hfull frame => hinv.rejectsChild hcontrol frame hfull,
    Scheduler.schedule_rejected_iff hdown,
    fun s left hcontrol child => hinv.child_destroyed_iff hcontrol child, fun hretired frame => ?_⟩
  · obtain ⟨visited, hteardown⟩ := Teardown.Reachable.inv hw hloop ht
    exact hteardown.refuses
  · intro s left hcontrol andWait clock
    have hin : w.sched.inPoll = true := by
      rw [hinv.staged.inPoll]
      rcases hcontrol with hctl | hctl <;> rw [hctl] <;> rfl
    have huser : w.control.isUser = true := by
      rcases hcontrol with hctl | hctl <;> rw [hctl] <;> rfl
    rw [World.step, World.user, if_pos huser, World.poll_reentry hin hdown]
  · rw [Ne, Scheduler.schedule_rejected_iff hdown, not_forall_not]
    exact World.exists_acquirable_iff (reachable_consistent hw) hretired

/-- Three tasks hold all slots.  The first of them polls, creates a task and awaits a child. -/
theorem rejections_intact_small :
    let created : List (Action ℕ) :=
      [.createTask (some 1), .createTask (some 2), .createTask (some 3)]
    let u : World 3 ℕ := .after .small created
    let w : World 3 ℕ := .after .small
      (created ++ [.poll false 0, .checkPending, .startPass, .passPop])
    (Teardown.start u).world.sched.schedule (some 9) =
        ⟨none, some 9, (Teardown.start u).world.sched⟩ ∧
      w.sched.schedule none = ⟨none, none, w.sched.report .invalidTask⟩ ∧
      w.sched.schedule (some 9) = ⟨none, some 9, w.sched.report .taskLimit⟩ ∧
      w.step .small (.poll true 7) = some (w.reentered true) ∧
      (∃ w', w.step .small (.coAwait (.task (.ofTask (some 9)))) = some w' ∧
        w.RejectsChild w' 0 2 (some 9)) ∧
      ¬ w.sched.activeCount < 3 := by
  intro created u w
  obtain ⟨-, hteardown, -⟩ := rejections_intact (.after .small (by decide) : u.Reachable .small)
  obtain ⟨hcreate, -, hpoll, hchild, hlimit, -, hfew⟩ :=
    rejections_intact (.after .small (by decide) : w.Reachable .small)
  have hcontrol : w.control = .body 0 2 := by decide
  have hfull : ∀ s, ¬ w.sched.Acquirable s := by decide
  refine ⟨hteardown (by decide) _ Transition.Reachable.refl _, hcreate none (Or.inl rfl),
    hcreate (some 9) (Or.inr hfull), hpoll 0 2 (Or.inl hcontrol) true 7, hchild 0 2 hcontrol hfull 9,
    fun hless => ?_⟩
  exact (hfew (by decide) 9).mpr hless ((hlimit 9).mpr hfull)

/-- In a pass of `poll()`, a task calls `poll_and_wait()`: it is rejected, and the semaphore that was
not there has been created. -/
theorem rejected_wait_prepares :
    let w : World 3 ℕ := .after .small
      [.createTask (some 1), .poll false 0, .checkPending, .startPass, .passPop]
    w.Reachable .small ∧ w.control = .body 0 0 ∧ w.wake = none ∧
      (w.step .small (.poll true 7)).map World.wake = some (some false) ∧
      w.step .small (.poll true 7) ≠ some { w with sched := w.sched.report .schedulerReentry } := by
  intro w
  have hprepared : (w.step .small (.poll true 7)).map World.wake = some (some false) := by decide
  have hreachable : w.Reachable .small := .after .small (by decide)
  refine ⟨hreachable, by decide, by decide, hprepared, fun hsame => ?_⟩
  rw [hsame] at hprepared
  have hnone : w.wake = none := by decide
  simp [hnone] at hprepared

end SimpleAwait
