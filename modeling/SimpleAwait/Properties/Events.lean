import SimpleAwait.Properties.Consistency
import SimpleAwait.System.EventWaiters
import SimpleAwait.System.Passes

/-!
# An event wakes the tasks that wait for it

While an event is clear its waiters queue up in the order of their waits, and nothing but
`Event::set` touches them.  It moves them all behind the budget of the pass in progress, so each is
resumed once, by the next pass to take its budget, whatever happens to the event in the meantime.
-/

namespace SimpleAwait

open Transition

variable {N : ℕ} {T : Type} {cfg : Config N} {w w' : World N T} {L : Layout N} {e : ℕ} {s : Fin N}
  {a : Action T}

/-! ## The waiters over a run -/

/-- Nobody waits for an event that is set. -/
theorem World.Reachable.waiters_eq_nil (hw : w.Reachable cfg) (hset : (w.event e).set = true) :
    w.waiters e = [] := by
  have hall : w.Reachable cfg ∧ ((w.event e).set = true → w.waiters e = []) := by
    refine Transition.Reachable.induction (P := fun u => World.Reachable cfg u ∧
      ((u.event e).set = true → u.waiters e = [])) hw ⟨.refl, by simp [World.initial]⟩ ?_
    intro u a u' hu hstep
    obtain ⟨L, hinv⟩ := hu.1.inv
    refine ⟨hu.1.succ hstep, fun hset' => ?_⟩
    cases hinv.step_event hstep e with
    | set _ hwaiters => exact hwaiters
    | clear hclear _ => simp [hclear] at hset'
    | park _ _ hclear _ => simp [hclear] at hset'
    | keep hkept hwaiters => rw [hwaiters, hu.2 (hkept ▸ hset')]
  exact hall.2 hset

/-- Without `set()`, an event keeps its waiters in their order and does not become set. -/
theorem Inv.step_keepsWaiters (h : Inv cfg w L) (hstep : w.step cfg a = some w')
    (ha : a ≠ .eventSet e) : w.waiters e <+: w'.waiters e ∧
      ((w'.event e).set = true → (w.event e).set = true) := by
  cases h.step_event hstep e with
  | set => exact absurd rfl ha
  | clear hclear hwaiters => exact ⟨by rw [hwaiters], by simp [hclear]⟩
  | park _ _ hclear hwaiters => exact ⟨by rw [hwaiters]; exact List.prefix_append _ _, by simp [hclear]⟩
  | keep hkept hwaiters => exact ⟨by rw [hwaiters], by simp [hkept]⟩

/-- A parked task stays the same, and is neither enqueued nor resumed. -/
theorem World.step_parked (hw : w.Reachable cfg) (hstep : w.step cfg a = some w')
    (ha : a ≠ .eventSet e) (hs : s ∈ w.waiters e) :
    w'.sched.taskIn s = w.sched.taskIn s ∧
      w'.resumptions (w.sched.taskIn s) = w.resumptions (w.sched.taskIn s) ∧
      w'.enqueues (w.sched.taskIn s) = w.enqueues (w.sched.taskIn s) := by
  have hw' : w'.Reachable cfg := hw.succ hstep
  obtain ⟨L, hinv⟩ := hw.inv
  obtain ⟨L', hinv'⟩ := hw'.inv
  have hs' : s ∈ w'.waiters e := (hinv.step_keepsWaiters hstep ha).1.subset hs
  have hstate : (w.sched.slots s).state = .waitingLocal := by
    rw [hinv.core.sound.threaded.state, hinv.mem_waiters.mp hs]
    rfl
  have hstate' : (w'.sched.slots s).state = .waitingLocal := by
    rw [hinv'.core.sound.threaded.state, hinv'.mem_waiters.mp hs']
    rfl
  have hoccupied : w.sched.Occupied s := by simp [Scheduler.Occupied, hstate]
  refine ⟨Prod.ext rfl ((hinv.step_advances hstep).tenant s hoccupied), ?_⟩
  exact World.step_unqueued hw hstep (by simp [Scheduler.taskIn, hstate])
    (by simp [Scheduler.taskIn, hstate'])

/-- Until `set()` is called, the waiters of an event stay parked in their order. -/
theorem World.run_parked {actions : List (Action T)} (hw : w.Reachable cfg)
    (hrun : run (World.step cfg) w actions = some w') (hactions : ∀ a ∈ actions, a ≠ .eventSet e) :
    w.waiters e <+: w'.waiters e ∧ ((w'.event e).set = true → (w.event e).set = true) ∧
      ∀ s ∈ w.waiters e, w'.sched.taskIn s = w.sched.taskIn s ∧
        w'.resumptions (w.sched.taskIn s) = w.resumptions (w.sched.taskIn s) ∧
        w'.enqueues (w.sched.taskIn s) = w.enqueues (w.sched.taskIn s) := by
  have hall : w'.Reachable cfg ∧ w.waiters e <+: w'.waiters e ∧
      ((w'.event e).set = true → (w.event e).set = true) ∧
      ∀ s ∈ w.waiters e, w'.sched.taskIn s = w.sched.taskIn s ∧
        w'.resumptions (w.sched.taskIn s) = w.resumptions (w.sched.taskIn s) ∧
        w'.enqueues (w.sched.taskIn s) = w.enqueues (w.sched.taskIn s) := by
    refine run_induction (P := fun u => u.Reachable cfg ∧ w.waiters e <+: u.waiters e ∧
      ((u.event e).set = true → (w.event e).set = true) ∧
      ∀ s ∈ w.waiters e, u.sched.taskIn s = w.sched.taskIn s ∧
        u.resumptions (w.sched.taskIn s) = w.resumptions (w.sched.taskIn s) ∧
        u.enqueues (w.sched.taskIn s) = w.enqueues (w.sched.taskIn s)) hrun
      ⟨hw, List.prefix_refl _, id, fun s _ => ⟨rfl, rfl, rfl⟩⟩ ?_
    intro u a u' ha hu hstep
    obtain ⟨hreach, hstays, hset, hsame⟩ := hu
    obtain ⟨L, hinv⟩ := hreach.inv
    obtain ⟨hstays', hset'⟩ := hinv.step_keepsWaiters hstep (hactions a ha)
    refine ⟨hreach.succ hstep, hstays.trans hstays', fun h => hset (hset' h), fun s hs => ?_⟩
    obtain ⟨htask, hresumed, henqueued⟩ := hsame s hs
    have hstep' := World.step_parked hreach hstep (hactions a ha) (hstays.subset hs)
    rw [htask] at hstep'
    exact ⟨hstep'.1, hstep'.2.1.trans hresumed, hstep'.2.2.trans henqueued⟩
  exact hall.2

/-! ## The wake -/

/-- The tasks that `set()` wakes are behind the budget of the pass in progress. -/
theorem World.behind_of_eventSet (hw : w.Reachable cfg)
    (hstep : w.step cfg (.eventSet e) = some w') (hs : s ∈ w.waiters e) :
    w'.Behind (w.sched.taskIn s) := by
  obtain ⟨L, hinv⟩ := hw.inv
  obtain ⟨-, hcontrol, -, -, hready⟩ := hinv.step_eventSet hstep
  obtain ⟨pre, post, hsplit⟩ := List.append_of_mem hs
  refine ⟨w.sched.readyTasks ++ pre.map w.sched.taskIn, post.map w.sched.taskIn, ?_, ?_⟩
  · rw [hready, hsplit]
    simp
  · have hbudget := hinv.staged.budget
    rw [hcontrol, List.length_append, hinv.core.sound.threaded.readyTasks_eq, List.length_map]
    omega

/-- Nobody waits for an event that is set.  A wait for a set event goes on at once; any other parks
the running task behind those that wait already, and leaves the waiters of other events alone.
`set()` moves exactly the waiters to the end of the ready FIFO, in the order of their waits, and
each is resumed exactly once, not before the next pass takes its budget, whatever else is called.
Without `set()` the waiters stay parked in their order, so a task that waits after `clear()` is
not resumed before another `set()`. -/
theorem event_exact (hw : w.Reachable cfg) (e : ℕ) :
    ((w.event e).set = true → w.waiters e = []) ∧
    (∀ s left w₁, w.control = .body s left → w.step cfg (.coAwait (.event e)) = some w₁ →
      (w.event e).set = true ∧ w₁ = w ∨
        (w.event e).set = false ∧ w₁.control = .pass left ∧
          w₁.waiters = Function.update w.waiters e (w.waiters e ++ [s])) ∧
    (∀ w₁, w.step cfg (.eventSet e) = some w₁ →
      w₁.waiters = Function.update w.waiters e [] ∧
        w₁.sched.readyTasks = w.sched.readyTasks ++ (w.waiters e).map w.sched.taskIn ∧
        ∀ s ∈ w.waiters e, w₁.ResumedOnce cfg (w.sched.taskIn s)) ∧
    (∀ a w₁, w.step cfg a = some w₁ → a ≠ .eventSet e → a ≠ .coAwait (.event e) →
      w₁.waiters e = w.waiters e) ∧
    (∀ actions w₁, run (World.step cfg) w actions = some w₁ → (∀ a ∈ actions, a ≠ .eventSet e) →
      w.waiters e <+: w₁.waiters e ∧
        ∀ s ∈ w.waiters e, w₁.sched.taskIn s = w.sched.taskIn s ∧
          w₁.resumptions (w.sched.taskIn s) = w.resumptions (w.sched.taskIn s) ∧
          w₁.enqueues (w.sched.taskIn s) = w.enqueues (w.sched.taskIn s)) ∧
    ∀ w₁ before w₂ s left w₃ after w₄, w.step cfg (.eventClear e) = some w₁ →
      run (World.step cfg) w₁ before = some w₂ → (∀ a ∈ before, a ≠ .eventSet e) →
      w₂.control = .body s left → w₂.step cfg (.coAwait (.event e)) = some w₃ →
      run (World.step cfg) w₃ after = some w₄ → (∀ a ∈ after, a ≠ .eventSet e) →
      w₃.control = .pass left ∧ s ∈ w₄.waiters e ∧
        w₄.sched.taskIn s = w₃.sched.taskIn s ∧
        w₄.resumptions (w₃.sched.taskIn s) = w₃.resumptions (w₃.sched.taskIn s) := by
  obtain ⟨L, hinv⟩ := hw.inv
  refine ⟨hw.waiters_eq_nil, fun s left w₁ hcontrol hstep => ?_, fun w₁ hstep => ?_,
    fun a w₁ hstep hset hwait => ?_, fun actions w₁ hrun hactions => ?_, ?_⟩
  · refine (hinv.step_wait hcontrol hstep).imp_right ?_
    rintro ⟨hclear, hpass, -, hwaiters⟩
    exact ⟨hclear, hpass, hwaiters⟩
  · obtain ⟨-, -, -, hwaiters, hready⟩ := hinv.step_eventSet hstep
    refine ⟨hwaiters, hready, fun s hs => ?_⟩
    exact (World.behind_of_eventSet hw hstep hs).resumedOnce (hw.succ hstep)
  · cases hinv.step_event hstep e with
    | set => exact absurd rfl hset
    | clear _ hwaiters => exact hwaiters
    | park => exact absurd rfl hwait
    | keep _ hwaiters => exact hwaiters
  · obtain ⟨hstays, -, hsame⟩ := World.run_parked hw hrun hactions
    exact ⟨hstays, hsame⟩
  · intro w₁ before w₂ s left w₃ after w₄ hclear hbefore hquiet hcontrol hwait hafter hquiet'
    have hw₁ : w₁.Reachable cfg := hw.succ hclear
    have hw₂ : w₂.Reachable cfg := hw₁.append hbefore
    have hw₃ : w₃.Reachable cfg := hw₂.succ hwait
    obtain ⟨-, hkept, -⟩ := World.run_parked hw₁ hbefore hquiet
    -- the event is still clear when the task waits
    have hset : (w₂.event e).set ≠ true := by
      intro hset
      have hcleared := hkept hset
      rw [(World.step_eventClear hclear).1 e] at hcleared
      simp at hcleared
    obtain ⟨L₂, hinv₂⟩ := hw₂.inv
    obtain ⟨-, hpass, -, hwaiters⟩ :=
      (hinv₂.step_wait hcontrol hwait).resolve_left fun h => hset h.1
    have hs : s ∈ w₃.waiters e := by simp [hwaiters]
    obtain ⟨hstays, -, hsame⟩ := World.run_parked hw₃ hafter hquiet'
    obtain ⟨htask, hresumed, -⟩ := hsame s hs
    exact ⟨hpass, hstays.subset hs, htask, hresumed⟩

/-- Two tasks wait for an event that a third one sets, clears and sets again: the third pass comes
to each of the two once. -/
theorem event_exact_small :
    let waiting : List (Action ℕ) := [.createTask (some 1), .createTask (some 2),
      .createTask (some 3), .poll false 0, .checkPending, .startPass, .passPop,
      .coAwait (.event 0), .passPop, .coAwait (.event 0), .passPop]
    let woken := waiting ++ [.eventSet 0]
    let started := (woken ++ [.eventClear 0, .eventSet 0, .finish, .destroyed, .endPass 0,
      .poll false 1, .checkPending]) ++ [.startPass]
    let passed := started ++ [.passPop, .coAwait .yield, .passPop, .finish, .destroyed, .endPass 1]
    (World.after .small waiting).waiters 0 = [0, 1] ∧
      (World.after .small woken).waiters 0 = [] ∧
      (World.after .small woken).sched.readyTasks = [(0, 1), (1, 1)] ∧
      (World.after .small woken).resumptions (0, 1) = 1 ∧
      (World.after .small passed).resumptions (0, 1) = 2 := by
  intro waiting woken started passed
  have hw : (World.after .small waiting).Reachable .small := .after .small (by decide)
  have hstep : (World.after .small waiting).step .small (.eventSet 0) =
      some (World.after .small woken) :=
    run_singleton.mp (World.run_after .small waiting [.eventSet 0] (by decide))
  obtain ⟨-, -, hset, -⟩ := event_exact hw 0
  obtain ⟨hwaiters, hready, honce⟩ := hset _ hstep
  obtain ⟨-, hpass⟩ := honce 0 (by decide) [.eventClear 0, .eventSet 0, .finish, .destroyed,
    .endPass 0, .poll false 1, .checkPending] _ (World.run_after .small woken _ (by decide))
    (by decide)
  have honce := hpass (World.after .small started) [.passPop, .coAwait .yield, .passPop, .finish,
    .destroyed] 1 (World.after .small passed)
    (run_singleton.mp (World.run_after .small _ [.startPass] (by decide)))
    (World.run_after .small started _ (by decide)) (by decide)
  refine ⟨by decide, ?_, hready.trans (by decide), by decide, honce.trans (by decide)⟩
  rw [hwaiters, Function.update_self]

end SimpleAwait
