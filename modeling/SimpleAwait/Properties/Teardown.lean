import SimpleAwait.Properties.Consistency
import SimpleAwait.Teardown.Invariant

/-!
# The scheduler is torn down once

Whatever the destructors do, `~Scheduler` destroys the frame of every slot once and in the order
of the slots, and while it does so no coroutine is resumed and no frame is adopted.
-/

namespace SimpleAwait

variable {N : ℕ} {T : Type} {cfg : Config N} {w : World N T} {t : Teardown N T}

namespace Teardown

variable {visited : List (Fin N)}

/-- During the teardown a call of `create_task` leaves the passed `Task` as it was. -/
theorem Inv.refuses (h : Inv w t visited) (task : Handle) :
    t.world.sched.schedule task = ⟨none, task, t.world.sched⟩ := by
  simp [Scheduler.schedule, h.shuttingDown]

/-- Nothing was resumed or acquired. -/
theorem Inv.quiet (h : Inv w t visited) : ∃ obs, t.world.sched.trace = w.sched.trace ++ obs ∧
    resumedTasks obs = [] ∧ ∀ s g, Obs.acquired s g ∉ obs := by
  obtain ⟨obs, htrace, hobs⟩ := h.trace
  refine ⟨obs, htrace, ?_, fun s g hmem => ?_⟩
  · refine List.filterMap_eq_nil_iff.mpr fun o ho => ?_
    rcases hobs o ho with hharmless | ⟨frame, rfl⟩
    · cases o <;> simp_all [Obs.Harmless]
    · rfl
  · rcases hobs _ hmem with hharmless | ⟨frame, he⟩
    · exact hharmless
    · cases he

/-- The loop goes on as soon as the destructors have returned. -/
theorem Inv.progress (h : Inv w t visited) :
    (t.dying ≠ [] → (t.step cfg .returned).isSome) ∧
      ∀ s left, t.left = s :: left → t.dying = [] →
        ∃ t', t.step cfg .next = some t' ∧ t'.left = left ∧
          t'.dying = ((w.sched.slots s).handle.map (Dying.slot s)).toList := by
  refine ⟨fun hdying => by simp [Teardown.step, Teardown.run, hdying], fun s left hleft hdying => ?_⟩
  obtain ⟨hhandle, hstate⟩ := h.kept s (by simp [hleft])
  cases howned : (w.sched.slots s).handle with
  | none =>
      have hnone : t.world.sched.ownedFrame s = none := by
        simp [Scheduler.ownedFrame, hhandle, howned]
      exact ⟨{ t with left := left }, by simp [Teardown.step, hleft, hdying, hnone], rfl,
        by simp [hdying]⟩
  | some frame =>
      have hne := hstate (by simp [howned])
      have hsome : t.world.sched.ownedFrame s = some frame := by
        rw [Scheduler.ownedFrame, if_neg hne, hhandle, howned]
      exact ⟨_, by simp [Teardown.step, hleft, hdying, hsome]; rfl, rfl, rfl⟩

end Teardown

/-- The loop has destroyed the frames of the slots it has visited, once each; those slots are
detached, the others as they were.  Nothing was resumed or acquired, no pass has begun, and
`create_task` refuses.  The loop goes on whenever the destructors have returned, and only it destroys
the frame of a slot. -/
theorem teardown_destroys_once (hw : w.Reachable cfg) (hloop : w.control = .loop)
    (ht : Teardown.Reachable cfg w t) :
    (∃ visited, List.finRange N = visited ++ t.left ∧
        t.torn = visited.filterMap (fun s => (w.sched.slots s).handle.map fun frame => (s, frame)) ∧
        (∀ s ∈ visited, (t.world.sched.slots s).handle = none) ∧
        (∀ s ∈ t.left, (t.world.sched.slots s).handle = (w.sched.slots s).handle)) ∧
      (∀ s frame, .slot s frame ∈ t.dying → (t.world.sched.slots s).handle = none) ∧
      (∃ obs, t.world.sched.trace = w.sched.trace ++ obs ∧ resumedTasks obs = [] ∧
        ∀ s g, Obs.acquired s g ∉ obs) ∧
      t.world.control = .loop ∧
      (∀ task, t.world.sched.schedule task = ⟨none, task, t.world.sched⟩) ∧
      (∀ a t', t.step cfg a = some t' → ∃ freed, Teardown.Destroys a t t' freed) ∧
      (t.dying ≠ [] → (t.step cfg .returned).isSome) ∧
      ∀ s left, t.left = s :: left → t.dying = [] →
        ∃ t', t.step cfg .next = some t' ∧ t'.left = left ∧
          t'.dying = ((w.sched.slots s).handle.map (Dying.slot s)).toList := by
  obtain ⟨visited, hinv⟩ := Teardown.Reachable.inv hw hloop ht
  exact ⟨⟨visited, hinv.order, hinv.torn, hinv.detached, fun s hs => (hinv.kept s hs).1⟩,
    fun s frame hdying => hinv.detached s (hinv.dying s frame hdying), hinv.quiet, hinv.control,
    hinv.refuses, fun a t' hstep => hinv.step_destroys hstep, hinv.progress⟩

/-- One task waits for an event and another is ready.  A destructor of the first frame sets the
event, polls and creates a task, and destroys another `Task`. -/
theorem teardown_destroys_once_small :
    let w : World 3 ℕ := .after .small [.createTask (some 1), .poll false 0, .checkPending,
      .startPass, .passPop, .coAwait (.event 0), .endPass 0, .createTask (some 2)]
    let run := Transition.run (Teardown.step .small) (.start w) [.next, .act (.eventSet 0),
      .act (.poll true 5), .act (.createTask (some 7)), .destroyTask (some 7), .returned, .returned,
      .next, .returned, .next]
    (run.map fun t => (t.left, t.dying, t.torn)) = some ([], [], [(0, 1), (1, 2)]) ∧
      ∀ t, run = some t → (∀ s frame, .slot s frame ∈ t.dying → (t.world.sched.slots s).handle = none) ∧
        ∀ task, t.world.sched.schedule task = ⟨none, task, t.world.sched⟩ := by
  intro w run
  refine ⟨by decide, fun t hrun => ?_⟩
  have hw : w.Reachable .small := .after _ (by decide)
  obtain ⟨-, hdying, -, -, hrefuses, -⟩ := teardown_destroys_once hw (by decide) ⟨_, hrun⟩
  exact ⟨hdying, hrefuses⟩

end SimpleAwait
