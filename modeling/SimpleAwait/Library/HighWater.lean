import Mathlib.Data.List.Induction
import Mathlib.Order.Bounds.Basic
import SimpleAwait.Library.Transition

/-!
# High-water marks

A mark that each step raises to the level it leads to is the greatest of the levels of the states that
a run passes through.
-/

namespace Transition

universe u v

variable {State : Type u} {Action : Type v} {step : State → Action → Option State} {s t : State}
  {actions : List Action} {a : Action}

/-- The levels of the states that a run passes through. -/
def levels (step : State → Action → Option State) (level : State → ℕ) (s : State)
    (actions : List Action) : Set ℕ :=
  {n | ∃ before t, before <+: actions ∧ run step s before = some t ∧ n = level t}

theorem levels_nil (level : State → ℕ) : levels step level s [] = {level s} := by
  ext n
  constructor
  · rintro ⟨before, t, hbefore, hrun, rfl⟩
    rw [List.prefix_nil.mp hbefore] at hrun
    cases hrun
    rfl
  · rintro rfl
    exact ⟨[], s, List.prefix_refl _, rfl, rfl⟩

theorem levels_concat (level : State → ℕ) (hrun : run step s (actions ++ [a]) = some t) :
    levels step level s (actions ++ [a]) = insert (level t) (levels step level s actions) := by
  ext n
  constructor
  · rintro ⟨before, u, hbefore, hu, rfl⟩
    rcases List.prefix_concat_iff.mp hbefore with rfl | hbefore
    · rw [hrun] at hu
      cases hu
      exact Set.mem_insert ..
    · exact Set.mem_insert_of_mem _ ⟨before, u, hbefore, hu, rfl⟩
  · rintro (rfl | ⟨before, u, hbefore, hu, rfl⟩)
    · exact ⟨_, t, List.prefix_refl _, hrun, rfl⟩
    · exact ⟨before, u, hbefore.trans (List.prefix_append _ _), hu, rfl⟩

/-- A mark that starts at the level and is raised to it by every step is the high-water mark. -/
theorem isGreatest_levels {level mark : State → ℕ} {I : State → Prop} (hs : I s)
    (hinv : ∀ u a u', I u → step u a = some u' → I u') (hstart : mark s = level s)
    (hmark : ∀ u a u', I u → step u a = some u' → mark u' = max (mark u) (level u'))
    (hrun : run step s actions = some t) : IsGreatest (levels step level s actions) (mark t) := by
  induction actions using List.reverseRecOn generalizing t with
  | nil =>
      cases hrun
      rw [levels_nil, hstart]
      exact isGreatest_singleton
  | append_singleton actions a ih =>
      obtain ⟨u, hu, hstep⟩ := run_append.mp hrun
      rw [run_singleton] at hstep
      have hreached : I u := run_induction hu hs fun v b v' _ hv hstep => hinv v b v' hv hstep
      rw [levels_concat level hrun, hmark u a t hreached hstep, max_comm]
      exact (ih hu).insert (level t)

end Transition
