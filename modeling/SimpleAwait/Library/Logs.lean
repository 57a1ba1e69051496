import SimpleAwait.Library.Transition

/-!
# What the steps of a run write down

Each step of a run appends to a log.  What a step preserves of a state and the log so far holds of
the last state and the whole log.
-/

namespace Transition

universe u v t

variable {State : Type u} {Action : Type v} {β : Type t} {step : State → Action → Option State}
  {s s' : State} {a : Action} {actions : List Action}

/-- The log of a run: what `f` writes for each of its steps. -/
def written (step : State → Action → Option State) (f : State → Action → State → List β) :
    State → List Action → List β
  | _, [] => []
  | s, a :: actions =>
      match step s a with
      | none => []
      | some s' => f s a s' ++ written step f s' actions

variable {f : State → Action → State → List β}

theorem written_cons (hstep : step s a = some s') :
    written step f s (a :: actions) = f s a s' ++ written step f s' actions := by
  simp [written, hstep]

theorem Along.of_forall {p : State → Action → Prop} (h : ∀ s a, p s a) (s : State)
    (actions : List Action) : Along step p s actions := by
  induction actions generalizing s with
  | nil => trivial
  | cons a actions ih => exact ⟨h s a, fun s' _ => ih s'⟩

/-- What follows from `p` in the states with an invariant holds along a run that meets `p`. -/
theorem Along.weaken {p q : State → Action → Prop} (I : State → Prop)
    (halong : Along step p s actions) (hs : I s)
    (hstep : ∀ u a u', I u → p u a → step u a = some u' → I u')
    (hpq : ∀ u a, I u → p u a → q u a) : Along step q s actions := by
  induction actions generalizing s with
  | nil => trivial
  | cons a actions ih =>
      refine ⟨hpq s a hs halong.1, fun s' hfirst => ?_⟩
      exact ih (halong.2 s' hfirst) (hstep s a s' hs halong.1 hfirst)

/-- What holds at the start of a run with an empty log and is kept by each step, with what the step
writes, holds at its end. -/
theorem Along.written_induction {P : State → List β → Prop} {p : State → Action → Prop}
    (hrun : run step s actions = some s') (halong : Along step p s actions) (hs : P s [])
    (hstep : ∀ u a u' l, P u l → p u a → step u a = some u' → P u' (l ++ f u a u')) :
    P s' (written step f s actions) := by
  suffices h : ∀ l, P s l → P s' (l ++ written step f s actions) from h [] hs
  clear hs
  induction actions generalizing s with
  | nil =>
      intro l hl
      cases hrun
      rwa [written, List.append_nil]
  | cons a actions ih =>
      intro l hl
      obtain ⟨u, hfirst, hrest⟩ := run_cons.mp hrun
      rw [written_cons hfirst, ← List.append_assoc]
      apply ih hrest (halong.2 u hfirst)
      exact hstep s a u l hl halong.1 hfirst

end Transition
