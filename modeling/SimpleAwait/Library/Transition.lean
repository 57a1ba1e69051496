import Mathlib.Data.List.Basic

/-!
# Labelled transition systems

A system is a partial step function `step : State → Action → Option State`: `none`
where the action is not possible in the state.  `run` performs a list of actions,
`Reachable` collects the states reached from an initial one, and `tally` counts the
steps of a run that have a given property.

Every invariant is proved by `Reachable.induction` from a lemma about one step, and
every fact about a stretch of a run by `run_induction`.
-/

namespace Transition

universe u v

variable {State : Type u} {Action : Type v}

/-- Perform `actions` in order; `none` if one of them is not possible. -/
def run (step : State → Action → Option State) : State → List Action → Option State
  | s, [] => some s
  | s, a :: actions => (step s a).bind fun s' => run step s' actions

/-- The states some run leads to from `init`. -/
def Reachable (step : State → Action → Option State) (init s : State) : Prop :=
  ∃ actions, run step init actions = some s

/-- The number of steps of a run with property `p` of the state before, the action
and the state after. -/
def tally (step : State → Action → Option State) (p : State → Action → State → Bool) :
    State → List Action → ℕ
  | _, [] => 0
  | s, a :: actions =>
      match step s a with
      | none => 0
      | some s' => (if p s a s' then 1 else 0) + tally step p s' actions

/-- Every step of the run starts in a state, and takes an action, with property `p`. -/
def Along (step : State → Action → Option State) (p : State → Action → Prop) :
    State → List Action → Prop
  | _, [] => True
  | s, a :: actions => p s a ∧ ∀ s', step s a = some s' → Along step p s' actions

variable {step : State → Action → Option State} {init s s' t : State} {a : Action}
  {actions : List Action}

@[simp] theorem run_nil : run step s [] = some s := rfl

theorem run_cons : run step s (a :: actions) = some t ↔
    ∃ s', step s a = some s' ∧ run step s' actions = some t := by
  simp [run, Option.bind_eq_some_iff]

theorem run_append {more : List Action} : run step s (actions ++ more) = some t ↔
    ∃ s', run step s actions = some s' ∧ run step s' more = some t := by
  induction actions generalizing s with
  | nil => simp
  | cons a actions ih =>
      simp only [List.cons_append, run_cons, ih]
      exact ⟨fun ⟨s', hstep, u, h₁, h₂⟩ => ⟨u, ⟨s', hstep, h₁⟩, h₂⟩,
        fun ⟨u, ⟨s', hstep, h₁⟩, h₂⟩ => ⟨s', hstep, u, h₁, h₂⟩⟩

theorem run_singleton : run step s [a] = some t ↔ step s a = some t := by
  simp [run_cons]

theorem Reachable.refl : Reachable step init init := ⟨[], rfl⟩

theorem Reachable.succ (h : Reachable step init s) (hstep : step s a = some s') :
    Reachable step init s' := by
  obtain ⟨actions, hrun⟩ := h
  exact ⟨actions ++ [a], run_append.mpr ⟨s, hrun, run_singleton.mpr hstep⟩⟩

theorem Reachable.append (h : Reachable step init s) (hrun : run step s actions = some t) :
    Reachable step init t := by
  obtain ⟨before, hbefore⟩ := h
  exact ⟨before ++ actions, run_append.mpr ⟨s, hbefore, hrun⟩⟩

/-- What holds at the start of a run and is kept by each of its steps holds at its
end. -/
theorem run_induction {P : State → Prop} (hrun : run step s actions = some t)
    (hs : P s) (hstep : ∀ u a u', a ∈ actions → P u → step u a = some u' → P u') : P t := by
  induction actions generalizing s with
  | nil =>
      cases hrun
      exact hs
  | cons a actions ih =>
      obtain ⟨s', hfirst, hrest⟩ := run_cons.mp hrun
      exact ih hrest (hstep s a s' (List.mem_cons_self ..) hs hfirst)
        fun u b u' hb => hstep u b u' (List.mem_cons_of_mem _ hb)

/-- An invariant that holds initially and is kept by every step holds in every
reachable state. -/
theorem Reachable.induction {P : State → Prop} (h : Reachable step init s) (hinit : P init)
    (hstep : ∀ u a u', P u → step u a = some u' → P u') : P s := by
  obtain ⟨actions, hrun⟩ := h
  exact run_induction hrun hinit fun u a u' _ => hstep u a u'

/-- As `run_induction`, for a run all of whose steps meet `p`. -/
theorem Along.induction {P : State → Prop} {p : State → Action → Prop}
    (hrun : run step s actions = some t) (halong : Along step p s actions)
    (hs : P s) (hstep : ∀ u a u', a ∈ actions → P u → p u a → step u a = some u' → P u') :
    P t := by
  induction actions generalizing s with
  | nil =>
      cases hrun
      exact hs
  | cons a actions ih =>
      obtain ⟨s', hfirst, hrest⟩ := run_cons.mp hrun
      exact ih hrest (halong.2 s' hfirst) (hstep s a s' (List.mem_cons_self ..) hs halong.1 hfirst)
        fun u b u' hb => hstep u b u' (List.mem_cons_of_mem _ hb)

instance Along.decidable {p : State → Action → Prop} [∀ s a, Decidable (p s a)] :
    (s : State) → (actions : List Action) → Decidable (Along step p s actions)
  | _, [] => .isTrue trivial
  | s, a :: actions =>
      match hstep : step s a with
      | none => decidable_of_iff (p s a)
          ⟨fun h => ⟨h, fun s' hs' => by simp [hstep] at hs'⟩, fun h => h.1⟩
      | some s' =>
          have : Decidable (Along step p s' actions) := Along.decidable s' actions
          decidable_of_iff (p s a ∧ Along step p s' actions)
            ⟨fun h => ⟨h.1, fun u hu => by cases hstep.symm.trans hu; exact h.2⟩,
              fun h => ⟨h.1, h.2 s' hstep⟩⟩

/-- Two properties of steps that agree in the states with an invariant agree along every run whose
steps keep the invariant. -/
theorem Along.congr {p q : State → Action → Prop} (I : State → Prop) (hs : I s)
    (hstep : ∀ u a u', I u → p u a → step u a = some u' → I u')
    (hpq : ∀ u a, I u → (p u a ↔ q u a)) :
    Along step p s actions ↔ Along step q s actions := by
  induction actions generalizing s with
  | nil => exact Iff.rfl
  | cons a actions ih =>
      constructor
      · rintro ⟨hp, hrest⟩
        exact ⟨(hpq s a hs).mp hp,
          fun s' hnext => (ih (hstep s a s' hs hp hnext)).mp (hrest s' hnext)⟩
      · rintro ⟨hq, hrest⟩
        have hp := (hpq s a hs).mpr hq
        exact ⟨hp, fun s' hnext => (ih (hstep s a s' hs hp hnext)).mpr (hrest s' hnext)⟩

theorem Along.append {p : State → Action → Prop} {more : List Action}
    (h : Along step p s (actions ++ more)) (hrun : run step s actions = some t) :
    Along step p t more := by
  induction actions generalizing s with
  | nil =>
      cases hrun
      exact h
  | cons a actions ih =>
      obtain ⟨s', hfirst, hrest⟩ := run_cons.mp hrun
      exact ih (h.2 s' hfirst) hrest

theorem tally_cons {p : State → Action → State → Bool} (hstep : step s a = some s') :
    tally step p s (a :: actions) =
      (if p s a s' then 1 else 0) + tally step p s' actions := by
  simp [tally, hstep]

end Transition
