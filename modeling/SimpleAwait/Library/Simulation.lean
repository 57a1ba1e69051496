import SimpleAwait.Library.Logs

/-!
# Simulation with stuttering

A function of states carries the runs of one system over to another: a step goes to the step that
`label` names, or to none where it names none.  Where the other system is a diagram of labelled arrows,
a run is seen as a path of the diagram.
-/

namespace Transition

universe u v u' v'

variable {State : Type u} {Action : Type v} {State' : Type u'} {Action' : Type v'}

/-- The steps of `step` are seen through `abs` as those of `step'`, or not at all. -/
structure Simulates (step : State → Action → Option State) (step' : State' → Action' → Option State')
    (abs : State → State') (label : Action → Option Action') : Prop where
  named : ∀ {s a s' b}, step s a = some s' → label a = some b → step' (abs s) b = some (abs s')
  silent : ∀ {s a s'}, step s a = some s' → label a = none → abs s' = abs s

namespace Simulates

variable {step : State → Action → Option State} {step' : State' → Action' → Option State'}
  {abs : State → State'} {label : Action → Option Action'} {s t : State} {actions : List Action}

/-- A run is seen as a run of the steps that have names. -/
theorem run (h : Simulates step step' abs label) (hrun : run step s actions = some t) :
    Transition.run step' (abs s) (actions.filterMap label) = some (abs t) := by
  induction actions generalizing s with
  | nil =>
      cases hrun
      rfl
  | cons a actions ih =>
      obtain ⟨s', hfirst, hrest⟩ := run_cons.mp hrun
      have hlater := ih hrest
      cases hlabel : label a with
      | none =>
          rw [List.filterMap_cons_none hlabel, ← h.silent hfirst hlabel]
          exact hlater
      | some b =>
          rw [List.filterMap_cons_some hlabel]
          exact run_cons.mpr ⟨abs s', h.named hfirst hlabel, hlater⟩

end Simulates

/-! ## Paths -/

variable {α : Type u'} {arrow : α → Action → α → Prop}

/-- A path of arrows from `x` to `y`, with the label of each and where it leads. -/
inductive Path (arrow : α → Action → α → Prop) : (x : α) → List (Action × α) → (y : α) → Prop
  | nil (x : α) : Path arrow x [] x
  | cons {x y z : α} {a : Action} {l : List (Action × α)} (harrow : arrow x a y)
      (hrest : Path arrow y l z) : Path arrow x ((a, y) :: l) z

/-- Where no arrow leaves, a path ends. -/
theorem Path.eq_of_stuck {x y : α} {l : List (Action × α)} (h : Path arrow x l y)
    (hstuck : ∀ a z, ¬ arrow x a z) : l = [] ∧ y = x := by
  cases h with
  | nil => exact ⟨rfl, rfl⟩
  | cons harrow _ => exact absurd harrow (hstuck _ _)

/-- The step as an arrow, labelled with the state that it starts from too, if it is seen at all. -/
def changes [DecidableEq α] (abs : State → α) (s : State) (a : Action) (s' : State) :
    List ((State × Action) × α) :=
  if abs s' = abs s then [] else [((s, a), abs s')]

/-- A run whose steps are seen as arrows, or not at all, is seen as a path. -/
theorem Path.of_run [DecidableEq α] {step : State → Action → Option State} {abs : State → α}
    {arrow : α → State × Action → α → Prop} {s t : State} {actions : List Action} (I : State → Prop)
    (hs : I s) (hinv : ∀ {s a s'}, I s → step s a = some s' → I s')
    (harrow : ∀ {s a s'}, I s → step s a = some s' →
      abs s' = abs s ∨ arrow (abs s) (s, a) (abs s'))
    (hrun : Transition.run step s actions = some t) :
    Path arrow (abs s) (written step (changes abs) s actions) (abs t) := by
  induction actions generalizing s with
  | nil =>
      cases hrun
      exact .nil _
  | cons a actions ih =>
      obtain ⟨s', hfirst, hrest⟩ := run_cons.mp hrun
      have hlater := ih (hinv hs hfirst) hrest
      rw [written_cons hfirst, changes]
      split_ifs with hsame
      · -- the step is not seen, and the path goes on from the same point
        rwa [hsame] at hlater
      · exact .cons ((harrow hs hfirst).resolve_left hsame) hlater

end Transition
