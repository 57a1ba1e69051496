import SimpleAwait.System.Passes

/-!
# A task that runs `waitUntil`

The body of `waitUntil` is `while (!predicate()) { co_await yield(); }` (`waituntil.h`).

The system of `System/Step.lean` leaves open what the body of a task does next.  Here the body of
one task, `y`, is that of `waitUntil`, and everything else may go on as it likes.  The predicate is
the sequence of the results of its evaluations; while it is executing it may call the library as
any user code does.
-/

namespace SimpleAwait

/-- The system with a task that runs `waitUntil`. -/
structure WaitUntil (N : ℕ) (T : Type) where
  world : World N T
  /-- How often the predicate has returned. -/
  evaluations : ℕ := 0
  /-- What the predicate has returned, until the body acts on it. -/
  result : Option Bool := none

/-- The actions of the system, and the return of the predicate. -/
inductive WaitUntilAction (T : Type)
  | evaluate
  | other (a : Action T)

variable {N : ℕ} {T : Type}

/-- The body of task `y` is executing. -/
def World.executes (w : World N T) (y : Fin N × UInt32) : Bool :=
  match w.control with
  | .body s _ => w.sched.taskIn s = y
  | _ => false

namespace WaitUntil

/-- What the body does after the predicate has returned `result`; before that the predicate is
executing. -/
def body : Option Bool → Action T → Bool
  | none, a => a.isCall
  | some false, .coAwait .yield => true
  | some true, .finish => true
  | _, _ => false

variable (cfg : Config N) (predicate : ℕ → Bool) (y : Fin N × UInt32) (v : WaitUntil N T)

/-- One step; `none` where the action is not possible. -/
def step : WaitUntilAction T → Option (WaitUntil N T)
  | .evaluate =>
      if v.world.executes y ∧ v.result = none then
        some { v with
          evaluations := v.evaluations + 1
          result := some (predicate v.evaluations) }
      else none
  | .other a =>
      if v.world.executes y ∧ a.isExternal = false then
        if body v.result a then
          (v.world.step cfg a).map fun w => { v with world := w, result := none }
        else none
      else (v.world.step cfg a).map fun w => { v with world := w }

end WaitUntil

/-- The step that takes the budget of a pass. -/
def WaitUntilAction.isStart : WaitUntilAction T → Bool
  | .evaluate => false
  | .other a => a.isStart

/-- The step that ends a pass. -/
def WaitUntilAction.isEnd : WaitUntilAction T → Bool
  | .evaluate => false
  | .other a => a.isEnd

/-- The action of the system. -/
def WaitUntilAction.world? : WaitUntilAction T → Option (Action T)
  | .evaluate => none
  | .other a => some a

/-- How many passes take their budget. -/
def passes (actions : List (WaitUntilAction T)) : ℕ :=
  actions.countP WaitUntilAction.isStart

namespace WaitUntil

open Transition

variable {cfg : Config N} {predicate : ℕ → Bool} {y : Fin N × UInt32} {v v' : WaitUntil N T}

/-- The body of `waitUntil` always has a next step. -/
theorem step_isSome (h : v.world.executes y = true) : ∃ act, (step cfg predicate y v act).isSome = true ∧
    ∀ a, act = .other a → a.isExternal = false ∧ a.isCall = false := by
  have hbody : ∃ s left, v.world.control = .body s left := by
    unfold World.executes at h
    split at h
    · exact ⟨_, _, ‹_›⟩
    · cases h
  obtain ⟨s, left, hcontrol⟩ := hbody
  cases hresult : v.result with
  | none => exact ⟨.evaluate, by simp [step, h, hresult], by simp⟩
  | some b =>
      cases b with
      | false =>
          refine ⟨.other (.coAwait .yield), ?_, ?_⟩
          · simp [step, h, hresult, body, Action.isExternal, World.step, hcontrol]
          · simp [Action.isExternal, Action.isCall]
      | true =>
          refine ⟨.other .finish, ?_, ?_⟩
          · simp [step, h, hresult, body, Action.isExternal, World.step, hcontrol]
          · simp [Action.isExternal, Action.isCall]

/-- A step by another action than `evaluate` is one of the system. -/
theorem step_other {a : Action T} (hstep : step cfg predicate y v (.other a) = some v') :
    v.world.step cfg a = some v'.world ∧ v'.evaluations = v.evaluations ∧
      (v.world.executes y = true → a.isExternal = false →
        body v.result a = true ∧ v'.result = none) ∧
      (v.world.executes y = false ∨ a.isExternal = true → v'.result = v.result) := by
  simp only [step] at hstep
  split at hstep
  · rename_i hexecutes
    split at hstep
    · rename_i hbody
      obtain ⟨w, hw, rfl⟩ := Option.map_eq_some_iff.mp hstep
      refine ⟨hw, rfl, fun _ _ => ⟨hbody, rfl⟩, fun h => ?_⟩
      rcases h with h | h <;> simp [h] at hexecutes
    · cases hstep
  · rename_i hnot
    obtain ⟨w, hw, rfl⟩ := Option.map_eq_some_iff.mp hstep
    exact ⟨hw, rfl, fun h h' => absurd ⟨h, h'⟩ hnot, fun _ => rfl⟩

theorem step_evaluate (hstep : step cfg predicate y v .evaluate = some v') :
    v.world.executes y = true ∧ v.result = none ∧ v'.world = v.world ∧
      v'.evaluations = v.evaluations + 1 ∧ v'.result = some (predicate v.evaluations) := by
  simp only [step] at hstep
  split at hstep <;> cases hstep
  rename_i h
  exact ⟨h.1, h.2, rfl, rfl, rfl⟩

/-- A run goes on in the system. -/
theorem run_world {actions : List (WaitUntilAction T)}
    (hrun : run (step cfg predicate y) v actions = some v') :
    run (World.step cfg) v.world (actions.filterMap WaitUntilAction.world?) = some v'.world := by
  induction actions generalizing v with
  | nil =>
      cases hrun
      rfl
  | cons act actions ih =>
      obtain ⟨u, hstep, hrest⟩ := run_cons.mp hrun
      cases act with
      | evaluate =>
          rw [← (step_evaluate hstep).2.2.1]
          exact ih hrest
      | other a => exact run_cons.mpr ⟨u.world, (step_other hstep).1, ih hrest⟩

/-- The system that a run leads to from `w`, where the task is about to begin. -/
def after (cfg : Config N) (predicate : ℕ → Bool) (y : Fin N × UInt32) (w : World N T)
    (actions : List (WaitUntilAction T)) : WaitUntil N T :=
  (run (step cfg predicate y) { world := w } actions).getD { world := w }

theorem run_after {w : World N T} (before actions : List (WaitUntilAction T))
    (h : (run (step cfg predicate y) { world := w } (before ++ actions)).isSome = true) :
    run (step cfg predicate y) (after cfg predicate y w before) actions =
      some (after cfg predicate y w (before ++ actions)) := by
  obtain ⟨v, hv⟩ := Option.isSome_iff_exists.mp h
  obtain ⟨u, hbefore, hrun⟩ := Transition.run_append.mp hv
  rw [after, after, hv, hbefore, Option.getD_some, Option.getD_some, hrun]

end WaitUntil

end SimpleAwait
