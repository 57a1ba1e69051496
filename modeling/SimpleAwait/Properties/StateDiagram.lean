import SimpleAwait.Library.Simulation
import SimpleAwait.Properties.Consistency
import SimpleAwait.System.Arrows

/-!
# The state diagram

The history of a slot is a path in the diagram of the states, each arrow taken by an action that it
names.  In particular nothing wakes a slot that is `suspended`, and a slot begins to run only when it is
popped off the ready FIFO.
-/

namespace SimpleAwait

open Transition

variable {N : ℕ} {T : Type} {cfg : Config N} {w w' : World N T}

/-- The state of slot `s`. -/
def World.stateOf (s : Fin N) (w : World N T) : State := (w.sched.slots s).state

/-- The changes of the state of slot `s` in a run, each with the world before it and the action that
makes it. -/
def World.itinerary (cfg : Config N) (s : Fin N) (w : World N T) (actions : List (Action T)) :
    List ((World N T × Action T) × State) :=
  written (World.step cfg) (changes (World.stateOf s)) w actions

/-- The itinerary is a path of the diagram, each arrow of it open to the slot in its world. -/
abbrev World.Travels (s : Fin N) (x : State) (l : List ((World N T × Action T) × State))
    (y : State) : Prop :=
  Path (fun x p y => Arrow p.1 s x p.2 y) x l y

/-- No arrow leaves `suspended`. -/
theorem Arrow.not_suspended (w : World N T) (s : Fin N) (a : Action T) (y : State) :
    ¬ Arrow w s .suspended a y := by
  intro h
  generalize hx : State.suspended = x at h
  cases h with
  | acquire _ hvacant => rcases hvacant with rfl | rfl <;> cases hx
  | _ => cases hx

/-- Over every run the states of a slot follow the arrows of the diagram, by the actions that the
arrows name and from worlds in which they are open, and a slot that is `suspended` stays so. -/
theorem states_follow_diagram {actions : List (Action T)} (hw : w.Reachable cfg)
    (hrun : run (World.step cfg) w actions = some w') (s : Fin N) :
    World.Travels s (w.stateOf s) (w.itinerary cfg s actions) (w'.stateOf s) ∧
      (w.stateOf s = .suspended → w.itinerary cfg s actions = [] ∧ w'.stateOf s = .suspended) := by
  have hpath : World.Travels s (w.stateOf s) (w.itinerary cfg s actions) (w'.stateOf s) := by
    refine Path.of_run (fun u => World.Reachable cfg u) hw (fun hu hstep => hu.succ hstep) ?_ hrun
    intro u a u' hu hstep
    obtain ⟨L, hinv⟩ := hu.inv
    exact hinv.step_follows hstep s
  refine ⟨hpath, fun hs => ?_⟩
  rw [hs] at hpath
  exact hpath.eq_of_stuck fun p => Arrow.not_suspended p.1 s p.2

/-- A task awaits a delay, is woken when it is due, and runs to its end. -/
theorem states_follow_diagram_small :
    let actions : List (Action ℕ) := [.createTask (some 1), .poll false 100, .checkPending,
      .startPass, .passPop, .coAwait (.delay 500), .endPass 100, .poll false 700, .checkPending,
      .startPass, .passPop, .finish, .destroyed]
    let itinerary := (World.initial : World 3 ℕ).itinerary .small 0 actions
    (itinerary.map fun p => (p.1.2, p.2)) = [(.createTask (some 1), .ready), (.passPop, .running),
        (.coAwait (.delay 500), .waitingTimer), (.startPass, .ready), (.passPop, .running),
        (.destroyed, .completed)] ∧
      World.Travels 0 .free itinerary .completed := by
  intro actions itinerary
  have hrun := World.run_after .small [] actions (T := ℕ) (by decide)
  exact ⟨rfl, (states_follow_diagram .refl hrun 0).1⟩

end SimpleAwait
