import SimpleAwait.Exchange.Step
import SimpleAwait.Primitives.Destructors

/-!
# Flags until they are destroyed

A `Signaling` is the scheduler with all flags.  The system of `System/Step.lean` destroys no flag;
here a flag is destroyed at any moment outside the walk of `poll_external_signals`, whether a task
waits on it or not.  A flag is named by a number that stands for one object; a flag that is
constructed later is one that has not been used before.

During the walk nothing runs but `set()` in an external context.  Outside it the rest of the program
is the action `elsewhere`, which may do anything to the scheduler but touch a task that is parked on
a flag.

`alive`, `task` and `stray` are history variables.
-/

namespace SimpleAwait

open Intrusive

/-- The scheduler and all flags. -/
structure Signaling (N : ℕ) where
  sched : Scheduler N := {}
  flags : Flags N := {}
  /-- The flag that the walk left armed last, and the flag that it visits next. -/
  walk : Option (Option ℕ × ℕ) := none
  /-- The flags that have not been destroyed. -/
  alive : ℕ → Bool := fun _ => true
  /-- The task that is parked on a flag. -/
  task : ℕ → Option (Fin N × UInt32) := fun _ => none
  /-- The destroyed flags that a walk or a destructor of a flag has reached. -/
  stray : List ℕ := []

/-- What may happen next. -/
inductive SignalingAction (N : ℕ)
  /-- The critical section of `set()`, in any context. -/
  | setFlag (f : ℕ)
  | clear (f : ℕ)
  /-- `await_ready` of a wait. -/
  | awaitReady (f : ℕ)
  /-- `await_suspend` of a wait by the coroutine `awaiting`. -/
  | awaitSuspend (f : ℕ) (awaiting : Handle)
  /-- The first critical section of `poll_external_signals`. -/
  | checkPending
  /-- One iteration of its walk. -/
  | walkStep
  /-- `~ThreadSafeFlag`. -/
  | destroy (f : ℕ)
  /-- The rest of the program. -/
  | elsewhere (change : Scheduler N → Scheduler N)

variable {N : ℕ}

/-- The flags whose links `~ThreadSafeFlag` follows before it finds `f`. -/
def Flags.unarmReads (F : Flags N) (f : ℕ) : List ℕ :=
  if (F.flag f).waiter = none then []
  else (follow F.armedNext N F.armedHead).takeWhile fun g => g ≠ f

namespace Signaling

variable (x : Signaling N)

/-- The slots of the tasks that are parked on armed flags. -/
def parkedSlots : List (Fin N) :=
  (follow x.flags.armedNext N x.flags.armedHead).filterMap fun f => (x.flags.flag f).waiter

/-- `poll_external_signals` goes on to visit `f`, or returns at the end of the list. -/
def walkTo (prev f : Option ℕ) : Signaling N := { x with walk := f.map fun f => (prev, f) }

/-- Flags are reached. -/
def reach (fs : List ℕ) : Signaling N :=
  { x with stray := x.stray ++ fs.filter fun f => !x.alive f }

/-- A call on a flag in scheduler context. -/
def call (f : ℕ) (x' : Signaling N) : Option (Signaling N) :=
  if x.alive f ∧ x.walk = none then some x' else none

/-- `await_suspend`. -/
def awaitSuspend (f : ℕ) (awaiting : Handle) : Signaling N :=
  match x.flags.park f x.sched awaiting with
  | (true, c, flags) => { x with
      sched := c.suspendCurrent
      flags := flags
      task := Function.update x.task f (c.current.map c.taskIn) }
  | (false, c, flags) => { x with sched := c, flags := flags }

/-- One iteration of the walk, at the flag `f`; `prev` is written where the waiter is woken. -/
def visit (prev : Option ℕ) (f : ℕ) : Signaling N :=
  let (prev', next, c, flags) := x.flags.walkStep x.sched prev f
  { x.reach (f :: prev.toList) with
    sched := c
    flags := flags
    task := if (flags.flag f).waiter = none then Function.update x.task f none else x.task }.walkTo
      prev' next

/-- `~ThreadSafeFlag`. -/
def destroy (f : ℕ) : Signaling N :=
  let (c, flags) := x.flags.destroy f x.sched
  { x.reach (x.flags.unarmReads f) with
    sched := c
    flags := flags
    alive := Function.update x.alive f false
    task := Function.update x.task f none }

/-- One step; `none` where the action is not possible. -/
def step : SignalingAction N → Option (Signaling N)
  | .setFlag f => if x.alive f then some { x with flags := (x.flags.set f).2 } else none
  | .clear f => x.call f { x with flags := x.flags.clear f }
  | .awaitReady f => x.call f { x with flags := (x.flags.consume f).2 }
  | .awaitSuspend f awaiting => x.call f (x.awaitSuspend f awaiting)
  | .checkPending =>
      if x.walk = none then
        match x.flags.takePending with
        | (true, flags) => some ({ x with flags := flags }.walkTo none flags.armedHead)
        | (false, flags) => some { x with flags := flags }
      else none
  | .walkStep => x.walk.map fun (prev, f) => x.visit prev f
  | .destroy f => x.call f (x.destroy f)
  | .elsewhere change =>
      let c := change x.sched
      if x.walk = none ∧ x.sched.trace <+: c.trace ∧ ∀ s ∈ x.parkedSlots, x.sched.Leaves c s then
        some { x with sched := c }
      else none

/-- Before anything has happened. -/
def initial : Signaling N := {}

/-- The states that some run leads to. -/
def Reachable (x : Signaling N) : Prop := Transition.Reachable step initial x

/-- The state that a run leads to from the initial one. -/
def after (actions : List (SignalingAction N)) : Signaling N :=
  (Transition.run step initial actions).getD initial

theorem Reachable.after {actions : List (SignalingAction N)}
    (h : (Transition.run step initial actions).isSome = true) : Reachable (Signaling.after actions) := by
  obtain ⟨x, hx⟩ := Option.isSome_iff_exists.mp h
  exact ⟨actions, by rw [Signaling.after, hx, Option.getD_some]⟩

end Signaling

end SimpleAwait
