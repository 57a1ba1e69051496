import SimpleAwait.Primitives.Destructors
import SimpleAwait.System.Control

/-!
# The teardown of the scheduler

`~Scheduler` sets `shutting_down_` and walks the slots; it detaches each slot that owns a frame
and then destroys the frame.  The destructors that this runs are user code.  They may do
whatever the system of `System/Step.lean` allows next, destroy objects, and destroy frames that
are owned by a `Task`, whose destructors then run inside theirs: `dying` is the stack of the
frames being destroyed.  Nothing is assumed about the objects they use, so that an event may be
set whose waiters the loop has destroyed already.

`torn` is a history variable.
-/

namespace SimpleAwait

/-- A frame that is being destroyed. -/
inductive Dying (N : ℕ)
  /-- By the loop, which has detached it from the slot. -/
  | slot (s : Fin N) (frame : Frame)
  /-- By the destructor of the `Task` that owned it. -/
  | task (frame : Frame)
  deriving DecidableEq

/-- The frame. -/
def Dying.frame {N : ℕ} : Dying N → Frame
  | .slot _ frame | .task frame => frame

/-- The system while `~Scheduler` runs. -/
structure Teardown (N : ℕ) (T : Type) where
  world : World N T
  /-- The slots that the loop has not visited. -/
  left : List (Fin N)
  /-- The frames whose destructors run, the innermost first. -/
  dying : List (Dying N) := []
  /-- The slots whose frames the loop has destroyed, with the frames. -/
  torn : List (Fin N × Frame) := []

/-- What may happen next during the teardown. -/
inductive TeardownAction (T : Type)
  /-- An iteration of the loop, up to the destructors of the frame. -/
  | next
  /-- The destructors of the innermost frame return. -/
  | returned
  /-- A call of the library, or a step of an external context. -/
  | act (a : Action T)
  /-- `~Task`, of a `Task` that owns `task`. -/
  | destroyTask (task : Handle)
  | destroyEvent (e : ℕ)
  | destroyQueue (q : ℕ)
  /-- The destructors of the awaiters of a queue. -/
  | destroySender (q a : ℕ)
  | destroyReceiver (q a : ℕ)
  | destroyFlag (f : ℕ)

/-- The frames that the action destroys, besides the loop. -/
def TeardownAction.destroys {T : Type} : TeardownAction T → List Handle
  | .destroyTask (some frame) => [some frame]
  | _ => []

namespace Scheduler

variable {N : ℕ} (c : Scheduler N)

/-- `s.handle = {}; s.state = State::completed; frame.destroy()` up to the destructors. -/
def detach (s : Fin N) (frame : Frame) : Scheduler N :=
  (c.modify s fun slot => { slot with handle := none, state := .completed }).record
    (.destroyed (some frame))

/-- What `~Scheduler` destroys when it visits the slot. -/
def ownedFrame (s : Fin N) : Option Frame :=
  if (c.slots s).state = .completed then none else (c.slots s).handle

end Scheduler

namespace Teardown

variable {N : ℕ} {T : Type} (cfg : Config N) (t : Teardown N T)

/-- `~Scheduler` begins, called by user code. -/
def start (w : World N T) : Teardown N T where
  world := { w with sched := { w.sched with shuttingDown := true } }
  left := List.finRange N

/-- Replace the world. -/
def withWorld (w : World N T) : Teardown N T := { t with world := w }

/-- A destructor runs. -/
def run (t' : Teardown N T) : Option (Teardown N T) := if t.dying = [] then none else some t'

/-- Replace the scheduler. -/
def withSched (c : Scheduler N) : Teardown N T := { t with world := { t.world with sched := c } }

/-- One step; `none` where the action is not possible.  A frame that a `Task` owns is neither
owned by a slot nor being destroyed. -/
def step : TeardownAction T → Option (Teardown N T)
  | .next =>
      match t.left, t.dying with
      | s :: left, [] =>
          match t.world.sched.ownedFrame s with
          | none => some { t with left := left }
          | some frame => some { t.withSched (t.world.sched.detach s frame) with
              left := left
              dying := [.slot s frame]
              torn := t.torn ++ [(s, frame)] }
      | _, _ => none
  | .returned => t.run { t with dying := t.dying.tail }
  | .act a =>
      if t.dying ≠ [] ∨ a.isExternal then (t.world.step cfg a).map t.withWorld else none
  | .destroyTask none => t.run t
  | .destroyTask (some frame) =>
      if (∀ s, (t.world.sched.slots s).handle ≠ some frame) ∧
          frame ∉ t.dying.map Dying.frame then
        t.run { t.withSched (t.world.sched.record (.destroyed (some frame))) with
          dying := .task frame :: t.dying }
      else none
  | .destroyEvent e => t.run (t.withSched ((t.world.event e).destroy t.world.sched))
  | .destroyQueue q =>
      let (c, queue) := (t.world.queue q).destroy (cfg.capacity q) t.world.sched
      t.run (t.withWorld (t.world.withQueue q c queue))
  | .destroySender q a =>
      t.run (t.withWorld (t.world.setQueue q ((t.world.queue q).destroySender a)))
  | .destroyReceiver q a =>
      t.run (t.withWorld (t.world.setQueue q ((t.world.queue q).destroyReceiver a)))
  | .destroyFlag f =>
      let (c, flags) := t.world.flags.destroy f t.world.sched
      t.run (t.withWorld { t.world with sched := c, flags := flags })

/-- The states of the teardown that some run leads to from the world `w`. -/
def Reachable (w : World N T) (t : Teardown N T) : Prop :=
  Transition.Reachable (step cfg) (start w) t

end Teardown

end SimpleAwait
