import SimpleAwait.FramePool.Runs
import SimpleAwait.Library.Lifetimes
import SimpleAwait.Scheduler.Adoption
import SimpleAwait.System.Keeps

/-!
# The objects that own frames

The system of `System/Step.lean` with the frame pool and with the `Task` and `TaskAwaiter` objects
of user code.  An object is named by its number in the order of construction; it lies in a
coroutine frame, as a by-value parameter or a local variable does, or elsewhere.

To destroy a frame is to run its destructors, which are user code: `dying` is the stack of the
destructions in progress.
-/

namespace SimpleAwait

open Function

/-- The lifetime of an object. -/
inductive Lifetime (α : Type)
  | live (value : α)
  /-- The destructor runs. -/
  | ending (value : α)
  | gone
  deriving DecidableEq

namespace Lifetime

variable {α : Type}

/-- What the object holds, as long as it can be read. -/
def value : Lifetime α → Option α
  | .live a | .ending a => some a
  | .gone => none

/-- The destructor runs. -/
def isEnding : Lifetime α → Bool
  | .ending _ => true
  | _ => false

/-- A write to the object. -/
def write (a : α) : Lifetime α → Lifetime α
  | .live _ => .live a
  | .ending _ => .ending a
  | .gone => .gone

/-- The destructor begins, and leaves `a` in the object. -/
def retire (a : α) : Lifetime α → Lifetime α
  | .live _ => .ending a
  | l => l

/-- The destructor returns. -/
def finish : Lifetime α → Lifetime α
  | .ending _ => .gone
  | l => l

/-- The object ends. -/
def vanish (_ : Lifetime α) : Lifetime α := .gone

@[simp] theorem write_gone (a : α) : write a .gone = .gone := rfl
@[simp] theorem retire_gone (a : α) : retire a .gone = .gone := rfl
@[simp] theorem finish_gone : finish (.gone : Lifetime α) = .gone := rfl
@[simp] theorem vanish_gone : vanish (.gone : Lifetime α) = .gone := rfl

end Lifetime

/-- The frame that a `Task` owns. -/
def Lifetime.handle (l : Lifetime Handle) : Handle := l.value.join

/-- The frame that a `TaskAwaiter` owns.  Its destructor leaves `child_` as it was, and owns
nothing any more. -/
def Lifetime.child : Lifetime TaskAwaiter → Handle
  | .live a => a.child
  | _ => none

/-- An object, with the frame that it lies in. -/
structure Object (α : Type) where
  home : Option Frame
  state : Lifetime α

/-- The lifetime of the object with number `i`. -/
def Object.lookup {α : Type} (objects : List (Object α)) (i : ℕ) : Lifetime α :=
  (objects[i]?).elim .gone Object.state

/-- Who has called `destroy()` on a frame. -/
inductive Destroyer (N : ℕ)
  /-- `Task::operator=`. -/
  | assign
  /-- `~Task`. -/
  | task (i : ℕ)
  /-- `~TaskAwaiter`. -/
  | awaiter (k : ℕ)
  /-- `start_child_await`. -/
  | reject (r : Rejection N)
  /-- `run_pass`. -/
  | pass
  /-- `~Scheduler`. -/
  | teardown
  deriving DecidableEq

/-- The `Task` whose destructor it is. -/
def Destroyer.task? {N : ℕ} : Destroyer N → Option ℕ
  | .task i => some i
  | _ => none

/-- A destruction in progress. -/
structure Destruction (N : ℕ) where
  frame : Frame
  caller : Destroyer N
  /-- What scheduler context was executing. -/
  control : Control N

/-- The system with the pool and the objects. -/
structure Custody (N w : ℕ) (T : Type) where
  world : World N T := {}
  pool : PoolState w
  tasks : List (Object Handle) := []
  awaiters : List (Object TaskAwaiter) := []
  /-- The frames that exist and that nobody has called `destroy()` on. -/
  alive : Frame → Bool := fun _ => false
  /-- The innermost first. -/
  dying : List (Destruction N) := []
  /-- The slots that `~Scheduler` has yet to visit. -/
  left : List (Fin N) := []
  /-- History: the creations of frames and the calls of `destroy()`. -/
  uses : List (Lifetimes.Use Frame) := []

/-- What can own a frame. -/
inductive Owner (N : ℕ)
  | task (i : ℕ)
  | awaiter (k : ℕ)
  | slot (s : Fin N)
  deriving DecidableEq

/-- The frame that a slot owns, unless `run_pass` is destroying it. -/
def World.slotFrame {N : ℕ} {T : Type} (world : World N T) (s : Fin N) : Handle :=
  if world.control.releasing = some s then none else (world.sched.slots s).handle

namespace Custody

variable {N w : ℕ} {T : Type} (c : Custody N w T)

/-- The `Task` with number `i`. -/
def task (i : ℕ) : Lifetime Handle := Object.lookup c.tasks i

/-- The `TaskAwaiter` with number `k`. -/
def awaiter (k : ℕ) : Lifetime TaskAwaiter := Object.lookup c.awaiters k

/-- The frame that an owner owns. -/
def held : Owner N → Handle
  | .task i => (c.task i).handle
  | .awaiter k => (c.awaiter k).child
  | .slot s => c.world.slotFrame s

/-! ## Writes -/

/-- Replace the scheduler. -/
def withSched (sched : Scheduler N) : Custody N w T :=
  { c with world := { c.world with sched := sched } }

/-- Replace the world. -/
def withWorld (world : World N T) : Custody N w T := { c with world := world }

/-- `SIMPLEAWAIT_ON_ERROR(e)`. -/
def report (e : Error) : Custody N w T := c.withSched (c.world.sched.report e)

/-- A change of one `Task`. -/
def setTask (i : ℕ) (f : Lifetime Handle → Lifetime Handle) : Custody N w T :=
  { c with tasks := c.tasks.modify i fun o => { o with state := f o.state } }

/-- A change of one `TaskAwaiter`. -/
def setAwaiter (k : ℕ) (f : Lifetime TaskAwaiter → Lifetime TaskAwaiter) : Custody N w T :=
  { c with awaiters := c.awaiters.modify k fun o => { o with state := f o.state } }

/-- A `Task` is constructed. -/
def newTask (home : Option Frame) (handle : Handle) : Custody N w T :=
  { c with tasks := c.tasks ++ [⟨home, .live handle⟩] }

/-- A `TaskAwaiter` is constructed. -/
def newAwaiter (home : Option Frame) (a : TaskAwaiter) : Custody N w T :=
  { c with awaiters := c.awaiters ++ [⟨home, .live a⟩] }

/-- `destroy()` up to the destructors of the frame. -/
def destroy (frame : Frame) (caller : Destroyer N) : Custody N w T :=
  { c with
    alive := update c.alive frame false
    uses := c.uses ++ [.destroy frame]
    dying := ⟨frame, caller, c.world.control⟩ :: c.dying }

/-! ## What owns what after a write -/

variable {c} {i : ℕ}

theorem lookup_modify {α : Type} (objects : List (Object α)) (i j : ℕ)
    {f : Lifetime α → Lifetime α} (hf : f .gone = .gone) :
    Object.lookup (objects.modify i fun o => { o with state := f o.state }) j =
      if j = i then f (Object.lookup objects i) else Object.lookup objects j := by
  unfold Object.lookup
  rw [List.getElem?_modify]
  by_cases hji : j = i
  · subst hji
    cases objects[j]? <;> simp [hf]
  · simp [hji, Ne.symm hji]

theorem lookup_append {α : Type} (objects : List (Object α)) (o : Object α) (j : ℕ) :
    Object.lookup (objects ++ [o]) j =
      if j = objects.length then o.state else Object.lookup objects j := by
  unfold Object.lookup
  rcases lt_trichotomy j objects.length with hj | rfl | hj
  · rw [List.getElem?_append_left hj, if_neg hj.ne]
  · simp
  · have hout : (objects ++ [o]).length ≤ j := by
      rw [List.length_append, List.length_singleton]
      exact hj
    rw [List.getElem?_eq_none hout, List.getElem?_eq_none hj.le, if_neg hj.ne']

theorem task_setTask {f : Lifetime Handle → Lifetime Handle} (hf : f .gone = .gone) (j : ℕ) :
    (c.setTask i f).task j = if j = i then f (c.task i) else c.task j :=
  lookup_modify c.tasks i j hf

theorem held_setTask {f : Lifetime Handle → Lifetime Handle} (hf : f .gone = .gone) :
    (c.setTask i f).held = update c.held (.task i) (f (c.task i)).handle := by
  funext o
  cases o with
  | task j =>
      show ((c.setTask i f).task j).handle = _
      rw [task_setTask hf]
      by_cases hji : j = i
      · rw [if_pos hji, hji, update_self]
      · rw [if_neg hji, update_of_ne (by simp [hji])]
        rfl
  | awaiter k => rfl
  | slot s => rfl

theorem held_setAwaiter {k : ℕ} {f : Lifetime TaskAwaiter → Lifetime TaskAwaiter}
    (hf : f .gone = .gone) :
    (c.setAwaiter k f).held = update c.held (.awaiter k) (f (c.awaiter k)).child := by
  funext o
  cases o with
  | task i => rfl
  | awaiter j =>
      show (Object.lookup (c.setAwaiter k f).awaiters j).child = _
      rw [setAwaiter, lookup_modify c.awaiters k j hf]
      by_cases hjk : j = k
      · rw [if_pos hjk, hjk, update_self]
        rfl
      · rw [if_neg hjk, update_of_ne (by simp [hjk])]
        rfl
  | slot s => rfl

theorem held_newTask (home : Option Frame) (handle : Handle) :
    (c.newTask home handle).held = update c.held (.task c.tasks.length) handle := by
  funext o
  cases o with
  | task j =>
      show (Object.lookup (c.tasks ++ [⟨home, .live handle⟩]) j).handle = _
      rw [lookup_append]
      by_cases hj : j = c.tasks.length
      · rw [if_pos hj, hj, update_self]
        rfl
      · rw [if_neg hj, update_of_ne (by simp [hj])]
        rfl
  | awaiter k => rfl
  | slot s => rfl

theorem held_newAwaiter (home : Option Frame) (a : TaskAwaiter) :
    (c.newAwaiter home a).held = update c.held (.awaiter c.awaiters.length) a.child := by
  funext o
  cases o with
  | task i => rfl
  | awaiter j =>
      show (Object.lookup (c.awaiters ++ [⟨home, .live a⟩]) j).child = _
      rw [lookup_append]
      by_cases hj : j = c.awaiters.length
      · rw [if_pos hj, hj, update_self]
        rfl
      · rw [if_neg hj, update_of_ne (by simp [hj])]
        rfl
  | slot s => rfl

/-- The next object to be constructed owns nothing yet. -/
theorem held_next_task : c.held (.task c.tasks.length) = none := by
  show (Object.lookup c.tasks _).handle = none
  simp [Object.lookup, Lifetime.handle, Lifetime.value]

theorem held_next_awaiter : c.held (.awaiter c.awaiters.length) = none := by
  show (Object.lookup c.awaiters _).child = none
  simp [Object.lookup, Lifetime.child]

/-- No frame changes hands in the world. -/
theorem held_withWorld {world : World N T} (h : world.slotFrame = c.world.slotFrame) :
    (c.withWorld world).held = c.held := by
  funext o
  cases o with
  | task i => rfl
  | awaiter k => rfl
  | slot s => exact congrFun h s

/-- A slot changes its frame. -/
theorem held_withWorld_update {world : World N T} {s : Fin N} {frame : Handle}
    (h : world.slotFrame = update c.world.slotFrame s frame) :
    (c.withWorld world).held = update c.held (.slot s) frame := by
  funext o
  cases o with
  | task i => rfl
  | awaiter k => rfl
  | slot t =>
      show world.slotFrame t = _
      rw [h]
      by_cases hts : t = s
      · rw [hts, update_self, update_self]
      · rw [update_of_ne hts, update_of_ne (by simp [hts])]
        rfl

end Custody

end SimpleAwait
