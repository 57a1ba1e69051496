import SimpleAwait.Ownership.Objects
import SimpleAwait.Teardown.Step

/-!
# The operations on the objects

Every operation of `task.h`, with what the scheduler does to frames, as a step.  An operation that
destroys a frame ends where the destructors of the frame begin, and the step `returned` does the
rest of it.  In between, the destructors may do whatever the system allows, also to the objects
of the operation.  `Sound` excludes what such a destructor must not do.
-/

namespace SimpleAwait

open Function

/-- The next step of the system. -/
inductive CustodyAction (w : ℕ) (T : Type)
  /-- A coroutine is called, whose frame takes `size` bytes; the result lies in `home`. -/
  | create (size : BitVec w) (home : Option Frame)
  /-- `Task()`. -/
  | newTask (home : Option Frame)
  /-- `Task(Task&&)`. -/
  | moveTask (src : ℕ) (home : Option Frame)
  /-- `Task::operator=(Task&&)`. -/
  | assign (dst src : ℕ)
  /-- `~Task`. -/
  | destroyTask (i : ℕ)
  /-- `Task::operator co_await`. -/
  | coAwait (i : ℕ) (home : Option Frame)
  /-- `TaskAwaiter(TaskAwaiter&&)`. -/
  | moveAwaiter (src : ℕ) (home : Option Frame)
  /-- `~TaskAwaiter`. -/
  | destroyAwaiter (k : ℕ)
  /-- The coroutine `awaiting` awaits the awaiter. -/
  | await (k : ℕ) (awaiting : Handle)
  /-- `create_task` or `spawn`. -/
  | createTask (i : ℕ)
  /-- The running task runs to its end. -/
  | finish
  /-- The destructors of the innermost frame return. -/
  | returned
  /-- `~Scheduler` begins. -/
  | shutDown
  /-- An iteration of its loop. -/
  | next
  /-- Anything else that the system does. -/
  | act (a : Action T)

/-- `co_await` goes on in the coroutine that awaits. -/
def Action.isBody {T : Type} : Action T → Bool
  | .coAwait _ | .flagPark => true
  | _ => false

namespace Custody

variable {N w : ℕ} {T : Type} (cfg : Config N) (P : PoolConfig w) (c : Custody N w T)

/-- The system before anything has happened, with the pool in memory that holds anything. -/
def start (memory : FramePool w) : Custody N w T where
  pool := .fresh P memory

/-- The loop of `~Scheduler` executes. -/
def tearing : Bool := c.left ≠ [] ∧ ∀ d ∈ c.dying, d.caller ≠ .teardown

/-- User code in scheduler context calls. -/
def user (c' : Custody N w T) : Option (Custody N w T) :=
  if c.world.control.isUser ∧ ¬ c.tearing then some c' else none

/-- The body of the running task executes, and none of the destructors that it runs. -/
def executes : Bool := c.dying.head?.all fun d => d.control ≠ c.world.control

/-- An object can be constructed in the frame. -/
def houses (home : Option Frame) : Bool :=
  home.all fun frame => c.alive frame || frame ∈ c.dying.map Destruction.frame

/-- No object is left in the frame. -/
def empty (frame : Frame) : Bool :=
  (∀ o ∈ c.tasks, o.home = some frame → o.state = .gone) ∧
    ∀ o ∈ c.awaiters, o.home = some frame → o.state = .gone

/-- `destroy()` on a frame that may be null. -/
def destroyIf (frame : Handle) (caller : Destroyer N) : Custody N w T :=
  match frame with
  | none => c
  | some frame => c.destroy frame caller

/-- `promise_type::frame_alloc`; the frame is null if the pool is exhausted. -/
def frameAlloc (size : BitVec w) : Option (Handle × Custody N w T) :=
  match c.pool.pool.allocate P size P.kAlign with
  | none => none
  | some (none, pool) =>
      some (none, { c with pool := { c.pool with pool := pool } }.report .framePoolExhausted)
  | some (some p, pool) => some (some p.toNat, { c with
      pool := ⟨pool, ⟨p, size, P.kAlign⟩ :: c.pool.live⟩
      alive := update c.alive p.toNat true
      uses := c.uses ++ [.construct p.toNat] })

/-- `promise_type::operator delete`. -/
def frameDelete (frame : Frame) : Option (Custody N w T) :=
  let p := BitVec.ofNat w frame
  (c.pool.pool.deallocate P p).map fun (bad, pool) =>
    let c := { c with pool := ⟨pool, c.pool.live.filter fun a => a.ptr ≠ p⟩ }
    if bad then c.report .internalError else c

/-- `start_child`, up to `child.destroy()` where the child is rejected; to destroy a null handle is
undefined.  The running task awaits only where it executes. -/
def startChild (child awaiting : Handle) : Option (Custody N w T) :=
  match c.world.sched.rejection awaiting, child with
  | some _, none => none
  | some .foreign, some frame =>
      c.user ((c.withSched (c.world.sched.record (.destroyed child))).destroy frame
        (.reject .foreign))
  | some (.noSlot parent), some frame =>
      if c.executes then
        c.user ((c.withSched (c.world.sched.record (.destroyed child))).destroy frame
          (.reject (.noSlot parent)))
      else none
  | none, child =>
      match c.world.control with
      | .body s left =>
          if c.executes then
            let sched := (c.world.sched.startChildAwait child awaiting).sched
            c.user (c.withWorld ({ c.world with sched := sched }.suspend s left))
          else none
      | _ => none

/-- What the caller of `destroy()` does when it returns. -/
def resume (d : Destruction N) : Option (Custody N w T) :=
  match d.caller with
  | .assign | .teardown => some c
  | .task i => some (c.setTask i .finish)
  | .awaiter k => some (c.setAwaiter k .finish)
  | .reject r =>
      let sched := c.world.sched.afterReject r
      match r, c.world.control with
      | .noSlot _, .body s left =>
          some (c.withWorld ({ c.world with sched := sched }.suspend s left))
      | .noSlot _, _ => none
      | .foreign, _ => some (c.withSched sched)
  | .pass => (c.world.step cfg .destroyed).map c.withWorld

/-- One step; `none` where the action is not possible. -/
def step : CustodyAction w T → Option (Custody N w T)
  | .create size home =>
      if c.houses home then
        match c.frameAlloc P size with
        | none => none
        | some (handle, c') => c.user (c'.newTask home handle)
      else none
  | .newTask home => if c.houses home then c.user (c.newTask home none) else none
  | .moveTask src home =>
      match (c.task src).value with
      | none => none
      | some handle =>
          if c.houses home then c.user ((c.setTask src (.write none)).newTask home handle)
          else none
  | .assign dst src =>
      match (c.task dst).value, (c.task src).value with
      | some previous, some handle =>
          if dst = src then c.user c
          else
            let assigned := (c.setTask dst (.write handle)).setTask src (.write none)
            c.user (assigned.destroyIf previous .assign)
      | _, _ => none
  | .destroyTask i =>
      match c.task i with
      | .live none => c.user (c.setTask i .vanish)
      | .live (some frame) => c.user ((c.setTask i (.retire none)).destroy frame (.task i))
      | _ => none
  | .coAwait i home =>
      match (c.task i).value with
      | none => none
      | some child =>
          if c.houses home then
            c.user ((c.setTask i (.write none)).newAwaiter home (.ofTask child))
          else none
  | .moveAwaiter src home =>
      match (c.awaiter src).value with
      | none => none
      | some a =>
          if c.houses home then c.user ((c.setAwaiter src (.write a.movedFrom)).newAwaiter home a)
          else none
  | .destroyAwaiter k =>
      match c.awaiter k with
      | .live a =>
          match a.child with
          | none => c.user (c.setAwaiter k .vanish)
          | some frame => c.user ((c.setAwaiter k (.retire a)).destroy frame (.awaiter k))
      | _ => none
  | .await k awaiting =>
      match (c.awaiter k).value with
      | none => none
      | some a =>
          if a.wasEmpty then c.user (c.report .taskAwaitedTwice)
          else (c.setAwaiter k (.write a.movedFrom)).startChild a.child awaiting
  | .createTask i =>
      match (c.task i).value with
      | none => none
      | some handle =>
          let scheduled := c.world.sched.schedule handle
          c.user ((c.setTask i (.write scheduled.task)).withSched scheduled.sched)
  | .finish =>
      match c.world.control with
      | .body s _ =>
          match (c.world.sched.slots s).handle, c.world.step cfg .finish with
          | some frame, some world =>
              if c.executes then some ((c.withWorld world).destroy frame .pass) else none
          | _, _ => none
      | _ => none
  | .returned =>
      match c.dying with
      | [] => none
      | d :: dying =>
          if d.control = c.world.control ∧ c.empty d.frame ∧ ¬ c.tearing then
            match c.frameDelete P d.frame with
            | none => none
            | some c' => { c' with dying := dying }.resume cfg d
          else none
  | .shutDown =>
      if c.world.control = .loop ∧ c.world.sched.shuttingDown = false then
        some { c.withSched { c.world.sched with shuttingDown := true } with
          left := List.finRange N }
      else none
  | .next =>
      match c.left with
      | [] => none
      | s :: left =>
          if c.tearing then
            match c.world.sched.ownedFrame s with
            | none => some { c with left := left }
            | some frame =>
                some ({ c.withSched (c.world.sched.detach s frame) with left := left }.destroy frame
                  .teardown)
          else none
  | .act a =>
      if a.movesFrame ∨ (a.isBody ∧ ¬ c.executes) ∨ (c.tearing ∧ ¬ a.isExternal) then none
      else (c.world.step cfg a).map c.withWorld

theorem user_eq_some {c v c' : Custody N w T} :
    c.user v = some c' ↔ (c.world.control.isUser = true ∧ c.tearing = false) ∧ v = c' := by
  simp [user]

/-- A `TaskAwaiter` that a move or an earlier await has emptied is not awaited. -/
def Fresh (c : Custody N w T) : CustodyAction w T → Prop
  | .await k _ => (c.awaiter k).value.all fun a => a.wasEmpty || a.child.isSome
  | _ => True

/-- No destructor of a `Task` returns while the `Task` owns a frame that the destructors of its
previous one have assigned to it, and no `TaskAwaiter` is moved from or awaited while its destructor
runs. -/
def Sound (c : Custody N w T) : CustodyAction w T → Prop
  | .returned => ∀ d ∈ c.dying.head?, ∀ i ∈ d.caller.task?, (c.task i).handle = none
  | .moveAwaiter k _ | .await k _ => (c.awaiter k).isEnding = false
  | _ => True

instance (c : Custody N w T) : (a : CustodyAction w T) → Decidable (c.Sound a)
  | .returned => inferInstanceAs (Decidable
      (∀ d ∈ c.dying.head?, ∀ i ∈ d.caller.task?, (c.task i).handle = none))
  | .moveAwaiter k _ | .await k _ => inferInstanceAs (Decidable ((c.awaiter k).isEnding = false))
  | .create .. | .newTask _ | .moveTask .. | .assign .. | .destroyTask _ | .coAwait ..
  | .destroyAwaiter _ | .createTask _ | .finish | .shutDown | .next | .act _ => .isTrue trivial

instance (c : Custody N w T) : (a : CustodyAction w T) → Decidable (c.Fresh a)
  | .await k _ => inferInstanceAs (Decidable
      ((c.awaiter k).value.all (fun a => a.wasEmpty || a.child.isSome) = true))
  | .create .. | .newTask _ | .moveTask .. | .assign .. | .destroyTask _ | .coAwait ..
  | .moveAwaiter .. | .destroyAwaiter _ | .createTask _ | .finish | .returned | .shutDown | .next
  | .act _ => .isTrue trivial

end Custody

end SimpleAwait
