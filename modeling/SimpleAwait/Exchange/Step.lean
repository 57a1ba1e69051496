import SimpleAwait.Library.Transition
import SimpleAwait.Primitives.QueueDestruction
import SimpleAwait.System.Places

/-!
# A queue over its whole life

An `Exchange` is one queue with the awaiters that its users create, until all of them are
destroyed.  The system of `System/Step.lean` destroys neither queues nor frames; here both are
destroyed at any moment and in any order, and every awaiter is an object of its own: a frame
that is destroyed while its coroutine is parked, or after it was woken, destroys its awaiter.

A `co_await` takes two actions.  The first runs `await_ready` and `await_suspend`; the other,
`resume`, runs `await_resume`, when the coroutine is resumed or at once if it was not
suspended.  Everything else in the program is the action `elsewhere`, which may do anything to
the scheduler but touch a task that is parked here: it neither resumes nor replaces nor enqueues
it.  `Exchange/Embedding.lean` shows this of the system.

`task`, `sendLeft`, `recvLeft` and `stray` are history variables.
-/

namespace SimpleAwait

open Intrusive

/-- What an awaiter object is; `awaited` while a `co_await` on it has not run `await_resume`. -/
inductive Stage
  | unborn
  | sender (awaited : Bool)
  | receiver (awaited : Bool)
  | destroyed
  deriving DecidableEq

/-- A queue, its awaiters and the scheduler. -/
structure Exchange (N : ℕ) (T : Type) where
  sched : Scheduler N := {}
  queue : Queue N T := {}
  /-- The queue has not been destroyed. -/
  alive : Bool := true
  stage : ℕ → Stage := fun _ => .unborn
  /-- The task that parked in an awaiter. -/
  task : ℕ → Option (Fin N × UInt32) := fun _ => none
  /-- The senders that were destroyed while they were parked. -/
  sendLeft : List ℕ := []
  /-- The receivers that were destroyed while they were parked. -/
  recvLeft : List ℕ := []
  /-- The awaiters whose destructor called the queue after its own had run. -/
  stray : List ℕ := []

/-- What may happen next. -/
inductive ExchangeAction (N : ℕ) (T : Type)
  /-- `send(v)` creates an awaiter. -/
  | send (v : T)
  /-- `receive()` creates an awaiter. -/
  | receive
  /-- `co_await` of a send awaiter by the coroutine `awaiting`. -/
  | awaitSend (a : ℕ) (awaiting : Handle)
  /-- `co_await` of a receive awaiter by the coroutine `awaiting`. -/
  | awaitReceive (a : ℕ) (awaiting : Handle)
  /-- `await_resume`. -/
  | resume (a : ℕ)
  /-- `trySend(v)`. -/
  | trySend (v : T)
  /-- `tryReceive(out)`. -/
  | tryReceive
  /-- The destructor of an awaiter. -/
  | destroyAwaiter (a : ℕ)
  /-- `~Queue`. -/
  | destroyQueue
  /-- The rest of the program. -/
  | elsewhere (change : Scheduler N → Scheduler N)

variable {N : ℕ} {T : Type}

/-- The coroutine that runs is left suspended. -/
def Scheduler.suspendCurrent (c : Scheduler N) : Scheduler N :=
  match c.current with
  | none => c
  | some s => c.afterSuspend s

/-- The slots of the tasks parked on the queue. -/
def Queue.parkedSlots (q : Queue N T) : List (Fin N) :=
  (follow q.sendNext q.fresh q.sendHead).filterMap (fun a => (q.senders a).slot) ++
    (follow q.recvNext q.fresh q.recvHead).filterMap fun a => (q.receivers a).slot

/-- From `c` to `c'` the task in slot `s` was neither replaced nor resumed nor enqueued. -/
def Scheduler.Leaves (c c' : Scheduler N) (s : Fin N) : Prop :=
  c'.taskIn s = c.taskIn s ∧ c'.current ≠ some s ∧
    c.taskIn s ∉ enqueuedTasks (c'.trace.drop c.trace.length)

instance (c c' : Scheduler N) (s : Fin N) : Decidable (c.Leaves c' s) :=
  inferInstanceAs (Decidable (_ ∧ _))

instance (c c' : Scheduler N) (slots : List (Fin N)) : Decidable (∀ s ∈ slots, c.Leaves c' s) :=
  List.decidableBAll _ slots

namespace Exchange

variable (cap : ℕ) (x : Exchange N T)

/-- `co_await` of the send awaiter `a`, up to `await_resume`. -/
def awaitSend (a : ℕ) (awaiting : Handle) : Exchange N T :=
  let x' := { x with stage := Function.update x.stage a (.sender true) }
  match x.queue.sendReady cap a x.sched with
  | (true, c, q) => { x' with sched := c, queue := q }
  | (false, c, q) =>
      match q.parkSender a c awaiting with
      | (true, c, q) => { x' with
          sched := c.suspendCurrent
          queue := q
          task := Function.update x.task a (c.current.map c.taskIn) }
      | (false, c, q) => { x' with sched := c, queue := q }

/-- `co_await` of the receive awaiter `a`, up to `await_resume`. -/
def awaitReceive (a : ℕ) (awaiting : Handle) : Exchange N T :=
  let x' := { x with stage := Function.update x.stage a (.receiver true) }
  match x.queue.receiveReady cap a x.sched with
  | (true, c, q) => { x' with sched := c, queue := q }
  | (false, c, q) =>
      match q.parkReceiver a c awaiting with
      | (true, c, q) => { x' with
          sched := c.suspendCurrent
          queue := q
          task := Function.update x.task a (c.current.map c.taskIn) }
      | (false, c, q) => { x' with sched := c, queue := q }

/-- `await_resume` of the send awaiter `a`. -/
def resumeSender (a : ℕ) : Exchange N T :=
  { x with stage := Function.update x.stage a (.sender false) }

/-- `await_resume` of the receive awaiter `a`. -/
def resumeReceiver (a : ℕ) : Exchange N T :=
  { x with
    queue := (x.queue.receiveResume a).2
    stage := Function.update x.stage a (.receiver false) }

/-- `trySend(v)`. -/
def trySend (v : T) : Exchange N T :=
  let (_, c, q) := x.queue.trySend cap x.sched v
  { x with sched := c, queue := q }

/-- `tryReceive(out)`. -/
def tryReceive : Exchange N T :=
  let (_, c, q) := x.queue.tryReceive cap x.sched
  { x with sched := c, queue := q }

/-- `~SendAwaiter`. -/
def destroySender (a : ℕ) : Exchange N T :=
  let linked := (x.queue.senders a).linked
  { x with
    queue := x.queue.destroySender a
    stage := Function.update x.stage a .destroyed
    sendLeft := if linked then x.sendLeft ++ [a] else x.sendLeft
    stray := if linked && !x.alive then x.stray ++ [a] else x.stray }

/-- `~ReceiveAwaiter`. -/
def destroyReceiver (a : ℕ) : Exchange N T :=
  let linked := (x.queue.receivers a).linked
  { x with
    queue := x.queue.destroyReceiver a
    stage := Function.update x.stage a .destroyed
    recvLeft := if linked then x.recvLeft ++ [a] else x.recvLeft
    stray := if linked && !x.alive then x.stray ++ [a] else x.stray }

/-- `~Queue`. -/
def destroyQueue : Exchange N T :=
  let (c, q) := x.queue.destroy cap x.sched
  { x with sched := c, queue := q, alive := false }

/-- One step; `none` where the action is not possible.  A queue that has been destroyed is not
called any more, except by the destructors of its awaiters. -/
def step : ExchangeAction N T → Option (Exchange N T)
  | .send v =>
      if x.alive then
        let (a, q) := x.queue.newSender v
        some { x with queue := q, stage := Function.update x.stage a (.sender false) }
      else none
  | .receive =>
      if x.alive then
        let (a, q) := x.queue.newReceiver
        some { x with queue := q, stage := Function.update x.stage a (.receiver false) }
      else none
  | .awaitSend a awaiting =>
      if x.alive ∧ x.stage a = .sender false then some (x.awaitSend cap a awaiting) else none
  | .awaitReceive a awaiting =>
      if x.alive ∧ x.stage a = .receiver false then some (x.awaitReceive cap a awaiting) else none
  | .resume a =>
      match x.stage a with
      | .sender true => if (x.queue.senders a).linked then none else some (x.resumeSender a)
      | .receiver true => if (x.queue.receivers a).linked then none else some (x.resumeReceiver a)
      | _ => none
  | .trySend v => if x.alive then some (x.trySend cap v) else none
  | .tryReceive => if x.alive then some (x.tryReceive cap) else none
  | .destroyAwaiter a =>
      match x.stage a with
      | .sender _ => some (x.destroySender a)
      | .receiver _ => some (x.destroyReceiver a)
      | _ => none
  | .destroyQueue => if x.alive then some (x.destroyQueue cap) else none
  | .elsewhere change =>
      let c := change x.sched
      if x.sched.trace <+: c.trace ∧ (x.alive → ∀ s ∈ x.queue.parkedSlots, x.sched.Leaves c s) then
        some { x with sched := c }
      else none

/-- A queue that has just been constructed. -/
def initial : Exchange N T := {}

/-- The exchanges that some run leads to. -/
def Reachable (x : Exchange N T) : Prop := Transition.Reachable (step cap) initial x

/-- The exchange that a run leads to from the initial one. -/
def after (actions : List (ExchangeAction N T)) : Exchange N T :=
  (Transition.run (step cap) initial actions).getD initial

theorem Reachable.after {cap : ℕ} {actions : List (ExchangeAction N T)}
    (h : (Transition.run (step cap) initial actions).isSome = true) :
    Reachable cap (Exchange.after cap actions) := by
  obtain ⟨x, hx⟩ := Option.isSome_iff_exists.mp h
  exact ⟨actions, by rw [Exchange.after, hx, Option.getD_some]⟩

end Exchange

/-- What the rest of the program may do: it creates a task, and a pass starts it. -/
def Scheduler.startNew (frame : Frame) (c : Scheduler N) : Scheduler N :=
  match (c.schedule (some frame)).sched.passPop with
  | .exhausted => c
  | .skipped c' | .resume _ c' => c'

end SimpleAwait
