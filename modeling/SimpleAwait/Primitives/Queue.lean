import SimpleAwait.Library.Lifetimes
import SimpleAwait.Scheduler.Operations

/-!
# `Queue<T, Capacity>`

The bounded FIFO with blocking send and receive (`queue.h`), for payload operations that
neither throw nor reenter the queue.  An awaiter object lives on the frame of the
coroutine that awaits; it is named by a number here, a fresh one for each call of
`send()` and `receive()`.  Raw storage is `none` while no payload is constructed in it,
and copying it copies that.

`history` is a history variable that no operation reads: the values taken out of the
queue with the receiver they went to, the awaiters parked and popped so far, what each
`await_resume` of a receiver returned, and the uses of payload objects.  An operation that
constructs a payload is given the place in the queue that it is copied from; a value that is
passed in from outside has none, and reading it is not a use.
-/

namespace SimpleAwait

open Lifetimes

/-- A place of the queue machinery that can hold a payload object. -/
inductive Storage
  /-- A cell of the ring. -/
  | cell (i : ℕ)
  /-- `value_` of a send awaiter. -/
  | value (a : ℕ)
  /-- `result_storage_` of a receive awaiter. -/
  | result (a : ℕ)
  deriving DecidableEq

/-- The uses of a construction at `p` from the object at `source`, or from one outside. -/
def Storage.copyUses (source : Option Storage) (p : Storage) : List (Use Storage) :=
  (source.map Use.read).toList ++ [.construct p]

/-- `Queue::SendAwaiter`. -/
structure SendAwaiter (N : ℕ) (T : Type) where
  value : Option T := none
  next : Option ℕ := none
  slot : Option (Fin N) := none
  linked : Bool := false

/-- `Queue::ReceiveAwaiter`. -/
structure ReceiveAwaiter (N : ℕ) (T : Type) where
  resultStorage : Option T := none
  hasResult : Bool := false
  next : Option ℕ := none
  slot : Option (Fin N) := none
  linked : Bool := false

/-- The history variable of a queue. -/
structure QueueHistory (T : Type) where
  /-- Values taken out of the queue: by a receiver (its awaiter) or by `tryReceive`. -/
  handed : List (Option ℕ × Option T) := []
  /-- Receivers in parking order. -/
  recvParked : List ℕ := []
  /-- Parked receivers in the order a sender served them. -/
  recvServed : List ℕ := []
  /-- Senders in parking order. -/
  sendParked : List ℕ := []
  /-- Parked senders in the order they were admitted. -/
  sendServed : List ℕ := []
  /-- Results of `ReceiveAwaiter::await_resume`; `none` where it fabricates a `T{}`. -/
  returned : List (ℕ × Option T) := []
  /-- The uses of payload objects, in the order of the code. -/
  uses : List (Use Storage) := []

/-- Append to the uses of payload objects. -/
def QueueHistory.use {T : Type} (h : QueueHistory T) (uses : List (Use Storage)) :
    QueueHistory T := { h with uses := h.uses ++ uses }

section QueueHistory

variable {T : Type} (h : QueueHistory T) (uses : List (Use Storage))

@[simp] theorem QueueHistory.use_handed : (h.use uses).handed = h.handed := rfl
@[simp] theorem QueueHistory.use_recvParked : (h.use uses).recvParked = h.recvParked := rfl
@[simp] theorem QueueHistory.use_recvServed : (h.use uses).recvServed = h.recvServed := rfl
@[simp] theorem QueueHistory.use_sendParked : (h.use uses).sendParked = h.sendParked := rfl
@[simp] theorem QueueHistory.use_sendServed : (h.use uses).sendServed = h.sendServed := rfl
@[simp] theorem QueueHistory.use_returned : (h.use uses).returned = h.returned := rfl
@[simp] theorem QueueHistory.use_uses : (h.use uses).uses = h.uses ++ uses := rfl

end QueueHistory

/-- `Queue`. -/
structure Queue (N : ℕ) (T : Type) where
  cells : ℕ → Option T := fun _ => none
  head : ℕ := 0
  count : ℕ := 0
  sendHead : Option ℕ := none
  sendTail : Option ℕ := none
  recvHead : Option ℕ := none
  recvTail : Option ℕ := none
  senders : ℕ → SendAwaiter N T := fun _ => {}
  receivers : ℕ → ReceiveAwaiter N T := fun _ => {}
  fresh : ℕ := 0
  history : QueueHistory T := {}

namespace Queue

variable {N : ℕ} {T : Type} (q : Queue N T)

/-- Write to one send awaiter. -/
def modifySender (a : ℕ) (f : SendAwaiter N T → SendAwaiter N T) : Queue N T :=
  { q with senders := Function.update q.senders a (f (q.senders a)) }

/-- Write to one receive awaiter. -/
def modifyReceiver (a : ℕ) (f : ReceiveAwaiter N T → ReceiveAwaiter N T) : Queue N T :=
  { q with receivers := Function.update q.receivers a (f (q.receivers a)) }

/-- The links between send awaiters. -/
def sendNext (a : ℕ) : Option ℕ := (q.senders a).next

/-- The links between receive awaiters. -/
def recvNext (a : ℕ) : Option ℕ := (q.receivers a).next

/-- `SendAwaiter(Queue*, const T&)`. -/
def newSender (v : T) : ℕ × Queue N T :=
  (q.fresh, { q.modifySender q.fresh fun _ => { value := some v } with
    fresh := q.fresh + 1
    history := q.history.use [.construct (.value q.fresh)] })

/-- `ReceiveAwaiter(Queue*)`. -/
def newReceiver : ℕ × Queue N T :=
  (q.fresh, { q.modifyReceiver q.fresh fun _ => {} with fresh := q.fresh + 1 })

/-! ## The ring -/

/-- `Queue::next_index`. -/
def nextIndex (capacity i : ℕ) : ℕ := if i + 1 = capacity then 0 else i + 1

/-- `Queue::tail_index`. -/
def tailIndex (capacity : ℕ) : ℕ :=
  let t := q.head + q.count
  if t ≥ capacity then t - capacity else t

/-- `Queue::store_back` of the value at `source`. -/
def storeBack (capacity : ℕ) (value : Option T) (source : Option Storage) : Queue N T :=
  { q with
    cells := Function.update q.cells (q.tailIndex capacity) value
    count := q.count + 1
    history := q.history.use (Storage.copyUses source (.cell (q.tailIndex capacity))) }

/-- `Queue::pop_front_storage`. -/
def popFrontStorage (capacity : ℕ) : Queue N T :=
  { q with
    cells := Function.update q.cells q.head none
    head := nextIndex capacity q.head
    count := q.count - 1
    history := q.history.use [.destroy (.cell q.head)] }

/-! ## Parked awaiters -/

/-- `ReceiveAwaiter::construct_result` with the value at `source`. -/
def constructResult (a : ℕ) (value : Option T) (source : Option Storage) : Queue N T :=
  { q.modifyReceiver a fun r => { r with resultStorage := value, hasResult := true } with
    history := { q.history with
      handed := q.history.handed ++ [(some a, value)]
      uses := q.history.uses ++ Storage.copyUses source (.result a) } }

/-- `Queue::send_pop_front`, for a non-empty list with first awaiter `a`. -/
def sendPopFront (a : ℕ) : Queue N T :=
  let head := (q.senders a).next
  { q.modifySender a fun s => { s with next := none, linked := false } with
    sendHead := head
    sendTail := if head = none then none else q.sendTail
    history := { q.history with sendServed := q.history.sendServed ++ [a] } }

/-- `Queue::recv_pop_front`, for a non-empty list with first awaiter `a`. -/
def recvPopFront (a : ℕ) : Queue N T :=
  let head := (q.receivers a).next
  { q.modifyReceiver a fun r => { r with next := none, linked := false } with
    recvHead := head
    recvTail := if head = none then none else q.recvTail
    history := { q.history with recvServed := q.history.recvServed ++ [a] } }

/-- `Queue::do_send` of the value at `source`. -/
def doSend (capacity : ℕ) (c : Scheduler N) (value : Option T) (source : Option Storage) :
    Bool × Scheduler N × Queue N T :=
  match q.recvHead with
  | some r =>
      let q := (q.recvPopFront r).constructResult r value source
      (true, c.wakeSlot (q.receivers r).slot, q)
  | none =>
      if q.count < capacity then (true, c, q.storeBack capacity value source) else (false, c, q)

/-- `Queue::admit_oldest_sender`. -/
def admitOldestSender (capacity : ℕ) (c : Scheduler N) : Scheduler N × Queue N T :=
  match q.sendHead with
  | none => (c, q)
  | some s =>
      let q := q.sendPopFront s
      (c.wakeSlot (q.senders s).slot, q.storeBack capacity (q.senders s).value (some (.value s)))

/-- What `park_sender` writes to the queue. -/
def linkSender (a : ℕ) (slot : Option (Fin N)) : Queue N T :=
  let q := q.modifySender a fun s => { s with slot := slot, next := none }
  let q :=
    match q.sendTail with
    | none => { q with sendHead := some a }
    | some t => q.modifySender t fun s => { s with next := some a }
  let q := { q with
    sendTail := some a
    history := { q.history with sendParked := q.history.sendParked ++ [a] } }
  q.modifySender a fun s => { s with linked := true }

/-- `Queue::park_sender`. -/
def parkSender (a : ℕ) (c : Scheduler N) (awaiting : Handle) : Bool × Scheduler N × Queue N T :=
  match c.runningIs awaiting with
  | (false, c) => (false, c, q)
  | (true, c) =>
      let (slot, c) := c.parkRunning
      (true, c, q.linkSender a slot)

/-- What `park_receiver` writes to the queue. -/
def linkReceiver (a : ℕ) (slot : Option (Fin N)) : Queue N T :=
  let q := q.modifyReceiver a fun r => { r with slot := slot, next := none }
  let q :=
    match q.recvTail with
    | none => { q with recvHead := some a }
    | some t => q.modifyReceiver t fun r => { r with next := some a }
  let q := { q with
    recvTail := some a
    history := { q.history with recvParked := q.history.recvParked ++ [a] } }
  q.modifyReceiver a fun r => { r with linked := true }

/-- `Queue::park_receiver`. -/
def parkReceiver (a : ℕ) (c : Scheduler N) (awaiting : Handle) :
    Bool × Scheduler N × Queue N T :=
  match c.runningIs awaiting with
  | (false, c) => (false, c, q)
  | (true, c) =>
      let (slot, c) := c.parkRunning
      (true, c, q.linkReceiver a slot)

/-! ## The awaiters and the non-blocking calls -/

/-- `SendAwaiter::await_ready`. -/
def sendReady (capacity a : ℕ) (c : Scheduler N) : Bool × Scheduler N × Queue N T :=
  q.doSend capacity c (q.senders a).value (some (.value a))

/-- `ReceiveAwaiter::await_ready`. -/
def receiveReady (capacity a : ℕ) (c : Scheduler N) : Bool × Scheduler N × Queue N T :=
  if q.count = 0 then (false, c, q)
  else
    let q := q.constructResult a (q.cells q.head) (some (.cell q.head))
    let q := q.popFrontStorage capacity
    let (c, q) := q.admitOldestSender capacity c
    (true, c, q)

/-- `ReceiveAwaiter::await_resume`: what it returns, `none` standing for a fabricated
`T{}`. -/
def receiveResume (a : ℕ) : Option T × Queue N T :=
  let r := q.receivers a
  let result := if r.hasResult then r.resultStorage else none
  let q := { q with history := { q.history with returned := q.history.returned ++ [(a, result)] } }
  if r.hasResult then
    (result, { q.modifyReceiver a fun r => { r with resultStorage := none, hasResult := false } with
      history := q.history.use [.read (.result a), .destroy (.result a)] })
  else (result, q)

/-- `Queue::trySend`. -/
def trySend (capacity : ℕ) (c : Scheduler N) (v : T) : Bool × Scheduler N × Queue N T :=
  q.doSend capacity c (some v) none

/-- The assignment to `out` in `tryReceive`. -/
def assignOut : Queue N T :=
  { q with history := { q.history with
      handed := q.history.handed ++ [(none, q.cells q.head)]
      uses := q.history.uses ++ [.read (.cell q.head)] } }

/-- `Queue::tryReceive`; the value assigned to `out` comes with the result. -/
def tryReceive (capacity : ℕ) (c : Scheduler N) : Option (Option T) × Scheduler N × Queue N T :=
  if q.count = 0 then (none, c, q)
  else
    let out := q.cells q.head
    let (c, q) := (q.assignOut.popFrontStorage capacity).admitOldestSender capacity c
    (some out, c, q)

end Queue

end SimpleAwait
