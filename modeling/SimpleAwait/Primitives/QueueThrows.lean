import SimpleAwait.Primitives.Queue

/-!
# Queue operations whose payloads throw

The operations of `queue.h` for payloads whose constructors and assignments may throw.  Each
construction or assignment of an operation is given how it ends, as a `Transfer`; the result of
an operation that an exception leaves is `none`, with the state at the throw.  Where no transfer
throws, the operations are those of `Primitives/Queue.lean`.

`move_if_noexcept` copies a payload whose move constructor may throw, unless it has no copy
constructor, and an assignment may throw after it has changed its source.  So a transfer that throws
also says what it left in the object that it read.  It constructs nothing, and `history` does not
list it among the uses of payload objects.
-/

namespace SimpleAwait

/-- How a construction or assignment of a payload ends. -/
inductive Transfer (T : Type)
  | done
  /-- It throws, and leaves `left` in the object that it read. -/
  | throws (left : Option T)

namespace Queue

variable {N : ℕ} {T : Type}

/-- An operation that no exception left. -/
def completed {α β : Type} (r : α × β) : Option α × β := (some r.1, r.2)

namespace Throwing

variable (q : Queue N T) (capacity : ℕ) (c : Scheduler N)

/-! ## The operations -/

/-- `Queue::do_send`. -/
def doSend (value : Option T) (source : Option Storage) (deliver : Transfer T) :
    Option Bool × Scheduler N × Queue N T :=
  match q.recvHead with
  | some r =>
      let q := q.recvPopFront r
      match deliver with
      | .throws _ => (none, c, q)
      | .done =>
          let q := q.constructResult r value source
          (some true, c.wakeSlot (q.receivers r).slot, q)
  | none =>
      if q.count < capacity then
        match deliver with
        -- `store_back` counts the value after its construction
        | .throws _ => (none, c, q)
        | .done => (some true, c, q.storeBack capacity value source)
      else (some false, c, q)

/-- `Queue::admit_oldest_sender`. -/
def admitOldestSender (refill : Transfer T) : Option Unit × Scheduler N × Queue N T :=
  match q.sendHead with
  | none => (some (), c, q)
  | some s =>
      let q := q.sendPopFront s
      match refill with
      | .throws left => (none, c, q.modifySender s fun x => { x with value := left })
      | .done => (some (), c.wakeSlot (q.senders s).slot,
          q.storeBack capacity (q.senders s).value (some (.value s)))

/-- `SendAwaiter::await_ready`. -/
def sendReady (a : ℕ) (deliver : Transfer T) : Option Bool × Scheduler N × Queue N T :=
  match doSend q capacity c (q.senders a).value (some (.value a)) deliver, deliver with
  | (none, c, q), .throws left => (none, c, q.modifySender a fun x => { x with value := left })
  | r, _ => r

/-- What a transfer that throws leaves in the cell of the oldest value. -/
def leaveFront (left : Option T) : Queue N T :=
  { q with cells := Function.update q.cells q.head left }

/-- `ReceiveAwaiter::await_ready`. -/
def receiveReady (a : ℕ) (take refill : Transfer T) : Option Bool × Scheduler N × Queue N T :=
  if q.count = 0 then (some false, c, q)
  else
    match take with
    | .throws left => (none, c, leaveFront q left)
    | .done =>
        let q := q.constructResult a (q.cells q.head) (some (.cell q.head))
        let q := q.popFrontStorage capacity
        let (admitted, c, q) := admitOldestSender q capacity c refill
        (admitted.map fun _ => true, c, q)

/-- `ReceiveAwaiter::await_resume`: `ResultGuard` destroys the result also where the construction
of the value that is returned throws. -/
def receiveResume (a : ℕ) (result : Transfer T) : Option (Option T) × Scheduler N × Queue N T :=
  match result with
  | .done => (some (q.receiveResume a).1, c, (q.receiveResume a).2)
  | .throws _ =>
      (none, c,
        if (q.receivers a).hasResult then
          { q.modifyReceiver a fun r => { r with resultStorage := none, hasResult := false } with
            history := q.history.use [.destroy (.result a)] }
        else q)

/-- `Queue::trySend`. -/
def trySend (v : T) (deliver : Transfer T) : Option Bool × Scheduler N × Queue N T :=
  doSend q capacity c (some v) none deliver

/-- `Queue::tryReceive`; the value assigned to `out` comes with the result. -/
def tryReceive (take refill : Transfer T) : Option (Option (Option T)) × Scheduler N × Queue N T :=
  if q.count = 0 then (some none, c, q)
  else
    match take with
    | .throws left => (none, c, leaveFront q left)
    | .done =>
        let out := q.cells q.head
        let q := q.assignOut.popFrontStorage capacity
        let (admitted, c, q) := admitOldestSender q capacity c refill
        (admitted.map fun _ => some out, c, q)

/-! ## Nothing throws -/

theorem doSend_done (value : Option T) (source : Option Storage) :
    doSend q capacity c value source .done = completed (q.doSend capacity c value source) := by
  unfold doSend Queue.doSend
  cases q.recvHead with
  | some r => rfl
  | none =>
      dsimp only
      split_ifs <;> rfl

theorem sendReady_done (a : ℕ) :
    sendReady q capacity c a .done = completed (q.sendReady capacity a c) := by
  unfold sendReady
  rw [doSend_done]
  rfl

theorem trySend_done (v : T) :
    trySend q capacity c v .done = completed (q.trySend capacity c v) :=
  doSend_done q capacity c (some v) none

theorem admitOldestSender_done : admitOldestSender q capacity c .done =
    (some (), q.admitOldestSender capacity c) := by
  unfold admitOldestSender Queue.admitOldestSender
  cases q.sendHead <;> rfl

theorem receiveReady_done (a : ℕ) :
    receiveReady q capacity c a .done .done = completed (q.receiveReady capacity a c) := by
  unfold receiveReady Queue.receiveReady
  simp only [admitOldestSender_done]
  split_ifs <;> rfl

theorem receiveResume_done (a : ℕ) : receiveResume q c a .done =
    (some (q.receiveResume a).1, c, (q.receiveResume a).2) := rfl

theorem tryReceive_done :
    tryReceive q capacity c .done .done = completed (q.tryReceive capacity c) := by
  unfold tryReceive Queue.tryReceive
  simp only [admitOldestSender_done]
  split_ifs <;> rfl

end Throwing

end Queue

end SimpleAwait
