import SimpleAwait.Primitives.Queue

/-!
# Destroying a queue and its awaiters

The destructors of `queue.h`.  An awaiter that is destroyed while it is linked takes itself out
of its list, which is walked from the head; a queue that is destroyed first clears the
`linked_` flags of its awaiters, so that their destructors leave it alone.
-/

namespace SimpleAwait

open Intrusive

namespace Queue

variable {N : ℕ} {T : Type} (q : Queue N T)

/-! ## Awaiters -/

/-- Make the node before, or the head, point to `next`. -/
def skipSender (prev next : Option ℕ) : Queue N T :=
  match prev with
  | none => { q with sendHead := next }
  | some p => q.modifySender p fun s => { s with next := next }

/-- `Queue::unlink_sender`.  Every awaiter has a number below `fresh`, so a walk of as many
nodes reaches the end of the list. -/
def unlinkSender (a : ℕ) : Queue N T :=
  let q :=
    match before q.sendNext a q.fresh none q.sendHead with
    | none => q
    | some prev =>
        let q := q.skipSender prev (q.senders a).next
        if q.sendTail = some a then { q with sendTail := prev } else q
  q.modifySender a fun s => { s with next := none, linked := false }

/-- Make the node before, or the head, point to `next`. -/
def skipReceiver (prev next : Option ℕ) : Queue N T :=
  match prev with
  | none => { q with recvHead := next }
  | some p => q.modifyReceiver p fun r => { r with next := next }

/-- `Queue::unlink_receiver`. -/
def unlinkReceiver (a : ℕ) : Queue N T :=
  let q :=
    match before q.recvNext a q.fresh none q.recvHead with
    | none => q
    | some prev =>
        let q := q.skipReceiver prev (q.receivers a).next
        if q.recvTail = some a then { q with recvTail := prev } else q
  q.modifyReceiver a fun r => { r with next := none, linked := false }

/-- The destruction of `value_`, a member of `SendAwaiter`. -/
def destroyValue (a : ℕ) : Queue N T :=
  { q.modifySender a fun s => { s with value := none } with
    history := q.history.use [.destroy (.value a)] }

/-- `~SendAwaiter`, with the destruction of its members. -/
def destroySender (a : ℕ) : Queue N T :=
  (if (q.senders a).linked then q.unlinkSender a else q).destroyValue a

/-- `if (has_result_) result_ptr()->~T()`. -/
def destroyResult (a : ℕ) : Queue N T :=
  if (q.receivers a).hasResult then
    { q.modifyReceiver a fun r => { r with resultStorage := none } with
      history := q.history.use [.destroy (.result a)] }
  else q

/-- `~ReceiveAwaiter`. -/
def destroyReceiver (a : ℕ) : Queue N T :=
  (if (q.receivers a).linked then q.unlinkReceiver a else q).destroyResult a

/-! ## The queue -/

/-- The first loop of `~Queue`, for at most `fuel` nodes. -/
def detachSenders : ℕ → Option ℕ → Queue N T → Queue N T
  | 0, _, q => q
  | _ + 1, none, q => q
  | fuel + 1, some s, q =>
      detachSenders fuel (q.senders s).next (q.modifySender s fun x => { x with linked := false })

/-- The second loop of `~Queue`, for at most `fuel` nodes. -/
def detachReceivers : ℕ → Option ℕ → Queue N T → Queue N T
  | 0, _, q => q
  | _ + 1, none, q => q
  | fuel + 1, some r, q =>
      detachReceivers fuel (q.receivers r).next
        (q.modifyReceiver r fun x => { x with linked := false })

/-- `while (count_ > 0) pop_front_storage()`, for `n` buffered values. -/
def destroyCells (capacity : ℕ) : ℕ → Queue N T → Queue N T
  | 0, q => q
  | n + 1, q => destroyCells capacity n (q.popFrontStorage capacity)

/-- `Queue::~Queue`. -/
def destroy (capacity : ℕ) (c : Scheduler N) : Scheduler N × Queue N T :=
  let q := detachSenders q.fresh q.sendHead q
  let q := detachReceivers q.fresh q.recvHead q
  let c :=
    if q.sendHead ≠ none ∨ q.recvHead ≠ none then c.report .objectDestroyedWithWaiters else c
  (c, destroyCells capacity q.count q)

end Queue

end SimpleAwait
