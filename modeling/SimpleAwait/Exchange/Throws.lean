import SimpleAwait.Exchange.Waiters
import SimpleAwait.Primitives.QueueThrows

/-!
# Exchanges whose payloads throw

A move of an exchange is one of its steps, or a call that an exception of the payload leaves.  The
exception ends the call and nothing else: the awaiter of a `co_await` is destroyed by an action of
its own.
-/

namespace SimpleAwait

/-- A call that constructs or assigns payloads, and how each of these ends. -/
inductive PayloadCall (T : Type)
  /-- `send(v)`, whose construction of `value_` throws. -/
  | send (v : T)
  /-- `await_ready` of a send awaiter. -/
  | awaitSend (a : ℕ) (deliver : Transfer T)
  /-- `await_ready` of a receive awaiter. -/
  | awaitReceive (a : ℕ) (take refill : Transfer T)
  /-- `await_resume` of a receive awaiter. -/
  | resume (a : ℕ) (result : Transfer T)
  | trySend (v : T) (deliver : Transfer T)
  | tryReceive (take refill : Transfer T)

/-- The awaiter of the value that a call sends. -/
def PayloadCall.sender {T : Type} : PayloadCall T → Option ℕ
  | .awaitSend a _ => some a
  | _ => none

/-- What happens next, where payloads may throw. -/
inductive ExchangeMove (N : ℕ) (T : Type)
  | step (action : ExchangeAction N T)
  | throw (call : PayloadCall T)

variable {N : ℕ} {T : Type} {cap : ℕ} {x x' : Exchange N T} {snd rcv : List ℕ}
  {call : PayloadCall T}

namespace Exchange

/-- The exchange after an operation of its queue, where an exception left that. -/
def thrown {α : Type} (x : Exchange N T) :
    Option α × Scheduler N × Queue N T → Option (Exchange N T)
  | (none, c, q) => some { x with sched := c, queue := q }
  | (some _, _) => none

/-- The exchange after a call that an exception left; `none` where no exception leaves it. -/
def throw (cap : ℕ) (x : Exchange N T) : PayloadCall T → Option (Exchange N T)
  | .send _ => if x.alive then some x else none
  | .awaitSend a deliver =>
      if x.alive ∧ x.stage a = .sender false then
        x.thrown (Queue.Throwing.sendReady x.queue cap x.sched a deliver)
      else none
  | .awaitReceive a take refill =>
      if x.alive ∧ x.stage a = .receiver false then
        x.thrown (Queue.Throwing.receiveReady x.queue cap x.sched a take refill)
      else none
  | .resume a result =>
      if x.stage a = .receiver true ∧ (x.queue.receivers a).linked = false then
        { x with stage := Function.update x.stage a (.receiver false) }.thrown
          (Queue.Throwing.receiveResume x.queue x.sched a result)
      else none
  | .trySend v deliver =>
      if x.alive then x.thrown (Queue.Throwing.trySend x.queue cap x.sched v deliver) else none
  | .tryReceive take refill =>
      if x.alive then x.thrown (Queue.Throwing.tryReceive x.queue cap x.sched take refill) else none

/-- One move; `none` where it is not possible. -/
def move (cap : ℕ) (x : Exchange N T) : ExchangeMove N T → Option (Exchange N T)
  | .step action => x.step cap action
  | .throw call => x.throw cap call

/-! ## What a call that throws has done -/

theorem thrown_eq {α : Type} {r : Option α × Scheduler N × Queue N T} (h : x.thrown r = some x') :
    r = (none, x'.sched, x'.queue) ∧ x' = { x with sched := x'.sched, queue := x'.queue } := by
  obtain ⟨result, c, q⟩ := r
  cases result with
  | some result => cases h
  | none =>
      cases h
      exact ⟨rfl, rfl⟩

/-- Where `do_send` is left by an exception. -/
theorem doSend_throws {q q' : Queue N T} {c c' : Scheduler N} {value : Option T}
    {source : Option Storage} {deliver : Transfer T}
    (h : Queue.Throwing.doSend q cap c value source deliver = (none, c', q')) :
    c' = c ∧ (∃ left, deliver = .throws left) ∧
      ((∃ r, q.recvHead = some r ∧ q' = q.recvPopFront r) ∨ q.recvHead = none ∧ q' = q) := by
  unfold Queue.Throwing.doSend at h
  cases hhead : q.recvHead with
  | some r =>
      cases deliver with
      | done => simp [hhead] at h
      | throws left =>
          simp only [hhead, Prod.mk.injEq, true_and] at h
          exact ⟨h.1.symm, ⟨left, rfl⟩, Or.inl ⟨r, rfl, h.2.symm⟩⟩
  | none =>
      cases deliver with
      | done =>
          simp only [hhead] at h
          split_ifs at h <;> cases h
      | throws left =>
          simp only [hhead] at h
          split_ifs at h <;> cases h
          exact ⟨rfl, ⟨left, rfl⟩, Or.inr ⟨rfl, rfl⟩⟩

theorem sendReady_throws {q q' : Queue N T} {c c' : Scheduler N} {a : ℕ} {deliver : Transfer T}
    (h : Queue.Throwing.sendReady q cap c a deliver = (none, c', q')) :
    c' = c ∧ ∃ left q'', q' = q''.modifySender a (fun s => { s with value := left }) ∧
      ((∃ r, q.recvHead = some r ∧ q'' = q.recvPopFront r) ∨ q.recvHead = none ∧ q'' = q) := by
  unfold Queue.Throwing.sendReady at h
  rcases hsend : Queue.Throwing.doSend q cap c (q.senders a).value (some (.value a)) deliver with
    ⟨_ | sent, c'', q''⟩
  · obtain ⟨rfl, ⟨left, rfl⟩, hcases⟩ := doSend_throws hsend
    rw [hsend] at h
    cases h
    exact ⟨rfl, left, q'', rfl, hcases⟩
  · rw [hsend] at h
    cases deliver <;> cases h

/-- Where an operation is left by an exception that leaves `admit_oldest_sender`. -/
theorem admitOldestSender_throws {α : Type} {q q' : Queue N T} {c c' : Scheduler N}
    {refill : Transfer T} {result : α}
    (h : (((Queue.Throwing.admitOldestSender q cap c refill).1.map fun _ => result),
      (Queue.Throwing.admitOldestSender q cap c refill).2.1,
      (Queue.Throwing.admitOldestSender q cap c refill).2.2) = (none, c', q')) :
    ∃ s, q.sendHead = some s ∧ (q'.senders s).linked = false := by
  unfold Queue.Throwing.admitOldestSender at h
  cases hhead : q.sendHead with
  | none => simp [hhead] at h
  | some s =>
      cases refill with
      | done => simp [hhead] at h
      | throws left =>
          simp only [hhead, Prod.mk.injEq] at h
          refine ⟨s, rfl, ?_⟩
          rw [← h.2.2]
          simp [Queue.sendPopFront, Queue.modifySender]

/-- Where an exception leaves a call that takes the oldest value: there, or when the next sender
is admitted. -/
theorem receiveReady_throws {q q' : Queue N T} {c c' : Scheduler N} {a : ℕ} {take refill : Transfer T}
    (h : Queue.Throwing.receiveReady q cap c a take refill = (none, c', q')) :
    0 < q.count ∧ (∀ left, take = .throws left → c' = c ∧ q' = Queue.Throwing.leaveFront q left) ∧
      (take = .done → ∃ s, q.sendHead = some s ∧ (q'.senders s).linked = false) := by
  unfold Queue.Throwing.receiveReady at h
  split_ifs at h with hcount
  · cases h
  · refine ⟨by omega, ?_, ?_⟩
    · rintro left rfl
      cases h
      exact ⟨rfl, rfl⟩
    · rintro rfl
      dsimp only at h
      obtain ⟨s, hhead, hlinked⟩ := admitOldestSender_throws h
      exact ⟨s, hhead, hlinked⟩

theorem tryReceive_throws {q q' : Queue N T} {c c' : Scheduler N} {take refill : Transfer T}
    (h : Queue.Throwing.tryReceive q cap c take refill = (none, c', q')) :
    0 < q.count ∧ (∀ left, take = .throws left → c' = c ∧ q' = Queue.Throwing.leaveFront q left) ∧
      (take = .done → ∃ s, q.sendHead = some s ∧ (q'.senders s).linked = false) := by
  unfold Queue.Throwing.tryReceive at h
  split_ifs at h with hcount
  · cases h
  · refine ⟨by omega, ?_, ?_⟩
    · rintro left rfl
      cases h
      exact ⟨rfl, rfl⟩
    · rintro rfl
      dsimp only at h
      obtain ⟨s, hhead, hlinked⟩ := admitOldestSender_throws h
      exact ⟨s, hhead, hlinked⟩

end Exchange

end SimpleAwait
