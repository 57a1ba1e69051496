import SimpleAwait.Exchange.Throws
import SimpleAwait.Properties.QueueWaiters

/-!
# Payloads that throw

A call of a queue that an exception of the payload leaves is to leave the queue and its waiters
alone, but for the value that is sent.  It does so where the value is stored and where the oldest
value is taken out.  It does not where the first waiter has left its list already, for a receiver
that is handed the value or a sender that is admitted, nor where `receive()` moves its result out.
-/

namespace SimpleAwait

open Transition

variable {N : ℕ} {T : Type} {cap : ℕ} {x x' : Exchange N T} {snd rcv : List ℕ}
  {call : PayloadCall T}

namespace Exchange

/-- From `x` to `x'` an exception that left the call has done no harm. -/
structure Harmless (cap : ℕ) (call : PayloadCall T) (x x' : Exchange N T) : Prop where
  /-- The count and the lists of waiters are as before. -/
  stored : ∀ p, x.queue.Stores p → x'.queue.Stores p
  /-- So is the ring. -/
  ring : x'.queue.buffered cap = x.queue.buffered cap
  /-- No awaiter loses the value that it sends or was handed, but for the one of this call. -/
  values : ∀ a, call.sender ≠ some a → (x'.queue.senders a).value = (x.queue.senders a).value
  results : ∀ a, (x.queue.receivers a).hasResult = true →
    (x'.queue.receivers a).hasResult = true ∧
      (x'.queue.receivers a).resultStorage = (x.queue.receivers a).resultStorage
  /-- No waiter leaves its list without being enqueued. -/
  woken : ∀ a, x.Parked a → x'.Parked a ∨
    ∃ t, x.task a = some t ∧ t ∈ enqueuedTasks (x'.sched.trace.drop x.sched.trace.length)
  /-- What later operations rely on holds as before. -/
  kept : ∀ snd rcv, Inv cap x snd rcv → Inv cap x' snd rcv

/-- An exception in the move does no harm. -/
def HarmlessMove (cap : ℕ) (x : Exchange N T) (m : ExchangeMove N T) : Prop :=
  ∀ call x', m = .throw call → x.throw cap call = some x' → x.Harmless cap call x'

/-- The payload operations that may throw in a call: those before the first waiter has left its
list, and while no result is held.  One that reads the oldest value leaves it as it was. -/
def Spared (x : Exchange N T) : PayloadCall T → Prop
  | .send _ => True
  | .awaitSend _ _ | .trySend _ _ => x.queue.recvHead = none
  | .awaitReceive _ take _ | .tryReceive take _ => take = .throws (x.queue.cells x.queue.head)
  | .resume a _ => (x.queue.receivers a).hasResult = false

/-- An exception in the move is one that is spared. -/
def SparedMove (cap : ℕ) (x : Exchange N T) (m : ExchangeMove N T) : Prop :=
  ∀ call, m = .throw call → x.throw cap call ≠ none → x.Spared call

theorem Harmless.refl (cap : ℕ) (call : PayloadCall T) (x : Exchange N T) :
    x.Harmless cap call x where
  stored _ hp := hp
  ring := rfl
  values _ _ := rfl
  results _ ha := ⟨ha, rfl⟩
  woken _ ha := Or.inl ha
  kept _ _ h := h

/-- The value of an awaiter that is not parked is spoilt. -/
theorem Harmless.spoil (x : Exchange N T) (a : ℕ) (deliver : Transfer T) (left : Option T) :
    x.Harmless cap (.awaitSend a deliver)
      { x with queue := x.queue.modifySender a fun s => { s with value := left } } := by
  have hnext : (x.queue.modifySender a fun s => { s with value := left }).sendNext =
      x.queue.sendNext := by
    funext b
    by_cases hb : b = a <;> simp [Queue.sendNext, Queue.modifySender, hb]
  have hlinked : ∀ b, ((x.queue.modifySender a fun s => { s with value := left }).senders b).linked =
      (x.queue.senders b).linked := by
    intro b
    by_cases hb : b = a <;> simp [Queue.modifySender, hb]
  refine ⟨fun p hp => ?_, rfl, fun b hb => ?_, fun b hb => ⟨hb, rfl⟩, fun b hb => Or.inl ?_,
    fun snd rcv h => ?_⟩
  · refine ⟨?_, hp.receivers, fun b => ?_, hp.recvLinked, hp.count⟩
    · rw [hnext]
      exact hp.senders
    · rw [hlinked]
      exact hp.sendLinked b
  · have hba : b ≠ a := fun he => hb (congrArg some he.symm)
    simp [Queue.modifySender, hba]
  · unfold Parked at hb ⊢
    rw [hlinked]
    exact hb
  · refine ⟨fun halive => ?_, h.gone, fun b => ?_, h.recvLinked, h.unborn, h.senders, h.receivers,
      h.idle⟩
    · have hwaiting := h.waiting halive
      refine ⟨?_, hwaiting.recv, fun b => ?_, hwaiting.recvLinked, hwaiting.named, hwaiting.unheld,
        hwaiting.head_lt, hwaiting.count_le, hwaiting.full, hwaiting.empty⟩
      · rw [hnext]
        exact hwaiting.send
      · rw [hlinked]
        exact hwaiting.sendLinked b
    · rw [hlinked]
      exact h.sendLinked b

/-- An awaiter without a result, which is not parked, is awaited no more. -/
theorem Harmless.resume {a : ℕ} {result : Transfer T} (hstage : x.stage a = .receiver true)
    (hlinked : (x.queue.receivers a).linked = false)
    (hresult : (x.queue.receivers a).hasResult = false) :
    x.Harmless cap (.resume a result)
      { x with stage := Function.update x.stage a (.receiver false) } where
  stored _ hp := hp
  ring := rfl
  values _ _ := rfl
  results _ ha := ⟨ha, rfl⟩
  woken _ ha := Or.inl ha
  kept snd rcv h := by
    have hrcv : a ∉ rcv := by
      intro ha
      rw [(h.recvLinked a).mpr ha] at hlinked
      cases hlinked
    exact h.restage (by simp [hstage]) (h.not_mem_senders (by simp [hstage])) hrcv
      (fun _ => hresult) x.sched

theorem leaveFront_self (q : Queue N T) : Queue.Throwing.leaveFront q (q.cells q.head) = q := by
  unfold Queue.Throwing.leaveFront
  rw [Function.update_eq_self]

/-- An exception where it does no harm. -/
theorem Spared.harmless (h : x.Spared call) (hthrow : x.throw cap call = some x') :
    x.Harmless cap call x' := by
  cases call with
  | send v =>
      simp only [throw] at hthrow
      split_ifs at hthrow
      cases hthrow
      exact .refl cap _ x
  | awaitSend a deliver =>
      simp only [throw] at hthrow
      split_ifs at hthrow
      obtain ⟨hready, hx'⟩ := thrown_eq hthrow
      obtain ⟨hsched, left, q'', hqueue, ⟨r, hhead, -⟩ | ⟨-, rfl⟩⟩ := sendReady_throws hready
      · cases hhead.symm.trans h
      · rw [hx', hsched, hqueue]
        exact .spoil x a deliver left
  | awaitReceive a take refill =>
      simp only [throw] at hthrow
      split_ifs at hthrow
      obtain ⟨hready, hx'⟩ := thrown_eq hthrow
      obtain ⟨hsched, hqueue⟩ := (receiveReady_throws hready).2.1 _ h
      rw [leaveFront_self] at hqueue
      rw [hx', hsched, hqueue]
      exact .refl cap _ x
  | resume a result =>
      simp only [throw] at hthrow
      split_ifs at hthrow with hstage
      have hresult : (x.queue.receivers a).hasResult = false := h
      obtain ⟨hready, hx'⟩ := thrown_eq hthrow
      cases result with
      | done => simp [Queue.Throwing.receiveResume] at hready
      | throws left =>
          simp only [Queue.Throwing.receiveResume, hresult, Bool.false_eq_true, if_false,
            Prod.mk.injEq, true_and] at hready
          rw [hx', ← hready.1, ← hready.2]
          exact .resume hstage.1 hstage.2 hresult
  | trySend v deliver =>
      simp only [throw] at hthrow
      split_ifs at hthrow
      obtain ⟨hready, hx'⟩ := thrown_eq hthrow
      obtain ⟨hsched, -, ⟨r, hhead, -⟩ | ⟨-, hqueue⟩⟩ := doSend_throws hready
      · cases hhead.symm.trans h
      · rw [hx', hsched, hqueue]
        exact .refl cap _ x
  | tryReceive take refill =>
      simp only [throw] at hthrow
      split_ifs at hthrow
      obtain ⟨hready, hx'⟩ := thrown_eq hthrow
      obtain ⟨hsched, hqueue⟩ := (tryReceive_throws hready).2.1 _ h
      rw [leaveFront_self] at hqueue
      rw [hx', hsched, hqueue]
      exact .refl cap _ x

/-! ## Every other exception does harm -/

/-- A receiver that is in its list stays in it. -/
theorem Harmless.receiver_kept (h : x.Harmless cap call x') (hwaiting : Waiting cap x.queue snd rcv)
    {r : ℕ} (hhead : x.queue.recvHead = some r) : (x'.queue.receivers r).linked = true := by
  have hstored := hwaiting.stores
  obtain ⟨rest, rfl, -⟩ := (hhead ▸ hwaiting.recv.linked).exists_cons
  exact ((h.stored _ hstored).recvLinked r).mpr (List.mem_cons_self ..)

/-- A sender that is in its list stays in it. -/
theorem Harmless.sender_kept (h : x.Harmless cap call x') (hwaiting : Waiting cap x.queue snd rcv)
    {s : ℕ} (hhead : x.queue.sendHead = some s) : (x'.queue.senders s).linked = true := by
  have hstored := hwaiting.stores
  obtain ⟨rest, rfl, -⟩ := (hhead ▸ hwaiting.send.linked).exists_cons
  exact ((h.stored _ hstored).sendLinked s).mpr (List.mem_cons_self ..)

/-- Where the ring is as before, the oldest value is. -/
theorem leaveFront_harmless (hwaiting : Waiting cap x.queue snd rcv) (hcount : 0 < x.queue.count)
    {left : Option T} (hqueue : x'.queue = Queue.Throwing.leaveFront x.queue left)
    (hring : x'.queue.buffered cap = x.queue.buffered cap) : left = x.queue.cells x.queue.head := by
  obtain ⟨n, hn⟩ : ∃ n, x.queue.count = n + 1 := ⟨x.queue.count - 1, by omega⟩
  have hle : n + 1 ≤ cap := hn ▸ hwaiting.count_le
  rw [hqueue] at hring
  simp only [Queue.buffered, Queue.Throwing.leaveFront, hn] at hring
  rw [Ring.contents_pop hwaiting.head_lt hle _ left, Ring.contents_pop hwaiting.head_lt hle _ left]
    at hring
  simpa using (List.cons.inj hring).1

/-- An exception that does no harm. -/
theorem Inv.spared (h : Inv cap x snd rcv) (hthrow : x.throw cap call = some x')
    (hharmless : x.Harmless cap call x') : x.Spared call := by
  cases call with
  | send v => trivial
  | awaitSend a deliver =>
      simp only [throw] at hthrow
      split_ifs at hthrow with hready
      obtain ⟨hthrows, -⟩ := thrown_eq hthrow
      obtain ⟨-, left, q'', hqueue, ⟨r, hhead, hpop⟩ | ⟨hnone, -⟩⟩ := sendReady_throws hthrows
      · have hlinked := hharmless.receiver_kept (h.waiting hready.1) hhead
        rw [hqueue, hpop] at hlinked
        simp [Queue.modifySender, Queue.recvPopFront, Queue.modifyReceiver] at hlinked
      · exact hnone
  | awaitReceive a take refill =>
      simp only [throw] at hthrow
      split_ifs at hthrow with hready
      obtain ⟨hthrows, -⟩ := thrown_eq hthrow
      obtain ⟨hcount, hleft, hrefill⟩ := receiveReady_throws hthrows
      cases take with
      | throws left =>
          rw [leaveFront_harmless (h.waiting hready.1) hcount (hleft left rfl).2 hharmless.ring]
          rfl
      | done =>
          obtain ⟨s, hhead, hunlinked⟩ := hrefill rfl
          rw [hharmless.sender_kept (h.waiting hready.1) hhead] at hunlinked
          cases hunlinked
  | resume a result =>
      simp only [throw] at hthrow
      split_ifs at hthrow
      obtain ⟨hthrows, -⟩ := thrown_eq hthrow
      by_contra hheld
      have hresult : (x.queue.receivers a).hasResult = true := by
        simpa [Spared] using hheld
      cases result with
      | done => simp [Queue.Throwing.receiveResume] at hthrows
      | throws left =>
          simp only [Queue.Throwing.receiveResume, hresult, if_true, Prod.mk.injEq, true_and]
            at hthrows
          have hkept := (hharmless.results a hresult).1
          rw [← hthrows.2] at hkept
          simp [Queue.modifyReceiver] at hkept
  | trySend v deliver =>
      simp only [throw] at hthrow
      split_ifs at hthrow with halive
      obtain ⟨hthrows, -⟩ := thrown_eq hthrow
      obtain ⟨-, -, ⟨r, hhead, hpop⟩ | ⟨hnone, -⟩⟩ := doSend_throws hthrows
      · have hlinked := hharmless.receiver_kept (h.waiting halive) hhead
        rw [hpop] at hlinked
        simp [Queue.recvPopFront, Queue.modifyReceiver] at hlinked
      · exact hnone
  | tryReceive take refill =>
      simp only [throw] at hthrow
      split_ifs at hthrow with halive
      obtain ⟨hthrows, -⟩ := thrown_eq hthrow
      obtain ⟨hcount, hleft, hrefill⟩ := tryReceive_throws hthrows
      cases take with
      | throws left =>
          rw [leaveFront_harmless (h.waiting halive) hcount (hleft left rfl).2 hharmless.ring]
          rfl
      | done =>
          obtain ⟨s, hhead, hunlinked⟩ := hrefill rfl
          rw [hharmless.sender_kept (h.waiting halive) hhead] at hunlinked
          cases hunlinked

theorem Inv.harmlessMove_iff (h : Inv cap x snd rcv) {m : ExchangeMove N T} :
    x.HarmlessMove cap m ↔ x.SparedMove cap m := by
  constructor
  · intro hharmless call hm hthrow
    obtain ⟨x', hx'⟩ := Option.ne_none_iff_exists'.mp hthrow
    exact h.spared hx' (hharmless call x' hm hx')
  · intro hspared call x' hm hx'
    exact (hspared call hm (by simp [hx'])).harmless hx'

/-- The invariant is kept by every move that does no harm. -/
theorem Inv.move (h : Inv cap x snd rcv) {m : ExchangeMove N T} (hharmless : x.HarmlessMove cap m)
    (hmove : x.move cap m = some x') : ∃ snd' rcv', Inv cap x' snd' rcv' := by
  cases m with
  | step action =>
      obtain ⟨snd', rcv', hchange⟩ := h.step_change hmove
      exact ⟨snd', rcv', h.change hchange⟩
  | throw call => exact ⟨snd, rcv, (hharmless call x' rfl hmove).kept snd rcv h⟩

end Exchange

/-- Along every run no exception of a payload does harm exactly if every one is spared: it hits the
construction of the value that is sent while no receiver waits, or the taking of the oldest value,
which it leaves as it was, or the result of a `receive()` that has none. -/
theorem throws_harmless_iff (hcap : 0 < cap) (moves : List (ExchangeMove N T)) :
    Along (Exchange.move cap) (Exchange.HarmlessMove cap) Exchange.initial moves ↔
      Along (Exchange.move cap) (Exchange.SparedMove cap) Exchange.initial moves := by
  refine Along.congr (fun x => ∃ snd rcv, Exchange.Inv cap x snd rcv) ⟨[], [], .initial hcap⟩ ?_ ?_
  · rintro x m x' ⟨snd, rcv, h⟩ hharmless hmove
    exact h.move hharmless hmove
  · rintro x m ⟨snd, rcv, h⟩
    exact h.harmlessMove_iff

/-- A value is stored, and an exception that copies it out leaves it in its cell. -/
theorem throws_harmless_small :
    Along (Exchange.move 1) (Exchange.HarmlessMove 1) (Exchange.initial : Exchange 2 ℕ)
      [.step (.trySend 5), .throw (.tryReceive (.throws (some 5)) .done)] := by
  refine (throws_harmless_iff Nat.one_pos _).mpr ⟨?_, fun x hx => ⟨?_, fun _ _ => trivial⟩⟩
  · rintro call hcall
    cases hcall
  · rintro call hcall -
    cases hcall
    cases hx
    rfl

/-- A receiver that is to be handed a value has left its list and is not enqueued; so has a sender
that is to be admitted; and a received value is lost. -/
theorem waiter_stranded_by_throw :
    let harmed := fun (actions : List (ExchangeAction 2 ℕ)) (call : PayloadCall ℕ) =>
      ∃ x x' : Exchange 2 ℕ, x.Reachable 1 ∧ run (Exchange.step 1) Exchange.initial actions = some x ∧
        x.throw 1 call = some x' ∧ ¬ x.Harmless 1 call x'
    harmed [.receive, .elsewhere (Scheduler.startNew 1), .awaitReceive 0 (some 1)]
        (.trySend 7 (.throws (some 7))) ∧
      harmed [.trySend 5, .send 7, .elsewhere (Scheduler.startNew 1), .awaitSend 0 (some 1)]
        (.tryReceive .done (.throws (some 7))) ∧
      harmed [.trySend 5, .receive, .awaitReceive 0 none] (.resume 0 (.throws (some 5))) := by
  intro harmed
  have hharmed : ∀ actions call, ((run (Exchange.step 1) Exchange.initial actions).bind
      fun x : Exchange 2 ℕ => (x.throw 1 call).map fun x' => decide (
        x.Parked 0 ∧ ¬ x'.Parked 0 ∧ enqueuedTasks (x'.sched.trace.drop x.sched.trace.length) = [] ∨
          (x.queue.receivers 0).hasResult = true ∧ (x'.queue.receivers 0).hasResult = false)) =
        some true → harmed actions call := by
    intro actions call hrun
    obtain ⟨x, hx, hthrow⟩ := Option.bind_eq_some_iff.mp hrun
    obtain ⟨x', hx', hfacts⟩ := Option.map_eq_some_iff.mp hthrow
    refine ⟨x, x', ⟨actions, hx⟩, hx, hx', fun hharmless => ?_⟩
    rcases decide_eq_true_iff.mp hfacts with ⟨hparked, hleft, hquiet⟩ | ⟨hheld, hlost⟩
    · obtain hkept | ⟨t, -, hwoken⟩ := hharmless.woken 0 hparked
      · exact hleft hkept
      · simp [hquiet] at hwoken
    · rw [(hharmless.results 0 hheld).1] at hlost
      cases hlost
  exact ⟨hharmed _ _ (by decide), hharmed _ _ (by decide), hharmed _ _ (by decide)⟩

end SimpleAwait
