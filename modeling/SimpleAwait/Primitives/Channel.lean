import SimpleAwait.Library.RingBuffer
import SimpleAwait.Primitives.Queue

/-!
# The queue as a channel

What a `Queue` stores is described by the list `snd` of its parked senders, the list `rcv`
of its parked receivers and the sequence `sent` of the values that were accepted or parked.
`Stock` says that the pointers thread these lists and that `sent` is what has been handed
out, followed by the ring and by the values of the parked senders.  `Results` follows
every value that was handed to a receiver until `await_resume` returns it.  Both hold in the
middle of an operation too; between two operations the queue is a `Channel`, where a parked
sender means a full ring and a parked receiver an empty one.

The pieces that the operations are made of keep `Stock` and `Results`, and the operations
keep `Channel`.
-/

namespace SimpleAwait

open Intrusive

variable {N : ℕ} {T : Type}

namespace Queue

/-- The buffered values in ring order. -/
def buffered (cap : ℕ) (q : Queue N T) : List (Option T) := Ring.contents cap q.cells q.head q.count

/-- `park_sender` appends to the list as a push of an intrusive queue does. -/
theorem linkSender_eq (q : Queue N T) (a : ℕ) (slot : Option (Fin N)) : q.linkSender a slot =
    { q with
      senders := fun b =>
        { value := (q.senders b).value
          next := pushNext q.sendNext q.sendTail a b
          slot := if b = a then slot else (q.senders b).slot
          linked := if b = a then true else (q.senders b).linked }
      sendHead := pushHead q.sendHead q.sendTail a
      sendTail := some a
      history := { q.history with sendParked := q.history.sendParked ++ [a] } } := by
  cases htail : q.sendTail with
  | none =>
      simp only [linkSender, modifySender, htail, pushNext, pushHead, Queue.mk.injEq, and_true,
        true_and]
      funext b
      by_cases hb : b = a <;> simp [hb, sendNext]
  | some t =>
      simp only [linkSender, modifySender, htail, pushNext, pushHead, Queue.mk.injEq, and_true,
        true_and]
      funext b
      by_cases hb : b = a <;> by_cases ht : b = t <;> simp_all [sendNext, Function.update]

/-- `park_receiver` appends to the list as a push of an intrusive queue does. -/
theorem linkReceiver_eq (q : Queue N T) (a : ℕ) (slot : Option (Fin N)) : q.linkReceiver a slot =
    { q with
      receivers := fun b =>
        { resultStorage := (q.receivers b).resultStorage
          hasResult := (q.receivers b).hasResult
          next := pushNext q.recvNext q.recvTail a b
          slot := if b = a then slot else (q.receivers b).slot
          linked := if b = a then true else (q.receivers b).linked }
      recvHead := pushHead q.recvHead q.recvTail a
      recvTail := some a
      history := { q.history with recvParked := q.history.recvParked ++ [a] } } := by
  cases htail : q.recvTail with
  | none =>
      simp only [linkReceiver, modifyReceiver, htail, pushNext, pushHead, Queue.mk.injEq, and_true,
        true_and]
      funext b
      by_cases hb : b = a <;> simp [hb, recvNext]
  | some t =>
      simp only [linkReceiver, modifyReceiver, htail, pushNext, pushHead, Queue.mk.injEq, and_true,
        true_and]
      funext b
      by_cases hb : b = a <;> by_cases ht : b = t <;> simp_all [recvNext, Function.update]

/-- The awaiter was handed a value. -/
def Handed (q : Queue N T) (a : ℕ) : Prop := ∃ v, (some a, v) ∈ q.history.handed

theorem nextIndex_eq {cap i : ℕ} (hi : i < cap) : nextIndex cap i = Ring.index cap i 1 := by
  unfold nextIndex Ring.index
  split_ifs <;> omega

theorem tailIndex_eq (cap : ℕ) (q : Queue N T) :
    q.tailIndex cap = Ring.index cap q.head q.count := rfl

end Queue

/-- The values that receivers were handed are kept until they are returned. -/
structure Results (q : Queue N T) (rcv : List ℕ) : Prop where
  /-- No receiver is handed two values. -/
  once : (q.history.handed.filterMap Prod.fst).Nodup
  stored : ∀ a, (q.receivers a).hasResult = true →
    (some a, (q.receivers a).resultStorage) ∈ q.history.handed
  returned : ∀ a v, (a, v) ∈ q.history.returned → (some a, v) ∈ q.history.handed
  returned_once : (q.history.returned.map Prod.fst).Nodup
  not_returned : ∀ a, (q.receivers a).hasResult = true → a ∉ q.history.returned.map Prod.fst
  parked : ∀ a ∈ rcv, (q.receivers a).hasResult = false ∧ ¬ q.Handed a
  fresh : ∀ a, q.fresh ≤ a → (q.receivers a).hasResult = false ∧ ¬ q.Handed a

/-- The queue stores what was sent and not handed out, in order. -/
structure Stock (cap : ℕ) (q : Queue N T) (snd rcv : List ℕ) (sent : List T) : Prop where
  send : Fifo q.sendNext q.sendHead q.sendTail snd
  recv : Fifo q.recvNext q.recvHead q.recvTail rcv
  head_lt : q.head < cap
  count_le : q.count ≤ cap
  named : ∀ a, a ∈ snd ∨ a ∈ rcv → a < q.fresh
  flow : q.history.handed.map Prod.snd ++ q.buffered cap ++ snd.map (fun a => (q.senders a).value) =
    sent.map some
  recv_order : q.history.recvParked = q.history.recvServed ++ rcv
  send_order : q.history.sendParked = q.history.sendServed ++ snd
  results : Results q rcv

/-- A queue between two operations. -/
structure Channel (cap : ℕ) (q : Queue N T) (snd rcv : List ℕ) (sent : List T) : Prop
    extends Stock cap q snd rcv sent where
  full : snd ≠ [] → q.count = cap
  empty : rcv ≠ [] → q.count = 0

variable {cap : ℕ} {q : Queue N T} {snd rcv : List ℕ} {sent : List T}

theorem Channel.initial (hcap : 0 < cap) : Channel cap ({} : Queue N T) [] [] [] where
  send := Fifo.nil
  recv := Fifo.nil
  head_lt := hcap
  count_le := Nat.zero_le _
  named := by simp
  flow := rfl
  recv_order := rfl
  send_order := rfl
  results := by constructor <;> simp [Queue.Handed]
  full h := absurd rfl h
  empty h := absurd rfl h

/-! ## The pieces -/

namespace Results

/-- A value is handed to the receiver `a`. -/
theorem constructResult (h : Results q rcv) {a : ℕ} (value : Option T) (source : Option Storage)
    (ha : a ∉ rcv) (hfresh : a < q.fresh) (hresult : (q.receivers a).hasResult = false)
    (hhanded : ¬ q.Handed a) : Results (q.constructResult a value source) rcv := by
  have hother : ∀ b ≠ a, (q.constructResult a value source).receivers b = q.receivers b := by
    intro b hb
    simp [Queue.constructResult, Queue.modifyReceiver, hb]
  have hhanded' : ∀ b ≠ a, (q.constructResult a value source).Handed b ↔ q.Handed b := by
    intro b hb
    simp [Queue.Handed, Queue.constructResult, hb]
  refine ⟨?_, fun b hb => ?_, fun b v hb => ?_, h.returned_once, fun b hb => ?_, fun b hb => ?_,
    fun b hb => ?_⟩
  · have hnew : a ∉ q.history.handed.filterMap Prod.fst := by
      rintro hmem
      obtain ⟨⟨k, v⟩, hentry, rfl⟩ := List.mem_filterMap.mp hmem
      exact hhanded ⟨v, hentry⟩
    simp only [Queue.constructResult, List.filterMap_append]
    exact h.once.append (by simp) (by simpa using hnew)
  · by_cases hba : b = a
    · subst hba
      simp [Queue.constructResult, Queue.modifyReceiver]
    · rw [hother b hba] at hb ⊢
      exact List.mem_append_left _ (h.stored b hb)
  · exact List.mem_append_left _ (h.returned b v hb)
  · by_cases hba : b = a
    · subst hba
      intro hmem
      obtain ⟨⟨k, v⟩, hentry, rfl⟩ := List.mem_map.mp hmem
      exact hhanded ⟨v, h.returned _ v hentry⟩
    · rw [hother b hba] at hb
      exact h.not_returned b hb
  · have hba : b ≠ a := fun he => ha (he ▸ hb)
    rw [hother b hba, hhanded' b hba]
    exact h.parked b hb
  · have hba : b ≠ a := by
      have : q.fresh ≤ b := hb
      omega
    rw [hother b hba, hhanded' b hba]
    exact h.fresh b hb

/-- Nothing that the results depend on changes. -/
theorem congr {q' : Queue N T} {rcv' : List ℕ} (h : Results q rcv)
    (hresult : ∀ a, (q'.receivers a).hasResult = (q.receivers a).hasResult)
    (hstorage : ∀ a, (q'.receivers a).resultStorage = (q.receivers a).resultStorage)
    (hhanded : q'.history.handed = q.history.handed)
    (hreturned : q'.history.returned = q.history.returned)
    (hrcv : ∀ a ∈ rcv', (q.receivers a).hasResult = false ∧ ¬ q.Handed a)
    (hfresh : q.fresh ≤ q'.fresh) : Results q' rcv' := by
  have hHanded : ∀ a, q'.Handed a ↔ q.Handed a := by
    intro a
    simp [Queue.Handed, hhanded]
  refine ⟨?_, fun a ha => ?_, fun a v ha => ?_, ?_, fun a ha => ?_, fun a ha => ?_, fun a ha => ?_⟩
  · rw [hhanded]
    exact h.once
  · rw [hhanded, hstorage]
    exact h.stored a (by rwa [hresult] at ha)
  · rw [hhanded]
    exact h.returned a v (by rwa [hreturned] at ha)
  · rw [hreturned]
    exact h.returned_once
  · rw [hreturned]
    exact h.not_returned a (by rwa [hresult] at ha)
  · rw [hresult, hHanded]
    exact hrcv a ha
  · rw [hresult, hHanded]
    exact h.fresh a (hfresh.trans ha)

end Results

namespace Stock

/-- A value is stored behind the ring. -/
theorem store (h : Stock cap q [] rcv sent) (hcount : q.count < cap) (v : T)
    (source : Option Storage) :
    Stock cap (q.storeBack cap (some v) source) [] rcv (sent ++ [v]) where
  send := h.send
  recv := h.recv
  head_lt := h.head_lt
  count_le := hcount
  named := h.named
  flow := by
    have hring := Ring.contents_push hcount q.head q.cells (some v)
    have hflow := h.flow
    simp only [Queue.buffered, Queue.storeBack, Queue.tailIndex_eq, hring,
      QueueHistory.use_handed] at hflow ⊢
    simp only [List.map_nil, List.append_nil, List.map_append, List.map_cons] at hflow ⊢
    rw [← hflow, List.append_assoc]
  recv_order := h.recv_order
  send_order := h.send_order
  results := h.results.congr (fun _ => rfl) (fun _ => rfl) rfl rfl h.results.parked le_rfl

/-- The oldest parked sender is taken off its list and its value stored behind the ring. -/
theorem admitSender {a : ℕ} (h : Stock cap q (a :: snd) rcv sent) (hcount : q.count < cap)
    (source : Option Storage) :
    Stock cap ((q.sendPopFront a).storeBack cap ((q.sendPopFront a).senders a).value source) snd rcv
      sent where
  send := by
    have hsame : ∀ b ≠ a, (q.sendPopFront a).sendNext b = q.sendNext b := by
      intro b hb
      simp [Queue.sendNext, Queue.sendPopFront, Queue.modifySender, hb]
    have hpop := h.send.pop hsame
    have htail : (if (q.senders a).next = none then none else q.sendTail) =
        popTail (q.sendNext a) q.sendTail := by
      cases hnext : (q.senders a).next <;> simp [Queue.sendNext, hnext, popTail]
    rw [← htail] at hpop
    exact hpop
  recv := h.recv
  head_lt := h.head_lt
  count_le := hcount
  named b hb := h.named b (hb.imp_left (List.mem_cons_of_mem _))
  flow := by
    have hring := Ring.contents_push hcount q.head q.cells (q.senders a).value
    have hnodup := (List.nodup_cons.mp h.send.linked.nodup).1
    have hvalues : snd.map (fun b => ((q.sendPopFront a).senders b).value) =
        snd.map fun b => (q.senders b).value := by
      refine List.map_congr_left fun b hb => ?_
      have : b ≠ a := fun he => hnodup (he ▸ hb)
      simp [Queue.sendPopFront, Queue.modifySender, this]
    have hvalue : ((q.sendPopFront a).senders a).value = (q.senders a).value := by
      simp [Queue.sendPopFront, Queue.modifySender]
    have hflow := h.flow
    simp only [List.map_cons] at hflow
    simp only [Queue.buffered] at hflow ⊢
    rw [hvalue]
    simp only [Queue.storeBack, Queue.tailIndex_eq] at hvalues ⊢
    rw [hvalues, ← hflow]
    simp only [Queue.sendPopFront, Queue.modifySender, hring, QueueHistory.use_handed,
      List.append_assoc, List.cons_append, List.nil_append]
  recv_order := h.recv_order
  send_order := by
    simp only [Queue.storeBack, Queue.sendPopFront, Queue.modifySender,
      QueueHistory.use_sendParked, QueueHistory.use_sendServed, h.send_order, List.append_assoc,
      List.cons_append, List.nil_append]
  results := h.results.congr (fun _ => rfl) (fun _ => rfl) rfl rfl h.results.parked le_rfl

/-- A value is handed to the oldest parked receiver of an empty queue. -/
theorem hand {a : ℕ} (h : Stock cap q [] (a :: rcv) sent) (hcount : q.count = 0) (v : T)
    (source : Option Storage) :
    Stock cap ((q.recvPopFront a).constructResult a (some v) source) [] rcv (sent ++ [v]) where
  send := h.send
  recv := by
    have hsame : ∀ b ≠ a,
        ((q.recvPopFront a).constructResult a (some v) source).recvNext b = q.recvNext b := by
      intro b hb
      simp [Queue.recvNext, Queue.constructResult, Queue.recvPopFront, Queue.modifyReceiver, hb]
    have hpop := h.recv.pop hsame
    have htail : (if (q.receivers a).next = none then none else q.recvTail) =
        popTail (q.recvNext a) q.recvTail := by
      cases hnext : (q.receivers a).next <;> simp [Queue.recvNext, hnext, popTail]
    rw [← htail] at hpop
    exact hpop
  head_lt := h.head_lt
  count_le := h.count_le
  named b hb := h.named b (hb.imp_right (List.mem_cons_of_mem _))
  flow := by
    have hflow := h.flow
    simp only [Queue.buffered, Queue.constructResult, Queue.recvPopFront, Queue.modifyReceiver,
      hcount, Ring.contents_zero, List.map_nil, List.append_nil, List.map_append,
      List.map_cons] at hflow ⊢
    rw [hflow]
  recv_order := by
    simp only [Queue.constructResult, Queue.recvPopFront, Queue.modifyReceiver, h.recv_order,
      List.append_assoc, List.cons_append, List.nil_append]
  send_order := h.send_order
  results := by
    have hnodup := (List.nodup_cons.mp h.recv.linked.nodup).1
    obtain ⟨hresult, hhanded⟩ := h.results.parked a (by simp)
    have hpopped : Results (q.recvPopFront a) rcv :=
      h.results.congr (fun b => by
          by_cases hb : b = a <;> simp [Queue.recvPopFront, Queue.modifyReceiver, hb])
        (fun b => by
          by_cases hb : b = a <;> simp [Queue.recvPopFront, Queue.modifyReceiver, hb]) rfl rfl
        (fun b hb => h.results.parked b (List.mem_cons_of_mem _ hb)) le_rfl
    exact hpopped.constructResult (some v) source hnodup (h.named a (by simp))
      (by simpa [Queue.recvPopFront, Queue.modifyReceiver] using hresult) hhanded

/-- The oldest buffered value is taken out of the ring; `q'` is the queue in which it has been
handed out already. -/
theorem take {q' : Queue N T} {k : Option ℕ} (h : Stock cap q snd rcv sent) (hcount : 0 < q.count)
    (hq' : q' = { q with
      receivers := q'.receivers
      history := { q.history with
        handed := q.history.handed ++ [(k, q.cells q.head)]
        uses := q'.history.uses } })
    (hnext : q'.recvNext = q.recvNext) (hresults : Results q' rcv) :
    Stock cap (q'.popFrontStorage cap) snd rcv sent where
  send := by
    rw [hq']
    exact h.send
  recv := by
    have hrecv := h.recv
    rw [← hnext] at hrecv
    rw [hq']
    rw [hq'] at hrecv
    exact hrecv
  head_lt := by
    rw [hq']
    simp only [Queue.popFrontStorage, Queue.nextIndex_eq h.head_lt]
    have := h.head_lt
    have := h.count_le
    unfold Ring.index
    split_ifs <;> omega
  count_le := by
    rw [hq']
    have := h.count_le
    simp only [Queue.popFrontStorage]
    omega
  named b hb := by
    rw [hq']
    exact h.named b hb
  flow := by
    have hle := h.count_le
    obtain ⟨n, hn⟩ : ∃ n, q.count = n + 1 := ⟨q.count - 1, by omega⟩
    have hring := Ring.contents_pop h.head_lt (show n + 1 ≤ cap by omega) q.cells none
    rw [← h.flow, hq']
    simp only [Queue.buffered, Queue.popFrontStorage, Queue.nextIndex_eq h.head_lt, hn, hring,
      QueueHistory.use_handed, Nat.add_sub_cancel, List.map_append, List.map_cons, List.map_nil,
      List.append_assoc, List.cons_append, List.nil_append]
  recv_order := by
    rw [hq']
    exact h.recv_order
  send_order := by
    rw [hq']
    exact h.send_order
  results := hresults.congr (fun _ => rfl) (fun _ => rfl) rfl rfl hresults.parked le_rfl

/-- A sender whose value was not accepted is parked. -/
theorem linkSender (h : Stock cap q snd rcv sent) {a : ℕ} (ha : a ∉ snd) (hnamed : a < q.fresh)
    {v : T} (hvalue : (q.senders a).value = some v) (slot : Option (Fin N)) :
    Stock cap (q.linkSender a slot) (snd ++ [a]) rcv (sent ++ [v]) := by
  rw [Queue.linkSender_eq]
  exact {
    send := h.send.push ha
    recv := h.recv
    head_lt := h.head_lt
    count_le := h.count_le
    named := by
      intro b hb
      simp only [List.mem_append, List.mem_singleton] at hb
      rcases hb with (hb | rfl) | hb
      · exact h.named b (Or.inl hb)
      · exact hnamed
      · exact h.named b (Or.inr hb)
    flow := by
      have hflow := h.flow
      simp only [Queue.buffered] at hflow ⊢
      simp only [List.map_append, List.map_cons, List.map_nil, hvalue, ← hflow, List.append_assoc]
    recv_order := h.recv_order
    send_order := by simp [h.send_order]
    results := h.results.congr (fun _ => rfl) (fun _ => rfl) rfl rfl h.results.parked le_rfl }

/-- A receiver that found the queue empty is parked. -/
theorem linkReceiver (h : Stock cap q snd rcv sent) {a : ℕ} (ha : a ∉ rcv) (hnamed : a < q.fresh)
    (hidle : (q.receivers a).hasResult = false ∧ ¬ q.Handed a) (slot : Option (Fin N)) :
    Stock cap (q.linkReceiver a slot) snd (rcv ++ [a]) sent := by
  rw [Queue.linkReceiver_eq]
  exact {
    send := h.send
    recv := h.recv.push ha
    head_lt := h.head_lt
    count_le := h.count_le
    named := by
      intro b hb
      simp only [List.mem_append, List.mem_singleton] at hb
      rcases hb with hb | hb | rfl
      · exact h.named b (Or.inl hb)
      · exact h.named b (Or.inr hb)
      · exact hnamed
    flow := h.flow
    recv_order := by simp [h.recv_order]
    send_order := h.send_order
    results := by
      refine h.results.congr (fun _ => rfl) (fun _ => rfl) rfl rfl (fun b hb => ?_) le_rfl
      simp only [List.mem_append, List.mem_singleton] at hb
      rcases hb with hb | rfl
      · exact h.results.parked b hb
      · exact hidle }

/-- A new send awaiter is on no list. -/
theorem newSender (h : Stock cap q snd rcv sent) (v : T) :
    Stock cap (q.newSender v).2 snd rcv sent := by
  have hne : ∀ a ∈ snd, a ≠ q.fresh := fun a ha he => (h.named a (Or.inl ha)).ne he
  have hold : ∀ a ∈ snd, (q.newSender v).2.senders a = q.senders a := by
    intro a ha
    simp [Queue.newSender, Queue.modifySender, hne a ha]
  exact {
    send := h.send.congr fun a ha => by simp only [Queue.sendNext, hold a ha]
    recv := h.recv
    head_lt := h.head_lt
    count_le := h.count_le
    named := fun a ha => (h.named a ha).trans (Nat.lt_succ_self _)
    flow := by
      rw [← h.flow, List.map_congr_left fun a ha => congrArg SendAwaiter.value (hold a ha)]
      rfl
    recv_order := h.recv_order
    send_order := h.send_order
    results := h.results.congr (fun _ => rfl) (fun _ => rfl) rfl rfl h.results.parked
      (Nat.le_succ _) }

/-- A new receive awaiter is on no list and has no result. -/
theorem newReceiver (h : Stock cap q snd rcv sent) :
    Stock cap (q.newReceiver).2 snd rcv sent := by
  have hne : ∀ a ∈ rcv, a ≠ q.fresh := fun a ha he => (h.named a (Or.inr ha)).ne he
  have hold : ∀ a ≠ q.fresh, (q.newReceiver).2.receivers a = q.receivers a := by
    intro a ha
    simp [Queue.newReceiver, Queue.modifyReceiver, ha]
  have hnew : ((q.newReceiver).2.receivers q.fresh).hasResult = false := by
    simp [Queue.newReceiver, Queue.modifyReceiver]
  exact {
    send := h.send
    recv := h.recv.congr fun a ha => by simp only [Queue.recvNext, hold a (hne a ha)]
    head_lt := h.head_lt
    count_le := h.count_le
    named := fun a ha => (h.named a ha).trans (Nat.lt_succ_self _)
    flow := h.flow
    recv_order := h.recv_order
    send_order := h.send_order
    results := by
      refine {
        once := h.results.once
        stored := fun a ha => ?_
        returned := h.results.returned
        returned_once := h.results.returned_once
        not_returned := fun a ha => ?_
        parked := fun a ha => ?_
        fresh := fun a ha => ?_ }
      · by_cases hnewest : a = q.fresh
        · rw [hnewest, hnew] at ha
          cases ha
        · rw [hold a hnewest] at ha ⊢
          exact h.results.stored a ha
      · by_cases hnewest : a = q.fresh
        · rw [hnewest, hnew] at ha
          cases ha
        · rw [hold a hnewest] at ha
          exact h.results.not_returned a ha
      · rw [hold a (hne a ha)]
        exact h.results.parked a ha
      · have hlt : q.fresh + 1 ≤ a := ha
        rw [hold a (by omega)]
        exact h.results.fresh a (by omega) }

/-- `await_resume` of a receiver returns the value that it was handed. -/
theorem receiveResume (h : Stock cap q snd rcv sent) {a : ℕ}
    (hresult : (q.receivers a).hasResult = true) :
    Stock cap (q.receiveResume a).2 snd rcv sent := by
  have hnot : a ∉ rcv := by
    intro ha
    simp [(h.results.parked a ha).1] at hresult
  have hother : ∀ b ≠ a, (q.receiveResume a).2.receivers b = q.receivers b := by
    intro b hb
    simp [Queue.receiveResume, hresult, Queue.modifyReceiver, hb]
  have hself : ((q.receiveResume a).2.receivers a).hasResult = false := by
    simp [Queue.receiveResume, hresult, Queue.modifyReceiver]
  have hhistory : (q.receiveResume a).2.history =
      { q.history with
        returned := q.history.returned ++ [(a, (q.receivers a).resultStorage)]
        uses := q.history.uses ++ [.read (.result a), .destroy (.result a)] } := by
    unfold Queue.receiveResume
    simp only [hresult, if_true]
    rfl
  have hHanded : ∀ b, (q.receiveResume a).2.Handed b ↔ q.Handed b := by
    intro b
    simp [Queue.Handed, hhistory]
  have hsame : (q.receiveResume a).2 = { q with
      receivers := (q.receiveResume a).2.receivers
      history := (q.receiveResume a).2.history } := by
    simp [Queue.receiveResume, hresult, Queue.modifyReceiver]
  have hflow : (q.receiveResume a).2.history.handed.map Prod.snd ++ q.buffered cap ++
      snd.map (fun a => (q.senders a).value) = sent.map some := by
    rw [hhistory]
    exact h.flow
  have hresults : Results (q.receiveResume a).2 rcv := by
    refine {
      once := by rw [hhistory]; exact h.results.once
      stored := fun b hb => ?_
      returned := fun b v hb => ?_
      returned_once := ?_
      not_returned := fun b hb => ?_
      parked := fun b hb => ?_
      fresh := fun b hb => ?_ }
    · have hba : b ≠ a := by
        rintro rfl
        simp [hself] at hb
      rw [hother b hba] at hb ⊢
      rw [hhistory]
      exact h.results.stored b hb
    · rw [hhistory] at hb ⊢
      simp only [List.mem_append, List.mem_singleton, Prod.mk.injEq] at hb
      rcases hb with hb | ⟨rfl, rfl⟩
      · exact h.results.returned b v hb
      · exact h.results.stored b hresult
    · rw [hhistory]
      simp only [List.map_append, List.map_cons, List.map_nil]
      refine h.results.returned_once.append (by simp) ?_
      simpa using h.results.not_returned a hresult
    · have hba : b ≠ a := by
        rintro rfl
        simp [hself] at hb
      rw [hother b hba] at hb
      rw [hhistory]
      simp only [List.map_append, List.map_cons, List.map_nil, List.mem_append,
        List.mem_singleton, not_or]
      exact ⟨h.results.not_returned b hb, hba⟩
    · rw [hother b fun he => hnot (he ▸ hb), hHanded]
      exact h.results.parked b hb
    · have hb' : q.fresh ≤ b := by
        rw [hsame] at hb
        exact hb
      have hba : b ≠ a := by
        rintro rfl
        simp [(h.results.fresh b hb').1] at hresult
      rw [hother b hba, hHanded]
      exact h.results.fresh b hb'
  rw [hsame] at hresults ⊢
  exact {
    send := h.send
    recv := h.recv.congr fun b hb => by
      have hba : b ≠ a := fun he => hnot (he ▸ hb)
      simp only [Queue.recvNext, hother b hba]
    head_lt := h.head_lt
    count_le := h.count_le
    named := h.named
    flow := hflow
    recv_order := by
      rw [hhistory]
      exact h.recv_order
    send_order := by
      rw [hhistory]
      exact h.send_order
    results := hresults }

end Stock

/-! ## The operations -/

namespace Channel

/-- What `do_send` does: it hands the value to the oldest parked receiver, stores it, or
finds the queue full. -/
theorem doSend (h : Channel cap q snd rcv sent) (c : Scheduler N) (v : T)
    (source : Option Storage) :
    (∃ a rest q', rcv = a :: rest ∧
        q.doSend cap c (some v) source = (true, c.wakeSlot (q.receivers a).slot, q') ∧
        q'.senders = q.senders ∧ (∀ b, (q'.receivers b).slot = (q.receivers b).slot) ∧
        (q'.receivers a).hasResult = true ∧
        (∀ b ≠ a, (q'.receivers b).hasResult = (q.receivers b).hasResult) ∧
        Channel cap q' snd rest (sent ++ [v])) ∨
      (rcv = [] ∧ q.doSend cap c (some v) source = (true, c, q.storeBack cap (some v) source) ∧
        Channel cap (q.storeBack cap (some v) source) snd [] (sent ++ [v])) ∨
      (rcv = [] ∧ q.count = cap ∧ q.doSend cap c (some v) source = (false, c, q)) := by
  cases rcv with
  | cons a rest =>
      have hcount : q.count = 0 := h.empty (by simp)
      have hsnd : snd = [] := by
        by_contra hne
        have := h.full hne
        have := h.head_lt
        omega
      subst hsnd
      refine Or.inl ⟨a, rest, (q.recvPopFront a).constructResult a (some v) source, rfl, ?_, rfl,
        fun b => ?_, ?_, fun b hb => ?_, h.toStock.hand hcount v source, by simp, fun _ => hcount⟩
      · have hhead : q.recvHead = some a := h.recv.linked.1
        simp [Queue.doSend, hhead, Queue.constructResult, Queue.recvPopFront, Queue.modifyReceiver]
      · by_cases hb : b = a <;>
          simp [Queue.constructResult, Queue.recvPopFront, Queue.modifyReceiver, hb]
      · simp [Queue.constructResult, Queue.modifyReceiver]
      · simp [Queue.constructResult, Queue.recvPopFront, Queue.modifyReceiver, hb]
  | nil =>
      have hhead : q.recvHead = none := h.recv.linked
      by_cases hcount : q.count < cap
      · have hsnd : snd = [] := by
          by_contra hne
          have := h.full hne
          omega
        subst hsnd
        refine Or.inr (Or.inl ⟨rfl, by simp [Queue.doSend, hhead, hcount],
          h.toStock.store hcount v source, by simp, by simp⟩)
      · have := h.count_le
        exact Or.inr (Or.inr ⟨rfl, by omega, by simp [Queue.doSend, hhead, hcount]⟩)

/-- What taking the oldest buffered value and `admit_oldest_sender` do together; `q'` is the
queue in which the value has been handed out already. -/
theorem admitOldestSender {q' : Queue N T} {k : Option ℕ} (h : Channel cap q snd rcv sent)
    (hcount : 0 < q.count) (c : Scheduler N)
    (hq' : q' = { q with
      receivers := q'.receivers
      history := { q.history with
        handed := q.history.handed ++ [(k, q.cells q.head)]
        uses := q'.history.uses } })
    (hnext : q'.recvNext = q.recvNext) (hresults : Results q' rcv) :
    (snd = [] ∧ (q'.popFrontStorage cap).admitOldestSender cap c = (c, q'.popFrontStorage cap) ∧
        Channel cap (q'.popFrontStorage cap) [] rcv sent) ∨
      ∃ a rest q'', snd = a :: rest ∧ (q'.popFrontStorage cap).admitOldestSender cap c =
          (c.wakeSlot (q.senders a).slot, q'') ∧
        q''.receivers = q'.receivers ∧ (∀ b, (q''.senders b).slot = (q.senders b).slot) ∧
        Channel cap q'' rest rcv sent := by
  have hstock := h.toStock.take hcount hq' hnext hresults
  have hrcv : rcv = [] := by
    by_contra hne
    have := h.empty hne
    omega
  subst hrcv
  have hcount' : (q'.popFrontStorage cap).count = q.count - 1 := by
    rw [hq']
    rfl
  have hsenders : (q'.popFrontStorage cap).senders = q.senders := by
    rw [hq']
    rfl
  cases snd with
  | nil =>
      have hhead : (q'.popFrontStorage cap).sendHead = none := hstock.send.linked
      exact Or.inl ⟨rfl, by simp [Queue.admitOldestSender, hhead], hstock, by simp, by simp⟩
  | cons a rest =>
      have hfull : q.count = cap := h.full (by simp)
      have hhead : (q'.popFrontStorage cap).sendHead = some a := hstock.send.linked.1
      have hslot : ∀ b, (((q'.popFrontStorage cap).sendPopFront a).senders b).slot =
          (q.senders b).slot := by
        intro b
        rw [← hsenders]
        by_cases hb : b = a <;> simp [Queue.sendPopFront, Queue.modifySender, hb]
      have hadmitted := hstock.admitSender (by omega) (some (.value a))
      refine Or.inr ⟨a, rest, _, rfl, ?_, ?_, ?_, hadmitted, fun _ => ?_, by simp⟩
      · simp only [Queue.admitOldestSender, hhead, hslot]
      · rfl
      · exact hslot
      · simp only [Queue.storeBack, Queue.sendPopFront, Queue.modifySender, hcount']
        omega

/-- A sender whose value was not accepted is parked. -/
theorem linkSender (h : Channel cap q snd rcv sent) {a : ℕ} (ha : a ∉ snd) (hnamed : a < q.fresh)
    (hfull : q.count = cap) {v : T} (hvalue : (q.senders a).value = some v)
    (slot : Option (Fin N)) : Channel cap (q.linkSender a slot) (snd ++ [a]) rcv (sent ++ [v]) where
  toStock := h.toStock.linkSender ha hnamed hvalue slot
  full _ := by
    rw [Queue.linkSender_eq]
    exact hfull
  empty := by
    rw [Queue.linkSender_eq]
    exact h.empty

/-- A receiver that found the queue empty is parked. -/
theorem linkReceiver (h : Channel cap q snd rcv sent) {a : ℕ} (ha : a ∉ rcv)
    (hnamed : a < q.fresh) (hempty : q.count = 0)
    (hidle : (q.receivers a).hasResult = false ∧ ¬ q.Handed a) (slot : Option (Fin N)) :
    Channel cap (q.linkReceiver a slot) snd (rcv ++ [a]) sent where
  toStock := h.toStock.linkReceiver ha hnamed hidle slot
  full := by
    rw [Queue.linkReceiver_eq]
    exact h.full
  empty _ := by
    rw [Queue.linkReceiver_eq]
    exact hempty

theorem newSender (h : Channel cap q snd rcv sent) (v : T) :
    Channel cap (q.newSender v).2 snd rcv sent where
  toStock := h.toStock.newSender v
  full := h.full
  empty := h.empty

theorem newReceiver (h : Channel cap q snd rcv sent) :
    Channel cap (q.newReceiver).2 snd rcv sent where
  toStock := h.toStock.newReceiver
  full := h.full
  empty := h.empty

theorem receiveResume (h : Channel cap q snd rcv sent) {a : ℕ}
    (hresult : (q.receivers a).hasResult = true) :
    Channel cap (q.receiveResume a).2 snd rcv sent where
  toStock := h.toStock.receiveResume hresult
  full := by
    simpa [Queue.receiveResume, hresult, Queue.modifyReceiver] using h.full
  empty := by
    simpa [Queue.receiveResume, hresult, Queue.modifyReceiver] using h.empty

end Channel

end SimpleAwait
