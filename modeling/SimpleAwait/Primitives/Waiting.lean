import SimpleAwait.Primitives.Channel
import SimpleAwait.Primitives.QueueDestruction

/-!
# The waiters of a queue

`Waiting` is what the pointers, flags and counters of a queue say about its parked senders
`snd` and receivers `rcv` alone: it holds however the awaiters' lives end, while `Channel`
follows the values too and knows no destruction.  The operations keep it, and each does to the
two lists what it would do to plain ones; a destructor that unlinks an awaiter erases it.
-/

namespace SimpleAwait

open Intrusive

variable {N : ℕ} {T : Type} {cap : ℕ} {q : Queue N T} {snd rcv : List ℕ} {a : ℕ}

/-- The senders `snd` and the receivers `rcv` are parked on the queue, and none of them could
go on. -/
structure Waiting (cap : ℕ) (q : Queue N T) (snd rcv : List ℕ) : Prop where
  send : Fifo q.sendNext q.sendHead q.sendTail snd
  recv : Fifo q.recvNext q.recvHead q.recvTail rcv
  sendLinked : ∀ a, (q.senders a).linked = true ↔ a ∈ snd
  recvLinked : ∀ a, (q.receivers a).linked = true ↔ a ∈ rcv
  named : ∀ a, a ∈ snd ∨ a ∈ rcv → a < q.fresh
  unheld : ∀ a ∈ rcv, (q.receivers a).hasResult = false
  head_lt : q.head < cap
  count_le : q.count ≤ cap
  full : snd ≠ [] → q.count = cap
  empty : rcv ≠ [] → q.count = 0

namespace Waiting

theorem initial (hcap : 0 < cap) : Waiting cap ({} : Queue N T) [] [] where
  send := Fifo.nil
  recv := Fifo.nil
  sendLinked := by simp
  recvLinked := by simp
  named := by simp
  unheld := by simp
  head_lt := hcap
  count_le := Nat.zero_le _
  full h := absurd rfl h
  empty h := absurd rfl h

/-- The two lists are never both non-empty. -/
theorem one_sided (h : Waiting cap q snd rcv) : snd = [] ∨ rcv = [] := by
  by_contra hne
  obtain ⟨hsnd, hrcv⟩ := not_or.mp hne
  have := h.full hsnd
  have := h.empty hrcv
  have := h.head_lt
  omega

/-- Writes to the ring and to the history. -/
theorem congr {q' : Queue N T} (h : Waiting cap q snd rcv)
    (hq' : q' = { q with cells := q'.cells, history := q'.history }) : Waiting cap q' snd rcv := by
  rw [hq']
  exact ⟨h.send, h.recv, h.sendLinked, h.recvLinked, h.named, h.unheld, h.head_lt, h.count_le,
    h.full, h.empty⟩

/-! ## New awaiters -/

theorem newSender (h : Waiting cap q snd rcv) (v : T) : Waiting cap (q.newSender v).2 snd rcv := by
  have hne : ∀ a, a ∈ snd ∨ a ∈ rcv → a ≠ q.fresh := fun a ha => (h.named a ha).ne
  have hold : ∀ a ≠ q.fresh, (q.newSender v).2.senders a = q.senders a := by
    intro a ha
    simp [Queue.newSender, Queue.modifySender, ha]
  refine ⟨h.send.congr fun a ha => ?_, h.recv, fun a => ?_, h.recvLinked, fun a ha => ?_, h.unheld,
    h.head_lt, h.count_le, h.full, h.empty⟩
  · simp only [Queue.sendNext, hold a (hne a (Or.inl ha))]
  · by_cases ha : a = q.fresh
    · subst ha
      have hnot : q.fresh ∉ snd := fun hmem => hne _ (Or.inl hmem) rfl
      simp [Queue.newSender, Queue.modifySender, hnot]
    · rw [hold a ha]
      exact h.sendLinked a
  · exact (h.named a ha).trans (Nat.lt_succ_self _)

theorem newReceiver (h : Waiting cap q snd rcv) : Waiting cap q.newReceiver.2 snd rcv := by
  have hne : ∀ a, a ∈ snd ∨ a ∈ rcv → a ≠ q.fresh := fun a ha => (h.named a ha).ne
  have hold : ∀ a ≠ q.fresh, q.newReceiver.2.receivers a = q.receivers a := by
    intro a ha
    simp [Queue.newReceiver, Queue.modifyReceiver, ha]
  refine ⟨h.send, h.recv.congr fun a ha => ?_, h.sendLinked, fun a => ?_, fun a ha => ?_,
    fun a ha => ?_, h.head_lt, h.count_le, h.full, h.empty⟩
  · simp only [Queue.recvNext, hold a (hne a (Or.inr ha))]
  · by_cases ha : a = q.fresh
    · subst ha
      have hnot : q.fresh ∉ rcv := fun hmem => hne _ (Or.inr hmem) rfl
      simp [Queue.newReceiver, Queue.modifyReceiver, hnot]
    · rw [hold a ha]
      exact h.recvLinked a
  · exact (h.named a ha).trans (Nat.lt_succ_self _)
  · rw [hold a (hne a (Or.inr ha))]
    exact h.unheld a ha

/-! ## The pieces of the operations -/

/-- A value goes into a free cell of the ring. -/
theorem store (h : Waiting cap q [] rcv) (hrcv : rcv = []) (hcount : q.count < cap)
    (value : Option T) (source : Option Storage) :
    Waiting cap (q.storeBack cap value source) [] rcv := by
  subst hrcv
  exact ⟨h.send, h.recv, h.sendLinked, h.recvLinked, h.named, h.unheld, h.head_lt, hcount, by simp,
    by simp⟩

/-- The first parked receiver is handed a value. -/
theorem hand (h : Waiting cap q snd (a :: rcv)) (value : Option T) (source : Option Storage) :
    Waiting cap ((q.recvPopFront a).constructResult a value source) snd rcv := by
  have hnodup := (List.nodup_cons.mp h.recv.linked.nodup).1
  have hne : ∀ b ∈ rcv, b ≠ a := fun b hb he => hnodup (he ▸ hb)
  have hold : ∀ b ≠ a,
      ((q.recvPopFront a).constructResult a value source).receivers b = q.receivers b := by
    intro b hb
    simp [Queue.constructResult, Queue.recvPopFront, Queue.modifyReceiver, hb]
  have hself : (((q.recvPopFront a).constructResult a value source).receivers a).linked = false := by
    simp [Queue.constructResult, Queue.recvPopFront, Queue.modifyReceiver]
  refine ⟨h.send, ?_, h.sendLinked, fun b => ?_, fun b hb => ?_, fun b hb => ?_, h.head_lt,
    h.count_le, h.full, fun _ => h.empty (by simp)⟩
  · have hpop : Fifo ((q.recvPopFront a).constructResult a value source).recvNext (q.recvNext a)
        (popTail (q.recvNext a) q.recvTail) rcv :=
      h.recv.pop fun b hb => by simp only [Queue.recvNext, hold b hb]
    have htail : (if (q.receivers a).next = none then none else q.recvTail) =
        popTail (q.recvNext a) q.recvTail := by
      cases hnext : (q.receivers a).next <;> simp [Queue.recvNext, hnext, popTail]
    rw [← htail] at hpop
    exact hpop
  · by_cases hb : b = a
    · subst hb
      rw [hself]
      simpa using hnodup
    · rw [hold b hb, h.recvLinked]
      simp [hb]
  · exact h.named b (hb.imp_right (List.mem_cons_of_mem _))
  · rw [hold b (hne b hb)]
    exact h.unheld b (List.mem_cons_of_mem _ hb)

/-- The first parked sender leaves its list, for a ring with a free cell. -/
theorem admitOldest (h : Waiting cap q (a :: snd) rcv) (hcount : 0 < q.count) (value : Option T)
    (source : Option Storage) :
    Waiting cap (((q.popFrontStorage cap).sendPopFront a).storeBack cap value source) snd rcv := by
  have hfull : q.count = cap := h.full (by simp)
  have hnodup := (List.nodup_cons.mp h.send.linked.nodup).1
  have hold : ∀ b ≠ a,
      (((q.popFrontStorage cap).sendPopFront a).storeBack cap value source).senders b =
        q.senders b := by
    intro b hb
    simp [Queue.storeBack, Queue.sendPopFront, Queue.modifySender, Queue.popFrontStorage, hb]
  have hself :
      ((((q.popFrontStorage cap).sendPopFront a).storeBack cap value source).senders a).linked =
        false := by
    simp [Queue.storeBack, Queue.sendPopFront, Queue.modifySender]
  have hcount' : (((q.popFrontStorage cap).sendPopFront a).storeBack cap value source).count =
      q.count := by
    simp only [Queue.storeBack, Queue.sendPopFront, Queue.modifySender, Queue.popFrontStorage]
    omega
  have hrcv : rcv = [] := h.one_sided.resolve_left (by simp)
  refine ⟨?_, h.recv, fun b => ?_, h.recvLinked, fun b hb => ?_, h.unheld, ?_, ?_, ?_, ?_⟩
  · have hpop : Fifo (((q.popFrontStorage cap).sendPopFront a).storeBack cap value source).sendNext
        (q.sendNext a) (popTail (q.sendNext a) q.sendTail) snd :=
      h.send.pop fun b hb => by simp only [Queue.sendNext, hold b hb]
    have htail : (if (q.senders a).next = none then none else q.sendTail) =
        popTail (q.sendNext a) q.sendTail := by
      cases hnext : (q.senders a).next <;> simp [Queue.sendNext, hnext, popTail]
    rw [← htail] at hpop
    exact hpop
  · by_cases hb : b = a
    · subst hb
      rw [hself]
      simpa using hnodup
    · rw [hold b hb, h.sendLinked]
      simp [hb]
  · exact h.named b (hb.imp_left (List.mem_cons_of_mem _))
  · show Queue.nextIndex cap q.head < cap
    have := h.head_lt
    unfold Queue.nextIndex
    split_ifs <;> omega
  · rw [hcount']
    exact h.count_le
  · rw [hcount']
    exact fun _ => hfull
  · exact fun hne => absurd hrcv hne

/-- The oldest value leaves the ring of a queue on which no sender is parked. -/
theorem pop (h : Waiting cap q [] rcv) (hcount : 0 < q.count) :
    Waiting cap (q.popFrontStorage cap) [] rcv := by
  have hrcv : rcv = [] := by
    by_contra hne
    have := h.empty hne
    omega
  refine ⟨h.send, h.recv, h.sendLinked, h.recvLinked, h.named, h.unheld, ?_, ?_, by simp,
    fun hne => absurd hrcv hne⟩
  · show Queue.nextIndex cap q.head < cap
    have := h.head_lt
    unfold Queue.nextIndex
    split_ifs <;> omega
  · show q.count - 1 ≤ cap
    have := h.count_le
    omega

/-- An awaiter that is not parked is given a result, or loses it. -/
theorem modifyResult (h : Waiting cap q snd rcv) (ha : a ∉ rcv) (storage : Option T) (result : Bool) :
    Waiting cap (q.modifyReceiver a fun r =>
      { r with resultStorage := storage, hasResult := result }) snd rcv := by
  have hfields : ∀ b, ((q.modifyReceiver a fun r =>
      { r with resultStorage := storage, hasResult := result }).receivers b).next =
        (q.receivers b).next ∧ ((q.modifyReceiver a fun r =>
      { r with resultStorage := storage, hasResult := result }).receivers b).linked =
        (q.receivers b).linked := by
    intro b
    by_cases hb : b = a
    · subst hb
      simp [Queue.modifyReceiver]
    · simp [Queue.modifyReceiver, hb]
  refine ⟨h.send, h.recv.congr fun b _ => (hfields b).1, h.sendLinked, fun b => ?_, h.named,
    fun b hb => ?_, h.head_lt, h.count_le, h.full, h.empty⟩
  · rw [(hfields b).2]
    exact h.recvLinked b
  · have hba : b ≠ a := fun he => ha (he ▸ hb)
    simpa [Queue.modifyReceiver, hba] using h.unheld b hb

/-! ## Parking -/

/-- A sender that found the queue full parks at the end of its list. -/
theorem linkSender (h : Waiting cap q snd rcv) (ha : a ∉ snd) (hnamed : a < q.fresh)
    (hfull : q.count = cap) (hrcv : rcv = []) (slot : Option (Fin N)) :
    Waiting cap (q.linkSender a slot) (snd ++ [a]) rcv := by
  subst hrcv
  rw [Queue.linkSender_eq]
  refine ⟨h.send.push ha, h.recv, fun b => ?_, h.recvLinked, fun b hb => ?_, h.unheld, h.head_lt,
    h.count_le, fun _ => hfull, by simp⟩
  · by_cases hb : b = a
    · simp [hb]
    · simp [hb, h.sendLinked]
  · simp only [List.mem_append, List.mem_singleton, List.not_mem_nil, or_false] at hb
    rcases hb with hb | rfl
    · exact h.named b (Or.inl hb)
    · exact hnamed

/-- A receiver that found the queue empty parks at the end of its list. -/
theorem linkReceiver (h : Waiting cap q snd rcv) (ha : a ∉ rcv) (hnamed : a < q.fresh)
    (hempty : q.count = 0) (hresult : (q.receivers a).hasResult = false) (hsnd : snd = [])
    (slot : Option (Fin N)) : Waiting cap (q.linkReceiver a slot) snd (rcv ++ [a]) := by
  subst hsnd
  rw [Queue.linkReceiver_eq]
  refine ⟨h.send, h.recv.push ha, h.sendLinked, fun b => ?_, fun b hb => ?_, fun b hb => ?_,
    h.head_lt, h.count_le, by simp, fun _ => hempty⟩
  · by_cases hb : b = a
    · simp [hb]
    · simp [hb, h.recvLinked]
  · simp only [List.mem_append, List.mem_singleton, List.not_mem_nil, false_or] at hb
    rcases hb with hb | rfl
    · exact h.named b (Or.inr hb)
    · exact hnamed
  · simp only [List.mem_append, List.mem_singleton] at hb
    rcases hb with hb | rfl
    · exact h.unheld b hb
    · exact hresult

end Waiting

end SimpleAwait
