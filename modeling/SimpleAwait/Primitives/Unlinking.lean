import SimpleAwait.Primitives.Waiting

/-!
# What the destructors do to the waiters

`unlink_sender` and `unlink_receiver` erase one awaiter from its list, wherever it is, and
`~Queue` clears the flag of every parked awaiter.
-/

namespace SimpleAwait

open Intrusive

variable {N : ℕ} {T : Type} {cap : ℕ} {q : Queue N T} {snd rcv pre post : List ℕ} {a : ℕ}

namespace Queue

/-- The links, the head and the tail after `unlink_sender`. -/
theorem unlinkSender_eq (h : Fifo q.sendNext q.sendHead q.sendTail (pre ++ a :: post))
    (hfresh : pre.length < q.fresh) : q.unlinkSender a =
    { q with
      senders := fun b =>
        { value := (q.senders b).value
          next := if b = a then none else if pre.getLast? = some b then q.sendNext a
            else (q.senders b).next
          slot := (q.senders b).slot
          linked := if b = a then false else (q.senders b).linked }
      sendHead := if pre = [] then q.sendNext a else q.sendHead
      sendTail := if post = [] then pre.getLast? else q.sendTail } := by
  have hskipped : q.skipSender pre.getLast? (q.senders a).next =
      { q with
        senders := fun b => if pre.getLast? = some b then
          { q.senders b with next := q.sendNext a } else q.senders b
        sendHead := if pre = [] then q.sendNext a else q.sendHead } := by
    cases hlast : pre.getLast? with
    | none =>
        obtain rfl := List.getLast?_eq_none_iff.mp hlast
        simp [skipSender, sendNext]
    | some p =>
        have hne : pre ≠ [] := List.ne_nil_of_mem (List.mem_of_getLast? hlast)
        simp only [skipSender, modifySender, hne, if_false, Queue.mk.injEq, and_true, true_and]
        funext b
        by_cases hb : b = p
        · simp [hb, sendNext]
        · simp [hb, Ne.symm hb]
  have hcut : ∀ q' : Queue N T, q'.sendTail = q.sendTail →
      (if q'.sendTail = some a then { q' with sendTail := pre.getLast? } else q') =
        { q' with sendTail := if post = [] then pre.getLast? else q.sendTail } := by
    intro q' htail
    simp only [htail, h.tail_eq_some_iff]
    split_ifs
    · rfl
    · rw [← htail]
  unfold unlinkSender
  simp only [h.linked.before_eq hfresh]
  rw [hcut _ (by rw [hskipped]), hskipped]
  simp only [modifySender, Queue.mk.injEq, and_true, true_and]
  funext b
  by_cases hb : b = a
  · subst hb
    by_cases hlast : pre.getLast? = some b <;> simp [hlast]
  · by_cases hlast : pre.getLast? = some b <;> simp [hb, hlast]

/-- The links, the head and the tail after `unlink_receiver`. -/
theorem unlinkReceiver_eq (h : Fifo q.recvNext q.recvHead q.recvTail (pre ++ a :: post))
    (hfresh : pre.length < q.fresh) : q.unlinkReceiver a =
    { q with
      receivers := fun b =>
        { resultStorage := (q.receivers b).resultStorage
          hasResult := (q.receivers b).hasResult
          next := if b = a then none else if pre.getLast? = some b then q.recvNext a
            else (q.receivers b).next
          slot := (q.receivers b).slot
          linked := if b = a then false else (q.receivers b).linked }
      recvHead := if pre = [] then q.recvNext a else q.recvHead
      recvTail := if post = [] then pre.getLast? else q.recvTail } := by
  have hskipped : q.skipReceiver pre.getLast? (q.receivers a).next =
      { q with
        receivers := fun b => if pre.getLast? = some b then
          { q.receivers b with next := q.recvNext a } else q.receivers b
        recvHead := if pre = [] then q.recvNext a else q.recvHead } := by
    cases hlast : pre.getLast? with
    | none =>
        obtain rfl := List.getLast?_eq_none_iff.mp hlast
        simp [skipReceiver, recvNext]
    | some p =>
        have hne : pre ≠ [] := List.ne_nil_of_mem (List.mem_of_getLast? hlast)
        simp only [skipReceiver, modifyReceiver, hne, if_false, Queue.mk.injEq, and_true, true_and]
        funext b
        by_cases hb : b = p
        · simp [hb, recvNext]
        · simp [hb, Ne.symm hb]
  have hcut : ∀ q' : Queue N T, q'.recvTail = q.recvTail →
      (if q'.recvTail = some a then { q' with recvTail := pre.getLast? } else q') =
        { q' with recvTail := if post = [] then pre.getLast? else q.recvTail } := by
    intro q' htail
    simp only [htail, h.tail_eq_some_iff]
    split_ifs
    · rfl
    · rw [← htail]
  unfold unlinkReceiver
  simp only [h.linked.before_eq hfresh]
  rw [hcut _ (by rw [hskipped]), hskipped]
  simp only [modifyReceiver, Queue.mk.injEq, and_true, true_and]
  funext b
  by_cases hb : b = a
  · subst hb
    by_cases hlast : pre.getLast? = some b <;> simp [hlast]
  · by_cases hlast : pre.getLast? = some b <;> simp [hb, hlast]

theorem destroyValue_eq (q : Queue N T) (a : ℕ) : q.destroyValue a =
    { q with
      senders := fun b =>
        { q.senders b with value := if b = a then none else (q.senders b).value }
      history := q.history.use [.destroy (.value a)] } := by
  simp only [destroyValue, modifySender, Queue.mk.injEq, and_true, true_and]
  funext b
  by_cases hb : b = a <;> simp [hb]

theorem destroyResult_eq (q : Queue N T) (a : ℕ) : q.destroyResult a =
    { q with
      receivers := fun b =>
        { q.receivers b with resultStorage :=
            if b = a ∧ (q.receivers b).hasResult = true then none else (q.receivers b).resultStorage }
      history := q.history.use
        (if (q.receivers a).hasResult then [.destroy (.result a)] else []) } := by
  unfold destroyResult
  split_ifs with hresult
  · simp only [modifyReceiver, Queue.mk.injEq, and_true, true_and]
    funext b
    by_cases hb : b = a <;> simp [hb, hresult]
  · have hkept : ∀ b, ¬ (b = a ∧ (q.receivers b).hasResult = true) := by
      rintro b ⟨rfl, hheld⟩
      exact hresult hheld
    simp [hkept, QueueHistory.use]

/-- The loops of `~Queue` clear the flags of the awaiters that they visit. -/
theorem detachSenders_eq {l : List ℕ} {head : Option ℕ} {n : ℕ} (h : Linked q.sendNext head l)
    (hn : l.length ≤ n) : detachSenders n head q =
    { q with senders := fun b =>
        { q.senders b with linked := if b ∈ l then false else (q.senders b).linked } } := by
  induction l generalizing q head n with
  | nil =>
      rw [linked_nil.mp h]
      cases n <;> simp [detachSenders]
  | cons s l ih =>
      obtain ⟨rfl, hl⟩ := h
      cases n with
      | zero => simp at hn
      | succ n =>
          have hkept : Linked (q.modifySender s fun x => { x with linked := false }).sendNext
              (q.senders s).next l := by
            refine hl.congr fun b _ => ?_
            by_cases hb : b = s <;> simp [sendNext, modifySender, hb]
          rw [detachSenders, ih hkept (Nat.le_of_succ_le_succ hn)]
          simp only [modifySender, Queue.mk.injEq, and_true, true_and]
          funext b
          by_cases hb : b = s
          · by_cases hmem : b ∈ l <;> simp [hb]
          · by_cases hmem : b ∈ l <;> simp [hb, hmem]

theorem detachReceivers_eq {l : List ℕ} {head : Option ℕ} {n : ℕ} (h : Linked q.recvNext head l)
    (hn : l.length ≤ n) : detachReceivers n head q =
    { q with receivers := fun b =>
        { q.receivers b with linked := if b ∈ l then false else (q.receivers b).linked } } := by
  induction l generalizing q head n with
  | nil =>
      rw [linked_nil.mp h]
      cases n <;> simp [detachReceivers]
  | cons r l ih =>
      obtain ⟨rfl, hl⟩ := h
      cases n with
      | zero => simp at hn
      | succ n =>
          have hkept : Linked (q.modifyReceiver r fun x => { x with linked := false }).recvNext
              (q.receivers r).next l := by
            refine hl.congr fun b _ => ?_
            by_cases hb : b = r <;> simp [recvNext, modifyReceiver, hb]
          rw [detachReceivers, ih hkept (Nat.le_of_succ_le_succ hn)]
          simp only [modifyReceiver, Queue.mk.injEq, and_true, true_and]
          funext b
          by_cases hb : b = r
          · by_cases hmem : b ∈ l <;> simp [hb]
          · by_cases hmem : b ∈ l <;> simp [hb, hmem]

/-- The queue after both loops, where the awaiters `snd` and `rcv` were parked. -/
def detached (q : Queue N T) (snd rcv : List ℕ) : Queue N T :=
  { q with
    senders := fun b =>
      { q.senders b with linked := if b ∈ snd then false else (q.senders b).linked }
    receivers := fun b =>
      { q.receivers b with linked := if b ∈ rcv then false else (q.receivers b).linked } }

/-- Popping the ring touches no awaiter. -/
theorem destroyCells_frame (cap n : ℕ) (q : Queue N T) : destroyCells cap n q =
    { q with
      cells := (destroyCells cap n q).cells
      head := (destroyCells cap n q).head
      count := q.count - n
      history := (destroyCells cap n q).history } := by
  induction n generalizing q with
  | zero => rfl
  | succ n ih =>
      rw [destroyCells, ih]
      simp [popFrontStorage, Nat.sub_sub, Nat.add_comm]

end Queue

/-! ## Destroyed awaiters -/

namespace Waiting

theorem length_lt_fresh (h : Waiting cap q (pre ++ a :: post) rcv) : pre.length < q.fresh := by
  have := h.send.linked.length_le fun b hb => h.named b (Or.inl hb)
  simp only [List.length_append, List.length_cons] at this
  omega

theorem length_lt_fresh' (h : Waiting cap q snd (pre ++ a :: post)) : pre.length < q.fresh := by
  have := h.recv.linked.length_le fun b hb => h.named b (Or.inr hb)
  simp only [List.length_append, List.length_cons] at this
  omega

/-- A parked sender that is destroyed leaves its list. -/
theorem unlinkSender (h : Waiting cap q (pre ++ a :: post) rcv) :
    Waiting cap (q.unlinkSender a) (pre ++ post) rcv := by
  have ha := h.send.linked.not_mem_of_middle
  have hsub : ∀ b ∈ pre ++ post, b ∈ pre ++ a :: post := by
    intro b hb
    simp only [List.mem_append, List.mem_cons] at hb ⊢
    exact hb.imp_right Or.inr
  have hfresh := h.length_lt_fresh
  rw [Queue.unlinkSender_eq h.send hfresh]
  refine ⟨?_, h.recv, fun b => ?_, h.recvLinked, fun b hb => ?_, h.unheld, h.head_lt, h.count_le,
    fun _ => h.full (by simp), h.empty⟩
  · exact h.send.remove fun b hb => by simp [Queue.sendNext, hb]
  · by_cases hb : b = a
    · subst hb
      simpa using ha
    · simp only [hb, if_false, h.sendLinked]
      simp [hb]
  · exact h.named b (hb.imp_left (hsub b))

/-- A parked receiver that is destroyed leaves its list. -/
theorem unlinkReceiver (h : Waiting cap q snd (pre ++ a :: post)) :
    Waiting cap (q.unlinkReceiver a) snd (pre ++ post) := by
  have ha := h.recv.linked.not_mem_of_middle
  have hsub : ∀ b ∈ pre ++ post, b ∈ pre ++ a :: post := by
    intro b hb
    simp only [List.mem_append, List.mem_cons] at hb ⊢
    exact hb.imp_right Or.inr
  have hfresh := h.length_lt_fresh'
  rw [Queue.unlinkReceiver_eq h.recv hfresh]
  refine ⟨h.send, ?_, h.sendLinked, fun b => ?_, fun b hb => ?_, fun b hb => ?_, h.head_lt,
    h.count_le, h.full, fun _ => h.empty (by simp)⟩
  · exact h.recv.remove fun b hb => by simp [Queue.recvNext, hb]
  · by_cases hb : b = a
    · subst hb
      simpa using ha
    · simp only [hb, if_false, h.recvLinked]
      simp [hb]
  · exact h.named b (hb.imp_right (hsub b))
  · exact h.unheld b (hsub b hb)

/-- The payload of an awaiter is destroyed. -/
theorem destroyValue (h : Waiting cap q snd rcv) (a : ℕ) : Waiting cap (q.destroyValue a) snd rcv := by
  rw [Queue.destroyValue_eq]
  exact ⟨h.send, h.recv, h.sendLinked, h.recvLinked, h.named, h.unheld, h.head_lt, h.count_le,
    h.full, h.empty⟩

theorem destroyResult (h : Waiting cap q snd rcv) (a : ℕ) :
    Waiting cap (q.destroyResult a) snd rcv := by
  rw [Queue.destroyResult_eq]
  exact ⟨h.send, h.recv, h.sendLinked, h.recvLinked, h.named, h.unheld, h.head_lt, h.count_le,
    h.full, h.empty⟩

/-- `~Queue` reports an error if somebody is parked, clears the flags of all who are, and
empties the ring. -/
theorem destroy_cells (h : Waiting cap q snd rcv) (c : Scheduler N) : q.destroy cap c =
    (if snd ≠ [] ∨ rcv ≠ [] then c.report .objectDestroyedWithWaiters else c,
      Queue.destroyCells cap q.count (q.detached snd rcv)) := by
  have hsnd := h.send.linked.length_le fun b hb => h.named b (Or.inl hb)
  have hrcv := h.recv.linked.length_le fun b hb => h.named b (Or.inr hb)
  have hreported : (q.sendHead ≠ none ∨ q.recvHead ≠ none) ↔ (snd ≠ [] ∨ rcv ≠ []) :=
    or_congr (not_congr h.send.head_eq_none) (not_congr h.recv.head_eq_none)
  have hdetached : Queue.detachReceivers q.fresh q.recvHead
      (Queue.detachSenders q.fresh q.sendHead q) = q.detached snd rcv := by
    rw [Queue.detachSenders_eq h.send.linked hsnd]
    refine Queue.detachReceivers_eq ?_ hrcv
    exact h.recv.linked
  have hsenders : (Queue.detachSenders q.fresh q.sendHead q).fresh = q.fresh ∧
      (Queue.detachSenders q.fresh q.sendHead q).recvHead = q.recvHead := by
    rw [Queue.detachSenders_eq h.send.linked hsnd]
    exact ⟨rfl, rfl⟩
  unfold Queue.destroy
  simp only [hsenders, hdetached]
  simp only [Queue.detached, hreported]

theorem destroy_eq (h : Waiting cap q snd rcv) (c : Scheduler N) : ∃ cells head history,
    q.destroy cap c =
      (if snd ≠ [] ∨ rcv ≠ [] then c.report .objectDestroyedWithWaiters else c,
        { q.detached snd rcv with cells := cells, head := head, count := 0, history := history }) := by
  have hcount : (q.detached snd rcv).count - q.count = 0 := Nat.sub_self _
  rw [h.destroy_cells, Queue.destroyCells_frame, hcount]
  exact ⟨_, _, _, rfl⟩

end Waiting

end SimpleAwait
