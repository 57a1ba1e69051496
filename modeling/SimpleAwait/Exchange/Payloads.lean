import SimpleAwait.Exchange.Waiters

/-!
# The payload objects of an exchange

`holds` says in which places of a queue a payload object is constructed, as its storage has it.
`Books` says that the uses a piece of the code lists in `history` are those that it performs
there.  `owns` says which places must hold an object: the used cells of the ring, the `value_` of
every send awaiter, and the result storage of the receive awaiters whose `has_result_` is set.
Each outcome of a step uses payload objects lawfully and takes the objects owned before it to
those owned after it, in `history` and in the storage alike.
-/

namespace SimpleAwait

open Intrusive Lifetimes

variable {N : ℕ} {T : Type} {cap a r s : ℕ} {x x' : Exchange N T} {snd rcv snd' rcv' pre post : List ℕ}
  {action : ExchangeAction N T}

namespace Queue

/-! ## What the operations do to the storage -/

/-- The places in which an object is constructed. -/
def holds (q : Queue N T) : Storage → Bool
  | .cell i => (q.cells i).isSome
  | .value a => (q.senders a).value.isSome
  | .result a => (q.receivers a).resultStorage.isSome

/-- From `q` to `q'` the storage was used as `history` says, by `uses`. -/
structure Books (q : Queue N T) (uses : List (Use Storage)) (q' : Queue N T) : Prop where
  listed : q'.history.uses = q.history.uses ++ uses
  stored : q'.holds = live q.holds uses

/-- Two descriptions of the places agree if they do so kind by kind. -/
theorem storage_ext {f g : Storage → Bool} (hcell : ∀ i, f (.cell i) = g (.cell i))
    (hvalue : ∀ a, f (.value a) = g (.value a)) (hresult : ∀ a, f (.result a) = g (.result a)) :
    f = g := by
  funext p
  cases p with
  | cell i => exact hcell i
  | value a => exact hvalue a
  | result a => exact hresult a

theorem live_append {s : Storage → Bool} (uses uses' : List (Use Storage)) :
    live s (uses ++ uses') = live (live s uses) uses' := List.foldl_append ..

/-- Reading the source of a copy changes nothing. -/
theorem live_copyUses (s : Storage → Bool) (source : Option Storage) (p : Storage) :
    live s (Storage.copyUses source p) = Function.update s p true := by
  cases source <;> rfl

namespace Books

variable {q q' q'' : Queue N T} {uses uses' : List (Use Storage)}

/-- Pointers and flags are no payloads. -/
theorem nil (hcells : q'.cells = q.cells) (hvalue : ∀ b, (q'.senders b).value = (q.senders b).value)
    (hresult : ∀ b, (q'.receivers b).resultStorage = (q.receivers b).resultStorage)
    (huses : q'.history.uses = q.history.uses) : q.Books [] q' where
  listed := by rw [huses, List.append_nil]
  stored := storage_ext (fun i => by simp [Queue.holds, hcells, live])
    (fun b => by simp [Queue.holds, hvalue, live]) fun b => by simp [Queue.holds, hresult, live]

theorem refl (q : Queue N T) : q.Books [] q := nil rfl (fun _ => rfl) (fun _ => rfl) rfl

theorem trans (h : q.Books uses q') (h' : q'.Books uses' q'') : q.Books (uses ++ uses') q'' where
  listed := by rw [h'.listed, h.listed, List.append_assoc]
  stored := by rw [h'.stored, h.stored, live_append]

theorem trans_nil (h : q.Books [] q') (h' : q'.Books uses q'') : q.Books uses q'' := h.trans h'

theorem newSender (q : Queue N T) (v : T) :
    q.Books [.construct (.value q.fresh)] (q.newSender v).2 where
  listed := rfl
  stored := by
    refine storage_ext (fun i => rfl) (fun b => ?_) fun b => rfl
    by_cases hb : b = q.fresh <;> simp [Queue.holds, live, Use.after, Queue.newSender, modifySender, hb]

/-- The storage of a receive awaiter is raw when it is created. -/
theorem newReceiver (q : Queue N T) (hraw : q.holds (.result q.fresh) = false) :
    q.Books [] q.newReceiver.2 := by
  refine nil rfl (fun _ => rfl) (fun b => ?_) rfl
  by_cases hb : b = q.fresh
  · have hnone : (q.receivers q.fresh).resultStorage = none := by simpa [Queue.holds] using hraw
    simp [Queue.newReceiver, modifyReceiver, hb, hnone]
  · simp [Queue.newReceiver, modifyReceiver, hb]

theorem storeBack (q : Queue N T) (cap : ℕ) {value : Option T} (source : Option Storage)
    (hvalue : value.isSome = true) :
    q.Books (Storage.copyUses source (.cell (q.tailIndex cap))) (q.storeBack cap value source) where
  listed := rfl
  stored := by
    rw [live_copyUses]
    refine storage_ext (fun i => ?_) (fun b => rfl) fun b => rfl
    by_cases hi : i = q.tailIndex cap <;> simp [Queue.holds, Queue.storeBack, hi, hvalue]

theorem popFrontStorage (q : Queue N T) (cap : ℕ) :
    q.Books [.destroy (.cell q.head)] (q.popFrontStorage cap) where
  listed := rfl
  stored := by
    refine storage_ext (fun i => ?_) (fun b => rfl) fun b => rfl
    by_cases hi : i = q.head <;> simp [Queue.holds, live, Use.after, Queue.popFrontStorage, hi]

theorem constructResult (q : Queue N T) (a : ℕ) {value : Option T} (source : Option Storage)
    (hvalue : value.isSome = true) :
    q.Books (Storage.copyUses source (.result a)) (q.constructResult a value source) where
  listed := rfl
  stored := by
    rw [live_copyUses]
    refine storage_ext (fun i => rfl) (fun b => rfl) fun b => ?_
    by_cases hb : b = a <;> simp [Queue.holds, Queue.constructResult, modifyReceiver, hb, hvalue]

theorem assignOut (q : Queue N T) : q.Books [.read (.cell q.head)] q.assignOut := ⟨rfl, rfl⟩

theorem sendPopFront (q : Queue N T) (a : ℕ) : q.Books [] (q.sendPopFront a) :=
  nil rfl (fun b => by by_cases hb : b = a <;> simp [Queue.sendPopFront, modifySender, hb])
    (fun _ => rfl) rfl

theorem recvPopFront (q : Queue N T) (a : ℕ) : q.Books [] (q.recvPopFront a) :=
  nil rfl (fun _ => rfl)
    (fun b => by by_cases hb : b = a <;> simp [Queue.recvPopFront, modifyReceiver, hb]) rfl

/-- `await_resume` moves the result out and destroys it. -/
theorem receiveResume {a : ℕ} (hresult : (q.receivers a).hasResult = true) :
    q.Books [.read (.result a), .destroy (.result a)] (q.receiveResume a).2 where
  listed := by simp [Queue.receiveResume, hresult]
  stored := by
    refine storage_ext (fun i => ?_) (fun b => ?_) fun b => ?_
    · simp [Queue.holds, live, Use.after, Queue.receiveResume, hresult, modifyReceiver]
    · simp [Queue.holds, live, Use.after, Queue.receiveResume, hresult, modifyReceiver]
    · by_cases hb : b = a <;>
        simp [Queue.holds, live, Use.after, Queue.receiveResume, hresult, modifyReceiver, hb]

theorem destroyValue (q : Queue N T) (a : ℕ) :
    q.Books [.destroy (.value a)] (q.destroyValue a) where
  listed := rfl
  stored := by
    refine storage_ext (fun i => rfl) (fun b => ?_) fun b => rfl
    by_cases hb : b = a <;> simp [Queue.holds, live, Use.after, Queue.destroyValue, modifySender, hb]

theorem destroyResult {a : ℕ} (hresult : (q.receivers a).hasResult = true) :
    q.Books [.destroy (.result a)] (q.destroyResult a) where
  listed := by simp [Queue.destroyResult, hresult]
  stored := by
    refine storage_ext (fun i => ?_) (fun b => ?_) fun b => ?_
    · simp [Queue.holds, live, Use.after, Queue.destroyResult, hresult, modifyReceiver]
    · simp [Queue.holds, live, Use.after, Queue.destroyResult, hresult, modifyReceiver]
    · by_cases hb : b = a <;>
        simp [Queue.holds, live, Use.after, Queue.destroyResult, hresult, modifyReceiver, hb]

end Books

/-! ## What must be there -/

/-- The places of a queue that hold an object, for the awaiters that exist. -/
def owns (q : Queue N T) (cap : ℕ) (alive : Bool) (stage : ℕ → Stage) : Storage → Bool
  | .cell i => alive && decide (Ring.Occupied cap q.head q.count i)
  | .value a => match stage a with | .sender _ => true | _ => false
  | .result a => match stage a with | .receiver _ => (q.receivers a).hasResult | _ => false

/-- The objects of an awaiter that changes its stage. -/
theorem owns_restage {q : Queue N T} {alive : Bool} {stage : ℕ → Stage} {new : Stage}
    (hvalue : (∃ b, stage a = .sender b) ↔ ∃ b, new = .sender b)
    (hresult : (q.receivers a).hasResult = true →
      ((∃ b, stage a = .receiver b) ↔ ∃ b, new = .receiver b)) :
    q.owns cap alive (Function.update stage a new) = q.owns cap alive stage := by
  refine Queue.storage_ext (fun i => rfl) (fun b => ?_) fun b => ?_
  · by_cases hb : b = a
    · subst hb
      cases hold : stage b <;> cases hnew : new <;> simp_all [Queue.owns]
    · simp [Queue.owns, hb]
  · by_cases hb : b = a
    · subst hb
      cases hold : stage b <;> cases hnew : new <;>
        cases hflag : (q.receivers b).hasResult <;> simp_all [Queue.owns]
    · simp [Queue.owns, hb]

end Queue

namespace Exchange

/-- The places that hold an object. -/
def owns (cap : ℕ) (x : Exchange N T) : Storage → Bool := x.queue.owns cap x.alive x.stage

/-- Nothing is used, and every place is as it was. -/
theorem takes_nil {f g : Storage → Bool} (h : f = g) : Takes f [] g := by
  rw [h]
  exact .nil g

/-- The values that the action reads are live. -/
theorem Offers.takes_copy {source : Option ℕ} {value : Option T}
    (hoffers : x.Offers source value action) {p : Storage} (hp : x.owns cap p = false) :
    Takes (x.owns cap) (Storage.copyUses (source.map .value) p)
      (Function.update (x.owns cap) p true) := by
  cases hoffers with
  | @await a awaiting hstage =>
      have hread : x.owns cap (.value a) = true := by simp [owns, Queue.owns, hstage]
      exact (Takes.read hread).append (.construct hp)
  | call v => exact .construct hp

/-- An await that begins leaves the objects of its awaiter. -/
theorem Offers.owns_eq {source : Option ℕ} {value : Option T}
    (hoffers : x.Offers source value action) (q : Queue N T) (alive : Bool) :
    q.owns cap alive (x.offered source) = q.owns cap alive x.stage := by
  cases hoffers with
  | await awaiting hstage => exact Queue.owns_restage (by simp [hstage]) (by simp [hstage])
  | call v => rfl

theorem Asks.owns_eq {target : Option ℕ} (hasks : x.Asks target action) (q : Queue N T)
    (alive : Bool) : q.owns cap alive (x.asked target) = q.owns cap alive x.stage := by
  cases hasks with
  | await awaiting hstage => exact Queue.owns_restage (by simp [hstage]) (by simp [hstage])
  | call => rfl

namespace Inv

/-- The first parked receiver has no result yet. -/
theorem result_dead (h : Inv cap x snd (r :: rcv)) (halive : x.alive = true) :
    x.owns cap (.result r) = false := by
  simp [owns, Queue.owns, h.receivers r (by simp), (h.waiting halive).unheld r (by simp)]

theorem takes_hand (h : Inv cap x snd (r :: rcv)) (halive : x.alive = true) {source : Option ℕ}
    {value : Option T} (hoffers : x.Offers source value action) :
    Takes (x.owns cap) (Storage.copyUses (source.map .value) (.result r))
      (((x.queue.recvPopFront r).constructResult r value
        (source.map .value)).owns cap x.alive (x.offered source)) := by
  have htakes := hoffers.takes_copy (h.result_dead halive)
  have howns : Function.update (x.owns cap) (.result r) true =
      ((x.queue.recvPopFront r).constructResult r value
        (source.map .value)).owns cap x.alive (x.offered source) := by
    rw [hoffers.owns_eq]
    refine Queue.storage_ext (fun i => rfl) (fun b => rfl) fun b => ?_
    by_cases hb : b = r
    · subst hb
      simp [Queue.owns, h.receivers b (by simp), Queue.constructResult, Queue.modifyReceiver]
    · simp [owns, Queue.owns, Queue.constructResult, Queue.recvPopFront, Queue.modifyReceiver, hb]
  rwa [howns] at htakes

/-- A value is stored in the cell behind the used ones. -/
theorem owns_store {q : Queue N T} {alive : Bool} {stage : ℕ → Stage} (halive : alive = true)
    (value : Option T) (source : Option Storage) :
    Function.update (q.owns cap alive stage) (.cell (q.tailIndex cap)) true =
      (q.storeBack cap value source).owns cap alive stage := by
  refine Queue.storage_ext (fun i => ?_) (fun b => rfl) fun b => rfl
  by_cases hi : i = q.tailIndex cap
  · subst hi
    simp [Queue.owns, halive, Queue.storeBack, Ring.occupied_succ, Queue.tailIndex_eq]
  · have hne : (Storage.cell i) ≠ .cell (q.tailIndex cap) := by simpa using hi
    rw [Function.update_of_ne hne]
    rw [Queue.tailIndex_eq] at hi
    simp [Queue.owns, Queue.storeBack, Ring.occupied_succ, hi]

theorem cell_dead {q : Queue N T} {alive : Bool} {stage : ℕ → Stage} (hcount : q.count < cap) :
    q.owns cap alive stage (.cell (q.tailIndex cap)) = false := by
  simp [Queue.owns, Queue.tailIndex_eq, Ring.not_occupied_index hcount]

theorem takes_store (halive : x.alive = true) {source : Option ℕ} {value : Option T}
    (hoffers : x.Offers source value action) (hcount : x.queue.count < cap) :
    Takes (x.owns cap) (Storage.copyUses (source.map .value) (.cell (x.queue.tailIndex cap)))
      ((x.queue.storeBack cap value (source.map .value)).owns cap x.alive (x.offered source)) := by
  have hdead : x.owns cap (.cell (x.queue.tailIndex cap)) = false := cell_dead hcount
  have htakes := hoffers.takes_copy hdead
  have howns : Function.update (x.owns cap) (.cell (x.queue.tailIndex cap)) true =
      (x.queue.storeBack cap value (source.map .value)).owns cap x.alive (x.offered source) := by
    rw [hoffers.owns_eq, owns, owns_store halive value]
  rwa [howns] at htakes

/-- The object in the head cell is destroyed, and the head moves on. -/
theorem owns_pop {q : Queue N T} {alive : Bool} {stage : ℕ → Stage} (hhead : q.head < cap)
    (hcount : 0 < q.count) (hle : q.count ≤ cap) :
    Function.update (q.owns cap alive stage) (.cell q.head) false =
      (q.popFrontStorage cap).owns cap alive stage := by
  obtain ⟨n, hn⟩ : ∃ n, q.count = n + 1 := ⟨q.count - 1, by omega⟩
  have hpop : ∀ i, Ring.Occupied cap (Queue.nextIndex cap q.head) n i ↔
      Ring.Occupied cap q.head (n + 1) i ∧ i ≠ q.head := by
    intro i
    rw [Queue.nextIndex_eq hhead]
    exact Ring.occupied_pop hhead (by omega)
  refine Queue.storage_ext (fun i => ?_) (fun b => rfl) fun b => rfl
  by_cases hi : i = q.head
  · subst hi
    simp [Queue.owns, Queue.popFrontStorage, hn, hpop]
  · have hne : (Storage.cell i) ≠ .cell q.head := by simpa using hi
    rw [Function.update_of_ne hne]
    simp [Queue.owns, Queue.popFrontStorage, hn, hpop, hi]

theorem head_live {q : Queue N T} {alive : Bool} {stage : ℕ → Stage} (halive : alive = true)
    (hhead : q.head < cap) (hcount : 0 < q.count) :
    q.owns cap alive stage (.cell q.head) = true := by
  obtain ⟨n, hn⟩ : ∃ n, q.count = n + 1 := ⟨q.count - 1, by omega⟩
  simp [Queue.owns, halive, hn, Ring.occupied_head hhead]

/-- The uses that hand out the oldest value and free its cell. -/
def handOutUses (x : Exchange N T) : Option ℕ → List (Use Storage)
  | none => [.read (.cell x.queue.head), .destroy (.cell x.queue.head)]
  | some a => [.read (.cell x.queue.head), .construct (.result a), .destroy (.cell x.queue.head)]

/-- The oldest value goes to whom it is for, and its cell is freed. -/
theorem takes_take (h : Inv cap x snd rcv) (halive : x.alive = true) {target : Option ℕ}
    (hasks : x.Asks target action) (hcount : 0 < x.queue.count) :
    Takes (x.owns cap) (handOutUses x target)
      (((x.handedOut target).popFrontStorage cap).owns cap x.alive (x.asked target)) := by
  have hhead := (h.waiting halive).head_lt
  have hle := (h.waiting halive).count_le
  have hlive : x.owns cap (.cell x.queue.head) = true := head_live halive hhead hcount
  cases hasks with
  | call =>
      have htakes := (Takes.read hlive).append (.destroy hlive)
      rw [owns, owns_pop hhead hcount hle] at htakes
      exact htakes
  | @await a awaiting hstage =>
      -- the result is constructed while the cell still holds the value
      have hdead : x.owns cap (.result a) = false := by
        simp [owns, Queue.owns, hstage, h.idle a hstage]
      have hcell : Function.update (x.owns cap) (.result a) true (.cell x.queue.head) = true := by
        rw [Function.update_of_ne (by simp)]
        exact hlive
      have htakes := ((Takes.read hlive).append (.construct hdead)).append (.destroy hcell)
      have hheld : Function.update (x.owns cap) (.result a) true =
          (x.handedOut (some a)).owns cap x.alive (x.asked (some a)) := by
        rw [(Asks.await awaiting hstage).owns_eq]
        refine Queue.storage_ext (fun i => rfl) (fun b => rfl) fun b => ?_
        by_cases hb : b = a
        · subst hb
          simp [Queue.owns, hstage, Exchange.handedOut, Queue.constructResult, Queue.modifyReceiver]
        · simp [owns, Queue.owns, Exchange.handedOut, Queue.constructResult, Queue.modifyReceiver,
            hb]
      have hpop : Function.update ((x.handedOut (some a)).owns cap x.alive (x.asked (some a)))
          (.cell x.queue.head) false =
          ((x.handedOut (some a)).popFrontStorage cap).owns cap x.alive (x.asked (some a)) :=
        owns_pop hhead hcount hle
      rw [hheld] at htakes
      rwa [← hpop]

/-- The value of the first parked sender goes into the free cell. -/
theorem takes_admit (h : Inv cap x (s :: snd) rcv) (halive : x.alive = true) {target : Option ℕ}
    (hasks : x.Asks target action) (hcount : 0 < x.queue.count) :
    Takes (x.owns cap) (handOutUses x target ++ [.read (.value s), .construct (.cell
        (((x.handedOut target).popFrontStorage cap).tailIndex cap))])
      ((x.admitted cap target s).owns cap x.alive (x.asked target)) := by
  have hle := (h.waiting halive).count_le
  have htaken := h.takes_take halive hasks hcount
  have hlive : ((x.handedOut target).popFrontStorage cap).owns cap x.alive (x.asked target)
      (.value s) = true := by
    rw [hasks.owns_eq]
    simp [Queue.owns, h.senders s (by simp)]
  -- the cell that was freed is there for the sender's value
  have hcount' : ((x.handedOut target).popFrontStorage cap).count < cap := by
    have hsame : ((x.handedOut target).popFrontStorage cap).count = x.queue.count - 1 := by
      cases target <;> rfl
    omega
  have hdead : ((x.handedOut target).popFrontStorage cap).owns cap x.alive (x.asked target)
      (.cell (((x.handedOut target).popFrontStorage cap).tailIndex cap)) = false := cell_dead hcount'
  have htakes := htaken.append ((Takes.read hlive).append (.construct hdead))
  rwa [owns_store halive (x.queue.senders s).value (some (.value s))] at htakes

/-! ### Destruction -/

/-- The remaining values are destroyed. -/
theorem takes_destroyCells (stage : ℕ → Stage) : ∀ (n : ℕ) (q : Queue N T), q.count = n →
    q.head < cap → q.count ≤ cap → ∃ uses, q.Books uses (Queue.destroyCells cap n q) ∧
      Takes (q.owns cap true stage) uses (q.owns cap false stage) := by
  intro n
  induction n with
  | zero =>
      intro q hn hhead hle
      refine ⟨[], .refl q, takes_nil (Queue.storage_ext (fun i => ?_) (fun b => rfl) fun b => rfl)⟩
      simp [Queue.owns, hn, Ring.not_occupied_zero]
  | succ n ih =>
      intro q hn hhead hle
      have hcount : 0 < q.count := by omega
      have hlive : q.owns cap true stage (.cell q.head) = true := head_live rfl hhead hcount
      have hdestroyed := Takes.destroy hlive
      rw [owns_pop hhead hcount hle] at hdestroyed
      have hhead' : (q.popFrontStorage cap).head < cap := by
        show Queue.nextIndex cap q.head < cap
        unfold Queue.nextIndex
        split_ifs <;> omega
      have hcount' : (q.popFrontStorage cap).count = n := by
        show q.count - 1 = n
        omega
      obtain ⟨uses, hbooks, hrest⟩ := ih (q.popFrontStorage cap) hcount' hhead' (by omega)
      have hgone : (q.popFrontStorage cap).owns cap false stage = q.owns cap false stage :=
        Queue.storage_ext (fun i => rfl) (fun b => rfl) fun b => rfl
      rw [hgone] at hrest
      exact ⟨_, (Queue.Books.popFrontStorage q cap).trans hbooks, hdestroyed.append hrest⟩

theorem takes_send (h : Inv cap x snd rcv) (v : T) :
    Takes (x.owns cap) [.construct (.value x.queue.fresh)]
      ((x.queue.newSender v).2.owns cap x.alive
        (Function.update x.stage x.queue.fresh (.sender false))) := by
  have hstage := h.unborn _ le_rfl
  have hdead : x.owns cap (.value x.queue.fresh) = false := by simp [owns, Queue.owns, hstage]
  have htakes := Takes.construct hdead
  have howns : Function.update (x.owns cap) (.value x.queue.fresh) true =
      (x.queue.newSender v).2.owns cap x.alive
        (Function.update x.stage x.queue.fresh (.sender false)) := by
    refine Queue.storage_ext (fun i => rfl) (fun b => ?_) fun b => ?_
    · by_cases hb : b = x.queue.fresh
      · simp [hb, Queue.owns]
      · simp [hb, owns, Queue.owns]
    · by_cases hb : b = x.queue.fresh
      · simp [hb, owns, Queue.owns, hstage]
      · simp [hb, owns, Queue.owns, Queue.newSender, Queue.modifySender]
  rwa [howns] at htakes

theorem takes_resumeReceiver {a : ℕ} (hstage : x.stage a = .receiver true) :
    ∃ uses, x.queue.Books uses (x.queue.receiveResume a).2 ∧
      Takes (x.owns cap) uses ((x.resumeReceiver a).owns cap) := by
  by_cases hresult : (x.queue.receivers a).hasResult = true
  · have hlive : x.owns cap (.result a) = true := by simp [owns, Queue.owns, hstage, hresult]
    have htakes := (Takes.read hlive).append (.destroy hlive)
    have howns : Function.update (x.owns cap) (.result a) false = (x.resumeReceiver a).owns cap := by
      refine Queue.storage_ext (fun i => ?_) (fun b => ?_) fun b => ?_
      · simp [owns, Queue.owns, Exchange.resumeReceiver, Queue.receiveResume, hresult,
          Queue.modifyReceiver]
      · by_cases hb : b = a
        · simp [owns, Queue.owns, Exchange.resumeReceiver, hb, hstage]
        · simp [owns, Queue.owns, Exchange.resumeReceiver, hb]
      · by_cases hb : b = a <;>
          simp [owns, Queue.owns, Exchange.resumeReceiver, Queue.receiveResume, hresult,
            Queue.modifyReceiver, hb]
    rw [howns] at htakes
    exact ⟨_, .receiveResume hresult, htakes⟩
  · have howns : x.owns cap = (x.resumeReceiver a).owns cap := by
      refine Queue.storage_ext (fun i => ?_) (fun b => ?_) fun b => ?_
      · simp [owns, Queue.owns, Exchange.resumeReceiver, Queue.receiveResume, hresult]
      · by_cases hb : b = a
        · simp [owns, Queue.owns, Exchange.resumeReceiver, hb, hstage]
        · simp [owns, Queue.owns, Exchange.resumeReceiver, hb]
      · by_cases hb : b = a
        · simp [owns, Queue.owns, Exchange.resumeReceiver, Queue.receiveResume, hresult, hb, hstage]
        · simp [owns, Queue.owns, Exchange.resumeReceiver, Queue.receiveResume, hresult, hb]
    refine ⟨[], ?_, takes_nil howns⟩
    unfold Queue.receiveResume
    simp only [hresult, Bool.false_eq_true, if_false]
    exact .nil rfl (fun _ => rfl) (fun _ => rfl) rfl

/-- `value_` of a send awaiter, in whatever state the queue leaves the awaiter. -/
theorem takes_destroySender {q : Queue N T} {awaited : Bool} (hstage : x.stage a = .sender awaited)
    (hbooks : x.queue.Books [] q) (howns : q.owns cap x.alive x.stage = x.owns cap) :
    ∃ uses, x.queue.Books uses (q.destroyValue a) ∧
      Takes (x.owns cap) uses
        ((q.destroyValue a).owns cap x.alive (Function.update x.stage a .destroyed)) := by
  have hlive : x.owns cap (.value a) = true := by simp [owns, Queue.owns, hstage]
  have htakes := Takes.destroy hlive
  refine ⟨_, hbooks.trans_nil (.destroyValue q a), ?_⟩
  rw [← howns] at htakes ⊢
  convert htakes using 1
  refine Queue.storage_ext (fun i => rfl) (fun b => ?_) fun b => ?_
  · by_cases hb : b = a <;> simp [hb, Queue.owns]
  · by_cases hb : b = a <;> simp [hb, Queue.owns, hstage, Queue.destroyValue, Queue.modifySender]

/-- The result that a receive awaiter holds, if any. -/
theorem takes_destroyReceiver {q : Queue N T} {awaited : Bool}
    (hstage : x.stage a = .receiver awaited) (hbooks : x.queue.Books [] q)
    (howns : q.owns cap x.alive x.stage = x.owns cap) :
    ∃ uses, x.queue.Books uses (q.destroyResult a) ∧
      Takes (x.owns cap) uses
        ((q.destroyResult a).owns cap x.alive (Function.update x.stage a .destroyed)) := by
  rw [← howns]
  by_cases hresult : (q.receivers a).hasResult = true
  · have hlive : q.owns cap x.alive x.stage (.result a) = true := by
      simp [Queue.owns, hstage, hresult]
    have htakes := Takes.destroy hlive
    refine ⟨_, hbooks.trans_nil (.destroyResult hresult), ?_⟩
    convert htakes using 1
    rw [Queue.destroyResult_eq]
    refine Queue.storage_ext (fun i => rfl) (fun b => ?_) fun b => ?_
    · by_cases hb : b = a <;> simp [hb, Queue.owns, hstage]
    · by_cases hb : b = a <;> simp [hb, Queue.owns]
  · have hsame : q.destroyResult a = q := by simp [Queue.destroyResult, hresult]
    rw [hsame]
    exact ⟨[], hbooks, takes_nil
      (Queue.owns_restage (by simp [hstage]) fun hheld => absurd hheld hresult).symm⟩

/-- The value that is offered is there. -/
theorem offers_isSome (hheld : x.queue.holds = x.owns cap) {source : Option ℕ} {value : Option T}
    (hoffers : x.Offers source value action) : value.isSome = true := by
  cases hoffers with
  | @await a awaiting hstage =>
      have hlive : x.owns cap (.value a) = true := by simp [owns, Queue.owns, hstage]
      rwa [← hheld] at hlive
  | call v => rfl

/-- The oldest value is handed out, and its cell is freed. -/
theorem books_take (hheld : x.queue.holds = x.owns cap) (h : Inv cap x snd rcv)
    (halive : x.alive = true) (target : Option ℕ) (hcount : 0 < x.queue.count) :
    x.queue.Books (handOutUses x target) ((x.handedOut target).popFrontStorage cap) := by
  cases target with
  | none => exact (Queue.Books.assignOut x.queue).trans (.popFrontStorage _ cap)
  | some a =>
      have hlive : x.owns cap (.cell x.queue.head) = true :=
        head_live halive (h.waiting halive).head_lt hcount
      rw [← hheld] at hlive
      exact (Queue.Books.constructResult x.queue a (some (.cell x.queue.head)) hlive).trans
        (.popFrontStorage _ cap)

/-- Every outcome uses payload objects lawfully, and lists its uses. -/
theorem change_takes (h : Inv cap x snd rcv) (hheld : x.queue.holds = x.owns cap)
    (hchange : Change cap x snd rcv action x' snd' rcv') :
    ∃ uses, x.queue.Books uses x'.queue ∧ Takes (x.owns cap) uses (x'.owns cap) := by
  cases hchange with
  | send v halive => exact ⟨_, .newSender x.queue v, h.takes_send v⟩
  | receive halive =>
      -- the storage of the new awaiter has not been used
      have hraw : x.queue.holds (.result x.queue.fresh) = false := by
        rw [hheld]
        simp [owns, Queue.owns, h.unborn _ le_rfl]
      refine ⟨[], .newReceiver x.queue hraw, takes_nil ?_⟩
      refine Queue.storage_ext (fun i => rfl) (fun b => ?_) fun b => ?_
      · by_cases hb : b = x.queue.fresh
        · simp [owns, Queue.owns, hb, h.unborn _ le_rfl]
        · simp [owns, Queue.owns, hb]
      · by_cases hb : b = x.queue.fresh
        · simp [owns, Queue.owns, hb, h.unborn _ le_rfl, Queue.newReceiver, Queue.modifyReceiver]
        · simp [owns, Queue.owns, hb, Queue.newReceiver, Queue.modifyReceiver]
  | hand halive hoffers =>
      exact ⟨_, (Queue.Books.recvPopFront x.queue _).trans_nil
        (.constructResult _ _ _ (offers_isSome hheld hoffers)), h.takes_hand halive hoffers⟩
  | store halive hoffers hcount =>
      exact ⟨_, .storeBack x.queue cap _ (offers_isSome hheld hoffers),
        takes_store halive hoffers hcount⟩
  | refuse v halive hcount => exact ⟨[], .refl _, .nil _⟩
  | parkSender halive hstage hcount hcurrent hrunning =>
      rw [Queue.linkSender_eq]
      exact ⟨[], .nil rfl (fun _ => rfl) (fun _ => rfl) rfl, takes_nil
        (Queue.owns_restage (by simp [hstage]) (by simp [hstage])).symm⟩
  | strangeSender halive hstage hcount hrunning =>
      exact ⟨[], .refl _, takes_nil (Queue.owns_restage (by simp [hstage]) (by simp [hstage])).symm⟩
  | take halive hasks hcount =>
      exact ⟨_, books_take hheld h halive _ hcount, h.takes_take halive hasks hcount⟩
  | @admitOldest _ s target _ halive hasks hcount =>
      have hlive : x.owns cap (.value s) = true := by
        simp [owns, Queue.owns, h.senders s (by simp)]
      rw [← hheld] at hlive
      refine ⟨_, ?_, h.takes_admit halive hasks hcount⟩
      exact (books_take hheld h halive target hcount).trans
        ((Queue.Books.sendPopFront _ s).trans_nil (.storeBack _ cap (some (.value s)) hlive))
  | nothing halive hcount => exact ⟨[], .refl _, .nil _⟩
  | parkReceiver halive hstage hcount hcurrent hrunning =>
      rw [Queue.linkReceiver_eq]
      exact ⟨[], .nil rfl (fun _ => rfl) (fun _ => rfl) rfl, takes_nil
        (Queue.owns_restage (by simp [hstage]) (by simp [hstage])).symm⟩
  | strangeReceiver halive hstage hcount hrunning =>
      exact ⟨[], .refl _, takes_nil (Queue.owns_restage (by simp [hstage]) (by simp [hstage])).symm⟩
  | resumeSender hstage hlinked =>
      exact ⟨[], .refl _, takes_nil (Queue.owns_restage (by simp [hstage]) (by simp [hstage])).symm⟩
  | resumeReceiver hstage hlinked => exact takes_resumeReceiver hstage
  | destroySender hstage hlinked => exact takes_destroySender hstage (.refl _) rfl
  | @unlinkSender pre post _ a halive =>
      refine takes_destroySender (h.senders a (by simp)) ?_ ?_ <;>
        rw [Queue.unlinkSender_eq (h.waiting halive).send (h.waiting halive).length_lt_fresh]
      · exact .nil rfl (fun _ => rfl) (fun _ => rfl) rfl
      · rfl
  | destroyReceiver hstage hlinked => exact takes_destroyReceiver hstage (.refl _) rfl
  | @unlinkReceiver _ pre post a halive =>
      refine takes_destroyReceiver (h.receivers a (by simp)) ?_ ?_ <;>
        rw [Queue.unlinkReceiver_eq (h.waiting halive).recv (h.waiting halive).length_lt_fresh']
      · exact .nil rfl (fun _ => rfl) (fun _ => rfl) rfl
      · rfl
  | destroyQueue halive =>
      have hwaiting := h.waiting halive
      have hflags : x.queue.Books [] (x.queue.detached snd rcv) :=
        .nil rfl (fun _ => rfl) (fun _ => rfl) rfl
      obtain ⟨uses, hbooks, htakes⟩ := takes_destroyCells x.stage x.queue.count
        (x.queue.detached snd rcv) rfl hwaiting.head_lt hwaiting.count_le
      -- only the cells go with the queue, the awaiters keep their objects
      have howns : (x.destroyQueue cap).owns cap =
          (x.queue.detached snd rcv).owns cap false x.stage := by
        obtain ⟨cells, head, history, hdestroy⟩ := hwaiting.destroy_eq x.sched
        simp only [owns, Exchange.destroyQueue, hdestroy]
        exact Queue.storage_ext (fun i => rfl) (fun b => rfl) fun b => rfl
      refine ⟨uses, ?_, ?_⟩
      · simp only [Exchange.destroyQueue, hwaiting.destroy_cells]
        exact hflags.trans_nil hbooks
      · rw [howns, owns, halive]
        exact htakes
  | elsewhere change htrace hleaves => exact ⟨[], .refl _, .nil _⟩

end Inv

end Exchange

end SimpleAwait
