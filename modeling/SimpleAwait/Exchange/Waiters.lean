import SimpleAwait.Exchange.Changes

/-!
# The waiters of an exchange

`PlainQueue` is what a queue is to its waiters: a count and two plain lists.  Every step of an
exchange moves its intrusive lists as `PlainQueue.step` moves the plain ones, and so its
pointers stay well formed, whatever is destroyed and in whatever order.
-/

namespace SimpleAwait

open Intrusive

variable {N : ℕ} {T : Type}

/-! ## Plain lists -/

/-- A count of buffered values and the waiters, in parking order. -/
structure PlainQueue where
  count : ℕ
  senders : List ℕ
  receivers : List ℕ

namespace PlainQueue

variable (cap : ℕ) (running : Handle → Bool) (p : PlainQueue)

/-- A value is offered: it goes to the first receiver, or into the ring; `none` where it is
not accepted. -/
def send : Option PlainQueue :=
  match p.receivers with
  | _ :: rest => some { p with receivers := rest }
  | [] => if p.count < cap then some { p with count := p.count + 1 } else none

/-- A value is asked for: its cell goes to the first sender, or becomes free; `none` where
there is no value. -/
def receive : Option PlainQueue :=
  if p.count = 0 then none
  else
    match p.senders with
    | _ :: rest => some { p with senders := rest }
    | [] => some { p with count := p.count - 1 }

/-- What an action does to the lists; only a coroutine that the scheduler runs parks. -/
def step : ExchangeAction N T → PlainQueue
  | .awaitSend a awaiting =>
      (p.send cap).getD (if running awaiting then { p with senders := p.senders ++ [a] } else p)
  | .trySend _ => (p.send cap).getD p
  | .awaitReceive a awaiting =>
      p.receive.getD (if running awaiting then { p with receivers := p.receivers ++ [a] } else p)
  | .tryReceive => p.receive.getD p
  | .destroyAwaiter a => { p with senders := p.senders.erase a, receivers := p.receivers.erase a }
  | .destroyQueue => ⟨0, [], []⟩
  | .send _ | .receive | .resume _ | .elsewhere _ => p

/-- The waiter whose operation an action completes. -/
def woken : ExchangeAction N T → List ℕ
  | .awaitSend _ _ | .trySend _ => p.receivers.take 1
  | .awaitReceive _ _ | .tryReceive => p.senders.take 1
  | _ => []

end PlainQueue

/-- The action calls the queue or one of its awaiters, or destroys it. -/
def ExchangeAction.onQueue : ExchangeAction N T → Bool
  | .elsewhere _ => false
  | _ => true

/-- The pointers and flags of the queue store the plain queue. -/
structure Queue.Stores (q : Queue N T) (p : PlainQueue) : Prop where
  senders : Fifo q.sendNext q.sendHead q.sendTail p.senders
  receivers : Fifo q.recvNext q.recvHead q.recvTail p.receivers
  sendLinked : ∀ a, (q.senders a).linked = true ↔ a ∈ p.senders
  recvLinked : ∀ a, (q.receivers a).linked = true ↔ a ∈ p.receivers
  count : q.count = p.count

theorem Waiting.stores {cap : ℕ} {q : Queue N T} {snd rcv : List ℕ} (h : Waiting cap q snd rcv) :
    q.Stores ⟨q.count, snd, rcv⟩ :=
  ⟨h.send, h.recv, h.sendLinked, h.recvLinked, rfl⟩

/-- A queue stores one plain queue only. -/
theorem Queue.Stores.unique {q : Queue N T} {p p' : PlainQueue} (h : q.Stores p) (h' : q.Stores p') :
    p = p' := by
  have hsenders := h.senders.linked.unique h'.senders.linked
  have hreceivers := h.receivers.linked.unique h'.receivers.linked
  have hcount := h.count.symm.trans h'.count
  cases p
  cases p'
  simp_all

namespace Exchange

variable {cap a r s : ℕ} {x x' : Exchange N T} {snd rcv pre post : List ℕ}
  {snd' rcv' : List ℕ} {action : ExchangeAction N T} {p p' : PlainQueue} {running : Handle → Bool}

theorem Offers.step_eq {source : Option ℕ} {value : Option T} (h : x.Offers source value action)
    (hsend : p.send cap = some p') : p.step cap running action = p' := by
  cases h <;> simp [PlainQueue.step, hsend]

theorem Asks.step_eq {target : Option ℕ} (h : x.Asks target action)
    (hreceive : p.receive = some p') : p.step cap running action = p' := by
  cases h <;> simp [PlainQueue.step, hreceive]

theorem Offers.woken_eq {source : Option ℕ} {value : Option T} (h : x.Offers source value action)
    (p : PlainQueue) : p.woken action = p.receivers.take 1 := by
  cases h <;> rfl

theorem Asks.woken_eq {target : Option ℕ} (h : x.Asks target action) (p : PlainQueue) :
    p.woken action = p.senders.take 1 := by
  cases h <;> rfl

/-! ## Every outcome keeps the invariant -/

namespace Inv

/-- A living queue, its waiters and the stages of the awaiters. -/
theorem of_waiting (halive : x.alive = true) (hwaiting : Waiting cap x.queue snd rcv)
    (hunborn : ∀ a, x.queue.fresh ≤ a → x.stage a = .unborn)
    (hsenders : ∀ a ∈ snd, x.stage a = .sender true)
    (hreceivers : ∀ a ∈ rcv, x.stage a = .receiver true)
    (hidle : ∀ a, x.stage a = .receiver false → (x.queue.receivers a).hasResult = false) :
    Inv cap x snd rcv where
  waiting _ := hwaiting
  gone hdead := by simp [halive] at hdead
  sendLinked := hwaiting.sendLinked
  recvLinked := hwaiting.recvLinked
  unborn := hunborn
  senders := hsenders
  receivers := hreceivers
  idle := hidle

theorem lt_fresh (h : Inv cap x snd rcv) {a : ℕ} (hstage : x.stage a ≠ .unborn) :
    a < x.queue.fresh := by
  by_contra hle
  exact hstage (h.unborn a (by omega))

/-- An awaiter that nobody awaits is not parked. -/
theorem not_mem_senders (h : Inv cap x snd rcv) {a : ℕ} (hstage : x.stage a ≠ .sender true) :
    a ∉ snd := fun ha => hstage (h.senders a ha)

theorem not_mem_receivers (h : Inv cap x snd rcv) {a : ℕ} (hstage : x.stage a ≠ .receiver true) :
    a ∉ rcv := fun ha => hstage (h.receivers a ha)

/-- The stage of an awaiter that has been created changes. -/
theorem unborn_update (h : Inv cap x snd rcv) {a : ℕ} (hstage : x.stage a ≠ .unborn) (stage : Stage) :
    ∀ b, x.queue.fresh ≤ b → Function.update x.stage a stage b = .unborn := by
  intro b hb
  have hba : b ≠ a := by
    have := h.lt_fresh hstage
    omega
  rw [Function.update_of_ne hba]
  exact h.unborn b hb

theorem offered_unborn (h : Inv cap x snd rcv) {source : Option ℕ} {value : Option T}
    (hoffers : x.Offers source value action) :
    ∀ b, x.queue.fresh ≤ b → x.offered source b = .unborn := by
  cases hoffers with
  | await awaiting hstage => exact h.unborn_update (by simp [hstage]) _
  | call v => exact h.unborn

theorem asked_unborn (h : Inv cap x snd rcv) {target : Option ℕ} (hasks : x.Asks target action) :
    ∀ b, x.queue.fresh ≤ b → x.asked target b = .unborn := by
  cases hasks with
  | await awaiting hstage => exact h.unborn_update (by simp [hstage]) _
  | call => exact h.unborn

theorem offered_of_ne {source : Option ℕ} {value : Option T} (hoffers : x.Offers source value action)
    {b : ℕ} (hb : x.stage b ≠ .sender false) : x.offered source b = x.stage b := by
  cases hoffers with
  | await awaiting hstage =>
      refine Function.update_of_ne ?_ ..
      rintro rfl
      exact hb hstage
  | call v => rfl

theorem asked_of_ne {target : Option ℕ} (hasks : x.Asks target action) {b : ℕ}
    (hb : x.stage b ≠ .receiver false) : x.asked target b = x.stage b := by
  cases hasks with
  | await awaiting hstage =>
      refine Function.update_of_ne ?_ ..
      rintro rfl
      exact hb hstage
  | call => rfl

theorem offered_eq_receiver {source : Option ℕ} {value : Option T}
    (hoffers : x.Offers source value action) {b : ℕ} {awaited : Bool} :
    x.offered source b = .receiver awaited ↔ x.stage b = .receiver awaited := by
  cases hoffers with
  | @await a awaiting hstage =>
      by_cases hb : b = a
      · subst hb
        simp [offered, hstage]
      · simp [offered, hb]
  | call v => exact Iff.rfl

/-- A receive awaiter that nobody awaits is as it was, and so is its flag. -/
theorem asked_eq_idle {target : Option ℕ} (hasks : x.Asks target action) {b : ℕ}
    (hb : x.asked target b = .receiver false) :
    x.stage b = .receiver false ∧ ∀ a, target = some a → b ≠ a := by
  cases hasks with
  | @await a awaiting hstage =>
      have hne : b ≠ a := by
        rintro rfl
        simp [asked] at hb
      exact ⟨by simpa [asked, hne] using hb, by simpa using hne⟩
  | call => exact ⟨hb, by simp⟩

/-! ### Sending -/

theorem hand (h : Inv cap x snd (r :: rcv)) {source : Option ℕ} {value : Option T}
    (halive : x.alive = true) (hoffers : x.Offers source value action) :
    Inv cap { x with
      sched := x.sched.wakeSlot (x.queue.receivers r).slot
      queue := (x.queue.recvPopFront r).constructResult r value (source.map .value)
      stage := x.offered source } snd rcv := by
  refine of_waiting halive ((h.waiting halive).hand value _) (h.offered_unborn hoffers)
    (fun b hb => ?_) (fun b hb => ?_) fun b hb => ?_
  · exact (offered_of_ne hoffers (by simp [h.senders b hb])).trans (h.senders b hb)
  · have hmem := h.receivers b (List.mem_cons_of_mem _ hb)
    exact (offered_of_ne hoffers (by simp [hmem])).trans hmem
  · have hidle := (offered_eq_receiver hoffers).mp hb
    have hbr : b ≠ r := by
      rintro rfl
      simp [h.receivers b (by simp)] at hidle
    have := h.idle b hidle
    simpa [Queue.constructResult, Queue.recvPopFront, Queue.modifyReceiver, hbr] using this

theorem store (h : Inv cap x [] []) {source : Option ℕ} {value : Option T}
    (halive : x.alive = true) (hoffers : x.Offers source value action)
    (hcount : x.queue.count < cap) :
    Inv cap { x with
      queue := x.queue.storeBack cap value (source.map .value)
      stage := x.offered source } [] [] := by
  refine of_waiting halive ((h.waiting halive).store rfl hcount value _) (h.offered_unborn hoffers)
    (by simp) (by simp) fun b hb => ?_
  exact h.idle b ((offered_eq_receiver hoffers).mp hb)

/-! ### Taking -/

theorem handedOut_eq (x : Exchange N T) (target : Option ℕ) :
    ∃ receivers history, x.handedOut target =
        { x.queue with receivers := receivers, history := history } ∧
      (∀ b, (receivers b).next = (x.queue.receivers b).next ∧
        (receivers b).linked = (x.queue.receivers b).linked ∧
        (receivers b).slot = (x.queue.receivers b).slot) ∧
      ∀ b, target ≠ some b → receivers b = x.queue.receivers b := by
  cases target with
  | none => exact ⟨_, _, rfl, fun _ => ⟨rfl, rfl, rfl⟩, fun _ _ => rfl⟩
  | some a =>
      refine ⟨(x.handedOut (some a)).receivers, _, rfl, fun b => ?_, fun b hb => ?_⟩
      · by_cases hb : b = a <;>
          simp [Exchange.handedOut, Queue.constructResult, Queue.modifyReceiver, hb]
      · have hne : b ≠ a := fun he => hb (he ▸ rfl)
        simp [Exchange.handedOut, Queue.constructResult, Queue.modifyReceiver, hne]

/-- The oldest value is handed out; the awaiter that gets it is not parked. -/
theorem handedOut (h : Inv cap x snd rcv) (halive : x.alive = true) {target : Option ℕ}
    (hasks : x.Asks target action) : Waiting cap (x.handedOut target) snd rcv := by
  cases hasks with
  | @await a awaiting hstage =>
      refine Waiting.congr ((h.waiting halive).modifyResult (a := a)
        (h.not_mem_receivers (by simp [hstage])) (x.queue.cells x.queue.head) true) rfl
  | call => exact (h.waiting halive).congr rfl

theorem handedOut_idle (h : Inv cap x snd rcv) {target : Option ℕ} (hasks : x.Asks target action)
    {b : ℕ} (hb : x.asked target b = .receiver false) :
    ((x.handedOut target).receivers b).hasResult = false := by
  obtain ⟨hstage, hne⟩ := asked_eq_idle hasks hb
  obtain ⟨receivers, history, heq, -, hother⟩ := handedOut_eq x target
  rw [heq]
  exact (congrArg ReceiveAwaiter.hasResult (hother b fun he => hne b he rfl)).trans (h.idle b hstage)

theorem handedOut_fresh (x : Exchange N T) (target : Option ℕ) :
    (x.handedOut target).fresh = x.queue.fresh := by
  cases target <;> rfl

theorem taken (h : Inv cap x [] []) {target : Option ℕ} (halive : x.alive = true)
    (hasks : x.Asks target action) (hcount : 0 < x.queue.count) :
    Inv cap { x with
      queue := (x.handedOut target).popFrontStorage cap
      stage := x.asked target } [] [] := by
  have hcount' : 0 < (x.handedOut target).count := by cases target <;> exact hcount
  refine of_waiting halive ((h.handedOut halive hasks).pop hcount') (fun b hb => ?_) (by simp)
    (by simp) fun b hb => h.handedOut_idle hasks hb
  refine h.asked_unborn hasks b ?_
  rw [← handedOut_fresh x target]
  exact hb

theorem admitted (h : Inv cap x (s :: snd) []) {target : Option ℕ} (halive : x.alive = true)
    (hasks : x.Asks target action) (hcount : 0 < x.queue.count) (c : Scheduler N) :
    Inv cap { x with
      sched := c
      queue := x.admitted cap target s
      stage := x.asked target } snd [] := by
  have hcount' : 0 < (x.handedOut target).count := by cases target <;> exact hcount
  refine of_waiting halive ((h.handedOut halive hasks).admitOldest hcount' _ _) (fun b hb => ?_)
    (fun b hb => ?_) (by simp) fun b hb => h.handedOut_idle hasks hb
  · refine h.asked_unborn hasks b ?_
    rw [← handedOut_fresh x target]
    exact hb
  · have hmem := h.senders b (List.mem_cons_of_mem _ hb)
    exact (asked_of_ne hasks (by simp [hmem])).trans hmem

/-! ### Parking -/

/-- An awaiter that is not parked changes its stage, and nothing else. -/
theorem restage (h : Inv cap x snd rcv) {a : ℕ} (hstage : x.stage a ≠ .unborn) (hsnd : a ∉ snd)
    (hrcv : a ∉ rcv) {stage : Stage}
    (hidle : stage = .receiver false → (x.queue.receivers a).hasResult = false)
    (c : Scheduler N) :
    Inv cap { x with sched := c, stage := Function.update x.stage a stage } snd rcv where
  waiting := h.waiting
  gone := h.gone
  sendLinked := h.sendLinked
  recvLinked := h.recvLinked
  unborn := h.unborn_update hstage stage
  senders b hb := by
    have hba : b ≠ a := fun he => hsnd (he ▸ hb)
    exact (Function.update_of_ne hba ..).trans (h.senders b hb)
  receivers b hb := by
    have hba : b ≠ a := fun he => hrcv (he ▸ hb)
    exact (Function.update_of_ne hba ..).trans (h.receivers b hb)
  idle b hb := by
    by_cases hba : b = a
    · subst hba
      exact hidle (by simpa using hb)
    · exact h.idle b (by simpa [hba] using hb)

theorem parkedSender (h : Inv cap x snd []) {a : ℕ} (halive : x.alive = true)
    (hstage : x.stage a = .sender false) (hcount : x.queue.count = cap) (slot : Option (Fin N))
    (c : Scheduler N) (task : ℕ → Option (Fin N × UInt32)) :
    Inv cap { x with
      sched := c
      queue := x.queue.linkSender a slot
      stage := Function.update x.stage a (.sender true)
      task := task } (snd ++ [a]) [] := by
  have ha : a ∉ snd := h.not_mem_senders (by simp [hstage])
  have hnamed : a < x.queue.fresh := h.lt_fresh (by simp [hstage])
  refine of_waiting halive ((h.waiting halive).linkSender ha hnamed hcount rfl slot) (fun b hb => ?_)
    (fun b hb => ?_) (by simp) fun b hb => ?_
  · rw [Queue.linkSender_eq] at hb
    exact h.unborn_update (by simp [hstage]) _ b hb
  · rcases List.mem_append.mp hb with hb | hb
    · have hba : b ≠ a := fun he => ha (he ▸ hb)
      exact (Function.update_of_ne hba ..).trans (h.senders b hb)
    · rw [List.mem_singleton.mp hb]
      exact Function.update_self ..
  · rw [Queue.linkSender_eq]
    have hba : b ≠ a := by
      rintro rfl
      simp at hb
    exact h.idle b (by simpa [hba] using hb)

theorem parkedReceiver (h : Inv cap x [] rcv) {a : ℕ} (halive : x.alive = true)
    (hstage : x.stage a = .receiver false) (hcount : x.queue.count = 0) (slot : Option (Fin N))
    (c : Scheduler N) (task : ℕ → Option (Fin N × UInt32)) :
    Inv cap { x with
      sched := c
      queue := x.queue.linkReceiver a slot
      stage := Function.update x.stage a (.receiver true)
      task := task } [] (rcv ++ [a]) := by
  have ha : a ∉ rcv := h.not_mem_receivers (by simp [hstage])
  have hnamed : a < x.queue.fresh := h.lt_fresh (by simp [hstage])
  refine of_waiting halive ((h.waiting halive).linkReceiver ha hnamed hcount (h.idle a hstage) rfl
    slot) (fun b hb => ?_) (by simp) (fun b hb => ?_) fun b hb => ?_
  · rw [Queue.linkReceiver_eq] at hb
    exact h.unborn_update (by simp [hstage]) _ b hb
  · rcases List.mem_append.mp hb with hb | hb
    · have hba : b ≠ a := fun he => ha (he ▸ hb)
      exact (Function.update_of_ne hba ..).trans (h.receivers b hb)
    · rw [List.mem_singleton.mp hb]
      exact Function.update_self ..
  · rw [Queue.linkReceiver_eq]
    have hba : b ≠ a := by
      rintro rfl
      simp at hb
    exact h.idle b (by simpa [hba] using hb)

/-! ### Creation and destruction -/

theorem newSender (h : Inv cap x snd rcv) (halive : x.alive = true) (v : T) :
    Inv cap { x with
      queue := (x.queue.newSender v).2
      stage := Function.update x.stage x.queue.fresh (.sender false) } snd rcv := by
  have hne : ∀ b, b ∈ snd ∨ b ∈ rcv → b ≠ x.queue.fresh := fun b hb =>
    ((h.waiting halive).named b hb).ne
  refine of_waiting halive ((h.waiting halive).newSender v) (fun b hb => ?_) (fun b hb => ?_)
    (fun b hb => ?_) fun b hb => ?_
  · have hlt : x.queue.fresh + 1 ≤ b := hb
    exact (Function.update_of_ne (by omega) ..).trans (h.unborn b (by omega))
  · exact (Function.update_of_ne (hne b (Or.inl hb)) ..).trans (h.senders b hb)
  · exact (Function.update_of_ne (hne b (Or.inr hb)) ..).trans (h.receivers b hb)
  · have hbf : b ≠ x.queue.fresh := by
      rintro rfl
      simp at hb
    exact h.idle b (by simpa [hbf] using hb)

theorem newReceiver (h : Inv cap x snd rcv) (halive : x.alive = true) :
    Inv cap { x with
      queue := x.queue.newReceiver.2
      stage := Function.update x.stage x.queue.fresh (.receiver false) } snd rcv := by
  have hne : ∀ b, b ∈ snd ∨ b ∈ rcv → b ≠ x.queue.fresh := fun b hb =>
    ((h.waiting halive).named b hb).ne
  refine of_waiting halive (h.waiting halive).newReceiver (fun b hb => ?_) (fun b hb => ?_)
    (fun b hb => ?_) fun b hb => ?_
  · have hlt : x.queue.fresh + 1 ≤ b := hb
    exact (Function.update_of_ne (by omega) ..).trans (h.unborn b (by omega))
  · exact (Function.update_of_ne (hne b (Or.inl hb)) ..).trans (h.senders b hb)
  · exact (Function.update_of_ne (hne b (Or.inr hb)) ..).trans (h.receivers b hb)
  · by_cases hbf : b = x.queue.fresh
    · simp [hbf, Queue.newReceiver, Queue.modifyReceiver]
    · simpa [Queue.newReceiver, Queue.modifyReceiver, hbf] using h.idle b (by simpa [hbf] using hb)

/-- `await_resume` of a receive awaiter that is not parked. -/
theorem resumeReceiver (h : Inv cap x snd rcv) {a : ℕ} (hstage : x.stage a = .receiver true)
    (ha : a ∉ rcv) : Inv cap (x.resumeReceiver a) snd rcv := by
  have hsnd : a ∉ snd := h.not_mem_senders (by simp [hstage])
  have hfields : ∀ b, (((x.queue.receiveResume a).2).receivers b).linked =
      (x.queue.receivers b).linked ∧
      (((x.queue.receiveResume a).2).receivers b).hasResult =
        if b = a then false else (x.queue.receivers b).hasResult := by
    intro b
    unfold Queue.receiveResume
    by_cases hresult : (x.queue.receivers a).hasResult = true
    · by_cases hb : b = a <;> simp [hresult, Queue.modifyReceiver, hb]
    · by_cases hb : b = a <;> simp_all
  have hsenders : (x.queue.receiveResume a).2.senders = x.queue.senders ∧
      (x.queue.receiveResume a).2.fresh = x.queue.fresh := by
    unfold Queue.receiveResume
    dsimp only
    split_ifs <;> exact ⟨rfl, rfl⟩
  exact {
    waiting := fun halive => by
      unfold Exchange.resumeReceiver Queue.receiveResume
      dsimp only
      split_ifs
      · exact Waiting.congr ((h.waiting halive).modifyResult ha none false) rfl
      · exact (h.waiting halive).congr rfl
    gone := h.gone
    sendLinked := fun b => by
      show (((x.queue.receiveResume a).2).senders b).linked = true ↔ _
      rw [hsenders.1]
      exact h.sendLinked b
    recvLinked := fun b => by
      show (((x.queue.receiveResume a).2).receivers b).linked = true ↔ _
      rw [(hfields b).1]
      exact h.recvLinked b
    unborn := fun b hb => by
      have hb' : (x.queue.receiveResume a).2.fresh ≤ b := hb
      rw [hsenders.2] at hb'
      exact h.unborn_update (by simp [hstage]) _ b hb'
    senders := fun b hb => by
      have hba : b ≠ a := fun he => hsnd (he ▸ hb)
      exact (Function.update_of_ne hba ..).trans (h.senders b hb)
    receivers := fun b hb => by
      have hba : b ≠ a := fun he => ha (he ▸ hb)
      exact (Function.update_of_ne hba ..).trans (h.receivers b hb)
    idle := fun b hb => by
      show (((x.queue.receiveResume a).2).receivers b).hasResult = false
      rw [(hfields b).2]
      split_ifs with hba
      · rfl
      · exact h.idle b (by simpa [Exchange.resumeReceiver, hba] using hb) }

/-- The payload of an awaiter is destroyed. -/
theorem destroyValue (h : Inv cap x snd rcv) (a : ℕ) :
    Inv cap { x with queue := x.queue.destroyValue a } snd rcv := by
  have hwaiting := fun halive => (h.waiting halive).destroyValue a
  rw [Queue.destroyValue_eq] at hwaiting ⊢
  exact ⟨hwaiting, h.gone, h.sendLinked, h.recvLinked, h.unborn, h.senders, h.receivers, h.idle⟩

theorem destroyResult (h : Inv cap x snd rcv) (a : ℕ) :
    Inv cap { x with queue := x.queue.destroyResult a } snd rcv := by
  have hwaiting := fun halive => (h.waiting halive).destroyResult a
  rw [Queue.destroyResult_eq] at hwaiting ⊢
  exact ⟨hwaiting, h.gone, h.sendLinked, h.recvLinked, h.unborn, h.senders, h.receivers, h.idle⟩

theorem unlinkSender (h : Inv cap x (pre ++ a :: post) rcv) (halive : x.alive = true)
    (left : List ℕ) :
    Inv cap { x with
      queue := x.queue.unlinkSender a
      stage := Function.update x.stage a .destroyed
      sendLeft := left } (pre ++ post) rcv := by
  have hwaiting := h.waiting halive
  have hstage := h.senders a (by simp)
  have ha := hwaiting.send.linked.not_mem_of_middle
  have hrcv : a ∉ rcv := h.not_mem_receivers (by simp [hstage])
  have hfresh := hwaiting.length_lt_fresh
  refine of_waiting halive hwaiting.unlinkSender (fun b hb => ?_) (fun b hb => ?_) (fun b hb => ?_)
    fun b hb => ?_
  · rw [Queue.unlinkSender_eq hwaiting.send hfresh] at hb
    exact h.unborn_update (by simp [hstage]) _ b hb
  · have hba : b ≠ a := fun he => ha (he ▸ hb)
    refine (Function.update_of_ne hba ..).trans (h.senders b ?_)
    simp only [List.mem_append, List.mem_cons] at hb ⊢
    exact hb.imp_right Or.inr
  · have hba : b ≠ a := fun he => hrcv (he ▸ hb)
    exact (Function.update_of_ne hba ..).trans (h.receivers b hb)
  · rw [Queue.unlinkSender_eq hwaiting.send hfresh]
    have hba : b ≠ a := by
      rintro rfl
      simp at hb
    exact h.idle b (by simpa [hba] using hb)

theorem unlinkReceiver (h : Inv cap x snd (pre ++ a :: post)) (halive : x.alive = true)
    (left : List ℕ) :
    Inv cap { x with
      queue := x.queue.unlinkReceiver a
      stage := Function.update x.stage a .destroyed
      recvLeft := left } snd (pre ++ post) := by
  have hwaiting := h.waiting halive
  have hstage := h.receivers a (by simp)
  have ha := hwaiting.recv.linked.not_mem_of_middle
  have hsnd : a ∉ snd := h.not_mem_senders (by simp [hstage])
  have hfresh := hwaiting.length_lt_fresh'
  refine of_waiting halive hwaiting.unlinkReceiver (fun b hb => ?_) (fun b hb => ?_) (fun b hb => ?_)
    fun b hb => ?_
  · rw [Queue.unlinkReceiver_eq hwaiting.recv hfresh] at hb
    exact h.unborn_update (by simp [hstage]) _ b hb
  · have hba : b ≠ a := fun he => hsnd (he ▸ hb)
    exact (Function.update_of_ne hba ..).trans (h.senders b hb)
  · have hba : b ≠ a := fun he => ha (he ▸ hb)
    refine (Function.update_of_ne hba ..).trans (h.receivers b ?_)
    simp only [List.mem_append, List.mem_cons] at hb ⊢
    exact hb.imp_right Or.inr
  · rw [Queue.unlinkReceiver_eq hwaiting.recv hfresh]
    have hba : b ≠ a := by
      rintro rfl
      simp at hb
    exact h.idle b (by simpa [hba] using hb)

/-- `~Queue` leaves no awaiter linked. -/
theorem destroyQueue (h : Inv cap x snd rcv) (halive : x.alive = true) :
    Inv cap (x.destroyQueue cap) [] [] := by
  have hwaiting := h.waiting halive
  obtain ⟨cells, head, history, hdestroy⟩ := hwaiting.destroy_eq x.sched
  have hqueue : (x.destroyQueue cap).queue = (x.queue.destroy cap x.sched).2 := rfl
  exact {
    waiting := by simp [Exchange.destroyQueue]
    gone := fun _ => ⟨rfl, rfl⟩
    sendLinked := fun b => by
      rw [hqueue, hdestroy]
      by_cases hb : b ∈ snd
      · simp [Queue.detached, hb]
      · simp [Queue.detached, hb, h.sendLinked]
    recvLinked := fun b => by
      rw [hqueue, hdestroy]
      by_cases hb : b ∈ rcv
      · simp [Queue.detached, hb]
      · simp [Queue.detached, hb, h.recvLinked]
    unborn := fun b hb => by
      rw [hqueue, hdestroy] at hb
      exact h.unborn b hb
    senders := by simp
    receivers := by simp
    idle := fun b hb => by
      rw [hqueue, hdestroy]
      exact h.idle b hb }

/-! ### The step -/

/-- The count and the waiters of an exchange, as plain lists. -/
def plain (x : Exchange N T) (snd rcv : List ℕ) : PlainQueue := ⟨x.queue.count, snd, rcv⟩

theorem erase_middle (ha : a ∉ pre ++ post) : (pre ++ a :: post).erase a = pre ++ post := by
  have hpre : a ∉ pre := fun hmem => ha (List.mem_append_left _ hmem)
  rw [List.erase_append_right _ hpre, List.erase_cons_head]

/-- Every outcome keeps the invariant. -/
theorem change (h : Inv cap x snd rcv) (hchange : Change cap x snd rcv action x' snd' rcv') :
    Inv cap x' snd' rcv' := by
  cases hchange with
  | send v halive => exact h.newSender halive v
  | receive halive => exact h.newReceiver halive
  | hand halive hoffers => exact h.hand halive hoffers
  | store halive hoffers hcount => exact h.store halive hoffers hcount
  | refuse v halive hcount => exact h
  | parkSender halive hstage hcount hcurrent hrunning =>
      exact h.parkedSender halive hstage hcount _ _ _
  | @strangeSender _ a _ halive hstage hcount hrunning =>
      exact h.restage (by simp [hstage]) (h.not_mem_senders (by simp [hstage])) (by simp) (by simp) _
  | take halive hasks hcount => exact h.taken halive hasks hcount
  | admitOldest halive hasks hcount => exact h.admitted halive hasks hcount _
  | nothing halive hcount => exact h
  | parkReceiver halive hstage hcount hcurrent hrunning =>
      exact h.parkedReceiver halive hstage hcount _ _ _
  | strangeReceiver halive hstage hcount hrunning =>
      exact h.restage (by simp [hstage]) (by simp) (h.not_mem_receivers (by simp [hstage])) (by simp)
        _
  | resumeSender hstage hlinked =>
      exact h.restage (by simp [hstage]) hlinked (h.not_mem_receivers (by simp [hstage])) (by simp)
        _
  | resumeReceiver hstage hlinked => exact h.resumeReceiver hstage hlinked
  | destroySender hstage hlinked =>
      exact (h.restage (by simp [hstage]) hlinked (h.not_mem_receivers (by simp [hstage])) (by simp)
        x.sched).destroyValue _
  | unlinkSender halive => exact (h.unlinkSender halive _).destroyValue _
  | destroyReceiver hstage hlinked =>
      exact (h.restage (by simp [hstage]) (h.not_mem_senders (by simp [hstage])) hlinked (by simp)
        x.sched).destroyResult _
  | unlinkReceiver halive => exact (h.unlinkReceiver halive _).destroyResult _
  | destroyQueue halive => exact h.destroyQueue halive
  | elsewhere change htrace hleaves =>
      exact ⟨h.waiting, h.gone, h.sendLinked, h.recvLinked, h.unborn, h.senders, h.receivers, h.idle⟩

/-- Every outcome moves the intrusive lists as it does plain ones. -/
theorem change_plain (h : Inv cap x snd rcv) (hchange : Change cap x snd rcv action x' snd' rcv') :
    (plain x snd rcv).step cap x.sched.isRunning action = plain x' snd' rcv' := by
  cases hchange with
  | send v halive => rfl
  | receive halive => rfl
  | hand halive hoffers => exact hoffers.step_eq rfl
  | store halive hoffers hcount =>
      refine hoffers.step_eq ?_
      simp [PlainQueue.send, plain, hcount, Queue.storeBack]
  | refuse v halive hcount => simp [PlainQueue.step, PlainQueue.send, plain, hcount]
  | parkSender halive hstage hcount hcurrent hrunning =>
      simp [PlainQueue.step, PlainQueue.send, plain, hcount, hrunning, Queue.linkSender_eq]
  | strangeSender halive hstage hcount hrunning =>
      simp [PlainQueue.step, PlainQueue.send, plain, hcount, hrunning]
  | @take target _ halive hasks hcount =>
      refine hasks.step_eq ?_
      have hkept : (x.handedOut target).count = x.queue.count := by cases target <;> rfl
      simp [PlainQueue.receive, plain, hcount.ne', Queue.popFrontStorage, hkept]
  | @admitOldest rest s target _ halive hasks hcount =>
      refine hasks.step_eq ?_
      have hkept : (x.admitted cap target s).count = x.queue.count := by
        cases target <;> exact Nat.sub_add_cancel hcount
      simp [PlainQueue.receive, plain, hcount.ne', hkept]
  | nothing halive hcount => simp [PlainQueue.step, PlainQueue.receive, plain, hcount]
  | parkReceiver halive hstage hcount hcurrent hrunning =>
      simp [PlainQueue.step, PlainQueue.receive, plain, hcount, hrunning, Queue.linkReceiver_eq]
  | strangeReceiver halive hstage hcount hrunning =>
      simp [PlainQueue.step, PlainQueue.receive, plain, hcount, hrunning]
  | resumeSender hstage hlinked => rfl
  | resumeReceiver hstage hlinked =>
      simp only [PlainQueue.step, plain, Exchange.resumeReceiver, Queue.receiveResume,
        PlainQueue.mk.injEq, and_true]
      split_ifs <;> rfl
  | @destroySender _ _ a _ hstage hlinked =>
      have hrcv := h.not_mem_receivers (a := a) (by simp [hstage])
      simp [PlainQueue.step, plain, Queue.destroyValue_eq, List.erase_of_not_mem, hlinked, hrcv]
  | @unlinkSender pre post _ a halive =>
      have hstage := h.senders a (by simp)
      have ha := (h.waiting halive).send.linked.not_mem_of_middle
      have hrcv := h.not_mem_receivers (a := a) (by simp [hstage])
      rw [Queue.destroyValue_eq,
        Queue.unlinkSender_eq (h.waiting halive).send (h.waiting halive).length_lt_fresh]
      simp only [PlainQueue.step, plain, erase_middle ha, List.erase_of_not_mem hrcv]
  | @destroyReceiver _ _ a _ hstage hlinked =>
      have hsnd := h.not_mem_senders (a := a) (by simp [hstage])
      simp [PlainQueue.step, plain, Queue.destroyResult_eq, List.erase_of_not_mem, hlinked, hsnd]
  | @unlinkReceiver _ pre post a halive =>
      have hstage := h.receivers a (by simp)
      have ha := (h.waiting halive).recv.linked.not_mem_of_middle
      have hsnd := h.not_mem_senders (a := a) (by simp [hstage])
      rw [Queue.destroyResult_eq,
        Queue.unlinkReceiver_eq (h.waiting halive).recv (h.waiting halive).length_lt_fresh']
      simp only [PlainQueue.step, plain, erase_middle ha, List.erase_of_not_mem hsnd]
  | destroyQueue halive =>
      obtain ⟨cells, head, history, hdestroy⟩ := (h.waiting halive).destroy_eq x.sched
      simp [PlainQueue.step, plain, Exchange.destroyQueue, hdestroy]
  | elsewhere change htrace hleaves => rfl

end Inv

/-- Every reachable exchange has its waiters in order. -/
theorem Reachable.inv (hcap : 0 < cap) (hx : x.Reachable cap) : ∃ snd rcv, Inv cap x snd rcv := by
  refine Transition.Reachable.induction (P := fun y => ∃ snd rcv, Inv cap y snd rcv) hx
    ⟨_, _, Inv.initial hcap⟩ ?_
  rintro u action u' ⟨snd, rcv, hinv⟩ hstep
  obtain ⟨snd', rcv', hchange⟩ := hinv.step_change hstep
  exact ⟨_, _, hinv.change hchange⟩

end Exchange

end SimpleAwait
