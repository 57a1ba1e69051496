import SimpleAwait.Exchange.Step
import SimpleAwait.Primitives.Unlinking

/-!
# What a step of an exchange does

`Change` lists the outcomes of a step, with the exchange that each leads to spelled out, for an
exchange with the parked senders `snd` and receivers `rcv`.  `Inv.step_change` shows that there
are no others, and every invariant of exchanges is proved from this list.
-/

namespace SimpleAwait

open Intrusive

variable {N : ℕ} {T : Type}

namespace Exchange

/-! ## Sending and taking -/

/-- The action offers `value`, from the awaiter `source` if there is one. -/
inductive Offers (x : Exchange N T) : Option ℕ → Option T → ExchangeAction N T → Prop
  | await {a : ℕ} (awaiting : Handle) (h : x.stage a = .sender false) :
      Offers x (some a) (x.queue.senders a).value (.awaitSend a awaiting)
  | call (v : T) : Offers x none (some v) (.trySend v)

/-- The action asks for a value, for the awaiter `target` if there is one. -/
inductive Asks (x : Exchange N T) : Option ℕ → ExchangeAction N T → Prop
  | await {a : ℕ} (awaiting : Handle) (h : x.stage a = .receiver false) :
      Asks x (some a) (.awaitReceive a awaiting)
  | call : Asks x none .tryReceive

/-- A `co_await` on the send awaiter has begun. -/
def offered (x : Exchange N T) : Option ℕ → ℕ → Stage
  | none => x.stage
  | some a => Function.update x.stage a (.sender true)

/-- A `co_await` on the receive awaiter has begun. -/
def asked (x : Exchange N T) : Option ℕ → ℕ → Stage
  | none => x.stage
  | some a => Function.update x.stage a (.receiver true)

/-- The queue in which the oldest value has been handed out and is still in its cell. -/
def handedOut (x : Exchange N T) : Option ℕ → Queue N T
  | none => x.queue.assignOut
  | some a => x.queue.constructResult a (x.queue.cells x.queue.head) (some (.cell x.queue.head))

/-- The queue in which the parked sender `s` has taken the place of the oldest value. -/
def admitted (x : Exchange N T) (cap : ℕ) (target : Option ℕ) (s : ℕ) : Queue N T :=
  (((x.handedOut target).popFrontStorage cap).sendPopFront s).storeBack cap
    (x.queue.senders s).value (some (.value s))

/-! ## The outcomes -/

/-- What a step does to an exchange with the parked senders and receivers of the first two
lists; the last two are those that are parked afterwards. -/
inductive Change (cap : ℕ) (x : Exchange N T) : List ℕ → List ℕ → ExchangeAction N T →
    Exchange N T → List ℕ → List ℕ → Prop
  | send {snd rcv : List ℕ} (v : T) (halive : x.alive = true) :
      Change cap x snd rcv (.send v) { x with
        queue := (x.queue.newSender v).2
        stage := Function.update x.stage x.queue.fresh (.sender false) } snd rcv
  | receive {snd rcv : List ℕ} (halive : x.alive = true) :
      Change cap x snd rcv .receive { x with
        queue := x.queue.newReceiver.2
        stage := Function.update x.stage x.queue.fresh (.receiver false) } snd rcv
  /-- A value goes to the first parked receiver. -/
  | hand {snd rest : List ℕ} {r : ℕ} {source : Option ℕ} {value : Option T}
      {action : ExchangeAction N T} (halive : x.alive = true) (hoffers : x.Offers source value action) :
      Change cap x snd (r :: rest) action { x with
        sched := x.sched.wakeSlot (x.queue.receivers r).slot
        queue := (x.queue.recvPopFront r).constructResult r value (source.map .value)
        stage := x.offered source } snd rest
  /-- A value goes into the ring. -/
  | store {source : Option ℕ} {value : Option T} {action : ExchangeAction N T}
      (halive : x.alive = true) (hoffers : x.Offers source value action)
      (hcount : x.queue.count < cap) :
      Change cap x [] [] action { x with
        queue := x.queue.storeBack cap value (source.map .value)
        stage := x.offered source } [] []
  /-- `trySend` on a full queue. -/
  | refuse {snd : List ℕ} (v : T) (halive : x.alive = true) (hcount : x.queue.count = cap) :
      Change cap x snd [] (.trySend v) x snd []
  | parkSender {snd : List ℕ} {a : ℕ} {s : Fin N} {awaiting : Handle} (halive : x.alive = true)
      (hstage : x.stage a = .sender false) (hcount : x.queue.count = cap)
      (hcurrent : x.sched.current = some s) (hrunning : x.sched.isRunning awaiting = true) :
      Change cap x snd [] (.awaitSend a awaiting) { x with
        sched := (x.sched.setState s .waitingLocal).afterSuspend s
        queue := x.queue.linkSender a (some s)
        stage := Function.update x.stage a (.sender true)
        task := Function.update x.task a (some (x.sched.taskIn s)) } (snd ++ [a]) []
  /-- A coroutine that the scheduler does not run awaits a full queue. -/
  | strangeSender {snd : List ℕ} {a : ℕ} {awaiting : Handle} (halive : x.alive = true)
      (hstage : x.stage a = .sender false) (hcount : x.queue.count = cap)
      (hrunning : x.sched.isRunning awaiting = false) :
      Change cap x snd [] (.awaitSend a awaiting) { x with
        sched := x.sched.report .invalidTask
        stage := Function.update x.stage a (.sender true) } snd []
  /-- The oldest value is taken, and nobody waits for its cell. -/
  | take {target : Option ℕ} {action : ExchangeAction N T} (halive : x.alive = true)
      (hasks : x.Asks target action) (hcount : 0 < x.queue.count) :
      Change cap x [] [] action { x with
        queue := (x.handedOut target).popFrontStorage cap
        stage := x.asked target } [] []
  /-- The oldest value is taken, and the first parked sender gets its cell. -/
  | admitOldest {rest : List ℕ} {s : ℕ} {target : Option ℕ} {action : ExchangeAction N T}
      (halive : x.alive = true) (hasks : x.Asks target action) (hcount : 0 < x.queue.count) :
      Change cap x (s :: rest) [] action { x with
        sched := x.sched.wakeSlot (x.queue.senders s).slot
        queue := x.admitted cap target s
        stage := x.asked target } rest []
  /-- `tryReceive` on an empty queue. -/
  | nothing {rcv : List ℕ} (halive : x.alive = true) (hcount : x.queue.count = 0) :
      Change cap x [] rcv .tryReceive x [] rcv
  | parkReceiver {rcv : List ℕ} {a : ℕ} {s : Fin N} {awaiting : Handle} (halive : x.alive = true)
      (hstage : x.stage a = .receiver false) (hcount : x.queue.count = 0)
      (hcurrent : x.sched.current = some s) (hrunning : x.sched.isRunning awaiting = true) :
      Change cap x [] rcv (.awaitReceive a awaiting) { x with
        sched := (x.sched.setState s .waitingLocal).afterSuspend s
        queue := x.queue.linkReceiver a (some s)
        stage := Function.update x.stage a (.receiver true)
        task := Function.update x.task a (some (x.sched.taskIn s)) } [] (rcv ++ [a])
  /-- A coroutine that the scheduler does not run awaits an empty queue. -/
  | strangeReceiver {rcv : List ℕ} {a : ℕ} {awaiting : Handle} (halive : x.alive = true)
      (hstage : x.stage a = .receiver false) (hcount : x.queue.count = 0)
      (hrunning : x.sched.isRunning awaiting = false) :
      Change cap x [] rcv (.awaitReceive a awaiting) { x with
        sched := x.sched.report .invalidTask
        stage := Function.update x.stage a (.receiver true) } [] rcv
  | resumeSender {snd rcv : List ℕ} {a : ℕ} (hstage : x.stage a = .sender true) (hlinked : a ∉ snd) :
      Change cap x snd rcv (.resume a) (x.resumeSender a) snd rcv
  | resumeReceiver {snd rcv : List ℕ} {a : ℕ} (hstage : x.stage a = .receiver true)
      (hlinked : a ∉ rcv) : Change cap x snd rcv (.resume a) (x.resumeReceiver a) snd rcv
  | destroySender {snd rcv : List ℕ} {a : ℕ} {awaited : Bool} (hstage : x.stage a = .sender awaited)
      (hlinked : a ∉ snd) : Change cap x snd rcv (.destroyAwaiter a) { x with
        queue := x.queue.destroyValue a
        stage := Function.update x.stage a .destroyed } snd rcv
  /-- A sender is destroyed that is parked. -/
  | unlinkSender {pre post rcv : List ℕ} {a : ℕ} (halive : x.alive = true) :
      Change cap x (pre ++ a :: post) rcv (.destroyAwaiter a) { x with
        queue := (x.queue.unlinkSender a).destroyValue a
        stage := Function.update x.stage a .destroyed
        sendLeft := x.sendLeft ++ [a] } (pre ++ post) rcv
  | destroyReceiver {snd rcv : List ℕ} {a : ℕ} {awaited : Bool}
      (hstage : x.stage a = .receiver awaited) (hlinked : a ∉ rcv) :
      Change cap x snd rcv (.destroyAwaiter a) { x with
        queue := x.queue.destroyResult a
        stage := Function.update x.stage a .destroyed } snd rcv
  /-- A receiver is destroyed that is parked. -/
  | unlinkReceiver {snd pre post : List ℕ} {a : ℕ} (halive : x.alive = true) :
      Change cap x snd (pre ++ a :: post) (.destroyAwaiter a) { x with
        queue := (x.queue.unlinkReceiver a).destroyResult a
        stage := Function.update x.stage a .destroyed
        recvLeft := x.recvLeft ++ [a] } snd (pre ++ post)
  | destroyQueue {snd rcv : List ℕ} (halive : x.alive = true) :
      Change cap x snd rcv .destroyQueue (x.destroyQueue cap) [] []
  | elsewhere {snd rcv : List ℕ} (change : Scheduler N → Scheduler N)
      (htrace : x.sched.trace <+: (change x.sched).trace)
      (hleaves : x.alive = true → ∀ s ∈ x.queue.parkedSlots, x.sched.Leaves (change x.sched) s) :
      Change cap x snd rcv (.elsewhere change) { x with sched := change x.sched } snd rcv

/-! ## The invariant -/

/-- The senders `snd` and the receivers `rcv` are parked on the queue. -/
structure Inv (cap : ℕ) (x : Exchange N T) (snd rcv : List ℕ) : Prop where
  waiting : x.alive = true → Waiting cap x.queue snd rcv
  gone : x.alive = false → snd = [] ∧ rcv = []
  sendLinked : ∀ a, (x.queue.senders a).linked = true ↔ a ∈ snd
  recvLinked : ∀ a, (x.queue.receivers a).linked = true ↔ a ∈ rcv
  unborn : ∀ a, x.queue.fresh ≤ a → x.stage a = .unborn
  senders : ∀ a ∈ snd, x.stage a = .sender true
  receivers : ∀ a ∈ rcv, x.stage a = .receiver true
  /-- Only a `co_await` on it gives an awaiter a result. -/
  idle : ∀ a, x.stage a = .receiver false → (x.queue.receivers a).hasResult = false

variable {cap : ℕ} {x x' : Exchange N T} {snd rcv : List ℕ} {action : ExchangeAction N T}

theorem Inv.initial (hcap : 0 < cap) : Inv cap (Exchange.initial : Exchange N T) [] [] where
  waiting _ := Waiting.initial hcap
  gone h := by cases h
  sendLinked := by simp [Exchange.initial]
  recvLinked := by simp [Exchange.initial]
  unborn _ _ := rfl
  senders := by simp
  receivers := by simp
  idle _ h := by cases h

/-! ## There are no other outcomes -/

/-- What `do_send` does with a value that is offered. -/
theorem doSend_cases {q : Queue N T} (h : Waiting cap q snd rcv) (c : Scheduler N)
    (value : Option T) (source : Option Storage) :
    (∃ r rest, rcv = r :: rest ∧
        q.doSend cap c value source = (true, c.wakeSlot (q.receivers r).slot,
          (q.recvPopFront r).constructResult r value source)) ∨
      (snd = [] ∧ rcv = [] ∧ q.count < cap ∧
        q.doSend cap c value source = (true, c, q.storeBack cap value source)) ∨
      (rcv = [] ∧ q.count = cap ∧ q.doSend cap c value source = (false, c, q)) := by
  cases rcv with
  | cons r rest =>
      have hhead : q.recvHead = some r := h.recv.linked.1
      refine Or.inl ⟨r, rest, rfl, ?_⟩
      simp [Queue.doSend, hhead, Queue.constructResult, Queue.recvPopFront, Queue.modifyReceiver]
  | nil =>
      have hhead : q.recvHead = none := h.recv.linked
      have hle := h.count_le
      by_cases hcount : q.count < cap
      · have hsnd : snd = [] := by
          by_contra hne
          have := h.full hne
          omega
        exact Or.inr (Or.inl ⟨hsnd, rfl, hcount, by simp [Queue.doSend, hhead, hcount]⟩)
      · exact Or.inr (Or.inr ⟨rfl, by omega, by simp [Queue.doSend, hhead, hcount]⟩)

/-- Only while a task runs is a coroutine the one that runs. -/
theorem exists_current {c : Scheduler N} {awaiting : Handle} (h : c.isRunning awaiting = true) :
    ∃ s, c.current = some s := by
  unfold Scheduler.isRunning at h
  split at h
  · cases h
  · exact ⟨_, ‹_›⟩

/-- The coroutine that runs parks. -/
theorem parkRunning_eq {c : Scheduler N} {s : Fin N} (hcurrent : c.current = some s) :
    c.parkRunning = (some s, c.setState s .waitingLocal) ∧
      (c.setState s .waitingLocal).suspendCurrent = (c.setState s .waitingLocal).afterSuspend s ∧
      (c.setState s .waitingLocal).current.map (c.setState s .waitingLocal).taskIn =
        some (c.taskIn s) := by
  refine ⟨by simp [Scheduler.parkRunning, hcurrent], by simp [Scheduler.suspendCurrent, hcurrent], ?_⟩
  simp [hcurrent, Scheduler.taskIn]

theorem Inv.awaitSend (h : Inv cap x snd rcv) (halive : x.alive = true) {a : ℕ}
    (hstage : x.stage a = .sender false) (awaiting : Handle) :
    ∃ snd' rcv', Change cap x snd rcv (.awaitSend a awaiting) (x.awaitSend cap a awaiting) snd'
      rcv' := by
  rcases doSend_cases (h.waiting halive) x.sched (x.queue.senders a).value (some (.value a)) with
    ⟨r, rest, rfl, hsend⟩ | ⟨rfl, rfl, hcount, hsend⟩ | ⟨rfl, hcount, hsend⟩
  · unfold Exchange.awaitSend
    simp only [Queue.sendReady, hsend]
    exact ⟨_, _, .hand halive (.await awaiting hstage)⟩
  · unfold Exchange.awaitSend
    simp only [Queue.sendReady, hsend]
    exact ⟨_, _, .store halive (.await awaiting hstage) hcount⟩
  · unfold Exchange.awaitSend
    simp only [Queue.sendReady, hsend, Queue.parkSender, Scheduler.runningIs]
    by_cases hrunning : x.sched.isRunning awaiting = true
    · obtain ⟨s, hcurrent⟩ := exists_current hrunning
      obtain ⟨hpark, hsuspend, htask⟩ := parkRunning_eq hcurrent
      simp only [hrunning, if_true, hpark, hsuspend, htask]
      exact ⟨_, _, .parkSender halive hstage hcount hcurrent hrunning⟩
    · simp only [hrunning, Bool.false_eq_true, if_false]
      exact ⟨_, _, .strangeSender halive hstage hcount (by simpa using hrunning)⟩

theorem Inv.trySend (h : Inv cap x snd rcv) (halive : x.alive = true) (v : T) :
    ∃ snd' rcv', Change cap x snd rcv (.trySend v) (x.trySend cap v) snd' rcv' := by
  rcases doSend_cases (h.waiting halive) x.sched (some v) none with
    ⟨r, rest, rfl, hsend⟩ | ⟨rfl, rfl, hcount, hsend⟩ | ⟨rfl, hcount, hsend⟩
  · unfold Exchange.trySend
    simp only [Queue.trySend, hsend]
    exact ⟨_, _, .hand halive (.call v)⟩
  · unfold Exchange.trySend
    simp only [Queue.trySend, hsend]
    exact ⟨_, _, .store halive (.call v) hcount⟩
  · unfold Exchange.trySend
    simp only [Queue.trySend, hsend]
    exact ⟨_, _, .refuse v halive hcount⟩

/-- What happens to the cell of a value that was taken. -/
theorem Inv.take (h : Inv cap x snd rcv) (halive : x.alive = true) (hcount : 0 < x.queue.count)
    {target : Option ℕ} (hasks : x.Asks target action) :
    ∃ snd' rcv', Change cap x snd rcv action { x with
      sched := (((x.handedOut target).popFrontStorage cap).admitOldestSender cap x.sched).1
      queue := (((x.handedOut target).popFrontStorage cap).admitOldestSender cap x.sched).2
      stage := x.asked target } snd' rcv' := by
  have hwaiting := h.waiting halive
  have hrcv : rcv = [] := by
    by_contra hne
    have := hwaiting.empty hne
    omega
  subst hrcv
  have hhead : ((x.handedOut target).popFrontStorage cap).sendHead = x.queue.sendHead := by
    cases target <;> rfl
  cases snd with
  | nil =>
      have hnone : x.queue.sendHead = none := hwaiting.send.linked
      simp only [Queue.admitOldestSender, hhead, hnone]
      exact ⟨_, _, .take halive hasks hcount⟩
  | cons s rest =>
      have hsome : x.queue.sendHead = some s := hwaiting.send.linked.1
      have hsender : (((x.handedOut target).popFrontStorage cap).sendPopFront s).senders s =
          { x.queue.senders s with next := none, linked := false } := by
        cases target <;> simp [Queue.sendPopFront, Queue.modifySender, Queue.popFrontStorage,
          handedOut, Queue.assignOut, Queue.constructResult, Queue.modifyReceiver]
      simp only [Queue.admitOldestSender, hhead, hsome, hsender]
      exact ⟨_, _, .admitOldest halive hasks hcount⟩

theorem Inv.awaitReceive (h : Inv cap x snd rcv) (halive : x.alive = true) {a : ℕ}
    (hstage : x.stage a = .receiver false) (awaiting : Handle) :
    ∃ snd' rcv', Change cap x snd rcv (.awaitReceive a awaiting) (x.awaitReceive cap a awaiting)
      snd' rcv' := by
  by_cases hcount : x.queue.count = 0
  · have hsnd : snd = [] := by
      by_contra hne
      have := (h.waiting halive).full hne
      have := (h.waiting halive).head_lt
      omega
    subst hsnd
    unfold Exchange.awaitReceive
    simp only [Queue.receiveReady, hcount, if_true, Queue.parkReceiver, Scheduler.runningIs]
    by_cases hrunning : x.sched.isRunning awaiting = true
    · obtain ⟨s, hcurrent⟩ := exists_current hrunning
      obtain ⟨hpark, hsuspend, htask⟩ := parkRunning_eq hcurrent
      simp only [hrunning, if_true, hpark, hsuspend, htask]
      exact ⟨_, _, .parkReceiver halive hstage hcount hcurrent hrunning⟩
    · simp only [hrunning, Bool.false_eq_true, if_false]
      exact ⟨_, _, .strangeReceiver halive hstage hcount (by simpa using hrunning)⟩
  · have htake := h.take halive (by omega) (.await awaiting hstage)
    unfold Exchange.awaitReceive
    simp only [Queue.receiveReady, hcount, if_false]
    exact htake

theorem Inv.tryReceive (h : Inv cap x snd rcv) (halive : x.alive = true) :
    ∃ snd' rcv', Change cap x snd rcv .tryReceive (x.tryReceive cap) snd' rcv' := by
  by_cases hcount : x.queue.count = 0
  · have hsnd : snd = [] := by
      by_contra hne
      have := (h.waiting halive).full hne
      have := (h.waiting halive).head_lt
      omega
    subst hsnd
    unfold Exchange.tryReceive
    simp only [Queue.tryReceive, hcount, if_true]
    exact ⟨_, _, .nothing halive hcount⟩
  · have htake := h.take halive (by omega) .call
    unfold Exchange.tryReceive
    simp only [Queue.tryReceive, hcount, if_false]
    exact htake

theorem Inv.destroySender (h : Inv cap x snd rcv) {a : ℕ} {awaited : Bool}
    (hstage : x.stage a = .sender awaited) :
    ∃ snd' rcv', Change cap x snd rcv (.destroyAwaiter a) (x.destroySender a) snd' rcv' := by
  by_cases hlinked : (x.queue.senders a).linked = true
  · have hmem := (h.sendLinked a).mp hlinked
    have halive : x.alive = true := by
      by_contra hdead
      obtain ⟨rfl, -⟩ := h.gone (by simpa using hdead)
      simp at hmem
    obtain ⟨pre, post, rfl⟩ := List.append_of_mem hmem
    unfold Exchange.destroySender
    simp only [Queue.destroySender, hlinked, halive, if_true, Bool.not_true, Bool.and_false,
      Bool.false_eq_true, if_false]
    have hchange : Change cap x (pre ++ a :: post) rcv (.destroyAwaiter a) _ (pre ++ post) rcv :=
      .unlinkSender halive
    rw [halive] at hchange
    exact ⟨_, _, hchange⟩
  · have hmem : a ∉ snd := fun hmem => hlinked ((h.sendLinked a).mpr hmem)
    unfold Exchange.destroySender
    simp only [Queue.destroySender, hlinked, Bool.false_and, Bool.false_eq_true, if_false]
    exact ⟨_, _, .destroySender hstage hmem⟩

theorem Inv.destroyReceiver (h : Inv cap x snd rcv) {a : ℕ} {awaited : Bool}
    (hstage : x.stage a = .receiver awaited) :
    ∃ snd' rcv', Change cap x snd rcv (.destroyAwaiter a) (x.destroyReceiver a) snd' rcv' := by
  by_cases hlinked : (x.queue.receivers a).linked = true
  · have hmem := (h.recvLinked a).mp hlinked
    have halive : x.alive = true := by
      by_contra hdead
      obtain ⟨-, rfl⟩ := h.gone (by simpa using hdead)
      simp at hmem
    obtain ⟨pre, post, rfl⟩ := List.append_of_mem hmem
    unfold Exchange.destroyReceiver
    simp only [Queue.destroyReceiver, hlinked, halive, if_true, Bool.not_true, Bool.and_false,
      Bool.false_eq_true, if_false]
    have hchange : Change cap x snd (pre ++ a :: post) (.destroyAwaiter a) _ snd (pre ++ post) :=
      .unlinkReceiver halive
    rw [halive] at hchange
    exact ⟨_, _, hchange⟩
  · have hmem : a ∉ rcv := fun hmem => hlinked ((h.recvLinked a).mpr hmem)
    unfold Exchange.destroyReceiver
    simp only [Queue.destroyReceiver, hlinked, Bool.false_and, Bool.false_eq_true, if_false]
    exact ⟨_, _, .destroyReceiver hstage hmem⟩

theorem Inv.resume (h : Inv cap x snd rcv) {a : ℕ} (hstep : x.step cap (.resume a) = some x') :
    ∃ snd' rcv', Change cap x snd rcv (.resume a) x' snd' rcv' := by
  simp only [Exchange.step] at hstep
  split at hstep
  · rename_i hstage
    split at hstep <;> cases hstep
    rename_i hlinked
    exact ⟨_, _, .resumeSender hstage fun hmem => hlinked ((h.sendLinked a).mpr hmem)⟩
  · rename_i hstage
    split at hstep <;> cases hstep
    rename_i hlinked
    exact ⟨_, _, .resumeReceiver hstage fun hmem => hlinked ((h.recvLinked a).mpr hmem)⟩
  · cases hstep

/-- Every step has one of the outcomes. -/
theorem Inv.step_change (h : Inv cap x snd rcv) (hstep : x.step cap action = some x') :
    ∃ snd' rcv', Change cap x snd rcv action x' snd' rcv' := by
  cases action with
  | send v =>
      simp only [Exchange.step] at hstep
      split at hstep <;> cases hstep
      exact ⟨_, _, .send v ‹_›⟩
  | receive =>
      simp only [Exchange.step] at hstep
      split at hstep <;> cases hstep
      exact ⟨_, _, .receive ‹_›⟩
  | awaitSend a awaiting =>
      simp only [Exchange.step] at hstep
      split at hstep <;> cases hstep
      rename_i hready
      exact h.awaitSend hready.1 hready.2 awaiting
  | awaitReceive a awaiting =>
      simp only [Exchange.step] at hstep
      split at hstep <;> cases hstep
      rename_i hready
      exact h.awaitReceive hready.1 hready.2 awaiting
  | resume a => exact h.resume hstep
  | trySend v =>
      simp only [Exchange.step] at hstep
      split at hstep <;> cases hstep
      exact h.trySend ‹_› v
  | tryReceive =>
      simp only [Exchange.step] at hstep
      split at hstep <;> cases hstep
      exact h.tryReceive ‹_›
  | destroyAwaiter a =>
      simp only [Exchange.step] at hstep
      split at hstep <;> cases hstep
      · exact h.destroySender ‹_›
      · exact h.destroyReceiver ‹_›
  | destroyQueue =>
      simp only [Exchange.step] at hstep
      split at hstep <;> cases hstep
      exact ⟨_, _, .destroyQueue ‹_›⟩
  | elsewhere change =>
      simp only [Exchange.step] at hstep
      split at hstep <;> cases hstep
      rename_i hchange
      exact ⟨_, _, .elsewhere change hchange.1 hchange.2⟩

end Exchange

end SimpleAwait
