import Mathlib.Data.List.FinRange
import SimpleAwait.Library.IntrusiveList

/-!
# The scheduler's data

`Scheduler::Slot`, the ready FIFO and the wait queues of `scheduler.h`, with the list
operations that move a slot between them.  A slot is named by its index in `slots_`,
so a `Slot*` is an `Option (Fin N)`, and `N` is `SIMPLEAWAIT_MAX_TASKS`.  A coroutine
handle is the address of its frame, `none` being the null handle.

`trace` is a history variable: it records, in order, the calls of the error hook and
the acquisitions, enqueues, resumptions and completions of slots.  No function reads
it.
-/

namespace SimpleAwait

/-- `simpleawait::Error`. -/
inductive Error
  | none | taskLimit | framePoolExhausted | schedulerReentry | invalidTask
  | taskAlreadyScheduled | taskAwaitedTwice | multipleFlagWaiters
  | objectDestroyedWithWaiters | deadlineOverflow | unhandledException | internalError
  deriving DecidableEq, Repr

/-- The address of a coroutine frame. -/
abbrev Frame := ℕ

/-- `std::coroutine_handle<>`. -/
abbrev Handle := Option Frame

/-- `detail::tick_t`: microseconds on the 64-bit clock. -/
abbrev Tick := UInt64

/-- `UINT64_MAX`, which `nearest_deadline_` holds when no timer is armed. -/
def tickMax : Tick := 0xFFFFFFFFFFFFFFFF

/-- `detail::add_overflows`. -/
def addOverflows (a b : Tick) : Bool := b > tickMax - a

/-- `detail::compute_deadline`; `none` where it reports `deadline_overflow`. -/
def computeDeadline (now duration : Tick) : Option Tick :=
  if addOverflows now duration then none else some (now + duration)

theorem computeDeadline_eq_none {now duration : Tick} :
    computeDeadline now duration = none ↔ addOverflows now duration = true := by
  unfold computeDeadline
  split <;> simp_all

/-- `Scheduler::State`. -/
inductive State
  | free | ready | running | waitingTimer | waitingChild | waitingLocal | suspended | completed
  deriving DecidableEq, Repr

/-- `Scheduler::Slot`. -/
structure Slot (N : ℕ) where
  handle : Handle := none
  next : Option (Fin N) := none
  parent : Option (Fin N) := none
  deadline : Tick := 0
  generation : UInt32 := 0
  state : State := .free

/-- `Scheduler::kMaxGeneration`. -/
def maxGeneration : UInt32 := 0xFFFFFFFF

/-- `TaskId`, with `TaskSlot` a `uint16_t`. -/
structure TaskId where
  slot : UInt16 := 0
  generation : UInt32 := 0
  deriving DecidableEq, Repr

/-- `TaskHandle`: null, or the identity of a task of the scheduler. -/
abbrev TaskHandle := Option TaskId

/-- An entry of the history variable `trace`. -/
inductive Obs (N : ℕ)
  /-- The error hook was called. -/
  | error (e : Error)
  /-- `acquire_slot` returned `slot`, now at `generation`. -/
  | acquired (slot : Fin N) (generation : UInt32)
  /-- `ready_push` linked the slot. -/
  | enqueued (slot : Fin N) (generation : UInt32)
  /-- The slot's coroutine was resumed. -/
  | resumed (slot : Fin N) (generation : UInt32)
  /-- The slot became `completed`. -/
  | completed (slot : Fin N) (generation : UInt32)
  /-- `destroy()` was called on a frame. -/
  | destroyed (frame : Handle)
  deriving DecidableEq

/-- `Scheduler`. -/
structure Scheduler (N : ℕ) where
  slots : Fin N → Slot N := fun _ => {}
  readyHead : Option (Fin N) := none
  readyTail : Option (Fin N) := none
  readyCount : ℕ := 0
  activeCount : ℕ := 0
  current : Option (Fin N) := none
  inPoll : Bool := false
  shuttingDown : Bool := false
  now : Tick := 0
  nearestDeadline : Tick := tickMax
  trace : List (Obs N) := []

/-- `Scheduler::WaitQueue`. -/
structure WaitQueue (N : ℕ) where
  head : Option (Fin N) := none
  tail : Option (Fin N) := none

namespace Scheduler

variable {N : ℕ} (c : Scheduler N)

/-- The intrusive links of all slots. -/
def next (s : Fin N) : Option (Fin N) := (c.slots s).next

/-- Write to one slot. -/
def modify (s : Fin N) (f : Slot N → Slot N) : Scheduler N :=
  { c with slots := Function.update c.slots s (f (c.slots s)) }

/-- `slot->state = state`. -/
def setState (s : Fin N) (state : State) : Scheduler N :=
  c.modify s fun slot => { slot with state := state }

/-- Append to the history variable. -/
def record (o : Obs N) : Scheduler N := { c with trace := c.trace ++ [o] }

/-- `SIMPLEAWAIT_ON_ERROR(e)` with a hook that returns. -/
def report (e : Error) : Scheduler N := c.record (.error e)

/-- `Scheduler::index_of`. -/
def indexOf (s : Fin N) : UInt16 := UInt16.ofNat s

/-- The identity of the task in slot `s`. -/
def idOf (s : Fin N) : TaskId := ⟨indexOf s, (c.slots s).generation⟩

/-! ## The ready FIFO -/

/-- `Scheduler::ready_push`. -/
def readyPush (s : Fin N) : Scheduler N :=
  let cleared := c.modify s fun slot => { slot with next := none }
  let linked :=
    match c.readyTail with
    | none => { cleared with readyHead := some s }
    | some t => cleared.modify t fun slot => { slot with next := some s }
  { linked with readyTail := some s, readyCount := c.readyCount + 1 }.record
    (.enqueued s (c.slots s).generation)

/-- What `ready_pop` writes when `s` is the first node. -/
def unlinkFront (s : Fin N) : Scheduler N :=
  let head := (c.slots s).next
  let popped := { c with
    readyHead := head
    readyTail := if head = none then none else c.readyTail
    readyCount := c.readyCount - 1 }
  popped.modify s fun slot => { slot with next := none }

/-- `Scheduler::ready_pop`. -/
def readyPop : Option (Fin N) × Scheduler N :=
  match c.readyHead with
  | none => (none, c)
  | some s => (some s, c.unlinkFront s)

/-! ## Wait queues -/

/-- `WaitQueue::push_back`. -/
def waitPush (q : WaitQueue N) (s : Fin N) : Scheduler N × WaitQueue N :=
  let cleared := c.modify s fun slot => { slot with next := none }
  match q.tail with
  | none => (cleared, ⟨some s, some s⟩)
  | some t => (cleared.modify t fun slot => { slot with next := some s }, ⟨q.head, some s⟩)

/-- `WaitQueue::pop_front`. -/
def waitPop (q : WaitQueue N) : Option (Fin N) × Scheduler N × WaitQueue N :=
  match q.head with
  | none => (none, c, q)
  | some s =>
      let head := (c.slots s).next
      (some s, c.modify s fun slot => { slot with next := none },
        ⟨head, if head = none then none else q.tail⟩)

/-! ## What the writes leave alone -/

@[simp] theorem modify_slots (s t : Fin N) (f : Slot N → Slot N) :
    (c.modify s f).slots t = if t = s then f (c.slots t) else c.slots t := by
  by_cases h : t = s
  · subst h
    simp [modify]
  · simp [modify, h]

@[simp] theorem modify_readyHead (s f) : (c.modify s f).readyHead = c.readyHead := rfl
@[simp] theorem modify_readyTail (s f) : (c.modify s f).readyTail = c.readyTail := rfl
@[simp] theorem modify_readyCount (s f) : (c.modify s f).readyCount = c.readyCount := rfl
@[simp] theorem modify_activeCount (s f) : (c.modify s f).activeCount = c.activeCount := rfl
@[simp] theorem modify_current (s f) : (c.modify s f).current = c.current := rfl
@[simp] theorem modify_inPoll (s f) : (c.modify s f).inPoll = c.inPoll := rfl
@[simp] theorem modify_shuttingDown (s f) : (c.modify s f).shuttingDown = c.shuttingDown := rfl
@[simp] theorem modify_now (s f) : (c.modify s f).now = c.now := rfl
@[simp] theorem modify_nearestDeadline (s f) :
    (c.modify s f).nearestDeadline = c.nearestDeadline := rfl
@[simp] theorem modify_trace (s f) : (c.modify s f).trace = c.trace := rfl

@[simp] theorem record_trace (o : Obs N) : (c.record o).trace = c.trace ++ [o] := rfl
@[simp] theorem record_slots (o : Obs N) : (c.record o).slots = c.slots := rfl
@[simp] theorem record_readyHead (o : Obs N) : (c.record o).readyHead = c.readyHead := rfl
@[simp] theorem record_readyTail (o : Obs N) : (c.record o).readyTail = c.readyTail := rfl
@[simp] theorem record_readyCount (o : Obs N) : (c.record o).readyCount = c.readyCount := rfl
@[simp] theorem record_activeCount (o : Obs N) : (c.record o).activeCount = c.activeCount := rfl
@[simp] theorem record_current (o : Obs N) : (c.record o).current = c.current := rfl
@[simp] theorem record_inPoll (o : Obs N) : (c.record o).inPoll = c.inPoll := rfl
@[simp] theorem record_shuttingDown (o : Obs N) :
    (c.record o).shuttingDown = c.shuttingDown := rfl
@[simp] theorem record_now (o : Obs N) : (c.record o).now = c.now := rfl
@[simp] theorem record_nearestDeadline (o : Obs N) :
    (c.record o).nearestDeadline = c.nearestDeadline := rfl

theorem next_modify (s : Fin N) (f : Slot N → Slot N) :
    (c.modify s f).next = Function.update c.next s (f (c.slots s)).next := by
  funext t
  by_cases h : t = s
  · subst h
    simp [next]
  · simp [next, h]

/-! ## `setState` field by field -/

section SetState

variable (s t : Fin N) (state : State)

theorem setState_slots : (c.setState s state).slots t =
    if t = s then { c.slots t with state := state } else c.slots t := by
  simp [setState]

@[simp] theorem setState_state : ((c.setState s state).slots t).state =
    if t = s then state else (c.slots t).state := by
  rw [setState_slots]
  split <;> rfl

@[simp] theorem setState_handle :
    ((c.setState s state).slots t).handle = (c.slots t).handle := by
  rw [setState_slots]
  split <;> rfl

@[simp] theorem setState_parent :
    ((c.setState s state).slots t).parent = (c.slots t).parent := by
  rw [setState_slots]
  split <;> rfl

@[simp] theorem setState_deadline :
    ((c.setState s state).slots t).deadline = (c.slots t).deadline := by
  rw [setState_slots]
  split <;> rfl

@[simp] theorem setState_generation :
    ((c.setState s state).slots t).generation = (c.slots t).generation := by
  rw [setState_slots]
  split <;> rfl

@[simp] theorem setState_next : (c.setState s state).next = c.next := by
  rw [setState, next_modify]
  exact Function.update_eq_self s c.next

@[simp] theorem setState_readyHead : (c.setState s state).readyHead = c.readyHead := rfl
@[simp] theorem setState_readyTail : (c.setState s state).readyTail = c.readyTail := rfl
@[simp] theorem setState_readyCount : (c.setState s state).readyCount = c.readyCount := rfl
@[simp] theorem setState_activeCount : (c.setState s state).activeCount = c.activeCount := rfl
@[simp] theorem setState_current : (c.setState s state).current = c.current := rfl
@[simp] theorem setState_inPoll : (c.setState s state).inPoll = c.inPoll := rfl
@[simp] theorem setState_shuttingDown :
    (c.setState s state).shuttingDown = c.shuttingDown := rfl
@[simp] theorem setState_now : (c.setState s state).now = c.now := rfl
@[simp] theorem setState_nearestDeadline :
    (c.setState s state).nearestDeadline = c.nearestDeadline := rfl
@[simp] theorem setState_trace : (c.setState s state).trace = c.trace := rfl

end SetState

/-! ## `ready_push` and `push_back` as updates of the links -/

@[simp] theorem readyPush_slots (s t : Fin N) :
    (c.readyPush s).slots t =
      { c.slots t with next := Intrusive.pushNext c.next c.readyTail s t } := by
  cases htail : c.readyTail with
  | none => by_cases hs : t = s <;> simp [readyPush, Intrusive.pushNext, next, htail, hs]
  | some u =>
      by_cases hs : t = s <;> by_cases hu : t = u <;>
        simp_all [readyPush, Intrusive.pushNext, next, Function.update]

@[simp] theorem next_readyPush (s : Fin N) :
    (c.readyPush s).next = Intrusive.pushNext c.next c.readyTail s := by
  funext t
  simp [next]

@[simp] theorem readyPush_readyHead (s : Fin N) :
    (c.readyPush s).readyHead = Intrusive.pushHead c.readyHead c.readyTail s := by
  cases htail : c.readyTail <;> simp [readyPush, Intrusive.pushHead, htail]

@[simp] theorem readyPush_readyTail (s : Fin N) : (c.readyPush s).readyTail = some s := rfl
@[simp] theorem readyPush_readyCount (s : Fin N) :
    (c.readyPush s).readyCount = c.readyCount + 1 := rfl
@[simp] theorem readyPush_trace (s : Fin N) :
    (c.readyPush s).trace = c.trace ++ [.enqueued s (c.slots s).generation] := by
  cases htail : c.readyTail <;> simp [readyPush, htail]

/-- The fields that `ready_push` does not touch. -/
theorem readyPush_frame (s : Fin N) :
    (c.readyPush s).activeCount = c.activeCount ∧ (c.readyPush s).current = c.current ∧
      (c.readyPush s).inPoll = c.inPoll ∧ (c.readyPush s).shuttingDown = c.shuttingDown ∧
      (c.readyPush s).now = c.now ∧ (c.readyPush s).nearestDeadline = c.nearestDeadline := by
  cases htail : c.readyTail <;> simp [readyPush, htail]

@[simp] theorem readyPush_activeCount (s : Fin N) :
    (c.readyPush s).activeCount = c.activeCount := (c.readyPush_frame s).1
@[simp] theorem readyPush_current (s : Fin N) :
    (c.readyPush s).current = c.current := (c.readyPush_frame s).2.1
@[simp] theorem readyPush_inPoll (s : Fin N) :
    (c.readyPush s).inPoll = c.inPoll := (c.readyPush_frame s).2.2.1
@[simp] theorem readyPush_shuttingDown (s : Fin N) :
    (c.readyPush s).shuttingDown = c.shuttingDown := (c.readyPush_frame s).2.2.2.1
@[simp] theorem readyPush_now (s : Fin N) :
    (c.readyPush s).now = c.now := (c.readyPush_frame s).2.2.2.2.1
@[simp] theorem readyPush_nearestDeadline (s : Fin N) :
    (c.readyPush s).nearestDeadline = c.nearestDeadline := (c.readyPush_frame s).2.2.2.2.2

/-- `ready_pop` changes the links only. -/
theorem unlinkFront_slots (s t : Fin N) :
    (c.unlinkFront s).slots t =
      { c.slots t with next := if t = s then none else c.next t } := by
  by_cases ht : t = s <;> simp [unlinkFront, next, ht]

@[simp] theorem unlinkFront_state (s t : Fin N) :
    ((c.unlinkFront s).slots t).state = (c.slots t).state := by rw [unlinkFront_slots]
@[simp] theorem unlinkFront_handle (s t : Fin N) :
    ((c.unlinkFront s).slots t).handle = (c.slots t).handle := by rw [unlinkFront_slots]
@[simp] theorem unlinkFront_parent (s t : Fin N) :
    ((c.unlinkFront s).slots t).parent = (c.slots t).parent := by rw [unlinkFront_slots]
@[simp] theorem unlinkFront_deadline (s t : Fin N) :
    ((c.unlinkFront s).slots t).deadline = (c.slots t).deadline := by rw [unlinkFront_slots]
@[simp] theorem unlinkFront_generation (s t : Fin N) :
    ((c.unlinkFront s).slots t).generation = (c.slots t).generation := by rw [unlinkFront_slots]
theorem unlinkFront_next {s t : Fin N} (ht : t ≠ s) : (c.unlinkFront s).next t = c.next t := by
  simp [next, unlinkFront_slots, ht]
@[simp] theorem unlinkFront_readyHead (s : Fin N) : (c.unlinkFront s).readyHead = c.next s := rfl
@[simp] theorem unlinkFront_readyTail (s : Fin N) :
    (c.unlinkFront s).readyTail = Intrusive.popTail (c.next s) c.readyTail := by
  cases hnext : (c.slots s).next <;> simp [unlinkFront, next, hnext, Intrusive.popTail]
@[simp] theorem unlinkFront_readyCount (s : Fin N) :
    (c.unlinkFront s).readyCount = c.readyCount - 1 := rfl
@[simp] theorem unlinkFront_activeCount (s : Fin N) :
    (c.unlinkFront s).activeCount = c.activeCount := rfl
@[simp] theorem unlinkFront_current (s : Fin N) : (c.unlinkFront s).current = c.current := rfl
@[simp] theorem unlinkFront_inPoll (s : Fin N) : (c.unlinkFront s).inPoll = c.inPoll := rfl
@[simp] theorem unlinkFront_shuttingDown (s : Fin N) :
    (c.unlinkFront s).shuttingDown = c.shuttingDown := rfl
@[simp] theorem unlinkFront_now (s : Fin N) : (c.unlinkFront s).now = c.now := rfl
@[simp] theorem unlinkFront_nearestDeadline (s : Fin N) :
    (c.unlinkFront s).nearestDeadline = c.nearestDeadline := rfl
@[simp] theorem unlinkFront_trace (s : Fin N) : (c.unlinkFront s).trace = c.trace := rfl

/-- `push_back` changes only links, and those as `ready_push` does. -/
theorem waitPush_eq (q : WaitQueue N) (s : Fin N) :
    c.waitPush q s =
      ({ c with slots := fun t =>
          { c.slots t with next := Intrusive.pushNext c.next q.tail s t } },
        ⟨Intrusive.pushHead q.head q.tail s, some s⟩) := by
  cases htail : q.tail with
  | none =>
      simp only [waitPush, htail, modify, Intrusive.pushNext, Intrusive.pushHead, Prod.mk.injEq, and_true,
        Scheduler.mk.injEq]
      funext t
      by_cases hs : t = s
      · subst hs
        simp
      · simp [hs, next]
  | some u =>
      simp only [waitPush, htail, modify, Intrusive.pushNext, Intrusive.pushHead,
        Prod.mk.injEq, and_true, Scheduler.mk.injEq]
      funext t
      by_cases hs : t = s <;> by_cases hu : t = u <;> simp_all [next, Function.update]

end Scheduler

end SimpleAwait
