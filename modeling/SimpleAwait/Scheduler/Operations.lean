import SimpleAwait.Scheduler.Basic

/-!
# The scheduler's operations

The member functions of `Scheduler` in the order of `scheduler.h`.  `run_pass` is cut
where user code runs: `passPop` is an iteration up to `resume()`, `afterSuspend` what
follows a `resume()` that left the coroutine suspended, and `afterDestroy` what follows
the `destroy()` of a completed one.  `System/Step.lean` puts the pieces together.
-/

namespace SimpleAwait

namespace Scheduler

variable {N : ℕ} (c : Scheduler N)

/-! ## Identity queries -/

/-- `Scheduler::handle_valid`. -/
def handleValid (id : TaskId) : Bool :=
  if h : id.slot.toNat < N then
    let s := c.slots ⟨id.slot.toNat, h⟩
    s.generation = id.generation && s.state ≠ .free
  else false

/-- `Scheduler::handle_done`. -/
def handleDone (id : TaskId) : Bool :=
  if h : id.slot.toNat < N then
    let s := c.slots ⟨id.slot.toNat, h⟩
    s.generation = id.generation && s.state = .completed
  else false

/-- `TaskHandle::valid`. -/
def valid (handle : TaskHandle) : Bool := handle.any c.handleValid

/-- `TaskHandle::done`. -/
def done (handle : TaskHandle) : Bool := handle.any c.handleDone

/-- `Scheduler::currentTask`. -/
def currentTask : TaskHandle := c.current.map c.idOf

/-! ## Scheduling -/

/-- One of the two scans of `acquire_slot`: the lowest reusable slot in `state`. -/
def findSlot (state : State) : Option (Fin N) :=
  (List.finRange N).find? fun s =>
    (c.slots s).state = state && (c.slots s).generation ≠ maxGeneration

/-- `++s.generation; return &s`. -/
def claim (s : Fin N) : Scheduler N :=
  (c.modify s fun slot => { slot with generation := slot.generation + 1 }).record
    (.acquired s ((c.slots s).generation + 1))

/-- `Scheduler::acquire_slot`. -/
def acquireSlot : Option (Fin N × Scheduler N) :=
  match c.findSlot .free with
  | some s => some (s, c.claim s)
  | none =>
      match c.findSlot .completed with
      | some s => some (s, c.claim s)
      | none => none

/-- Fill an acquired slot and link it: the common part of `schedule` and
`start_child_await`. -/
def adopt (s : Fin N) (frame : Handle) (parent : Option (Fin N)) : Scheduler N :=
  let filled := c.modify s fun slot =>
    { slot with handle := frame, state := .ready, next := none, parent := parent }
  { filled.readyPush s with activeCount := c.activeCount + 1 }

/-- What `schedule` returns, and what it leaves in the passed `Task`. -/
structure Scheduled (N : ℕ) where
  handle : TaskHandle
  task : Handle
  sched : Scheduler N

/-- `Scheduler::schedule`. -/
def schedule (task : Handle) : Scheduled N :=
  if c.shuttingDown then ⟨none, task, c⟩
  else
    match task with
    | none => ⟨none, none, c.report .invalidTask⟩
    | some frame =>
        match c.acquireSlot with
        | none => ⟨none, some frame, c.report .taskLimit⟩
        | some (s, claimed) =>
            let adopted := claimed.adopt s (some frame) none
            ⟨some (adopted.idOf s), none, adopted⟩

/-! ## The pass -/

/-- What an iteration of the loop of `run_pass` does up to `resume()`. -/
inductive PassPop (N : ℕ)
  /-- `slot == nullptr`: leave the loop. -/
  | exhausted
  /-- `slot->state != State::ready`: next iteration. -/
  | skipped (sched : Scheduler N)
  /-- The slot is running and its coroutine is about to be resumed. -/
  | resume (s : Fin N) (sched : Scheduler N)

/-- `slot->state = State::running; current_ = slot; slot->handle.resume()`. -/
def enter (s : Fin N) : Scheduler N :=
  { c.setState s .running with current := some s }.record (.resumed s (c.slots s).generation)

/-- The head of the loop body of `run_pass`. -/
def passPop : PassPop N :=
  match c.readyPop with
  | (none, _) => .exhausted
  | (some s, popped) =>
      if (popped.slots s).state ≠ .ready then .skipped popped else .resume s (popped.enter s)

/-- After `resume()` left the coroutine suspended: a slot still `running` registered no
wake source. -/
def afterSuspend (s : Fin N) : Scheduler N :=
  let returned := { c with current := none }
  if (c.slots s).state = .running then returned.setState s .suspended else returned

/-- After `resume()` ran the coroutine to its end: `current_` is cleared and the frame's
destruction starts. -/
def afterFinish (s : Fin N) : Scheduler N :=
  { c with current := none }.record (.destroyed (c.slots s).handle)

/-- After `slot->handle.destroy()` of a completed coroutine. -/
def afterDestroy (s : Fin N) : Scheduler N :=
  let parent := (c.slots s).parent
  let cleared := (c.modify s fun slot =>
    { slot with handle := none, parent := none, state := .completed }).record
      (.completed s (c.slots s).generation)
  let counted := { cleared with activeCount := c.activeCount - 1 }
  match parent with
  | none => counted
  | some p =>
      if (counted.slots p).state = .waitingChild then (counted.setState p .ready).readyPush p
      else counted

/-! ## Suspension -/

/-- `Scheduler::yield_current`. -/
def yieldCurrent : Scheduler N :=
  match c.current with
  | none => c
  | some s => (c.setState s .ready).readyPush s

/-- What `arm_current_timer` writes when the deadline of the running slot fits. -/
def armTimer (s : Fin N) (deadline : Tick) : Scheduler N :=
  let armed := c.modify s fun slot => { slot with deadline := deadline, state := .waitingTimer }
  if deadline < c.nearestDeadline then { armed with nearestDeadline := deadline } else armed

/-- `Scheduler::arm_current_timer`. -/
def armCurrentTimer (duration : Tick) : Scheduler N :=
  match c.current with
  | none => c
  | some s =>
      if duration = 0 then c.yieldCurrent
      else
        match computeDeadline c.now duration with
        | none => (c.report .deadlineOverflow).yieldCurrent
        | some deadline => c.armTimer s deadline

/-- The check shared by `start_child_await`, `wait_on` and `running_is`: the awaiting
coroutine is the one being resumed. -/
def isRunning (awaiting : Handle) : Bool :=
  match c.current with
  | none => false
  | some s => (c.slots s).state = .running && (c.slots s).handle = awaiting

/-- What `start_child_await` returns, and whether it destroyed the child's frame. -/
structure ChildAwait (N : ℕ) where
  suspend : Bool
  destroyed : Bool
  sched : Scheduler N

/-- `Scheduler::start_child_await`. -/
def startChildAwait (child awaiting : Handle) : ChildAwait N :=
  match c.current with
  | none => ⟨false, true, (c.record (.destroyed child)).report .invalidTask⟩
  | some parent =>
      if c.isRunning awaiting then
        match c.acquireSlot with
        | none =>
            ⟨true, true, (((c.record (.destroyed child)).setState parent .ready).readyPush
              parent).report .taskLimit⟩
        | some (s, claimed) =>
            ⟨true, false, (claimed.adopt s child (some parent)).setState parent .waitingChild⟩
      else ⟨false, true, (c.record (.destroyed child)).report .invalidTask⟩

/-- `Scheduler::wait_on`. -/
def waitOn (q : WaitQueue N) (awaiting : Handle) : Bool × Scheduler N × WaitQueue N :=
  match c.current with
  | none => (false, c.report .invalidTask, q)
  | some s =>
      if c.isRunning awaiting then
        let (pushed, q) := (c.setState s .waitingLocal).waitPush q s
        (true, pushed, q)
      else (false, c.report .invalidTask, q)

/-- The loop of `wake_all`, for at most `fuel` waiters. -/
def wakeAllLoop : ℕ → Scheduler N → WaitQueue N → Scheduler N × WaitQueue N
  | 0, c, q => (c, q)
  | fuel + 1, c, q =>
      match c.waitPop q with
      | (none, c, q) => (c, q)
      | (some s, c, q) => wakeAllLoop fuel ((c.setState s .ready).readyPush s) q

/-- `Scheduler::wake_all`.  A slot waits at most once, so `N` rounds empty the queue. -/
def wakeAll (q : WaitQueue N) : Scheduler N × WaitQueue N := wakeAllLoop N c q

/-- `Scheduler::running_is`. -/
def runningIs (awaiting : Handle) : Bool × Scheduler N :=
  if c.isRunning awaiting then (true, c) else (false, c.report .invalidTask)

/-- `Scheduler::park_running`. -/
def parkRunning : Option (Fin N) × Scheduler N :=
  match c.current with
  | none => (none, c)
  | some s => (some s, c.setState s .waitingLocal)

/-- `Scheduler::wake_slot`. -/
def wakeSlot (s : Option (Fin N)) : Scheduler N :=
  match s with
  | none => c
  | some s => (c.setState s .ready).readyPush s

/-! ## Timers -/

/-- The timer of `s` is due at the sampled clock. -/
def isDue (s : Fin N) : Bool :=
  (c.slots s).state = .waitingTimer && (c.slots s).deadline ≤ c.now

/-- One iteration of the selection scan of `process_due_timers`; the strict comparison
keeps the lowest slot on ties. -/
def sooner (best : Option (Fin N)) (s : Fin N) : Option (Fin N) :=
  if c.isDue s && best.all fun b => (c.slots s).deadline < (c.slots b).deadline then some s
  else best

/-- The selection scan of `process_due_timers`. -/
def soonest : Option (Fin N) := (List.finRange N).foldl c.sooner none

/-- The loop of `process_due_timers`, for at most `fuel` timers. -/
def dueTimersLoop : ℕ → Scheduler N → Scheduler N
  | 0, c => c
  | fuel + 1, c =>
      match c.soonest with
      | none => c
      | some s => dueTimersLoop fuel ((c.setState s .ready).readyPush s)

/-- One iteration of the scan of `recompute_nearest_deadline`. -/
def nearer (nearest : Tick) (s : Fin N) : Tick :=
  if (c.slots s).state = .waitingTimer && (c.slots s).deadline < nearest then
    (c.slots s).deadline
  else nearest

/-- The scan of `recompute_nearest_deadline`. -/
def minDeadline : Tick := (List.finRange N).foldl c.nearer tickMax

/-- `Scheduler::recompute_nearest_deadline`. -/
def recomputeNearestDeadline : Scheduler N := { c with nearestDeadline := c.minDeadline }

/-- `Scheduler::process_due_timers`.  Each round ends one timer, so `N` rounds are
enough. -/
def processDueTimers : Scheduler N :=
  if c.now < c.nearestDeadline then c else (dueTimersLoop N c).recomputeNearestDeadline

/-! ## What `acquire_slot` finds -/

theorem findSlot_spec {c : Scheduler N} {s : Fin N} {state : State} (h : c.findSlot state = some s) :
    (c.slots s).state = state ∧ (c.slots s).generation ≠ maxGeneration := by
  have := List.find?_some h
  simpa using this

/-- `acquire_slot` takes a free or completed slot whose generation is not exhausted. -/
theorem acquireSlot_spec {c c' : Scheduler N} {s : Fin N} (h : c.acquireSlot = some (s, c')) :
    c' = c.claim s ∧ ((c.slots s).state = .free ∨ (c.slots s).state = .completed) ∧
      (c.slots s).generation ≠ maxGeneration := by
  unfold Scheduler.acquireSlot at h
  split at h
  · rename_i t hfind
    cases h
    obtain ⟨hstate, hgeneration⟩ := findSlot_spec hfind
    exact ⟨rfl, Or.inl hstate, hgeneration⟩
  · split at h
    · rename_i t hfind
      cases h
      obtain ⟨hstate, hgeneration⟩ := findSlot_spec hfind
      exact ⟨rfl, Or.inr hstate, hgeneration⟩
    · cases h

/-! ## What the writes leave alone -/

theorem afterDestroy_frame (s : Fin N) : (c.afterDestroy s).current = c.current ∧
    (c.afterDestroy s).inPoll = c.inPoll ∧ (c.afterDestroy s).shuttingDown = c.shuttingDown := by
  unfold afterDestroy
  dsimp only
  split
  · exact ⟨rfl, rfl, rfl⟩
  · split <;> simp

/-- The slot of the completed task loses its frame, and holds no task any more. -/
theorem afterDestroy_slot (s : Fin N) : ((c.afterDestroy s).slots s).state = .completed ∧
    ∀ t, ((c.afterDestroy s).slots t).handle = if t = s then none else (c.slots t).handle := by
  unfold afterDestroy
  dsimp only
  split
  · exact ⟨by simp, fun t => by by_cases hts : t = s <;> simp [hts]⟩
  · rename_i p hparent
    split
    · rename_i hwaiting
      have hne : s ≠ p := by
        rintro rfl
        simp at hwaiting
      exact ⟨by simp [hne], fun t => by by_cases hts : t = s <;> simp [hts]⟩
    · exact ⟨by simp, fun t => by by_cases hts : t = s <;> simp [hts]⟩

/-- Only slot `s` and the cached deadline change. -/
theorem armTimer_eq (s : Fin N) (deadline : Tick) :
    c.armTimer s deadline =
      { c.modify s (fun slot => { slot with deadline := deadline, state := .waitingTimer }) with
        nearestDeadline :=
          if deadline < c.nearestDeadline then deadline else c.nearestDeadline } := by
  unfold armTimer
  split_ifs <;> rfl

@[simp] theorem enter_state (s t : Fin N) :
    ((c.enter s).slots t).state = if t = s then .running else (c.slots t).state :=
  c.setState_state s t _
@[simp] theorem enter_handle (s t : Fin N) :
    ((c.enter s).slots t).handle = (c.slots t).handle := c.setState_handle s t _
@[simp] theorem enter_parent (s t : Fin N) :
    ((c.enter s).slots t).parent = (c.slots t).parent := c.setState_parent s t _
@[simp] theorem enter_deadline (s t : Fin N) :
    ((c.enter s).slots t).deadline = (c.slots t).deadline := c.setState_deadline s t _
@[simp] theorem enter_generation (s t : Fin N) :
    ((c.enter s).slots t).generation = (c.slots t).generation := c.setState_generation s t _
@[simp] theorem enter_next (s : Fin N) : (c.enter s).next = c.next := c.setState_next s _
@[simp] theorem enter_readyHead (s : Fin N) : (c.enter s).readyHead = c.readyHead := rfl
@[simp] theorem enter_readyTail (s : Fin N) : (c.enter s).readyTail = c.readyTail := rfl
@[simp] theorem enter_readyCount (s : Fin N) : (c.enter s).readyCount = c.readyCount := rfl
@[simp] theorem enter_activeCount (s : Fin N) : (c.enter s).activeCount = c.activeCount := rfl
@[simp] theorem enter_current (s : Fin N) : (c.enter s).current = some s := rfl
@[simp] theorem enter_inPoll (s : Fin N) : (c.enter s).inPoll = c.inPoll := rfl
@[simp] theorem enter_shuttingDown (s : Fin N) :
    (c.enter s).shuttingDown = c.shuttingDown := rfl
@[simp] theorem enter_now (s : Fin N) : (c.enter s).now = c.now := rfl
@[simp] theorem enter_nearestDeadline (s : Fin N) :
    (c.enter s).nearestDeadline = c.nearestDeadline := rfl
@[simp] theorem enter_trace (s : Fin N) :
    (c.enter s).trace = c.trace ++ [.resumed s (c.slots s).generation] := rfl

end Scheduler

end SimpleAwait
