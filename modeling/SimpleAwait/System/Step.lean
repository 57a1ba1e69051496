import SimpleAwait.Library.Transition
import SimpleAwait.Platform.Idle
import SimpleAwait.Primitives.Event
import SimpleAwait.Primitives.Queue
import SimpleAwait.Primitives.Task
import SimpleAwait.Primitives.ThreadSafeFlag

/-!
# The system and its steps

A `World` is the scheduler with all events, queues and flags.  It moves by the actions
of `step`, which interleave three parties:

* scheduler context, whose call stack is `control`: user code outside `poll()`, the
  stages of a pass, the body of the task being resumed, the destructors of a completed
  frame, or the platform wait of `poll_and_wait()`;
* external contexts, which call `ThreadSafeFlag::set()` at any moment.  Its critical
  section and the later give of the semaphore are separate steps;
* FreeRTOS, which ends the platform wait.

Task bodies are not modelled: whatever user code may do next is an action, so a property
of all runs holds for all bodies.  An action is impossible (`none`) where its code cannot
be running.  A task awaits only as the running task; `World.coAwait` is the await itself,
by any coroutine.  An await on a flag takes two steps, since a signal may arrive between
`await_ready` and `await_suspend`, and so does the walk of `poll_external_signals` take
one step for each flag.

An event, queue or flag is named by a number that stands for one object throughout.
Destroying an object that nothing waits on touches no other part of the world.  The
destructors of the parameters of a rejected child run inside `start_child_await`; what
they call comes before the await here, where nothing that they do changes its outcome.
-/

namespace SimpleAwait

/-- What the build fixes, with the `static_assert`s on it. -/
structure Config (N : ℕ) where
  capacity : ℕ → ℕ
  capacity_pos : ∀ q, 0 < capacity q
  maxTasks_le : N ≤ 65536
  tickRateHz : UInt32

/-- What scheduler context is executing. -/
inductive Control (N : ℕ)
  /-- User code outside `poll()`. -/
  | loop
  /-- `poll_external_signals` before its first critical section. -/
  | checkPending
  /-- The walk of `poll_external_signals`, about to visit `f`. -/
  | walk (prev f : Option ℕ)
  /-- Before `process_due_timers`. -/
  | dueTimers
  /-- The loop of `run_pass`, with `left` iterations to go. -/
  | pass (left : ℕ)
  /-- The body of the task in slot `s`. -/
  | body (s : Fin N) (left : ℕ)
  /-- The task in slot `s` between `await_ready` and `await_suspend` on flag `f`. -/
  | flagSuspend (s : Fin N) (f left : ℕ)
  /-- The destructors of the completed frame of slot `s`. -/
  | release (s : Fin N) (left : ℕ)
  /-- `xSemaphoreTake`, entered at clock `now`. -/
  | take (now : Tick) (timeout : UInt32)
  deriving DecidableEq

/-- User code that may call the library is executing. -/
def Control.isUser {N : ℕ} : Control N → Bool
  | .loop | .body .. | .release .. => true
  | _ => false

/-- The whole system. -/
structure World (N : ℕ) (T : Type) where
  sched : Scheduler N := {}
  event : ℕ → Event N := fun _ => {}
  queue : ℕ → Queue N T := fun _ => {}
  flags : Flags N := {}
  control : Control N := .loop
  /-- The pass in progress was started by `poll_and_wait()`. -/
  andWait : Bool := false
  wake : Semaphore := none
  /-- Flags whose `set()` has signaled them and not yet given the semaphore. -/
  giving : List ℕ := []
  /-- The queue and awaiter of the `receive()` that a slot's coroutine is suspended in. -/
  receiving : Fin N → Option (ℕ × ℕ) := fun _ => none
  /-- History: the values of the sends to a queue that were accepted or parked. -/
  sent : ℕ → List T := fun _ => []

/-- What a coroutine can `co_await`. -/
inductive Awaitable (T : Type)
  | yield
  | delay (duration : Tick)
  | task (awaiter : TaskAwaiter)
  | event (e : ℕ)
  | send (q : ℕ) (v : T)
  | receive (q : ℕ)
  | flag (f : ℕ)
  /-- Any other awaitable: it suspends without telling the scheduler. -/
  | unknown

namespace World

variable {N : ℕ} {T : Type} (cfg : Config N) (w : World N T)

/-- Replace one event. -/
def setEvent (e : ℕ) (event : Event N) : World N T :=
  { w with event := Function.update w.event e event }

/-- Replace one queue. -/
def setQueue (q : ℕ) (queue : Queue N T) : World N T :=
  { w with queue := Function.update w.queue q queue }

/-- Record the value of an accepted or parked send. -/
def recordSent (q : ℕ) (v : T) : World N T :=
  { w with sent := Function.update w.sent q (w.sent q ++ [v]) }

/-- Put the scheduler and one queue back. -/
def withQueue (q : ℕ) (c : Scheduler N) (queue : Queue N T) : World N T :=
  { w.setQueue q queue with sched := c }

@[simp] theorem setQueue_queue (q k : ℕ) (queue : Queue N T) :
    (w.setQueue q queue).queue k = if k = q then queue else w.queue k := by
  simp [setQueue, Function.update_apply]

@[simp] theorem setQueue_sched (q : ℕ) (queue : Queue N T) :
    (w.setQueue q queue).sched = w.sched := rfl

@[simp] theorem setQueue_withQueue (q : ℕ) (c : Scheduler N) (queue queue' : Queue N T) :
    (w.setQueue q queue).withQueue q c queue' = w.withQueue q c queue' := by
  simp [withQueue, setQueue]

@[simp] theorem withQueue_queue (q k : ℕ) (c : Scheduler N) (queue : Queue N T) :
    (w.withQueue q c queue).queue k = if k = q then queue else w.queue k := by
  simp [withQueue, setQueue, Function.update_apply]

@[simp] theorem withQueue_sched (q : ℕ) (c : Scheduler N) (queue : Queue N T) :
    (w.withQueue q c queue).sched = c := rfl
@[simp] theorem withQueue_event (q : ℕ) (c : Scheduler N) (queue : Queue N T) :
    (w.withQueue q c queue).event = w.event := rfl
@[simp] theorem withQueue_flags (q : ℕ) (c : Scheduler N) (queue : Queue N T) :
    (w.withQueue q c queue).flags = w.flags := rfl
@[simp] theorem withQueue_receiving (q : ℕ) (c : Scheduler N) (queue : Queue N T) :
    (w.withQueue q c queue).receiving = w.receiving := rfl
@[simp] theorem withQueue_sent (q : ℕ) (c : Scheduler N) (queue : Queue N T) :
    (w.withQueue q c queue).sent = w.sent := rfl

@[simp] theorem recordSent_sent (q k : ℕ) (v : T) :
    (w.recordSent q v).sent k = if k = q then w.sent k ++ [v] else w.sent k := by
  by_cases h : k = q
  · subst h
    simp [recordSent]
  · simp [recordSent, h]

@[simp] theorem recordSent_queue (q : ℕ) (v : T) : (w.recordSent q v).queue = w.queue := rfl
@[simp] theorem recordSent_sched (q : ℕ) (v : T) : (w.recordSent q v).sched = w.sched := rfl
@[simp] theorem recordSent_event (q : ℕ) (v : T) : (w.recordSent q v).event = w.event := rfl
@[simp] theorem recordSent_flags (q : ℕ) (v : T) : (w.recordSent q v).flags = w.flags := rfl
@[simp] theorem recordSent_receiving (q : ℕ) (v : T) :
    (w.recordSent q v).receiving = w.receiving := rfl

/-! ## Awaits -/

/-- `co_await q.send(v)` up to suspension. -/
def awaitSend (q : ℕ) (v : T) (awaiting : Handle) : Bool × World N T :=
  let (a, queue) := (w.queue q).newSender v
  match queue.sendReady (cfg.capacity q) a w.sched with
  | (true, c, queue) => (false, (w.withQueue q c queue).recordSent q v)
  | (false, c, queue) =>
      match queue.parkSender a c awaiting with
      | (true, c, queue) => (true, (w.withQueue q c queue).recordSent q v)
      | (false, c, queue) => (false, w.withQueue q c queue)

/-- `co_await q.receive()` up to suspension, or to its result where it does not suspend. -/
def awaitReceive (q : ℕ) (awaiting : Handle) : Bool × World N T :=
  let (a, queue) := (w.queue q).newReceiver
  match queue.receiveReady (cfg.capacity q) a w.sched with
  | (true, c, queue) => (false, w.withQueue q c (queue.receiveResume a).2)
  | (false, c, queue) =>
      match queue.parkReceiver a c awaiting with
      | (true, c, queue) =>
          let w' := w.withQueue q c queue
          match w.sched.current with
          | none => (true, w')
          | some s => (true, { w' with receiving := Function.update w.receiving s (some (q, a)) })
      | (false, c, queue) => (false, w.withQueue q c (queue.receiveResume a).2)

/-- `await_ready` of a flag wait: whether the signal was consumed. -/
def flagReady (f : ℕ) : Bool × World N T :=
  let (ready, flags) := w.flags.consume f
  (ready, { w with flags := flags })

/-- `await_suspend` of a flag wait. -/
def flagPark (f : ℕ) (awaiting : Handle) : Bool × World N T :=
  let (suspend, c, flags) := w.flags.park f w.sched awaiting
  (suspend, { w with sched := c, flags := flags })

/-- `co_await` by the coroutine `awaiting`: whether it is left suspended, and the world
after `await_suspend`, or after `await_resume` where it is not. -/
def coAwait (awaiting : Handle) : Awaitable T → Bool × World N T
  | .yield => (true, { w with sched := w.sched.yieldCurrent })
  | .delay duration => (true, { w with sched := w.sched.armCurrentTimer duration })
  | .task awaiter =>
      if awaiter.wasEmpty then (false, { w with sched := w.sched.report .taskAwaitedTwice })
      else
        let r := w.sched.startChildAwait awaiter.child awaiting
        (r.suspend, { w with sched := r.sched })
  | .event e =>
      if (w.event e).set then (false, w)
      else
        let (suspend, c, event) := (w.event e).park w.sched awaiting
        (suspend, { w.setEvent e event with sched := c })
  | .send q v => w.awaitSend cfg q v awaiting
  | .receive q => w.awaitReceive cfg q awaiting
  | .flag f =>
      match w.flagReady f with
      | (true, w) => (false, w)
      | (false, w) => w.flagPark f awaiting
  | .unknown => (true, w)

/-! ## The pieces of a pass -/

/-- `poll()` or `poll_and_wait()` up to the first critical section of
`poll_external_signals`. -/
def poll (andWait : Bool) (clock : Tick) : World N T :=
  let w := if andWait then { w with wake := platformPrepareSchedulerWait w.wake } else w
  if w.sched.shuttingDown then w
  else if w.sched.inPoll then { w with sched := w.sched.report .schedulerReentry }
  else { w with
    sched := { w.sched with inPoll := true, now := clock }
    control := .checkPending
    andWait := andWait }

/-- `poll_external_signals` goes on to visit `f`, or returns at the end of the list. -/
def walkTo (prev f : Option ℕ) : World N T :=
  { w with control := if f = none then .dueTimers else .walk prev f }

/-- `process_due_timers`, and the snapshot of the pass budget. -/
def startPass : World N T :=
  let c := w.sched.processDueTimers
  { w with sched := c, control := .pass c.readyCount }

/-- `resume()` of the coroutine in slot `s`, which first runs the `await_resume` of the
`receive()` it was suspended in, if any. -/
def resume (s : Fin N) (c : Scheduler N) (left : ℕ) : World N T :=
  let w := { w with sched := c, control := .body s left }
  match w.receiving s with
  | none => w
  | some (q, a) =>
      { w.setQueue q ((w.queue q).receiveResume a).2 with
        receiving := Function.update w.receiving s none }

/-- `resume()` returns with the coroutine suspended. -/
def suspend (s : Fin N) (left : ℕ) : World N T :=
  { w with sched := w.sched.afterSuspend s, control := .pass left }

/-- The running task goes on, or is left suspended, after an await. -/
def afterAwait (s : Fin N) (left : ℕ) (r : Bool × World N T) : World N T :=
  if r.1 then r.2.suspend s left else { r.2 with control := .body s left }

/-- The pass ends, and `poll_and_wait()` enters `wait_for_work` with the clock at
`clock`. -/
def endPass (clock : Tick) : World N T :=
  let w := { w with sched := { w.sched with inPoll := false } }
  let wait :=
    if w.andWait ∧ w.sched.readyCount = 0 then
      platformWaitUntil cfg.tickRateHz w.wake clock w.sched.nearestDeadline
        w.flags.hasExternalWaiters
    else .returns
  match wait with
  | .returns => { w with control := .loop }
  | .take timeout => { w with control := .take clock timeout }

end World

/-- The actions of the system. -/
inductive Action (T : Type)
  /-- `create_task` or `spawn`, with the handle the passed `Task` owns. -/
  | createTask (task : Handle)
  /-- `poll()` or `poll_and_wait()`, with the clock it samples. -/
  | poll (andWait : Bool) (clock : Tick)
  /-- `Event::set`. -/
  | eventSet (e : ℕ)
  /-- `Event::clear`. -/
  | eventClear (e : ℕ)
  /-- `Queue::trySend`. -/
  | trySend (q : ℕ) (v : T)
  /-- `Queue::tryReceive`. -/
  | tryReceive (q : ℕ)
  /-- `ThreadSafeFlag::clear`. -/
  | flagClear (f : ℕ)
  /-- `ThreadSafeFlag::isSet`. -/
  | flagIsSet (f : ℕ)
  /-- The running task awaits; on a flag, only `await_ready`. -/
  | coAwait (awaitable : Awaitable T)
  /-- `await_suspend` of the flag wait in progress. -/
  | flagPark
  /-- The running task runs to its end. -/
  | finish
  /-- The destructors of the completed frame return. -/
  | destroyed
  /-- The first critical section of `poll_external_signals`. -/
  | checkPending
  /-- One iteration of its walk. -/
  | walkStep
  /-- `process_due_timers`, then the budget is taken. -/
  | startPass
  /-- One iteration of the loop of `run_pass`, up to `resume()`. -/
  | passPop
  /-- The pass ends; `clock` is what the platform wait samples, if there is one. -/
  | endPass (clock : Tick)
  /-- `xSemaphoreTake` takes the token. -/
  | tokenTaken
  /-- `xSemaphoreTake` reaches its timeout. -/
  | timedOut
  /-- The critical section of `ThreadSafeFlag::set`, in any context. -/
  | setFlag (f : ℕ)
  /-- The `platform_wake_scheduler` of a `set()` that signaled `f`. -/
  | give (f : ℕ)

namespace World

variable {N : ℕ} {T : Type} (cfg : Config N) (w : World N T)

/-- A call of user code in scheduler context. -/
def user (w' : World N T) : Option (World N T) :=
  if w.control.isUser then some w' else none

/-- One step of the system; `none` where the action is not possible. -/
def step : Action T → Option (World N T)
  | .createTask task => w.user { w with sched := (w.sched.schedule task).sched }
  | .poll andWait clock => w.user (w.poll andWait clock)
  | .eventSet e =>
      let (c, event) := (w.event e).signal w.sched
      w.user { w.setEvent e event with sched := c }
  | .eventClear e => w.user (w.setEvent e (w.event e).clear)
  | .trySend q v =>
      let (sent, c, queue) := (w.queue q).trySend (cfg.capacity q) w.sched v
      let w' := w.withQueue q c queue
      w.user (if sent then w'.recordSent q v else w')
  | .tryReceive q =>
      let (_, c, queue) := (w.queue q).tryReceive (cfg.capacity q) w.sched
      w.user (w.withQueue q c queue)
  | .flagClear f => w.user { w with flags := w.flags.clear f }
  | .flagIsSet _ => w.user w
  | .coAwait awaitable =>
      match w.control with
      | .body s left =>
          match awaitable with
          | .flag f =>
              match w.flagReady f with
              | (true, w) => some w
              | (false, w) => some { w with control := .flagSuspend s f left }
          | awaitable => some (afterAwait s left (w.coAwait cfg (w.sched.slots s).handle awaitable))
      | _ => none
  | .flagPark =>
      match w.control with
      | .flagSuspend s f left =>
          some (afterAwait s left (w.flagPark f (w.sched.slots s).handle))
      | _ => none
  | .finish =>
      match w.control with
      | .body s left => some { w with sched := w.sched.afterFinish s, control := .release s left }
      | _ => none
  | .destroyed =>
      match w.control with
      | .release s left => some { w with sched := w.sched.afterDestroy s, control := .pass left }
      | _ => none
  | .checkPending =>
      match w.control with
      | .checkPending =>
          match w.flags.takePending with
          | (true, flags) => some ({ w with flags := flags }.walkTo none flags.armedHead)
          | (false, flags) => some { w with flags := flags, control := .dueTimers }
      | _ => none
  | .walkStep =>
      match w.control with
      | .walk prev (some f) =>
          let (prev, next, c, flags) := w.flags.walkStep w.sched prev f
          some ({ w with sched := c, flags := flags }.walkTo prev next)
      | _ => none
  | .startPass =>
      match w.control with
      | .dueTimers => some w.startPass
      | _ => none
  | .passPop =>
      match w.control with
      | .pass (left + 1) =>
          match w.sched.passPop with
          | .exhausted => some { w with control := .pass 0 }
          | .skipped c => some { w with sched := c, control := .pass left }
          | .resume s c => if (c.slots s).handle = none then none else some (w.resume s c left)
      | _ => none
  | .endPass clock =>
      match w.control with
      | .pass 0 => some (w.endPass cfg clock)
      | _ => none
  | .tokenTaken =>
      match w.control with
      | .take .. =>
          if w.wake = some true then some { w with wake := some false, control := .loop } else none
      | _ => none
  | .timedOut =>
      match w.control with
      | .take _ timeout =>
          if timeout ≠ portMaxDelay then some { w with control := .loop } else none
      | _ => none
  | .setFlag f =>
      let (newlySignaled, flags) := w.flags.set f
      some { w with flags := flags, giving := if newlySignaled then f :: w.giving else w.giving }
  | .give f =>
      if f ∈ w.giving then
        some { w with wake := platformWakeScheduler w.wake, giving := w.giving.erase f }
      else none

theorem user_eq_some {w u w' : World N T} :
    w.user u = some w' ↔ w.control.isUser = true ∧ u = w' := by
  simp [user]

/-- The system before anything has happened. -/
def initial : World N T := {}

/-- The worlds some run of the system leads to. -/
def Reachable (w : World N T) : Prop := Transition.Reachable (step cfg) initial w

/-- The world that a run leads to from the initial one. -/
def after (actions : List (Action T)) : World N T :=
  (Transition.run (step cfg) initial actions).getD initial

theorem Reachable.after {actions : List (Action T)}
    (h : (Transition.run (step cfg) initial actions).isSome = true) :
    Reachable cfg (World.after cfg actions) := by
  obtain ⟨w, hw⟩ := Option.isSome_iff_exists.mp h
  exact ⟨actions, by rw [World.after, hw, Option.getD_some]⟩

theorem run_after (before actions : List (Action T))
    (h : (Transition.run (step cfg) initial (before ++ actions)).isSome = true) :
    Transition.run (step cfg) (World.after cfg before) actions =
      some (World.after cfg (before ++ actions)) := by
  obtain ⟨w, hw⟩ := Option.isSome_iff_exists.mp h
  obtain ⟨u, hbefore, hrun⟩ := Transition.run_append.mp hw
  rw [World.after, World.after, hw, hbefore, Option.getD_some, Option.getD_some, hrun]

end World

end SimpleAwait
