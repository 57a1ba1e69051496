import SimpleAwait.Properties.Consistency

/-!
# Awaits by a coroutine that is not the running task

`start_child_await`, `wait_on` and `running_is` compare the awaiting handle with that of the
running task, so an await that would suspend some other coroutine is rejected: nothing moves,
`Error::invalid_task` is reported and the coroutine goes on.  `yield()` and a delay receive the
handle too, but do not look at it.  They suspend whoever awaits, and where a task is running
they move that task.
-/

namespace SimpleAwait

variable {N : ℕ} {T : Type} {cfg : Config N} {w w' : World N T} {awaiting : Handle}

namespace World

/-- The task being resumed has the frame `awaiting`. -/
def RunningTask (w : World N T) (awaiting : Handle) : Prop :=
  ∃ s, w.sched.current = some s ∧ (w.sched.slots s).handle = awaiting

instance (w : World N T) (awaiting : Handle) : Decidable (w.RunningTask awaiting) :=
  inferInstanceAs (Decidable (∃ _, _))

end World

/-- The await would not complete at once. -/
def Awaitable.Blocks (cfg : Config N) (w : World N T) : Awaitable T → Prop
  | .yield | .delay _ => True
  | .task awaiter => ∃ child : Frame, awaiter = .ofTask (some child)
  | .event e => (w.event e).set = false
  | .send q _ => (w.queue q).count = cfg.capacity q
  | .receive q => (w.queue q).count = 0
  | .flag f => (w.flags.flag f).signaled = false
  | .unknown => False

/-- `await_suspend` compares the awaiting handle with that of the running task. -/
def Awaitable.checksHandle : Awaitable T → Bool
  | .yield | .delay _ | .unknown => false
  | _ => true

/-- The ring, the waiter lists and all awaiters that existed are as they were. -/
structure Queue.Untouched (q q' : Queue N T) : Prop where
  cells : q'.cells = q.cells
  head : q'.head = q.head
  count : q'.count = q.count
  sendHead : q'.sendHead = q.sendHead
  sendTail : q'.sendTail = q.sendTail
  recvHead : q'.recvHead = q.recvHead
  recvTail : q'.recvTail = q.recvTail
  senders : ∀ a < q.fresh, q'.senders a = q.senders a
  receivers : ∀ a < q.fresh, q'.receivers a = q.receivers a

/-- Nothing has moved, and `Error::invalid_task` has been reported. -/
structure World.Rejected (w w' : World N T) : Prop where
  /-- The ready FIFO, the slots and the timers: all of the scheduler but its history. -/
  sched : w'.sched = { w.sched with trace := w'.sched.trace }
  event : w'.event = w.event
  queue : ∀ q, (w.queue q).Untouched (w'.queue q)
  flags : w'.flags = w.flags
  reported : ∃ obs, w'.sched.trace = w.sched.trace ++ obs ∧ .error .invalidTask ∈ obs ∧
    enqueuedTasks obs = []

theorem Queue.Untouched.refl (q : Queue N T) : q.Untouched q :=
  ⟨rfl, rfl, rfl, rfl, rfl, rfl, rfl, fun _ _ => rfl, fun _ _ => rfl⟩

/-- A send awaiter was created and rejected. -/
theorem Queue.Untouched.newSender (q : Queue N T) (v : T) : q.Untouched (q.newSender v).2 :=
  ⟨rfl, rfl, rfl, rfl, rfl, rfl, rfl,
    fun a ha => by simp [Queue.newSender, Queue.modifySender, ha.ne], fun _ _ => rfl⟩

/-- A receive awaiter was created and rejected, and its `await_resume` fabricated a result. -/
theorem Queue.Untouched.newReceiver (q : Queue N T) :
    q.Untouched (q.newReceiver.2.receiveResume q.newReceiver.1).2 := by
  have hresult : (q.newReceiver.2.receivers q.newReceiver.1).hasResult = false := by
    simp [Queue.newReceiver, Queue.modifyReceiver]
  simp only [Queue.receiveResume, hresult, Bool.false_eq_true, if_false]
  exact ⟨rfl, rfl, rfl, rfl, rfl, rfl, rfl, fun _ _ => rfl,
    fun a ha => by simp [Queue.newReceiver, Queue.modifyReceiver, ha.ne]⟩

theorem Scheduler.isRunning_eq_false (h : ¬ w.RunningTask awaiting) :
    w.sched.isRunning awaiting = false := by
  unfold Scheduler.isRunning
  split
  · rfl
  · rename_i s hcurrent
    have hhandle : (w.sched.slots s).handle ≠ awaiting := fun he => h ⟨s, hcurrent, he⟩
    simp [hhandle]

/-- Only the report is left of a rejected await on an event or flag. -/
theorem World.Rejected.report (h : w'.sched = w.sched.report .invalidTask)
    (hevent : w'.event = w.event) (hflags : w'.flags = w.flags)
    (hqueue : ∀ q, (w.queue q).Untouched (w'.queue q)) : w.Rejected w' where
  sched := by rw [h]; rfl
  event := hevent
  queue := hqueue
  flags := hflags
  reported := ⟨[.error .invalidTask], by rw [h]; rfl, List.mem_singleton_self _, rfl⟩

theorem World.Rejected.withQueue {q : ℕ} {queue : Queue N T}
    (h : (w.queue q).Untouched queue) :
    w.Rejected (w.withQueue q (w.sched.report .invalidTask) queue) :=
  .report rfl rfl rfl fun k => by
    rw [World.withQueue_queue]
    split_ifs with hk
    · exact hk ▸ h
    · exact .refl _

/-! ## The awaits that check -/

section Checked

variable (hforeign : ¬ w.RunningTask awaiting)

include hforeign

theorem World.foreign_task (child : Frame) :
    let r := w.coAwait cfg awaiting (.task (.ofTask (some child)))
    w.Rejected r.2 ∧ r.1 = false := by
  have hstart : w.sched.startChildAwait (some child) awaiting =
      ⟨false, true, (w.sched.record (.destroyed (some child))).report .invalidTask⟩ := by
    unfold Scheduler.startChildAwait
    split
    · rfl
    · rw [Scheduler.isRunning_eq_false hforeign]
      rfl
  simp only [World.coAwait, TaskAwaiter.ofTask, Option.isNone_some, Bool.false_eq_true, if_false,
    hstart, and_true]
  exact {
    sched := rfl
    event := rfl
    queue := fun _ => .refl _
    flags := rfl
    reported := ⟨[.destroyed (some child), .error .invalidTask],
      by simp [Scheduler.report, Scheduler.record], by simp, rfl⟩ }

theorem World.foreign_event {e : ℕ} (hclear : (w.event e).set = false) :
    let r := w.coAwait cfg awaiting (.event e)
    w.Rejected r.2 ∧ r.1 = false := by
  have hpark : (w.event e).park w.sched awaiting =
      (false, w.sched.report .invalidTask, w.event e) := by
    unfold Event.park Scheduler.waitOn
    cases w.sched.current with
    | none =>
        rfl
    | some s =>
        rw [Scheduler.isRunning_eq_false hforeign]
        rfl
  simp only [World.coAwait, hclear, Bool.false_eq_true, if_false, hpark, and_true]
  exact .report rfl (by simp [World.setEvent]) rfl fun _ => .refl _

theorem Scheduler.runningIs_foreign :
    w.sched.runningIs awaiting = (false, w.sched.report .invalidTask) := by
  rw [Scheduler.runningIs, Scheduler.isRunning_eq_false hforeign]
  rfl

theorem World.foreign_send {q : ℕ} {v : T} (hrecv : (w.queue q).recvHead = none)
    (hfull : (w.queue q).count = cfg.capacity q) :
    let r := w.coAwait cfg awaiting (.send q v)
    w.Rejected r.2 ∧ r.1 = false := by
  have hready : ((w.queue q).newSender v).2.sendReady (cfg.capacity q) (w.queue q).fresh w.sched =
      (false, w.sched, ((w.queue q).newSender v).2) := by
    have hnew := Queue.Untouched.newSender (w.queue q) v
    simp [Queue.sendReady, Queue.doSend, hnew.recvHead, hnew.count, hrecv, hfull]
  have hpark : ((w.queue q).newSender v).2.parkSender (w.queue q).fresh w.sched awaiting =
      (false, w.sched.report .invalidTask, ((w.queue q).newSender v).2) := by
    simp only [Queue.parkSender, Scheduler.runningIs_foreign hforeign]
  have hsend : w.coAwait cfg awaiting (.send q v) =
      (false, w.withQueue q (w.sched.report .invalidTask) ((w.queue q).newSender v).2) := by
    simp only [World.coAwait, World.awaitSend]
    rw [show ((w.queue q).newSender v).1 = (w.queue q).fresh from rfl, hready]
    simp only [hpark]
  rw [hsend]
  exact ⟨.withQueue (.newSender _ v), rfl⟩

theorem World.foreign_receive {q : ℕ} (hempty : (w.queue q).count = 0) :
    let r := w.coAwait cfg awaiting (.receive q)
    w.Rejected r.2 ∧ r.1 = false := by
  have hready : (w.queue q).newReceiver.2.receiveReady (cfg.capacity q) (w.queue q).fresh w.sched =
      (false, w.sched, (w.queue q).newReceiver.2) :=
    if_pos hempty
  have hpark : (w.queue q).newReceiver.2.parkReceiver (w.queue q).fresh w.sched awaiting =
      (false, w.sched.report .invalidTask, (w.queue q).newReceiver.2) := by
    simp only [Queue.parkReceiver, Scheduler.runningIs_foreign hforeign]
  have hreceive : w.coAwait cfg awaiting (.receive q) = (false,
      w.withQueue q (w.sched.report .invalidTask)
        ((w.queue q).newReceiver.2.receiveResume (w.queue q).newReceiver.1).2) := by
    simp only [World.coAwait, World.awaitReceive]
    rw [show (w.queue q).newReceiver.1 = (w.queue q).fresh from rfl, hready]
    simp only [hpark]
  rw [hreceive]
  exact ⟨.withQueue (.newReceiver _), rfl⟩

theorem World.foreign_flag {f : ℕ} (hunsignaled : (w.flags.flag f).signaled = false) :
    let r := w.coAwait cfg awaiting (.flag f)
    w.Rejected r.2 ∧ r.1 = false := by
  have hconsume : w.flags.consume f = (false, w.flags) := by
    simp [Flags.consume, hunsignaled]
  have hpark : w.flags.park f w.sched awaiting =
      (false, w.sched.report .invalidTask, w.flags) := by
    simp only [Flags.park, Scheduler.runningIs_foreign hforeign]
  simp only [World.coAwait, World.flagReady, hconsume, World.flagPark, hpark, and_true]
  exact .report rfl rfl rfl fun _ => .refl _

end Checked

/-- A task in slot 0 runs. -/
def World.oneRunning : World 3 ℕ :=
  World.after .small [.createTask (some 1), .poll false 0, .checkPending, .startPass, .passPop]

end SimpleAwait
