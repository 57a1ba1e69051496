import SimpleAwait.Exchange.Fairness
import SimpleAwait.System.Deliveries
import SimpleAwait.System.Passes

/-!
# A queue of the system is an exchange

What `elsewhere` may do to the scheduler is an assumption of `Exchange/Step.lean`: it leaves the
parked tasks where they are, and neither resumes nor enqueues them.  Here it is discharged.  The
steps of the system that do not call a queue, the passes of the scheduler among them, are such
steps to it, and those that do are the calls of an exchange.
-/

namespace SimpleAwait

open Intrusive Transition

variable {N : ℕ} {T : Type} {cfg : Config N} {w w' : World N T} {L : Layout N} {a : Action T} {q : ℕ}

/-! ## The parked tasks of a queue -/

/-- The slots that a queue names are parked. -/
theorem Core.mem_parkedSlots (h : Core cfg w L) {t : Fin N} (ht : t ∈ (w.queue q).parkedSlots) :
    ∃ r, L.place t = .parked r := by
  have hchannel := h.channel q
  have hsnd := hchannel.send.linked.follow_eq
    (hchannel.send.linked.length_le fun b hb => hchannel.named b (Or.inl hb))
  have hrcv := hchannel.recv.linked.follow_eq
    (hchannel.recv.linked.length_le fun b hb => hchannel.named b (Or.inr hb))
  simp only [Queue.parkedSlots, hsnd, hrcv, List.mem_append, List.mem_filterMap] at ht
  rcases ht with ⟨b, hb, hslot⟩ | ⟨b, hb, hslot⟩
  · exact ⟨_, ((h.senders q).place b t).mp ⟨hb, hslot⟩⟩
  · exact ⟨_, ((h.receivers q).place b t).mp ⟨hb, hslot⟩⟩

/-- A step that leaves the waiters of a queue in their lists leaves their tasks alone. -/
theorem World.step_leaves (hw : w.Reachable cfg) (hstep : w.step cfg a = some w')
    (hsame : (w'.queue q).parkedSlots = (w.queue q).parkedSlots) :
    ∀ t ∈ (w.queue q).parkedSlots, w.sched.Leaves w'.sched t := by
  intro t ht
  have hw' : w'.Reachable cfg := hw.succ hstep
  obtain ⟨L, hinv⟩ := hw.inv
  obtain ⟨L', hinv'⟩ := hw'.inv
  obtain ⟨r, hplace⟩ := hinv.core.mem_parkedSlots ht
  obtain ⟨r', hplace'⟩ := hinv'.core.mem_parkedSlots (q := q) (hsame ▸ ht)
  -- a slot that is parked before and after the step was not queued in between
  have hstate : (w.sched.slots t).state = .waitingLocal := by
    rw [hinv.core.sound.threaded.state, hplace, Place.state_parked]
  have hstate' : (w'.sched.slots t).state = .waitingLocal := by
    rw [hinv'.core.sound.threaded.state, hplace', Place.state_parked]
  obtain ⟨⟨obs, htrace, -⟩, htenant⟩ := hinv.step_advances hstep
  refine ⟨?_, ?_, ?_⟩
  · rw [Scheduler.taskIn, Scheduler.taskIn, htenant t (by simp [Scheduler.Occupied, hstate])]
  · -- the current slot runs, and a parked one does not
    intro hcurrent
    have hrunning : L'.place t = .running := by
      refine (hinv'.staged.running t).mpr ?_
      rw [hinv'.staged.current] at hcurrent
      cases hcontrol : w'.control <;> rw [hcontrol] at hcurrent <;>
        first | exact hcurrent | cases hcurrent
    rw [hplace'] at hrunning
    cases hrunning
  · have hcount := (World.step_unqueued (x := w.sched.taskIn t) hw hstep
      (by simp [Scheduler.taskIn, hstate]) (by simp [Scheduler.taskIn, hstate'])).2
    rw [World.enqueues, World.enqueues, htrace, enqueuedTasks_append, List.count_append] at hcount
    rw [htrace, List.drop_left]
    exact List.count_eq_zero.mp (by omega)

/-- `await_resume` leaves the lists of waiters alone. -/
theorem Queue.parkedSlots_receiveResume (queue : Queue N T) (b : ℕ) :
    (queue.receiveResume b).2.parkedSlots = queue.parkedSlots := by
  have hreceiver : ∀ i, ((queue.receiveResume b).2.receivers i).next = (queue.receivers i).next ∧
      ((queue.receiveResume b).2.receivers i).slot = (queue.receivers i).slot := by
    intro i
    unfold receiveResume
    dsimp only
    split_ifs
    · by_cases hi : i = b <;> simp [modifyReceiver, hi]
    · exact ⟨rfl, rfl⟩
  have hnext : (queue.receiveResume b).2.recvNext = queue.recvNext := funext fun i => (hreceiver i).1
  have hslot : (fun i => ((queue.receiveResume b).2.receivers i).slot) =
      fun i => (queue.receivers i).slot := funext fun i => (hreceiver i).2
  have hrest : (queue.receiveResume b).2.sendNext = queue.sendNext ∧
      (queue.receiveResume b).2.senders = queue.senders ∧
      (queue.receiveResume b).2.fresh = queue.fresh ∧
      (queue.receiveResume b).2.sendHead = queue.sendHead ∧
      (queue.receiveResume b).2.recvHead = queue.recvHead := by
    unfold receiveResume
    dsimp only
    split_ifs <;> exact ⟨rfl, rfl, rfl, rfl, rfl⟩
  obtain ⟨hsendNext, hsenders, hfresh, hsendHead, hrecvHead⟩ := hrest
  rw [parkedSlots, parkedSlots, hnext, hslot, hsendNext, hsenders, hfresh, hsendHead, hrecvHead]

/-! ## The steps of a queue -/

/-- The action calls queue `q`. -/
def Action.calls (q : ℕ) : Action T → Bool
  | .trySend k _ | .tryReceive k | .coAwait (.send k _) | .coAwait (.receive k) => k = q
  | _ => false

/-- What a step of the system from `w` to `w'` is to queue `q`. -/
inductive World.Seen (w w' : World N T) (q : ℕ) : Action T → List (ExchangeAction N T) → Prop
  /-- The step does not call the queue. -/
  | elsewhere {a : Action T} (ha : a.calls q = false) : Seen w w' q a [.elsewhere fun _ => w'.sched]
  | trySend (v : T) : Seen w w' q (.trySend q v) [.trySend v]
  | tryReceive : Seen w w' q (.tryReceive q) [.tryReceive]
  | send (v : T) (awaiting : Handle) : Seen w w' q (.coAwait (.send q v))
      [.send v, .awaitSend (w.queue q).fresh awaiting]
  | receive (awaiting : Handle) : Seen w w' q (.coAwait (.receive q))
      [.receive, .awaitReceive (w.queue q).fresh awaiting]
  /-- A value is there, and the task gets it without suspension. -/
  | received (awaiting : Handle) : Seen w w' q (.coAwait (.receive q))
      [.receive, .awaitReceive (w.queue q).fresh awaiting, .resume (w.queue q).fresh]
  /-- A pass resumes a task that was parked in a `receive()`. -/
  | resumed (b : ℕ) : Seen w w' q .passPop [.elsewhere fun _ => w'.sched, .resume b]

/-- The exchange `y` is queue `q` of the system. -/
structure World.Shows (w : World N T) (q : ℕ) (y : Exchange N T) : Prop where
  sched : y.sched = w.sched
  queue : y.queue = w.queue q
  alive : y.alive = true
  receiving : ∀ t b, w.receiving t = some (q, b) → y.stage b = .receiver true

variable {y : Exchange N T}

theorem World.Shows.initial : (World.initial : World N T).Shows q Exchange.initial where
  sched := rfl
  queue := rfl
  alive := rfl
  receiving t b h := by cases h

theorem World.awaitReceive_queue {k : ℕ} (hk : q ≠ k) (w : World N T) (awaiting : Handle) :
    (w.awaitReceive cfg k awaiting).2.queue q = w.queue q := by
  unfold World.awaitReceive
  dsimp only
  split
  · simp [hk]
  · split
    · split <;> simp [World.withQueue, World.setQueue, hk]
    · simp [hk]

/-- A step that does not call the queue changes it only in the `await_resume` of a task that it
resumes. -/
theorem Inv.step_queue (h : Inv cfg w L) (hstep : w.step cfg a = some w') (ha : a.calls q = false) :
    w'.queue q = w.queue q ∨ a = .passPop ∧ ∃ t b, w.receiving t = some (q, b) ∧
      w'.queue q = ((w.queue q).receiveResume b).2 ∧ ((w.queue q).receivers b).hasResult = true ∧
      w'.receiving t = none := by
  cases World.steps_of_step hstep with
  | poll _ andWait clock =>
      left
      obtain ⟨wake, ⟨-, hpoll⟩ | ⟨-, -, hpoll⟩ | ⟨-, -, hpoll⟩⟩ := w.poll_cases andWait clock <;>
        rw [hpoll]
  | trySend _ k v =>
      have hk : q ≠ k := by
        rintro rfl
        simp [Action.calls] at ha
      rw [World.afterSend_queue, if_neg hk]
      exact Or.inl rfl
  | tryReceive _ k =>
      have hk : q ≠ k := by
        rintro rfl
        simp [Action.calls] at ha
      rw [World.withQueue_queue, if_neg hk]
      exact Or.inl rfl
  | coAwait s left awaitable hcontrol hflag =>
      left
      rw [World.afterAwait_queue]
      cases awaitable with
      | receive k =>
          apply World.awaitReceive_queue
          rintro rfl
          simp [Action.calls] at ha
      | send k v =>
          apply World.awaitSend_queue
          rintro rfl
          simp [Action.calls] at ha
      | yield | delay | unknown => rfl
      | task awaiter => rw [World.coAwait_task_queue]
      | event e => rw [World.coAwait_event_queue]
      | flag f => exact absurd rfl (hflag f)
  | flagPark s f left => exact Or.inl (by rw [World.afterAwait_queue]; rfl)
  | passPop left w' hcontrol hpops =>
      obtain ⟨s, rest, hready, rfl, -⟩ := h.pops hcontrol hpops
      have hs : L.place s = .ready := by
        apply (h.core.sound.threaded.mem_ready s).mp
        rw [hready]
        exact List.mem_cons_self
      cases hreceiving : w.receiving s with
      | none => exact Or.inl (by simp only [World.resume, hreceiving])
      | some r =>
          obtain ⟨k, b⟩ := r
          rw [World.resume_of_receiving hreceiving]
          by_cases hk : q = k
          · subst hk
            refine Or.inr ⟨rfl, s, b, hreceiving, ?_, h.core.result_of_ready hs hreceiving,
              Function.update_self ..⟩
            simp [World.setQueue]
          · left
            simp [World.setQueue, hk]
  | endPass _ clock =>
      left
      rcases w.endPass_cases clock with hend | ⟨timeout, hend⟩ <;> rw [hend]
  | _ => exact Or.inl rfl

/-! ## The calls -/

theorem World.Shows.trySend (hy : w.Shows q y) (cfg : Config N) (v : T) :
    y.step (cfg.capacity q) (.trySend v) = some (y.trySend (cfg.capacity q) v) ∧
      (w.afterSend q v ((w.queue q).trySend (cfg.capacity q) w.sched v)).Shows q
        (y.trySend (cfg.capacity q) v) := by
  refine ⟨if_pos hy.alive, ?_⟩
  unfold Exchange.trySend
  rw [hy.sched, hy.queue]
  refine ⟨?_, ?_, hy.alive, fun t b ht => ?_⟩
  · rw [World.afterSend_sched]
  · rw [World.afterSend_queue, if_pos rfl]
  · rw [World.afterSend_receiving] at ht
    exact hy.receiving t b ht

theorem World.Shows.tryReceive (hy : w.Shows q y) (cfg : Config N) :
    y.step (cfg.capacity q) .tryReceive = some (y.tryReceive (cfg.capacity q)) ∧
      (w.withQueue q ((w.queue q).tryReceive (cfg.capacity q) w.sched).2.1
        ((w.queue q).tryReceive (cfg.capacity q) w.sched).2.2).Shows q
          (y.tryReceive (cfg.capacity q)) := by
  refine ⟨if_pos hy.alive, ?_⟩
  unfold Exchange.tryReceive
  rw [hy.sched, hy.queue]
  refine ⟨rfl, ?_, hy.alive, hy.receiving⟩
  rw [World.withQueue_queue, if_pos rfl]

/-- A value that is not accepted changes nothing. -/
theorem Queue.doSend_refused {queue queue' : Queue N T} {cap : ℕ} {c c' : Scheduler N} {v : Option T}
    {source : Option Storage} (h : queue.doSend cap c v source = (false, c', queue')) :
    c' = c ∧ queue' = queue := by
  unfold doSend at h
  split at h
  · cases h
  · split at h <;> cases h
    exact ⟨rfl, rfl⟩

variable {s : Fin N} {left : ℕ}

/-- `co_await q.send(v)` by the running task. -/
theorem World.Shows.awaitSend (hy : w.Shows q y) (h : Inv cfg w L)
    (hcontrol : w.control = .body s left) (v : T) : ∃ y', run (Exchange.step (cfg.capacity q)) y
        [.send v, .awaitSend (w.queue q).fresh (w.sched.slots s).handle] = some y' ∧
      (World.afterAwait s left (w.awaitSend cfg q v (w.sched.slots s).handle)).Shows q y' := by
  have hcurrent : w.sched.current = some s := by rw [h.staged.current, hcontrol]; rfl
  have hs : L.place s = .running := (h.staged.running s).mpr (by rw [hcontrol]; rfl)
  have hrunning := h.core.sound.runningIs hcurrent hs
  have hcreated : y.step (cfg.capacity q) (.send v) = some { y with
      queue := ((w.queue q).newSender v).2
      stage := Function.update y.stage (w.queue q).fresh (.sender false) } := by
    simp [Exchange.step, hy.alive, hy.queue, Queue.newSender]
  refine ⟨_, run_cons.mpr ⟨_, hcreated, run_singleton.mpr
    (if_pos ⟨hy.alive, Function.update_self ..⟩)⟩, ?_⟩
  -- the name of the new awaiter is not that of a receiver that is awaited
  have hstage : ∀ t b, w.receiving t = some (q, b) → Function.update (Function.update y.stage
      (w.queue q).fresh (.sender false)) (w.queue q).fresh (.sender true) b = .receiver true := by
    intro t b ht
    have hne : b ≠ (w.queue q).fresh := by
      rintro rfl
      exact h.core.receiving_ne_fresh q t ht
    rw [Function.update_of_ne hne, Function.update_of_ne hne]
    exact hy.receiving t b ht
  have hname : ((w.queue q).newSender v).1 = (w.queue q).fresh := rfl
  unfold Exchange.awaitSend World.awaitSend
  dsimp only
  rw [hy.sched, hname]
  rcases hready : ((w.queue q).newSender v).2.sendReady (cfg.capacity q) (w.queue q).fresh w.sched
    with ⟨ready, c, queue⟩
  cases ready with
  | true => exact ⟨rfl, by simp [World.afterAwait], hy.alive, hstage⟩
  | false =>
      -- the queue is full and has no receiver: `await_ready` has changed nothing
      obtain ⟨rfl, rfl⟩ := Queue.doSend_refused hready
      simp only [Queue.parkSender, hrunning, Scheduler.parkRunning, hcurrent]
      refine ⟨?_, ?_, hy.alive, hstage⟩
      · simp [World.afterAwait, World.suspend, Scheduler.suspendCurrent, hcurrent]
      · simp [World.afterAwait, World.suspend]

/-- A receiver that has been handed a result is not parked, and its coroutine may be resumed. -/
theorem Exchange.Reachable.resume_held {cap b : ℕ} (hcap : 0 < cap) (hx : y.Reachable cap)
    (halive : y.alive = true) (hstage : y.stage b = .receiver true)
    (hheld : (y.queue.receivers b).hasResult = true) :
    y.step cap (.resume b) = some (y.resumeReceiver b) := by
  obtain ⟨snd, rcv, hinv, -⟩ := hx.fair hcap
  have hlinked : ¬ (y.queue.receivers b).linked = true := by
    intro hlinked
    have hunheld := (hinv.waiting halive).unheld b ((hinv.recvLinked b).mp hlinked)
    rw [hheld] at hunheld
    cases hunheld
  simp only [Exchange.step, hstage]
  exact if_neg hlinked

/-- `co_await q.receive()` by the running task. -/
theorem World.Shows.awaitReceive (hy : w.Shows q y) (h : Inv cfg w L)
    (hreach : y.Reachable (cfg.capacity q)) (hcontrol : w.control = .body s left) :
    ∃ actions y', w.Seen (World.afterAwait s left (w.awaitReceive cfg q (w.sched.slots s).handle)) q
        (.coAwait (.receive q)) actions ∧
      run (Exchange.step (cfg.capacity q)) y actions = some y' ∧
      (World.afterAwait s left (w.awaitReceive cfg q (w.sched.slots s).handle)).Shows q y' := by
  have hcurrent : w.sched.current = some s := by rw [h.staged.current, hcontrol]; rfl
  have hs : L.place s = .running := (h.staged.running s).mpr (by rw [hcontrol]; rfl)
  have hrunning := h.core.sound.runningIs hcurrent hs
  set b := (w.queue q).fresh with hb
  set created : Exchange N T := { y with
    queue := (w.queue q).newReceiver.2
    stage := Function.update y.stage b (.receiver false) } with hcreated
  have hcreate : y.step (cfg.capacity q) .receive = some created := by
    simp [Exchange.step, hy.alive, hy.queue, Queue.newReceiver, hcreated, hb]
  have hawait : created.step (cfg.capacity q) (.awaitReceive b (w.sched.slots s).handle) =
      some (created.awaitReceive (cfg.capacity q) b (w.sched.slots s).handle) :=
    if_pos ⟨hy.alive, Function.update_self ..⟩
  have hne : ∀ {t b'}, w.receiving t = some (q, b') → b' ≠ b := by
    rintro t b' ht rfl
    exact h.core.receiving_ne_fresh q t ht
  have hstage : ∀ {t b'}, w.receiving t = some (q, b') →
      Function.update created.stage b (.receiver true) b' = .receiver true := by
    intro t b' ht
    rw [Function.update_of_ne (hne ht)]
    exact (Function.update_of_ne (hne ht) ..).trans (hy.receiving t b' ht)
  have hname : (w.queue q).newReceiver.1 = b := rfl
  rcases (w.queue q).newReceiver.2.receiveReady_passes (cfg.capacity q) w.sched b with
    hready | ⟨c, queue, v, hready, hpasses⟩
  · -- the task parks
    have hparked : created.awaitReceive (cfg.capacity q) b (w.sched.slots s).handle = { created with
        sched := (w.sched.setState s .waitingLocal).afterSuspend s
        queue := (w.queue q).newReceiver.2.linkReceiver b (some s)
        stage := Function.update created.stage b (.receiver true)
        task := Function.update y.task b (some (w.sched.taskIn s)) } := by
      simp [Exchange.awaitReceive, hcreated, hy.sched, hready, Queue.parkReceiver, hrunning,
        Scheduler.parkRunning, hcurrent, Scheduler.suspendCurrent, Scheduler.taskIn]
    have hworld : w.awaitReceive cfg q (w.sched.slots s).handle =
        (true, { w.withQueue q (w.sched.setState s .waitingLocal)
          ((w.queue q).newReceiver.2.linkReceiver b (some s)) with
          receiving := Function.update w.receiving s (some (q, b)) }) := by
      simp only [World.awaitReceive, hname, hready, Queue.parkReceiver, hrunning,
        Scheduler.parkRunning, hcurrent]
    refine ⟨_, _, .receive _, run_cons.mpr ⟨_, hcreate, run_singleton.mpr hawait⟩, ?_⟩
    rw [hparked, hworld]
    refine ⟨rfl, ?_, hy.alive, fun t b' ht => ?_⟩
    · simp [World.afterAwait, World.suspend]
    · by_cases hts : t = s
      · subst hts
        simp only [World.afterAwait, World.suspend, if_true, Function.update_self, Option.some.injEq,
          Prod.mk.injEq, true_and] at ht
        rw [← ht]
        exact Function.update_self ..
      · simp only [World.afterAwait, World.suspend, if_true, Function.update_of_ne hts] at ht
        exact hstage ht
  · -- a value is there, and `await_resume` returns it
    have htaken : created.awaitReceive (cfg.capacity q) b (w.sched.slots s).handle = { created with
        sched := c
        queue := queue
        stage := Function.update created.stage b (.receiver true) } := by
      simp only [Exchange.awaitReceive, hcreated, hy.sched, hready]
    have hworld : w.awaitReceive cfg q (w.sched.slots s).handle =
        (false, w.withQueue q c (queue.receiveResume b).2) := by
      simp only [World.awaitReceive, hname, hready]
    have hheld : (queue.receivers b).hasResult = true := by
      have hresult : queue.result b = some v := by rw [hpasses.result, Function.update_self]
      by_contra hnone
      simp [Queue.result, hnone] at hresult
    have hmid := run_cons.mpr ⟨_, hcreate, run_singleton.mpr hawait⟩
    rw [htaken] at hmid
    have hresume := Exchange.Reachable.resume_held (cfg.capacity_pos q) (hreach.append hmid) hy.alive
      (b := b) (Function.update_self ..) hheld
    refine ⟨_, _, .received _, run_append.mpr ⟨_, hmid, run_singleton.mpr hresume⟩, ?_⟩
    rw [hworld]
    refine ⟨rfl, ?_, hy.alive, fun t b' ht => ?_⟩
    · simp [World.afterAwait, Exchange.resumeReceiver]
    · exact (Function.update_of_ne (hne ht) ..).trans (hstage ht)

/-! ## Runs -/

/-- A step that leaves the waiters of the queue in their lists goes on elsewhere. -/
theorem World.Shows.elsewhere (hy : w.Shows q y) (hw : w.Reachable cfg)
    (hstep : w.step cfg a = some w')
    (hsame : (w'.queue q).parkedSlots = (w.queue q).parkedSlots) (cap : ℕ) :
    y.step cap (.elsewhere fun _ => w'.sched) = some { y with sched := w'.sched } := by
  obtain ⟨L, hinv⟩ := hw.inv
  obtain ⟨⟨obs, htrace, -⟩, -⟩ := hinv.step_advances hstep
  refine if_pos ⟨?_, fun _ => ?_⟩
  · rw [hy.sched]
    exact ⟨obs, htrace.symm⟩
  · rw [hy.sched, hy.queue]
    exact World.step_leaves hw hstep hsame

/-- A step of the system is a step of the exchange, or up to three. -/
theorem World.Shows.step (hy : w.Shows q y) (hw : w.Reachable cfg)
    (hreach : y.Reachable (cfg.capacity q)) (hstep : w.step cfg a = some w') :
    ∃ actions y', w.Seen w' q a actions ∧
      run (Exchange.step (cfg.capacity q)) y actions = some y' ∧ w'.Shows q y' := by
  obtain ⟨L, hinv⟩ := hw.inv
  cases ha : a.calls q with
  | false =>
      have hreceiving : ∀ {t b}, w'.receiving t = some (q, b) → w.receiving t = some (q, b) := by
        intro t b ht
        refine (hinv.step_receiving hstep ht).resolve_right ?_
        rintro ⟨rfl, -⟩
        simp [Action.calls] at ha
      rcases hinv.step_queue hstep ha with hqueue | ⟨rfl, t, b, ht, hqueue, hheld, hnone⟩
      · -- the step is nothing to the queue
        have helsewhere := hy.elsewhere hw hstep (by rw [hqueue]) (cfg.capacity q)
        exact ⟨_, _, .elsewhere ha, run_singleton.mpr helsewhere, rfl, hy.queue.trans hqueue.symm,
          hy.alive, fun u b hu => hy.receiving u b (hreceiving hu)⟩
      · -- the pass resumes a task that was parked in a `receive()`, which runs `await_resume`
        have helsewhere := hy.elsewhere hw hstep
          (by rw [hqueue, Queue.parkedSlots_receiveResume]) (cfg.capacity q)
        have hresume := Exchange.Reachable.resume_held (cfg.capacity_pos q) (hreach.succ helsewhere)
          (b := b) hy.alive (hy.receiving t b ht) (by rw [hy.queue]; exact hheld)
        refine ⟨_, _, .resumed b, run_cons.mpr ⟨_, helsewhere, run_singleton.mpr hresume⟩, rfl, ?_,
          hy.alive, fun u b' hu => ?_⟩
        · rw [hqueue, ← hy.queue]
          rfl
        · have hne : b' ≠ b := by
            rintro rfl
            obtain rfl := hinv.core.receiving.injective u t _ (hreceiving hu) ht
            rw [hnone] at hu
            cases hu
          exact (Function.update_of_ne hne ..).trans (hy.receiving u b' (hreceiving hu))
  | true =>
      cases World.steps_of_step hstep with
      | trySend _ k v =>
          obtain rfl : k = q := of_decide_eq_true ha
          obtain ⟨hsend, hshows⟩ := hy.trySend cfg v
          exact ⟨_, _, .trySend v, run_singleton.mpr hsend, hshows⟩
      | tryReceive _ k =>
          obtain rfl : k = q := of_decide_eq_true ha
          obtain ⟨hreceive, hshows⟩ := hy.tryReceive cfg
          exact ⟨_, _, .tryReceive, run_singleton.mpr hreceive, hshows⟩
      | coAwait s left awaitable hcontrol _ =>
          cases awaitable with
          | send k v =>
              obtain rfl : k = q := of_decide_eq_true ha
              obtain ⟨y', hrun, hshows⟩ := hy.awaitSend hinv hcontrol v
              exact ⟨_, y', .send v _, hrun, hshows⟩
          | receive k =>
              obtain rfl : k = q := of_decide_eq_true ha
              exact hy.awaitReceive hinv hreach hcontrol
          | _ => cases ha
      | _ => cases ha

/-- Every queue of the system is an exchange. -/
theorem World.Reachable.shows (hw : w.Reachable cfg) (q : ℕ) :
    ∃ y, Exchange.Reachable (cfg.capacity q) y ∧ w.Shows q y := by
  have hall : w.Reachable cfg ∧ ∃ y, Exchange.Reachable (cfg.capacity q) y ∧ w.Shows q y := by
    refine Transition.Reachable.induction (P := fun u => u.Reachable cfg ∧
      ∃ y, Exchange.Reachable (cfg.capacity q) y ∧ u.Shows q y) hw
      ⟨Transition.Reachable.refl, _, Transition.Reachable.refl, .initial⟩ ?_
    rintro u a u' ⟨hu, y, hreach, hy⟩ hstep
    obtain ⟨actions, y', -, hrun, hy'⟩ := hy.step hu hreach hstep
    exact ⟨hu.succ hstep, y', hreach.append hrun, hy'⟩
  exact hall.2

end SimpleAwait
