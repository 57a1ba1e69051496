import SimpleAwait.Scheduler.Parks
import SimpleAwait.System.Suspensions
import SimpleAwait.System.Trace

/-!
# The tasks parked on an event

`World.waiters w e` reads the wait queue of event `e` off its links.  Only `Event::set` takes tasks
out of it, and only a wait appends one: every other step leaves the queue's head and, of the slots
that wait, the links.
-/

namespace SimpleAwait

open Intrusive

variable {N : ℕ} {T : Type} {cfg : Config N} {w w' : World N T} {L : Layout N}

/-- The slots parked on event `e`, the oldest first. -/
def World.waiters (w : World N T) (e : ℕ) : List (Fin N) :=
  follow w.sched.next N (w.event e).waiters.head

/-- A wait queue holds no slot twice, so `N` links reach its end. -/
theorem Threaded.follow_waiters {c : Scheduler N} {ev : ℕ → WaitQueue N} {v : View N}
    (h : Threaded c ev v) (e : ℕ) : follow c.next N (ev e).head = v.waiters e :=
  (h.waiters e).linked.follow_eq (h.length_waiters_le e)

theorem Inv.waiters_eq (h : Inv cfg w L) : w.waiters = L.waiters :=
  funext fun e => h.core.sound.threaded.follow_waiters e

theorem Inv.mem_waiters (h : Inv cfg w L) {e : ℕ} {s : Fin N} :
    s ∈ w.waiters e ↔ L.place s = .parked (.event e) := by
  rw [h.waiters_eq]
  exact h.core.sound.threaded.mem_waiters e s

/-! ## Steps that do not concern events -/

/-- The calls of `Event`. -/
def Action.onEvent : Action T → Bool
  | .eventSet _ | .eventClear _ | .coAwait (.event _) => true
  | _ => false

namespace World

/-- The events stay as they are, and so do the links of the waiting slots. -/
structure LeavesEvents (w w' : World N T) : Prop where
  event : w'.event = w.event
  sched : Scheduler.Parks w.sched.current w.sched w'.sched

theorem LeavesEvents.of_sched (hevent : w'.event = w.event) (hsched : w'.sched = w.sched) :
    w.LeavesEvents w' :=
  ⟨hevent, by rw [hsched]; exact .refl _⟩

theorem parks_suspended {c c' : Scheduler N} {awaiting : Handle} (h : c.Suspended awaiting c') :
    Scheduler.Parks c.current c c' := by
  rcases h with rfl | rfl
  · exact .runningIs c awaiting
  · exact .parkRunning c rfl

theorem parks_park (c : Scheduler N) (F : Flags N) (f : ℕ) (awaiting : Handle) :
    Scheduler.Parks c.current c (F.park f c awaiting).2.1 := by
  rcases F.park_sched f c awaiting with hsuspended | hreported
  · exact parks_suspended hsuspended
  · rw [hreported]
    exact .report c _

theorem event_awaitSend (w : World N T) (k : ℕ) (v : T) (awaiting : Handle) :
    (w.awaitSend cfg k v awaiting).2.event = w.event := by
  unfold World.awaitSend
  dsimp only
  split
  · rfl
  · split <;> rfl

theorem event_awaitReceive (w : World N T) (k : ℕ) (awaiting : Handle) :
    (w.awaitReceive cfg k awaiting).2.event = w.event := by
  unfold World.awaitReceive
  dsimp only
  split
  · rfl
  · split
    · split <;> rfl
    · rfl

theorem leavesEvents_coAwait (w : World N T) (awaiting : Handle) {awaitable : Awaitable T}
    (hevent : Action.onEvent (.coAwait awaitable) = false) (hflag : ∀ f, awaitable ≠ .flag f) :
    w.LeavesEvents (w.coAwait cfg awaiting awaitable).2 := by
  cases awaitable with
  | yield => exact ⟨rfl, .yieldCurrent _⟩
  | delay duration => exact ⟨rfl, .armCurrentTimer _ duration⟩
  | task awaiter =>
      simp only [World.coAwait]
      split
      · exact ⟨rfl, .report _ _⟩
      · exact ⟨rfl, .startChildAwait _ _ _⟩
  | event e => cases hevent
  | send q v =>
      refine ⟨w.event_awaitSend q v awaiting, ?_⟩
      show Scheduler.Parks _ _ (w.awaitSend cfg q v awaiting).2.sched
      rcases w.awaitSend_sched q v awaiting with hready | hsuspended
      · rw [hready]
        exact .doSend w.sched _ _ _ _
      · exact parks_suspended hsuspended
  | receive q =>
      refine ⟨w.event_awaitReceive q awaiting, ?_⟩
      show Scheduler.Parks _ _ (w.awaitReceive cfg q awaiting).2.sched
      rcases w.awaitReceive_sched q awaiting with hready | hsuspended
      · rw [hready]
        exact .receiveReady w.sched _ _ _
      · exact parks_suspended hsuspended
  | flag f => exact absurd rfl (hflag f)
  | unknown => exact .of_sched rfl rfl

theorem LeavesEvents.afterAwait {r : Bool × World N T} (h : w.LeavesEvents r.2) (s : Fin N)
    (left : ℕ) : w.LeavesEvents (World.afterAwait s left r) := by
  unfold World.afterAwait
  split
  · exact ⟨h.event, h.sched.trans (.afterSuspend _ s)⟩
  · exact ⟨h.event, h.sched⟩

end World

/-- A step that is no call of `Event` leaves the events alone. -/
theorem Inv.step_leavesEvents (h : Inv cfg w L) {a : Action T} (hstep : w.step cfg a = some w')
    (hevent : a.onEvent = false) : w.LeavesEvents w' := by
  cases World.steps_of_step hstep with
  | createTask _ task => exact ⟨rfl, .schedule _ task⟩
  | poll _ andWait clock =>
      obtain ⟨wake, ⟨-, hpoll⟩ | ⟨-, -, hpoll⟩ | ⟨-, -, hpoll⟩⟩ := w.poll_cases andWait clock <;>
        rw [hpoll]
      · exact .of_sched rfl rfl
      · exact ⟨rfl, .of_slots rfl rfl⟩
      · exact ⟨rfl, .of_slots rfl rfl⟩
  | eventSet | eventClear => cases hevent
  | trySend _ q v =>
      refine ⟨World.afterSend_event .., ?_⟩
      rw [World.afterSend_sched]
      exact .doSend w.sched (w.queue q) (cfg.capacity q) (some v) none
  | tryReceive => exact ⟨rfl, .tryReceive _ _ _⟩
  | flagClear | flagIsSet | flagTaken | flagNotReady => exact .of_sched rfl rfl
  | coAwait s left awaitable _ hflag => exact (w.leavesEvents_coAwait _ hevent hflag).afterAwait s left
  | flagPark s f left =>
      have hpark : w.LeavesEvents (w.flagPark f (w.sched.slots s).handle).2 :=
        ⟨rfl, World.parks_park _ _ _ _⟩
      exact hpark.afterAwait s left
  | finish => exact ⟨rfl, .afterFinish _ _⟩
  | destroyed => exact ⟨rfl, .afterDestroy _ _⟩
  | walkStarts | nothingPending => exact .of_sched rfl rfl
  | walkStep prev f =>
      refine ⟨rfl, ?_⟩
      show Scheduler.Parks _ _ (w.flags.walkStep _ _ _).2.2.1
      rcases w.walkStep_sched prev f with hsched | hsched <;> rw [hsched]
      · exact .refl _
      · exact .wakeSlot _ _
  | startPass => exact ⟨rfl, .processDueTimers _⟩
  | passPop left w' hcontrol hpops =>
      obtain ⟨s, rest, -, rfl, -⟩ := h.pops hcontrol hpops
      refine ⟨World.resume_event .., ?_⟩
      rw [World.resume_sched]
      exact .pop _ s
  | endPass _ clock =>
      rcases w.endPass_cases clock with hend | ⟨timeout, hend⟩ <;> rw [hend] <;>
        exact ⟨rfl, .of_slots rfl rfl⟩
  | tokenTaken | timedOut | setFlag | give => exact .of_sched rfl rfl

/-- The tail of the ready FIFO is ready. -/
theorem Threaded.tailAwake {c : Scheduler N} {ev : ℕ → WaitQueue N} {v : View N}
    (h : Threaded c ev v) (p : Option (Fin N)) : c.TailAwake p := by
  intro s _ hs
  have hready : v.place s = .ready := (h.mem_ready s).mp (h.ready.tail_mem hs)
  rw [h.state, hready]
  simp

/-- A step that is no call of `Event` leaves every wait queue as it is. -/
theorem Inv.step_waiters (h : Inv cfg w L) {a : Action T} (hstep : w.step cfg a = some w')
    (hevent : a.onEvent = false) : w'.waiters = w.waiters := by
  have hleaves := h.step_leavesEvents hstep hevent
  obtain ⟨L', h'⟩ := h.step hstep
  rw [h.waiters_eq, h'.waiters_eq]
  funext e
  have hlinked := (h.core.sound.threaded.waiters e).linked
  have hlinked' := (h'.core.sound.threaded.waiters e).linked
  rw [hleaves.event] at hlinked'
  refine hlinked.agree hlinked' fun s hs hs' => ?_
  -- a slot that waits before the step is not the running one
  have hplace := (h.core.sound.threaded.mem_waiters e s).mp hs
  have hplace' := (h'.core.sound.threaded.mem_waiters e s).mp hs'
  have hcurrent : w.sched.current ≠ some s := by
    rw [h.staged.current]
    intro hs
    have hrunning : w.control.running = some s := by
      cases hcontrol : w.control <;> simp_all [Control.current, Control.running]
    rw [(h.staged.running s).mpr hrunning] at hplace
    cases hplace
  refine (hleaves.sched.waiting (h.core.sound.threaded.tailAwake _) s hcurrent ?_).2
  rw [h'.core.sound.threaded.state, hplace']
  rfl

/-! ## The calls of `Event` -/

/-- `Event::set` moves the tasks parked on the event, in order, to the end of the ready FIFO. -/
theorem Inv.step_eventSet (h : Inv cfg w L) {e : ℕ} (hstep : w.step cfg (.eventSet e) = some w') :
    w.control.isUser = true ∧ w'.control = w.control ∧
      (∀ k, (w'.event k).set = if k = e then true else (w.event k).set) ∧
      w'.waiters = Function.update w.waiters e [] ∧
      w'.sched.readyTasks = w.sched.readyTasks ++ (w.waiters e).map w.sched.taskIn := by
  have htenant := (h.step_advances hstep).tenant
  obtain ⟨hu, rfl⟩ := World.user_eq_some.mp hstep
  have hthreaded := (h.core.signal_sound e).threaded
  refine ⟨hu, rfl, fun k => ?_, ?_, ?_⟩
  · by_cases hk : k = e
    · subst hk
      simp [World.setEvent]
    · simp [World.setEvent, hk]
  · funext k
    have hwaiters := hthreaded.follow_waiters k
    rw [View.enqueueAll_waiters, View.setWaiters] at hwaiters
    rw [h.waiters_eq]
    exact hwaiters
  · -- the tasks that were linked before stay in their slots
    have hsame : ∀ l : List (Fin N), (∀ s ∈ l, (L.place s).Active) →
        l.map ((w.event e).signal w.sched).1.taskIn = l.map w.sched.taskIn := by
      intro l hl
      refine List.map_congr_left fun s hs => ?_
      have hoccupied : w.sched.Occupied s := h.core.sound.state_active (hl s hs)
      exact Prod.ext rfl (htenant s hoccupied)
    show ((w.event e).signal w.sched).1.readyTasks = _
    rw [hthreaded.readyTasks_eq, h.core.sound.threaded.readyTasks_eq, h.waiters_eq,
      View.enqueueAll_ready, List.map_append]
    refine congrArg₂ _ (hsame _ fun s hs => ?_) (hsame _ fun s hs => ?_)
    · simp [(h.core.sound.threaded.mem_ready s).mp hs, Place.Active]
    · simp [(h.core.sound.threaded.mem_waiters e s).mp hs, Place.Active]

/-- `Event::clear` leaves the waiters where they are. -/
theorem World.step_eventClear {e : ℕ}
    (hstep : w.step cfg (.eventClear e) = some w') :
    (∀ k, (w'.event k).set = if k = e then false else (w.event k).set) ∧ w'.waiters = w.waiters := by
  obtain ⟨-, rfl⟩ := World.user_eq_some.mp hstep
  refine ⟨fun k => ?_, ?_⟩
  · by_cases hk : k = e
    · subst hk
      simp [World.setEvent, Event.clear]
    · simp [World.setEvent, hk]
  · funext k
    by_cases hk : k = e
    · subst hk
      simp [World.waiters, World.setEvent, Event.clear]
    · simp [World.waiters, World.setEvent, hk]

/-- A wait on a set event goes on at once; any other parks the running task behind the tasks that
wait already. -/
theorem Inv.step_wait (h : Inv cfg w L) {e left : ℕ} {s : Fin N}
    (hcontrol : w.control = .body s left)
    (hstep : w.step cfg (.coAwait (.event e)) = some w') :
    (w.event e).set = true ∧ w' = w ∨
      (w.event e).set = false ∧ w'.control = .pass left ∧
        (∀ k, (w'.event k).set = (w.event k).set) ∧
        w'.waiters = Function.update w.waiters e (w.waiters e ++ [s]) := by
  have hcurrent : w.sched.current = some s := by rw [h.staged.current, hcontrol]; rfl
  have hs : L.place s = .running := (h.staged.running s).mpr (by rw [hcontrol]; rfl)
  simp only [World.step, hcontrol, Option.some.injEq, World.coAwait] at hstep
  cases hset : (w.event e).set with
  | true =>
      rw [hset] at hstep
      simp only [if_true, World.afterAwait, Bool.false_eq_true, if_false, ← hcontrol] at hstep
      exact Or.inl ⟨rfl, hstep.symm⟩
  | false =>
      rw [hset] at hstep
      obtain ⟨hpark, hsound⟩ := h.core.park_sound hcurrent hs e
      simp only [Bool.false_eq_true, if_false] at hstep
      rw [hpark] at hstep hsound
      rw [World.afterAwait, if_pos rfl] at hstep
      subst hstep
      have hthreaded := (hsound.afterSuspend (s := s) (by simp [View.park])).threaded
      refine Or.inr ⟨rfl, rfl, fun k => ?_, ?_⟩
      · by_cases hk : k = e
        · subst hk
          simp [World.suspend, World.setEvent]
        · simp [World.suspend, World.setEvent, hk]
      · rw [h.waiters_eq]
        exact funext hthreaded.follow_waiters

/-! ## One event -/

/-- What a step from `w` to `w'` by the action does to event `e`. -/
inductive EventMoves (e : ℕ) (w : World N T) : Action T → World N T → Prop
  | set {w' : World N T} (hset : (w'.event e).set = true) (hwaiters : w'.waiters e = []) :
      EventMoves e w (.eventSet e) w'
  | clear {w' : World N T} (hset : (w'.event e).set = false)
      (hwaiters : w'.waiters e = w.waiters e) : EventMoves e w (.eventClear e) w'
  | park {s : Fin N} {left : ℕ} {w' : World N T} (hcontrol : w.control = .body s left)
      (hclear : (w.event e).set = false) (hset : (w'.event e).set = false)
      (hwaiters : w'.waiters e = w.waiters e ++ [s]) : EventMoves e w (.coAwait (.event e)) w'
  | keep {a : Action T} {w' : World N T} (hset : (w'.event e).set = (w.event e).set)
      (hwaiters : w'.waiters e = w.waiters e) : EventMoves e w a w'

theorem Inv.step_event (h : Inv cfg w L) {a : Action T} (hstep : w.step cfg a = some w') (e : ℕ) :
    EventMoves e w a w' := by
  by_cases hevent : a.onEvent = false
  · refine .keep ?_ (congrFun (h.step_waiters hstep hevent) e)
    rw [(h.step_leavesEvents hstep hevent).event]
  · cases a with
    | eventSet k =>
        obtain ⟨-, -, hset, hwaiters, -⟩ := h.step_eventSet hstep
        by_cases hk : e = k
        · subst hk
          exact .set (by simp [hset]) (by simp [hwaiters])
        · exact .keep (by simp [hset, hk]) (by simp [hwaiters, hk])
    | eventClear k =>
        obtain ⟨hset, hwaiters⟩ := World.step_eventClear hstep
        by_cases hk : e = k
        · subst hk
          exact .clear (by simp [hset]) (by rw [hwaiters])
        · exact .keep (by simp [hset, hk]) (by rw [hwaiters])
    | coAwait awaitable =>
        cases awaitable with
        | event k =>
            obtain ⟨s, left, hcontrol⟩ : ∃ s left, w.control = .body s left := by
              cases World.steps_of_step hstep with
              | coAwait s left _ hcontrol => exact ⟨s, left, hcontrol⟩
            rcases h.step_wait hcontrol hstep with ⟨-, rfl⟩ | ⟨hclear, -, hset, hwaiters⟩
            · exact .keep rfl rfl
            · by_cases hk : e = k
              · subst hk
                exact .park hcontrol hclear ((hset e).trans hclear) (by simp [hwaiters])
              · exact .keep (hset e) (by simp [hwaiters, hk])
        | _ => exact absurd rfl hevent
    | _ => exact absurd rfl hevent

end SimpleAwait
