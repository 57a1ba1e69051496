import SimpleAwait.Library.Simulation
import SimpleAwait.Properties.Consistency
import SimpleAwait.System.Inversion

/-!
# `poll_and_wait()` is `poll()` and sleep

`poll_and_wait()` takes another way through the platform: it creates the semaphore, and sleeps in
`xSemaphoreTake` where no task is ready.  None of this reaches the tasks.  A run in which it is
called is, without the steps of the sleep, a run in which `poll()` is called with the same clock
samples.
-/

namespace SimpleAwait

open Transition

variable {N : ℕ} {T : Type} {cfg : Config N} {w w' : World N T} {a b : Action T} {s : Fin N}
  {left : ℕ}

/-- The control while `xSemaphoreTake` blocks is that of user code outside `poll()`. -/
def Control.awake : Control N → Control N
  | .take .. => .loop
  | control => control

/-- The world without what only the platform wait looks at. -/
def World.awake (w : World N T) : World N T :=
  { w with control := w.control.awake, andWait := false, wake := none }

/-- The step of the run with `poll()`, if there is one. -/
def Action.awake : Action T → Option (Action T)
  | .poll _ clock => some (.poll false clock)
  | .tokenTaken | .timedOut => none
  | a => some a

section

variable (w : World N T)

@[simp] theorem World.awake_sched : w.awake.sched = w.sched := rfl
@[simp] theorem World.awake_event : w.awake.event = w.event := rfl
@[simp] theorem World.awake_queue : w.awake.queue = w.queue := rfl
@[simp] theorem World.awake_flags : w.awake.flags = w.flags := rfl
@[simp] theorem World.awake_receiving : w.awake.receiving = w.receiving := rfl

theorem World.awake_awaitSend (k : ℕ) (v : T) (awaiting : Handle) :
    w.awake.awaitSend cfg k v awaiting =
      ((w.awaitSend cfg k v awaiting).1, (w.awaitSend cfg k v awaiting).2.awake) := by
  simp only [World.awaitSend, World.awake_queue, World.awake_sched]
  split
  · rfl
  · split <;> rfl

theorem World.awake_awaitReceive (k : ℕ) (awaiting : Handle) :
    w.awake.awaitReceive cfg k awaiting =
      ((w.awaitReceive cfg k awaiting).1, (w.awaitReceive cfg k awaiting).2.awake) := by
  simp only [World.awaitReceive, World.awake_queue, World.awake_sched]
  split
  · rfl
  · split
    · split <;> rfl
    · rfl

/-- What only the platform wait looks at does not matter to an await. -/
theorem World.awake_coAwait (awaiting : Handle) (awaitable : Awaitable T)
    (hflag : ∀ f, awaitable ≠ .flag f) : w.awake.coAwait cfg awaiting awaitable =
      ((w.coAwait cfg awaiting awaitable).1, (w.coAwait cfg awaiting awaitable).2.awake) := by
  cases awaitable with
  | yield | delay | unknown => rfl
  | task awaiter =>
      simp only [World.coAwait, World.awake_sched]
      split <;> rfl
  | event e =>
      by_cases hset : (w.event e).set = true
      · have hset' : (w.awake.event e).set = true := hset
        simp only [World.coAwait, if_pos hset, if_pos hset']
      · have hset' : ¬ (w.awake.event e).set = true := hset
        simp only [World.coAwait, if_neg hset, if_neg hset']
        rfl
  | send k v => exact w.awake_awaitSend k v awaiting
  | receive k => exact w.awake_awaitReceive k awaiting
  | flag f => exact absurd rfl (hflag f)

theorem World.awake_afterAwait (r : Bool × World N T) :
    World.afterAwait s left (r.1, r.2.awake) = (World.afterAwait s left r).awake := by
  unfold World.afterAwait
  dsimp only
  split <;> rfl

theorem World.awake_afterSend (q : ℕ) (v : T) (r : Bool × Scheduler N × Queue N T) :
    w.awake.afterSend q v r = (w.afterSend q v r).awake := by
  unfold World.afterSend
  split <;> rfl

theorem World.awake_resume (c : Scheduler N) :
    w.awake.resume s c left = (w.resume s c left).awake := by
  simp only [World.resume, World.awake_receiving]
  split <;> rfl

theorem World.awake_walkTo (prev f : Option ℕ) :
    w.awake.walkTo prev f = (w.walkTo prev f).awake := by
  unfold World.walkTo
  split <;> rfl

end

theorem World.awake_isUser (h : w.control.isUser = true) : w.awake.control.isUser = true := by
  cases hc : w.control <;> simp_all [World.awake, Control.awake, Control.isUser]

theorem World.awake_control {control : Control N} (h : w.control = control)
    (hawake : control.awake = control) : w.awake.control = control := by
  rw [World.awake, h, hawake]

/-- A pass of `poll()` ends in the loop. -/
theorem World.awake_endPass (clock : Tick) :
    w.awake.endPass cfg clock = (w.endPass cfg clock).awake := by
  rcases w.endPass_cases clock with hend | ⟨timeout, hend⟩ <;> rw [hend] <;>
    simp [World.endPass, World.awake, Control.awake]

/-- `poll()` makes a pass where `poll_and_wait()` does. -/
theorem World.awake_poll (andWait : Bool) (clock : Tick) :
    w.awake.poll false clock = (w.poll andWait clock).awake := by
  obtain ⟨wake, ⟨hdown, hpoll⟩ | ⟨hdown, hin, hpoll⟩ | ⟨hdown, hin, hpoll⟩⟩ :=
    w.poll_cases andWait clock
  · have hplain : w.awake.poll false clock = w.awake := by simp [World.poll, hdown]
    rw [hpoll, hplain]
    rfl
  · have hplain : w.awake.poll false clock =
        { w.awake with sched := w.sched.report .schedulerReentry } := by
      simp [World.poll, hdown, hin]
    rw [hpoll, hplain]
    rfl
  · have hplain : w.awake.poll false clock = { w.awake with
        sched := { w.sched with inPoll := true, now := clock }
        control := .checkPending } := by simp [World.poll, hdown, hin, World.awake]
    rw [hpoll, hplain]
    rfl

/-- Each step is, but for the platform wait, a step. -/
theorem World.step_awake (hstep : w.step cfg a = some w') (hb : a.awake = some b) :
    w.awake.step cfg b = some w'.awake := by
  cases World.steps_of_step hstep with
  | createTask hcall | eventSet hcall | eventClear hcall | tryReceive hcall | flagClear hcall
  | flagIsSet hcall =>
      cases hb
      exact World.user_eq_some.mpr ⟨w.awake_isUser hcall, rfl⟩
  | poll hcall andWait clock =>
      cases hb
      exact World.user_eq_some.mpr ⟨w.awake_isUser hcall, World.awake_poll andWait clock⟩
  | trySend hcall q v =>
      cases hb
      exact World.user_eq_some.mpr ⟨w.awake_isUser hcall, w.awake_afterSend q v _⟩
  | flagTaken s left f hcontrol hsignaled =>
      cases hb
      simp only [World.step, World.awake_control hcontrol rfl, World.flagReady_eq,
        World.awake_flags, if_pos hsignaled]
      simp [World.awake, Control.awake, hcontrol]
  | flagNotReady s left f hcontrol hsignaled =>
      cases hb
      simp only [World.step, World.awake_control hcontrol rfl, World.flagReady_eq,
        World.awake_flags, hsignaled]
      rfl
  | coAwait s left awaitable hcontrol hflag =>
      cases hb
      have hcoAwait : w.awake.step cfg (.coAwait awaitable) = some (World.afterAwait s left
          (w.awake.coAwait cfg (w.sched.slots s).handle awaitable)) := by
        simp only [World.step, World.awake_control hcontrol rfl]
        cases awaitable with
        | flag f => exact absurd rfl (hflag f)
        | _ => rfl
      rw [hcoAwait, w.awake_coAwait _ _ hflag, World.awake_afterAwait]
  | flagPark s f left hcontrol =>
      cases hb
      simp only [World.step, World.awake_control hcontrol rfl]
      rw [← World.awake_afterAwait]
      rfl
  | finish s left hcontrol | destroyed s left hcontrol =>
      cases hb
      simp only [World.step, World.awake_control hcontrol rfl]
      rfl
  | walkStarts hcontrol hpending =>
      cases hb
      simp only [World.step, World.awake_control hcontrol rfl, Flags.takePending, World.awake_flags,
        hpending]
      rw [← World.awake_walkTo]
      rfl
  | nothingPending hcontrol hpending =>
      cases hb
      simp only [World.step, World.awake_control hcontrol rfl, Flags.takePending, World.awake_flags,
        hpending]
      rfl
  | walkStep prev f hcontrol =>
      cases hb
      simp only [World.step, World.awake_control hcontrol rfl, World.afterVisit]
      rw [← World.awake_walkTo]
      rfl
  | startPass hcontrol =>
      cases hb
      simp only [World.step, World.awake_control hcontrol rfl]
      rfl
  | passPop left w' hcontrol hpops =>
      cases hb
      simp only [World.step, hcontrol] at hstep
      simp only [World.step, World.awake_control hcontrol rfl, World.awake_sched]
      cases hpop : w.sched.passPop with
      | exhausted =>
          simp only [hpop] at hstep
          cases hstep
          rfl
      | skipped c =>
          simp only [hpop] at hstep
          cases hstep
          rfl
      | resume s c =>
          simp only [hpop] at hstep
          dsimp only
          split_ifs at hstep ⊢ with hnone
          cases hstep
          rw [World.awake_resume]
  | endPass hcontrol clock =>
      cases hb
      simp only [World.step, World.awake_control hcontrol rfl, World.awake_endPass]
  | tokenTaken | timedOut => cases hb
  | setFlag f =>
      cases hb
      rfl
  | give f hgiving =>
      cases hb
      exact if_pos hgiving

/-- The steps of the platform wait change nothing else. -/
theorem World.step_silent (hstep : w.step cfg a = some w') (hsilent : a.awake = none) :
    w'.awake = w.awake := by
  cases World.steps_of_step hstep with
  | tokenTaken _ _ hcontrol | timedOut _ _ hcontrol => simp [World.awake, Control.awake, hcontrol]
  | _ => cases hsilent

theorem World.simulates_awake :
    Simulates (World.step cfg : World N T → Action T → Option (World N T)) (World.step cfg)
      World.awake Action.awake where
  named := World.step_awake
  silent := World.step_silent

/-- A run in which `poll_and_wait()` is called and sleeps is, without the steps of the sleep, a run
in which `poll()` is called with the same clock samples: the scheduler with its history, the events,
the queues and the flags are the same at its end. -/
theorem poll_and_wait_as_poll {actions : List (Action T)}
    (hrun : run (World.step cfg) World.initial actions = some w) :
    run (World.step cfg) World.initial (actions.filterMap Action.awake) = some w.awake :=
  World.simulates_awake.run hrun

/-- A task waits on a flag while `poll_and_wait()` sleeps, is woken by the flag and ends. -/
theorem poll_and_wait_as_poll_small :
    let actions : List (Action ℕ) := [.createTask (some 1), .poll true 0, .checkPending, .startPass,
      .passPop, .coAwait (.flag 0), .flagPark, .endPass 0, .setFlag 0, .give 0, .tokenTaken,
      .poll true 5, .checkPending, .walkStep, .startPass, .passPop, .finish, .destroyed, .endPass 5]
    let w : World 3 ℕ := World.after .small actions
    actions.filterMap Action.awake = [.createTask (some 1), .poll false 0, .checkPending,
        .startPass, .passPop, .coAwait (.flag 0), .flagPark, .endPass 0, .setFlag 0, .give 0,
        .poll false 5, .checkPending, .walkStep, .startPass, .passPop, .finish, .destroyed,
        .endPass 5] ∧
      run (World.step .small) World.initial (actions.filterMap Action.awake) = some w.awake := by
  intro actions w
  refine ⟨rfl, ?_⟩
  exact poll_and_wait_as_poll (World.run_after .small [] actions (by decide))

end SimpleAwait
