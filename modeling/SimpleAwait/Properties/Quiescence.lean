import SimpleAwait.Properties.Consistency
import SimpleAwait.System.Trace
import SimpleAwait.System.TimerOrder

/-!
# An idle scheduler stays idle

While nothing is ready, no armed flag is signaled and no timer is due, only a call that makes a task
ready, a signal for an armed flag or a sampled clock that has reached a deadline ends the idleness.  All
else, be it any number of passes and platform waits, touches no task.
-/

namespace SimpleAwait

open Transition

variable {N : ℕ} {T : Type} {cfg : Config N} {w w' : World N T} {L : Layout N} {a : Action T}

/-- Nothing runs or is ready, nobody waits for a flag that is signaled, and every deadline is ahead of
the sampled clock. -/
structure World.Idle (w : World N T) : Prop where
  body : w.control.running = none
  ready : w.sched.readyCount = 0
  signals : ∀ f, (w.flags.flag f).waiter ≠ none → (w.flags.flag f).signaled = false
  timers : ∀ s, (w.sched.slots s).state = .waitingTimer →
    w.sched.now < (w.sched.slots s).deadline

/-- The action may make a task ready. -/
def World.Wakes (w : World N T) : Action T → Prop
  | .createTask _ => True
  | .eventSet e => (w.event e).waiters.head ≠ none
  | .trySend q _ => (w.queue q).recvHead ≠ none
  | .tryReceive q => (w.queue q).sendHead ≠ none
  | .setFlag f => (w.flags.flag f).waiter ≠ none
  | .poll _ clock => ∃ s, (w.sched.slots s).state = .waitingTimer ∧ (w.sched.slots s).deadline ≤ clock
  | _ => False

instance (w : World N T) : (a : Action T) → Decidable (w.Wakes a)
  | .createTask _ => inferInstanceAs (Decidable True)
  | .eventSet _ | .trySend .. | .tryReceive _ | .setFlag _ => inferInstanceAs (Decidable (_ ≠ none))
  | .poll .. => inferInstanceAs (Decidable (∃ _, _))
  | .eventClear _ | .flagClear _ | .flagIsSet _ | .coAwait _ | .flagPark | .finish | .destroyed
  | .checkPending | .walkStep | .startPass | .passPop | .endPass _ | .tokenTaken | .timedOut
  | .give _ => inferInstanceAs (Decidable False)

/-! ## Calls that wake nobody -/

theorem Scheduler.wakeAll_of_empty (c : Scheduler N) {q : WaitQueue N} (hq : q.head = none) :
    c.wakeAll q = (c, q) := by
  cases N with
  | zero => rfl
  | succ N => simp [Scheduler.wakeAll, Scheduler.wakeAllLoop, Scheduler.waitPop, hq]

theorem Queue.doSend_of_empty (q : Queue N T) (cap : ℕ) (c : Scheduler N) (v : Option T)
    (source : Option Storage) (hq : q.recvHead = none) : (q.doSend cap c v source).2.1 = c := by
  unfold Queue.doSend
  rw [hq]
  dsimp only
  split <;> rfl

theorem Queue.tryReceive_of_empty (q : Queue N T) (cap : ℕ) (c : Scheduler N)
    (hq : q.sendHead = none) : (q.tryReceive cap c).2.1 = c := by
  unfold Queue.tryReceive
  split
  · rfl
  · simp [Queue.admitOldestSender, Queue.popFrontStorage, Queue.assignOut, hq]

/-- No timer is due, so none is enqueued. -/
theorem Timers.processDueTimers_of_ahead {c : Scheduler N} (h : Timers c)
    (hahead : ∀ s, (c.slots s).state = .waitingTimer → c.now < (c.slots s).deadline) :
    c.processDueTimers = c.recomputeNearestDeadline := by
  have hnone : c.dueSlots = [] := by
    apply List.eq_nil_iff_forall_not_mem.mpr
    intro s hs
    have hdue := Scheduler.mem_dueSlots.mp hs
    simp only [Scheduler.isDue, Bool.and_eq_true, decide_eq_true_eq] at hdue
    exact UInt64.not_lt.mpr hdue.2 (hahead s hdue.1)
  rw [h.processDueTimers_eq, Scheduler.processDueTimersPlain, hnone]
  rfl

/-! ## Steps -/

/-- The step leaves all tasks alone, and the scheduler idle. -/
structure World.Rests (w w' : World N T) : Prop where
  idle : w'.Idle
  slots : w'.sched.slots = w.sched.slots
  trace : w'.sched.trace = w.sched.trace

/-- What does not write to the scheduler or to a flag. -/
theorem World.Idle.of_sched (h : w.Idle) (hsched : w'.sched = w.sched)
    (hbody : w'.control.running = none)
    (hsignals : ∀ f, (w'.flags.flag f).waiter ≠ none → (w'.flags.flag f).signaled = false) :
    w.Rests w' where
  idle := ⟨hbody, hsched ▸ h.ready, hsignals, hsched ▸ h.timers⟩
  slots := by rw [hsched]
  trace := by rw [hsched]

/-- An action that wakes nobody leaves an idle scheduler idle. -/
theorem World.Idle.step (h : w.Idle) (hinv : Inv cfg w L) (hstep : w.step cfg a = some w')
    (hwakes : ¬ w.Wakes a) : w.Rests w' := by
  have hbody := h.body
  cases World.steps_of_step hstep with
  | createTask => exact absurd trivial hwakes
  | poll hcall andWait clock =>
      have hloop : w.control = .loop := by
        cases hcontrol : w.control <;> simp_all [Control.isUser, Control.running]
      have hin := hinv.staged.inPoll
      obtain ⟨wake, ⟨-, hpoll⟩ | ⟨-, hnested, hpoll⟩ | ⟨-, -, hpoll⟩⟩ := w.poll_cases andWait clock
      · rw [hpoll]
        exact h.of_sched rfl hbody h.signals
      · rw [hloop, hnested] at hin
        cases hin
      · rw [hpoll]
        refine ⟨⟨rfl, h.ready, h.signals, fun s hs => ?_⟩, rfl, rfl⟩
        exact UInt64.not_le.mp fun hle => hwakes ⟨s, hs, hle⟩
  | eventSet _ e =>
      have hempty : (w.event e).waiters.head = none := not_not.mp hwakes
      refine h.of_sched ?_ hbody h.signals
      show (w.sched.wakeAll (w.event e).waiters).1 = w.sched
      rw [w.sched.wakeAll_of_empty hempty]
  | eventClear => exact h.of_sched rfl hbody h.signals
  | trySend _ q v =>
      have hempty : (w.queue q).recvHead = none := not_not.mp hwakes
      refine h.of_sched ?_ ?_ ?_
      · rw [World.afterSend_sched]
        exact Queue.doSend_of_empty _ _ _ _ _ hempty
      · rwa [World.afterSend_control]
      · rw [World.afterSend_flags]
        exact h.signals
  | tryReceive _ q =>
      have hempty : (w.queue q).sendHead = none := not_not.mp hwakes
      exact h.of_sched (Queue.tryReceive_of_empty _ _ _ hempty) hbody h.signals
  | flagClear _ f =>
      refine h.of_sched rfl hbody fun g hg => ?_
      by_cases hgf : g = f
      · simp [Flags.clear, hgf]
      · simp only [Flags.clear, Flags.modify_flag, hgf, if_false] at hg ⊢
        exact h.signals g hg
  | flagIsSet => exact h.of_sched rfl hbody h.signals
  | flagTaken _ _ _ hcontrol | flagNotReady _ _ _ hcontrol | coAwait _ _ _ hcontrol
  | flagPark _ _ _ hcontrol | finish _ _ hcontrol | destroyed _ _ hcontrol =>
      rw [hcontrol] at hbody
      cases hbody
  | walkStarts hcontrol hpending =>
      refine h.of_sched rfl ?_ h.signals
      unfold World.walkTo
      split <;> rfl
  | nothingPending => exact h.of_sched rfl rfl h.signals
  | walkStep prev f hcontrol =>
      have hskip : w.flags.walkStep w.sched prev f = (some f, (w.flags.flag f).armedNext, w.sched,
          w.flags) := by
        unfold Flags.walkStep
        rw [if_neg]
        rintro ⟨hsignaled, hwaiter⟩
        rw [h.signals f hwaiter] at hsignaled
        cases hsignaled
      rw [hskip]
      refine h.of_sched rfl ?_ h.signals
      unfold World.afterVisit World.walkTo
      split <;> rfl
  | startPass hcontrol =>
      have hsched : w.startPass.sched = w.sched.recomputeNearestDeadline :=
        hinv.core.sound.timers.processDueTimers_of_ahead h.timers
      refine ⟨⟨rfl, ?_, h.signals, ?_⟩, ?_, ?_⟩ <;> rw [hsched]
      · exact h.ready
      · exact h.timers
      · rfl
      · rfl
  | passPop left w' hcontrol hpops =>
      obtain ⟨s, rest, hready, -, -⟩ := hinv.pops hcontrol hpops
      have hcount := hinv.core.sound.threaded.count
      rw [h.ready, hready] at hcount
      cases hcount
  | endPass hcontrol clock =>
      rcases w.endPass_cases clock with hend | ⟨timeout, hend⟩ <;> rw [hend] <;>
        exact ⟨⟨rfl, h.ready, h.signals, h.timers⟩, rfl, rfl⟩
  | tokenTaken | timedOut => exact h.of_sched rfl rfl h.signals
  | setFlag f =>
      refine h.of_sched rfl hbody fun g hg => ?_
      have hempty : (w.flags.flag f).waiter = none := not_not.mp hwakes
      by_cases hgf : g = f
      · -- nobody waits for the flag that is set
        refine absurd ?_ hg
        simp [Flags.set, hgf, hempty]
      · simp only [Flags.set, Flags.modify_flag, hgf, if_false] at hg ⊢
        exact h.signals g hg
  | give => exact h.of_sched rfl hbody h.signals

/-- From an idle scheduler, a run none of whose actions wakes anybody resumes no task, moves none, and
ends in an idle scheduler, however many passes, platform waits and calls it makes. -/
theorem idle_stays_idle {actions : List (Action T)} (hw : w.Reachable cfg) (hidle : w.Idle)
    (hrun : run (World.step cfg) w actions = some w')
    (hquiet : Along (World.step cfg) (fun u a => ¬ u.Wakes a) w actions) : w.Rests w' := by
  have hall : w'.Reachable cfg ∧ w.Rests w' := by
    refine hquiet.induction (P := fun u => u.Reachable cfg ∧ w.Rests u) hrun
      ⟨hw, hidle, rfl, rfl⟩ ?_
    rintro u a u' - ⟨hu, hrests⟩ hwakes hstep
    obtain ⟨L, hinv⟩ := hu.inv
    have hnext := hrests.idle.step hinv hstep hwakes
    refine ⟨hu.succ hstep, hnext.idle, ?_, ?_⟩
    · rw [hnext.slots, hrests.slots]
    · rw [hnext.trace, hrests.trace]
  exact hall.2

/-- One task waits for a deadline, one for a flag and one for an event.  Two passes come before the
deadline, and a signal is for a flag that nobody waits for. -/
theorem idle_stays_idle_small :
    let w : World 3 ℕ := World.after .small [.createTask (some 1), .createTask (some 2),
      .createTask (some 3), .poll true 0, .checkPending, .startPass, .passPop,
      .coAwait (.delay 5000), .passPop, .coAwait (.flag 0), .flagPark, .passPop,
      .coAwait (.event 0), .endPass 0, .timedOut]
    let actions : List (Action ℕ) := [.setFlag 1, .give 1, .poll true 1, .checkPending, .walkStep,
      .startPass, .endPass 1, .tokenTaken, .eventSet 1, .poll false 4999, .checkPending,
      .startPass, .endPass 4999]
    ∃ w', run (World.step .small) w actions = some w' ∧ w.Rests w' := by
  intro w actions
  have hsignals : ∀ f, (w.flags.flag f).waiter ≠ none → (w.flags.flag f).signaled = false := by
    intro f hf
    cases f with
    | zero => decide
    | succ f => exact absurd rfl hf
  have hidle : w.Idle := ⟨by decide, by decide, hsignals, by decide⟩
  have hrun : (run (World.step .small) w actions).isSome = true := by decide
  obtain ⟨w', hw'⟩ := Option.isSome_iff_exists.mp hrun
  exact ⟨w', hw', idle_stays_idle (.after .small (by decide)) hidle hw' (by decide)⟩

end SimpleAwait
