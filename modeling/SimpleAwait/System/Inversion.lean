import SimpleAwait.System.Step

/-!
# What a step does

`World.Steps` lists the branches of `World.step`, each with the conditions under which it is taken
and the world that it leads to.  The proofs about single steps go through these branches; none of
them unfolds `step`.
-/

namespace SimpleAwait

namespace World

variable {N : ℕ} {T : Type} {cfg : Config N}

/-! ## The pieces of a step -/

/-- `await_ready` of a flag wait. -/
theorem flagReady_eq (w : World N T) (f : ℕ) : w.flagReady f =
    if (w.flags.flag f).signaled then
      (true, { w with flags := w.flags.modify f fun flag => { flag with signaled := false } })
    else (false, w) := by
  simp only [flagReady, Flags.consume]
  split <;> rfl

section

variable (w : World N T) (s : Fin N) (c : Scheduler N) (left : ℕ)

@[simp] theorem resume_sched : (w.resume s c left).sched = c := by
  unfold resume
  dsimp only
  split <;> rfl

@[simp] theorem resume_control : (w.resume s c left).control = .body s left := by
  unfold resume
  dsimp only
  split <;> rfl

@[simp] theorem resume_event : (w.resume s c left).event = w.event := by
  unfold resume
  dsimp only
  split <;> rfl

@[simp] theorem resume_flags : (w.resume s c left).flags = w.flags := by
  unfold resume
  dsimp only
  split <;> rfl

end

/-- `poll()` returns at once, reports that it is nested, or starts a pass. -/
theorem poll_cases (w : World N T) (andWait : Bool) (clock : Tick) : ∃ wake,
    w.sched.shuttingDown = true ∧ w.poll andWait clock = { w with wake := wake } ∨
    w.sched.shuttingDown = false ∧ w.sched.inPoll = true ∧
      w.poll andWait clock =
        { w with wake := wake, sched := w.sched.report .schedulerReentry } ∨
    w.sched.shuttingDown = false ∧ w.sched.inPoll = false ∧
      w.poll andWait clock = { w with
        wake := wake
        sched := { w.sched with inPoll := true, now := clock }
        control := .checkPending
        andWait := andWait } := by
  refine ⟨if andWait then platformPrepareSchedulerWait w.wake else w.wake, ?_⟩
  cases hdown : w.sched.shuttingDown <;> cases hin : w.sched.inPoll <;> cases andWait <;>
    simp [poll, hdown, hin]

/-- A pass ends in the loop or in `xSemaphoreTake`. -/
theorem endPass_cases (w : World N T) (clock : Tick) :
    w.endPass cfg clock = { w with sched := { w.sched with inPoll := false }, control := .loop } ∨
      ∃ timeout, w.endPass cfg clock = { w with
        sched := { w.sched with inPoll := false }
        control := .take clock timeout } := by
  unfold endPass
  dsimp only
  split
  · exact Or.inl rfl
  · exact Or.inr ⟨_, rfl⟩

/-- What `trySend` leaves. -/
def afterSend (w : World N T) (q : ℕ) (v : T) (r : Bool × Scheduler N × Queue N T) : World N T :=
  if r.1 then (w.withQueue q r.2.1 r.2.2).recordSent q v else w.withQueue q r.2.1 r.2.2

section

variable (w : World N T) (q : ℕ) (v : T) (r : Bool × Scheduler N × Queue N T)

@[simp] theorem afterSend_sched : (w.afterSend q v r).sched = r.2.1 := by
  unfold afterSend
  split <;> rfl

@[simp] theorem afterSend_event : (w.afterSend q v r).event = w.event := by
  unfold afterSend
  split <;> rfl

@[simp] theorem afterSend_flags : (w.afterSend q v r).flags = w.flags := by
  unfold afterSend
  split <;> rfl

@[simp] theorem afterSend_control : (w.afterSend q v r).control = w.control := by
  unfold afterSend
  split <;> rfl

end

/-- What one iteration of the walk of `poll_external_signals` leaves. -/
def afterVisit (w : World N T) (r : Option ℕ × Option ℕ × Scheduler N × Flags N) : World N T :=
  { w with sched := r.2.2.1, flags := r.2.2.2 }.walkTo r.1 r.2.1

/-- The walk wakes the waiter of a signaled flag, and does nothing else to the scheduler. -/
theorem walkStep_sched (w : World N T) (prev : Option ℕ) (f : ℕ) :
    (w.flags.walkStep w.sched prev f).2.2.1 = w.sched ∨
      (w.flags.walkStep w.sched prev f).2.2.1 = w.sched.wakeSlot (w.flags.flag f).waiter := by
  unfold Flags.walkStep
  dsimp only
  split
  · exact Or.inr rfl
  · exact Or.inl rfl

/-! ## The branches -/

/-- One iteration of the loop of `run_pass`, with `left` iterations to go after it. -/
inductive Pops (w : World N T) (left : ℕ) : World N T → Prop
  | exhausted (hpop : w.sched.passPop = .exhausted) : Pops w left { w with control := .pass 0 }
  | skipped (c : Scheduler N) (hpop : w.sched.passPop = .skipped c) :
      Pops w left { w with sched := c, control := .pass left }
  | resume (s : Fin N) (c : Scheduler N) (hpop : w.sched.passPop = .resume s c) :
      Pops w left (w.resume s c left)

/-- The action `a` leads from `w` to a world. -/
inductive Steps (cfg : Config N) (w : World N T) : Action T → World N T → Prop
  | createTask (hcall : w.control.isUser = true) (task : Handle) :
      Steps cfg w (.createTask task) { w with sched := (w.sched.schedule task).sched }
  | poll (hcall : w.control.isUser = true) (andWait : Bool) (clock : Tick) :
      Steps cfg w (.poll andWait clock) (w.poll andWait clock)
  | eventSet (hcall : w.control.isUser = true) (e : ℕ) :
      Steps cfg w (.eventSet e) { w.setEvent e ((w.event e).signal w.sched).2 with
        sched := ((w.event e).signal w.sched).1 }
  | eventClear (hcall : w.control.isUser = true) (e : ℕ) :
      Steps cfg w (.eventClear e) (w.setEvent e (w.event e).clear)
  | trySend (hcall : w.control.isUser = true) (q : ℕ) (v : T) :
      Steps cfg w (.trySend q v) (w.afterSend q v ((w.queue q).trySend (cfg.capacity q) w.sched v))
  | tryReceive (hcall : w.control.isUser = true) (q : ℕ) :
      Steps cfg w (.tryReceive q)
        (w.withQueue q ((w.queue q).tryReceive (cfg.capacity q) w.sched).2.1
          ((w.queue q).tryReceive (cfg.capacity q) w.sched).2.2)
  | flagClear (hcall : w.control.isUser = true) (f : ℕ) :
      Steps cfg w (.flagClear f) { w with flags := w.flags.clear f }
  | flagIsSet (hcall : w.control.isUser = true) (f : ℕ) : Steps cfg w (.flagIsSet f) w
  | flagTaken (s : Fin N) (left f : ℕ) (hcontrol : w.control = .body s left)
      (hsignaled : (w.flags.flag f).signaled = true) :
      Steps cfg w (.coAwait (.flag f))
        { w with flags := w.flags.modify f fun flag => { flag with signaled := false } }
  | flagNotReady (s : Fin N) (left f : ℕ) (hcontrol : w.control = .body s left)
      (hsignaled : (w.flags.flag f).signaled = false) :
      Steps cfg w (.coAwait (.flag f)) { w with control := .flagSuspend s f left }
  | coAwait (s : Fin N) (left : ℕ) (awaitable : Awaitable T) (hcontrol : w.control = .body s left)
      (hflag : ∀ f, awaitable ≠ .flag f) :
      Steps cfg w (.coAwait awaitable)
        (afterAwait s left (w.coAwait cfg (w.sched.slots s).handle awaitable))
  | flagPark (s : Fin N) (f left : ℕ) (hcontrol : w.control = .flagSuspend s f left) :
      Steps cfg w .flagPark (afterAwait s left (w.flagPark f (w.sched.slots s).handle))
  | finish (s : Fin N) (left : ℕ) (hcontrol : w.control = .body s left) :
      Steps cfg w .finish { w with sched := w.sched.afterFinish s, control := .release s left }
  | destroyed (s : Fin N) (left : ℕ) (hcontrol : w.control = .release s left) :
      Steps cfg w .destroyed { w with sched := w.sched.afterDestroy s, control := .pass left }
  | walkStarts (hcontrol : w.control = .checkPending) (hpending : w.flags.pending = true) :
      Steps cfg w .checkPending
        ({ w with flags := { w.flags with pending := false } }.walkTo none w.flags.armedHead)
  | nothingPending (hcontrol : w.control = .checkPending) (hpending : w.flags.pending = false) :
      Steps cfg w .checkPending { w with control := .dueTimers }
  | walkStep (prev : Option ℕ) (f : ℕ) (hcontrol : w.control = .walk prev (some f)) :
      Steps cfg w .walkStep (w.afterVisit (w.flags.walkStep w.sched prev f))
  | startPass (hcontrol : w.control = .dueTimers) : Steps cfg w .startPass w.startPass
  | passPop (left : ℕ) (w' : World N T) (hcontrol : w.control = .pass (left + 1))
      (hpops : w.Pops left w') : Steps cfg w .passPop w'
  | endPass (hcontrol : w.control = .pass 0) (clock : Tick) :
      Steps cfg w (.endPass clock) (w.endPass cfg clock)
  | tokenTaken (now : Tick) (timeout : UInt32) (hcontrol : w.control = .take now timeout)
      (hwake : w.wake = some true) :
      Steps cfg w .tokenTaken { w with wake := some false, control := .loop }
  | timedOut (now : Tick) (timeout : UInt32) (hcontrol : w.control = .take now timeout)
      (htimeout : timeout ≠ portMaxDelay) : Steps cfg w .timedOut { w with control := .loop }
  | setFlag (f : ℕ) :
      Steps cfg w (.setFlag f) { w with
        flags := (w.flags.set f).2
        giving := if (w.flags.set f).1 then f :: w.giving else w.giving }
  | give (f : ℕ) (hgiving : f ∈ w.giving) :
      Steps cfg w (.give f) { w with
        wake := platformWakeScheduler w.wake
        giving := w.giving.erase f }

/-- A step is one of the branches. -/
theorem steps_of_step {w w' : World N T} {a : Action T} (hstep : w.step cfg a = some w') :
    w.Steps cfg a w' := by
  cases a with
  | createTask task =>
      obtain ⟨hcall, rfl⟩ := user_eq_some.mp hstep
      exact .createTask hcall task
  | poll andWait clock =>
      obtain ⟨hcall, rfl⟩ := user_eq_some.mp hstep
      exact .poll hcall andWait clock
  | eventSet e =>
      obtain ⟨hcall, rfl⟩ := user_eq_some.mp hstep
      exact .eventSet hcall e
  | eventClear e =>
      obtain ⟨hcall, rfl⟩ := user_eq_some.mp hstep
      exact .eventClear hcall e
  | trySend q v =>
      obtain ⟨hcall, rfl⟩ := user_eq_some.mp hstep
      exact .trySend hcall q v
  | tryReceive q =>
      obtain ⟨hcall, rfl⟩ := user_eq_some.mp hstep
      exact .tryReceive hcall q
  | flagClear f =>
      obtain ⟨hcall, rfl⟩ := user_eq_some.mp hstep
      exact .flagClear hcall f
  | flagIsSet f =>
      obtain ⟨hcall, rfl⟩ := user_eq_some.mp hstep
      exact .flagIsSet hcall f
  | coAwait awaitable =>
      simp only [step] at hstep
      split at hstep
      · rename_i s left hcontrol
        split at hstep
        · rename_i f
          rw [flagReady_eq] at hstep
          cases hsignaled : (w.flags.flag f).signaled <;> rw [hsignaled] at hstep <;> cases hstep
          · exact .flagNotReady s left f hcontrol hsignaled
          · exact .flagTaken s left f hcontrol hsignaled
        · rename_i hflag
          cases hstep
          exact .coAwait s left awaitable hcontrol hflag
      · cases hstep
  | flagPark =>
      simp only [step] at hstep
      split at hstep <;> cases hstep
      exact .flagPark _ _ _ ‹_›
  | finish =>
      simp only [step] at hstep
      split at hstep <;> cases hstep
      exact .finish _ _ ‹_›
  | destroyed =>
      simp only [step] at hstep
      split at hstep <;> cases hstep
      exact .destroyed _ _ ‹_›
  | checkPending =>
      simp only [step, Flags.takePending] at hstep
      split at hstep
      · rename_i hcontrol
        cases hpending : w.flags.pending <;> simp only [hpending] at hstep <;> cases hstep
        · exact .nothingPending hcontrol hpending
        · exact .walkStarts hcontrol hpending
      · cases hstep
  | walkStep =>
      simp only [step] at hstep
      split at hstep <;> cases hstep
      exact .walkStep _ _ ‹_›
  | startPass =>
      simp only [step] at hstep
      split at hstep <;> cases hstep
      exact .startPass ‹_›
  | passPop =>
      simp only [step] at hstep
      split at hstep
      · rename_i left hcontrol
        refine .passPop left w' hcontrol ?_
        split at hstep
        · cases hstep
          exact .exhausted ‹_›
        · cases hstep
          exact .skipped _ ‹_›
        · split at hstep <;> cases hstep
          exact .resume _ _ ‹_›
      · cases hstep
  | endPass clock =>
      simp only [step] at hstep
      split at hstep <;> cases hstep
      exact .endPass ‹_› clock
  | tokenTaken =>
      simp only [step] at hstep
      split at hstep
      · split at hstep <;> cases hstep
        exact .tokenTaken _ _ ‹_› ‹_›
      · cases hstep
  | timedOut =>
      simp only [step] at hstep
      split at hstep
      · split at hstep <;> cases hstep
        exact .timedOut _ _ ‹_› ‹_›
      · cases hstep
  | setFlag f =>
      cases hstep
      exact .setFlag f
  | give f =>
      simp only [step] at hstep
      split at hstep <;> cases hstep
      exact .give f ‹_›

theorem step_walkStep {w w' : World N T} (hstep : w.step cfg .walkStep = some w') :
    ∃ prev f, w.control = .walk prev (some f) ∧
      w' = w.afterVisit (w.flags.walkStep w.sched prev f) := by
  cases steps_of_step hstep with
  | walkStep prev f hcontrol => exact ⟨prev, f, hcontrol, rfl⟩

end World

end SimpleAwait
