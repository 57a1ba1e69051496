import SimpleAwait.System.Preservation

/-!
# How control moves

`Control.Moves` lists, action by action, the stages that a step leads from and to.  What holds
only in certain stages is proved by cases on it.
-/

namespace SimpleAwait

variable {N : ℕ} {T : Type} {cfg : Config N} {w w' : World N T} {L : Layout N}

/-- A call of user code that returns to it. -/
def Action.isCall : Action T → Bool
  | .createTask _ | .poll .. | .eventSet _ | .eventClear _ | .trySend .. | .tryReceive _
  | .flagClear _ | .flagIsSet _ => true
  | _ => false

/-- A step of an external context. -/
def Action.isExternal : Action T → Bool
  | .setFlag _ | .give _ => true
  | _ => false

/-- The stages before and after a step. -/
inductive Control.Moves : Control N → Action T → Control N → Prop
  | call {c : Control N} {a : Action T} (hc : c.isUser = true) (ha : a.isCall = true) : Moves c a c
  | external {c : Control N} {a : Action T} (ha : a.isExternal = true) : Moves c a c
  | poll {andWait : Bool} {clock : Tick} : Moves .loop (.poll andWait clock) .checkPending
  | nothingPending : Moves .checkPending .checkPending .dueTimers
  | walkFirst {f : ℕ} : Moves .checkPending .checkPending (.walk none (some f))
  | walkNext {prev prev' : Option ℕ} {f f' : ℕ} :
      Moves (.walk prev (some f)) .walkStep (.walk prev' (some f'))
  | walkEnd {prev : Option ℕ} {f : ℕ} : Moves (.walk prev (some f)) .walkStep .dueTimers
  | start {left : ℕ} : Moves .dueTimers .startPass (.pass left)
  | pop {s : Fin N} {left : ℕ} : Moves (.pass (left + 1)) .passPop (.body s left)
  | goOn {s : Fin N} {left : ℕ} {awaitable : Awaitable T} :
      Moves (.body s left) (.coAwait awaitable) (.body s left)
  | suspend {s : Fin N} {left : ℕ} {awaitable : Awaitable T} :
      Moves (.body s left) (.coAwait awaitable) (.pass left)
  | flagReady {s : Fin N} {f left : ℕ} :
      Moves (.body s left) (.coAwait (.flag f)) (.flagSuspend s f left)
  | flagRejected {s : Fin N} {f left : ℕ} : Moves (.flagSuspend s f left) .flagPark (.body s left)
  | flagParked {s : Fin N} {f left : ℕ} : Moves (.flagSuspend s f left) .flagPark (.pass left)
  | finish {s : Fin N} {left : ℕ} : Moves (.body s left) .finish (.release s left)
  | destroyed {s : Fin N} {left : ℕ} : Moves (.release s left) .destroyed (.pass left)
  | endPass {clock : Tick} : Moves (.pass 0) (.endPass clock) .loop
  | sleep {clock : Tick} {timeout : UInt32} : Moves (.pass 0) (.endPass clock) (.take clock timeout)
  | tokenTaken {now : Tick} {timeout : UInt32} : Moves (.take now timeout) .tokenTaken .loop
  | timedOut {now : Tick} {timeout : UInt32} : Moves (.take now timeout) .timedOut .loop

theorem World.afterAwait_control (s : Fin N) (left : ℕ) (r : Bool × World N T) :
    (World.afterAwait s left r).control = .body s left ∨
      (World.afterAwait s left r).control = .pass left := by
  unfold World.afterAwait
  split
  · exact Or.inr rfl
  · exact Or.inl rfl

/-- Control moves along `Moves`. -/
theorem Inv.step_control (h : Inv cfg w L) {a : Action T} (hstep : w.step cfg a = some w') :
    Control.Moves w.control a w'.control := by
  cases World.steps_of_step hstep with
  | createTask hcall task => exact .call hcall rfl
  | poll hcall andWait clock =>
      have hin := h.staged.inPoll
      obtain ⟨wake, ⟨-, hpoll⟩ | ⟨-, -, hpoll⟩ | ⟨-, hidle, hpoll⟩⟩ := w.poll_cases andWait clock <;>
        rw [hpoll]
      · exact .call hcall rfl
      · exact .call hcall rfl
      · -- user code that runs outside `poll()` is in the loop
        rw [hidle] at hin
        cases hctl : w.control <;> simp [hctl, Control.inPoll, Control.isUser] at hin hcall ⊢
        exact .poll
  | eventSet hcall e => exact .call hcall rfl
  | eventClear hcall e => exact .call hcall rfl
  | trySend hcall q v =>
      rw [World.afterSend_control]
      exact .call hcall rfl
  | tryReceive hcall q => exact .call hcall rfl
  | flagClear hcall f => exact .call hcall rfl
  | flagIsSet hcall f => exact .call hcall rfl
  | flagTaken s left f hcontrol =>
      show Control.Moves w.control _ w.control
      rw [hcontrol]
      exact .goOn
  | flagNotReady s left f hcontrol =>
      rw [hcontrol]
      exact .flagReady
  | coAwait s left awaitable hcontrol =>
      rw [hcontrol]
      rcases World.afterAwait_control s left
        (w.coAwait cfg (w.sched.slots s).handle awaitable) with hctl | hctl <;> rw [hctl]
      · exact .goOn
      · exact .suspend
  | flagPark s f left hcontrol =>
      rw [hcontrol]
      rcases World.afterAwait_control s left (w.flagPark f (w.sched.slots s).handle) with hctl | hctl <;>
        rw [hctl]
      · exact .flagRejected
      · exact .flagParked
  | finish s left hcontrol =>
      rw [hcontrol]
      exact .finish
  | destroyed s left hcontrol =>
      rw [hcontrol]
      exact .destroyed
  | walkStarts hcontrol hpending =>
      rw [hcontrol]
      cases hhead : w.flags.armedHead with
      | none =>
          simp only [World.walkTo, if_true]
          exact .nothingPending
      | some f =>
          simp only [World.walkTo, reduceCtorEq, if_false]
          exact .walkFirst
  | nothingPending hcontrol hpending =>
      rw [hcontrol]
      exact .nothingPending
  | walkStep prev f hcontrol =>
      rw [hcontrol]
      generalize w.flags.walkStep w.sched prev f = r
      unfold World.afterVisit
      cases hnext : r.2.1 with
      | none =>
          simp only [World.walkTo, if_true]
          exact .walkEnd
      | some f' =>
          simp only [World.walkTo, reduceCtorEq, if_false]
          exact .walkNext
  | startPass hcontrol =>
      rw [hcontrol]
      exact .start
  | passPop left w' hcontrol hpops =>
      obtain ⟨s, rest, -, rfl, -⟩ := h.pops hcontrol hpops
      rw [hcontrol, World.resume_control]
      exact .pop
  | endPass hcontrol clock =>
      rw [hcontrol]
      rcases w.endPass_cases clock with hend | ⟨timeout, hend⟩ <;> rw [hend]
      · exact .endPass
      · exact .sleep
  | tokenTaken now timeout hcontrol =>
      rw [hcontrol]
      exact .tokenTaken
  | timedOut now timeout hcontrol =>
      rw [hcontrol]
      exact .timedOut
  | setFlag f => exact .external rfl
  | give f => exact .external rfl

end SimpleAwait
