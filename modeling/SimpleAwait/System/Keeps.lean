import SimpleAwait.Scheduler.Keeps
import SimpleAwait.System.Control
import SimpleAwait.System.Suspensions

/-!
# Steps that move no frame

Frames change hands where a task is created, where a coroutine awaits a `Task`, and where one ends.
Every other step of the system leaves each frame and each task in its slot.
-/

namespace SimpleAwait

variable {N : ℕ} {T : Type} {cfg : Config N} {w w' : World N T}

/-- The slot whose completed frame is being destroyed. -/
def Control.releasing : Control N → Option (Fin N)
  | .release s _ => some s
  | _ => none

/-- The actions that hand a frame to a slot, or destroy the frame of one. -/
def Action.movesFrame : Action T → Bool
  | .createTask _ | .coAwait (.task _) | .finish | .destroyed => true
  | _ => false

namespace World

/-- `in_poll_` is set during a pass. -/
def Polls (w : World N T) : Prop := w.sched.inPoll = w.control.inPoll

/-- Every slot keeps its frame and its task. -/
structure Keeps (w w' : World N T) : Prop where
  trace : w.sched.Acquires w'.sched none
  handle : ∀ s, (w'.sched.slots s).handle = (w.sched.slots s).handle
  occupied : ∀ s, w.sched.Occupied s → w'.sched.Occupied s
  shuttingDown : w'.sched.shuttingDown = w.sched.shuttingDown
  polls : w.Polls → w'.Polls
  releasing : w.Polls → w'.control.releasing = w.control.releasing
  /-- No pass begins during the teardown. -/
  loop : w.sched.shuttingDown = true → w.control = .loop → w'.control = .loop

/-- A step that leaves `in_poll_` alone. -/
theorem Keeps.of_sched (h : w.sched.Keeps w'.sched) (hinPoll : w'.control.inPoll = w.control.inPoll)
    (hreleasing : w'.control.releasing = w.control.releasing)
    (hloop : w.control = .loop → w'.control = .loop) : w.Keeps w' where
  trace := h.trace
  handle := h.handle
  occupied := h.occupied
  shuttingDown := h.shuttingDown
  polls hpolls := (h.inPoll.trans hpolls).trans hinPoll.symm
  releasing _ := hreleasing
  loop _ := hloop

/-- A call, which returns to where it was made. -/
theorem Keeps.of_call (h : w.sched.Keeps w'.sched) (hcontrol : w'.control = w.control) :
    w.Keeps w' :=
  .of_sched h (by rw [hcontrol]) (by rw [hcontrol]) fun hloop => hcontrol.trans hloop

/-! ## Awaits -/

theorem keeps_suspended {c c' : Scheduler N} {awaiting : Handle} (h : c.Suspended awaiting c') :
    c.Keeps c' := by
  rcases h with rfl | rfl
  · exact .runningIs c awaiting
  · exact .parkRunning c

theorem keeps_awaitSend (w : World N T) (k : ℕ) (v : T) (awaiting : Handle) :
    w.sched.Keeps (w.awaitSend cfg k v awaiting).2.sched := by
  rcases w.awaitSend_sched k v awaiting with hready | hsuspended
  · rw [hready]
    exact .of_wakes (.doSend w.sched _ _ _ _)
  · exact keeps_suspended hsuspended

theorem keeps_awaitReceive (w : World N T) (k : ℕ) (awaiting : Handle) :
    w.sched.Keeps (w.awaitReceive cfg k awaiting).2.sched := by
  rcases w.awaitReceive_sched k awaiting with hready | hsuspended
  · rw [hready]
    exact .of_wakes (.receiveReady w.sched _ _ _)
  · exact keeps_suspended hsuspended

theorem keeps_park (c : Scheduler N) (F : Flags N) (f : ℕ) (awaiting : Handle) :
    c.Keeps (F.park f c awaiting).2.1 := by
  rcases F.park_sched f c awaiting with hsuspended | hreported
  · exact keeps_suspended hsuspended
  · rw [hreported]
    exact .report c _

theorem flagReady_sched (w : World N T) {f : ℕ} {b : Bool} {u : World N T}
    (h : w.flagReady f = (b, u)) : u.sched = w.sched := by
  simp only [World.flagReady, Prod.mk.injEq] at h
  rw [← h.2]

/-- An await on anything but a `Task`. -/
theorem keeps_coAwait (w : World N T) (awaiting : Handle) {awaitable : Awaitable T}
    (htask : Action.movesFrame (.coAwait awaitable) = false) :
    w.sched.Keeps (w.coAwait cfg awaiting awaitable).2.sched := by
  cases awaitable with
  | yield => exact .of_wakes (.yieldCurrent _)
  | delay duration => exact .armCurrentTimer _ duration
  | task awaiter => cases htask
  | event e =>
      simp only [World.coAwait]
      split
      · exact .refl _
      · exact .waitOn _ _ _
  | send q v => exact w.keeps_awaitSend q v awaiting
  | receive q => exact w.keeps_awaitReceive q awaiting
  | flag f =>
      simp only [World.coAwait]
      split <;> rename_i u hready <;> have hsched := w.flagReady_sched hready
      · rw [hsched]
        exact .refl _
      · show w.sched.Keeps (u.flags.park f u.sched awaiting).2.1
        rw [hsched]
        exact keeps_park w.sched u.flags f awaiting
  | unknown => exact .refl _

theorem keeps_afterAwait {s : Fin N} {left : ℕ} {r : Bool × World N T}
    (hcontrol : w.control = .body s left ∨ ∃ f, w.control = .flagSuspend s f left)
    (h : w.sched.Keeps r.2.sched) : w.Keeps (World.afterAwait s left r) := by
  have hsched : w.sched.Keeps (World.afterAwait s left r).sched := by
    unfold World.afterAwait
    split
    · exact h.trans (.afterSuspend _ _)
    · exact h
  rcases hcontrol with hctl | ⟨f, hctl⟩ <;>
    rcases World.afterAwait_control s left r with hctl' | hctl' <;>
    · refine .of_sched hsched ?_ ?_ ?_ <;> rw [hctl, hctl'] <;>
        simp [Control.inPoll, Control.releasing]

end World

/-! ## The steps -/

/-- Only the actions of `movesFrame` move a frame. -/
theorem World.step_keeps {a : Action T} (hmoves : a.movesFrame = false)
    (hstep : w.step cfg a = some w') : w.Keeps w' := by
  cases World.steps_of_step hstep with
  | createTask | finish | destroyed => cases hmoves
  | poll hcall andWait clock =>
      obtain ⟨wake, ⟨-, hpoll⟩ | ⟨-, -, hpoll⟩ | ⟨hdown, hidle, hpoll⟩⟩ :=
        w.poll_cases andWait clock <;> rw [hpoll]
      · exact .of_call (.refl _) rfl
      · exact .of_call (.report _ _) rfl
      · -- outside a pass `in_poll_` tells that the call comes from the loop
        have hloop : w.Polls → w.control = .loop := by
          intro hpolls
          rw [Polls, hidle] at hpolls
          cases hctl : w.control <;> simp [hctl, Control.inPoll, Control.isUser] at hpolls hcall ⊢
        exact {
          trace := .of_eq rfl none
          handle := fun _ => rfl
          occupied := fun _ hs => hs
          shuttingDown := rfl
          polls := fun _ => rfl
          releasing := fun hpolls => by rw [hloop hpolls]; rfl
          loop := fun hdown' => absurd hdown' (by simp [hdown]) }
  | eventSet => exact .of_call (.of_wakes (.wakeAll _ _)) rfl
  | eventClear => exact .of_call (.refl _) rfl
  | trySend _ q v =>
      refine .of_call ?_ (afterSend_control ..)
      rw [afterSend_sched]
      exact .of_wakes (.doSend _ _ _ _ _)
  | tryReceive => exact .of_call (.of_wakes (.tryReceive _ _ _)) rfl
  | flagClear | flagIsSet | flagTaken => exact .of_call (.refl _) rfl
  | flagNotReady s left f hcontrol =>
      refine .of_sched (.refl _) ?_ ?_ ?_ <;> simp [hcontrol, Control.inPoll, Control.releasing]
  | coAwait s left awaitable hcontrol =>
      exact keeps_afterAwait (Or.inl hcontrol) (w.keeps_coAwait _ hmoves)
  | flagPark s f left hcontrol =>
      exact keeps_afterAwait (Or.inr ⟨f, hcontrol⟩) (keeps_park w.sched w.flags f _)
  | walkStarts hcontrol =>
      refine .of_sched (.refl _) ?_ ?_ ?_ <;> cases w.flags.armedHead <;>
        simp [hcontrol, walkTo, Control.inPoll, Control.releasing]
  | nothingPending hcontrol =>
      refine .of_sched (.refl _) ?_ ?_ ?_ <;> simp [hcontrol, Control.inPoll, Control.releasing]
  | walkStep prev f hcontrol =>
      have hwalk : w.sched.Keeps (w.flags.walkStep w.sched prev f).2.2.1 := by
        rcases w.walkStep_sched prev f with hsched | hsched <;> rw [hsched]
        · exact .refl _
        · exact .of_wakes (.wakeSlot _ _)
      generalize w.flags.walkStep w.sched prev f = r at hwalk ⊢
      refine .of_sched hwalk ?_ ?_ ?_ <;> simp only [hcontrol, afterVisit, walkTo] <;>
        split <;> simp [Control.inPoll, Control.releasing]
  | startPass hcontrol =>
      refine .of_sched (.of_wakes (.processDueTimers _)) ?_ ?_ ?_ <;>
        simp [hcontrol, startPass, Control.inPoll, Control.releasing]
  | passPop left w' hcontrol hpops =>
      have hpop := Scheduler.Keeps.passPop w.sched
      cases hpops with
      | exhausted =>
          refine .of_sched (.refl _) ?_ ?_ ?_ <;> simp [hcontrol, Control.inPoll, Control.releasing]
      | skipped c hskip =>
          rw [hskip] at hpop
          refine .of_sched hpop ?_ ?_ ?_ <;> simp [hcontrol, Control.inPoll, Control.releasing]
      | resume s c hresume =>
          rw [hresume] at hpop
          refine .of_sched (by rwa [resume_sched]) ?_ ?_ ?_ <;>
            simp [hcontrol, Control.inPoll, Control.releasing]
  | endPass hcontrol clock =>
      rcases w.endPass_cases clock with hend | ⟨timeout, hend⟩ <;> rw [hend]
      all_goals
        exact {
          trace := .of_eq rfl none
          handle := fun _ => rfl
          occupied := fun _ hs => hs
          shuttingDown := rfl
          polls := fun _ => rfl
          releasing := fun _ => by rw [hcontrol]; rfl
          loop := fun _ hloop => absurd (hcontrol.symm.trans hloop) (by simp) }
  | tokenTaken now timeout hcontrol =>
      refine .of_sched (.refl _) ?_ ?_ ?_ <;> simp [hcontrol, Control.inPoll, Control.releasing]
  | timedOut now timeout hcontrol =>
      refine .of_sched (.refl _) ?_ ?_ ?_ <;> simp [hcontrol, Control.inPoll, Control.releasing]
  | setFlag | give => exact .of_call (.refl _) rfl

end SimpleAwait
