import SimpleAwait.System.Control
import SimpleAwait.System.Trace

/-!
# How a flag moves

`FlagMoves w a w' f` lists everything that a step can do to flag `f`: to its signal, and to the
task parked on it.  What is counted or promised about a flag is proved by cases on it.
-/

namespace SimpleAwait

variable {N : ℕ} {T : Type} {cfg : Config N} {w w' : World N T} {L : Layout N} {a : Action T}

/-- The step signals flag `f`, clears it, or is the `await_ready` of a wait on it. -/
def Action.touches (f : ℕ) : Action T → Bool
  | .setFlag g | .flagClear g | .coAwait (.flag g) => g = f
  | _ => false

/-- What the step `a` from `w` to `w'` does to flag `f`. -/
inductive FlagMoves (w : World N T) (a : Action T) (w' : World N T) (f : ℕ) : Prop
  | other (ha : a.touches f = false)
      (hsignaled : (w'.flags.flag f).signaled = (w.flags.flag f).signaled)
      (hwaiter : (w'.flags.flag f).waiter = (w.flags.flag f).waiter)
  | set (ha : a = .setFlag f) (hsignaled : (w'.flags.flag f).signaled = true)
      (hwaiter : (w'.flags.flag f).waiter = (w.flags.flag f).waiter)
  | clear (ha : a = .flagClear f) (hsignaled : (w'.flags.flag f).signaled = false)
      (hwaiter : (w'.flags.flag f).waiter = (w.flags.flag f).waiter)
  /-- `await_ready` finds the signal: the wait completes without suspending. -/
  | consume (ha : a = .coAwait (.flag f)) (hbefore : (w.flags.flag f).signaled = true)
      (hafter : (w'.flags.flag f).signaled = false)
      (hwaiter : (w'.flags.flag f).waiter = (w.flags.flag f).waiter)
      (hcontrol : w'.control = w.control)
  /-- `await_ready` finds none: `await_suspend` is next. -/
  | suspend {s : Fin N} {left : ℕ} (ha : a = .coAwait (.flag f))
      (hbefore : (w.flags.flag f).signaled = false)
      (hafter : (w'.flags.flag f).signaled = false)
      (hwaiter : (w'.flags.flag f).waiter = (w.flags.flag f).waiter)
      (hbody : w.control = .body s left) (hcontrol : w'.control = .flagSuspend s f left)
  | park {s : Fin N} {left : ℕ} (ha : a = .flagPark)
      (hcontrol : w.control = .flagSuspend s f left)
      (hsignaled : (w'.flags.flag f).signaled = (w.flags.flag f).signaled)
      (hbefore : (w.flags.flag f).waiter = none) (hafter : (w'.flags.flag f).waiter = some s)
  /-- The walk wakes the waiter. -/
  | wake {s : Fin N} (ha : a = .walkStep) (hbefore : (w.flags.flag f).signaled = true)
      (hafter : (w'.flags.flag f).signaled = false)
      (hwaiter : (w.flags.flag f).waiter = some s) (hnone : (w'.flags.flag f).waiter = none)
      (hready : enqueuedTasks w'.sched.trace =
        enqueuedTasks w.sched.trace ++ [w.sched.taskIn s])

theorem FlagMoves.of_eq {f : ℕ} (ha : a.touches f = false) (h : w'.flags = w.flags) :
    FlagMoves w a w' f :=
  .other ha (by rw [h]) (by rw [h])

/-- Flags move as listed. -/
theorem Inv.step_flag (h : Inv cfg w L) (hstep : w.step cfg a = some w') (f : ℕ) :
    FlagMoves w a w' f := by
  cases World.steps_of_step hstep with
  | createTask => exact .of_eq rfl rfl
  | poll _ andWait clock =>
      refine .of_eq rfl ?_
      obtain ⟨wake, ⟨-, hpoll⟩ | ⟨-, -, hpoll⟩ | ⟨-, -, hpoll⟩⟩ := w.poll_cases andWait clock <;>
        rw [hpoll]
  | eventSet | eventClear => exact .of_eq rfl rfl
  | trySend => exact .of_eq rfl (World.afterSend_flags ..)
  | tryReceive => exact .of_eq rfl rfl
  | flagClear _ g =>
      by_cases hg : g = f
      · subst hg
        exact .clear rfl (by simp [Flags.clear]) (by simp [Flags.clear])
      · exact .other (by simp [Action.touches, hg]) (by simp [Flags.clear, Ne.symm hg])
          (by simp [Flags.clear, Ne.symm hg])
  | flagIsSet => exact .of_eq rfl rfl
  | flagTaken s left g hcontrol hsignaled =>
      by_cases hg : g = f
      · subst hg
        exact .consume rfl hsignaled (by simp) (by simp) rfl
      · exact .other (by simp [Action.touches, hg]) (by simp [Ne.symm hg])
          (by simp [Ne.symm hg])
  | flagNotReady s left g hcontrol hsignaled =>
      by_cases hg : g = f
      · subst hg
        exact .suspend rfl hsignaled hsignaled rfl hcontrol rfl
      · exact .other (by simp [Action.touches, hg]) rfl rfl
  | coAwait s left awaitable hcontrol hflag =>
      have hcurrent : w.sched.current = some s := by rw [h.staged.current, hcontrol]; rfl
      have hs : L.place s = .running := (h.staged.running s).mpr (by rw [hcontrol]; rfl)
      have htouches : Action.touches f (.coAwait awaitable) = false := by
        cases awaitable <;> first | rfl | exact absurd rfl (hflag _)
      have hafter : ∀ r : Bool × World N T, (World.afterAwait s left r).flags = r.2.flags := by
        intro r
        unfold World.afterAwait
        split <;> rfl
      by_cases hknown : awaitable = .unknown
      · subst hknown
        exact .of_eq htouches (hafter _)
      · obtain ⟨hcalls, -⟩ := h.core.coAwait hcurrent hs awaitable hflag hknown
        exact .of_eq htouches ((hafter _).trans hcalls.flags)
  | flagPark s g left hcontrol =>
      rw [h.flagPark_eq hcontrol]
      split_ifs with hwaiter
      · by_cases hg : g = f
        · subst hg
          exact .park rfl hcontrol (by simp [World.afterAwait, World.suspend, Flags.arm]) hwaiter
            (by simp [World.afterAwait, World.suspend, Flags.arm])
        · exact .other rfl (by simp [World.afterAwait, World.suspend, Flags.arm, Ne.symm hg])
            (by simp [World.afterAwait, World.suspend, Flags.arm, Ne.symm hg])
      · exact .of_eq rfl rfl
  | finish | destroyed => exact .of_eq rfl rfl
  | walkStarts => exact .other rfl rfl rfl
  | nothingPending => exact .of_eq rfl rfl
  | walkStep prev g hcontrol =>
      have hposition := h.position
      rw [hcontrol] at hposition
      obtain ⟨rest, hrest, hcase⟩ := h.walkStep hcontrol
      have harmed := h.core.armed
      rw [hrest] at harmed
      rcases hcase with ⟨hsignaled, -⟩ | ⟨t, hsignaled, hwaiter, -⟩
      · rw [harmed.walkStep_skip _ _ hsignaled]
        exact .of_eq rfl rfl
      · rw [harmed.walkStep_wake _ _ hsignaled hwaiter]
        have hlast : prev ≠ some g := by
          intro he
          have hmem := List.mem_of_getLast? (hposition.1.symm.trans he)
          exact (List.nodup_append.mp harmed.linked.nodup).2.2 g hmem g (by simp) rfl
        obtain ⟨-, -, hfields⟩ := Armed.disarm_spec w.flags prev hlast
        by_cases hg : g = f
        · subst hg
          refine .wake rfl hsignaled ((hfields g).2.2.trans (if_pos rfl)) hwaiter
            ((hfields g).2.1.trans (if_pos rfl)) ?_
          simp [World.afterVisit, World.walkTo, Scheduler.wakeSlot, Scheduler.taskIn]
        · exact .other rfl ((hfields f).2.2.trans (if_neg (Ne.symm hg)))
            ((hfields f).2.1.trans (if_neg (Ne.symm hg)))
  | startPass => exact .of_eq rfl rfl
  | passPop left w' hcontrol hpops =>
      obtain ⟨s, rest, -, rfl, -⟩ := h.pops hcontrol hpops
      exact .of_eq rfl (World.resume_flags ..)
  | endPass _ clock =>
      refine .of_eq rfl ?_
      rcases w.endPass_cases clock with hend | ⟨timeout, hend⟩ <;> rw [hend]
  | tokenTaken | timedOut => exact .of_eq rfl rfl
  | setFlag g =>
      by_cases hg : g = f
      · subst hg
        exact .set rfl (by simp [Flags.set]) (by simp [Flags.set])
      · exact .other (by simp [Action.touches, hg]) (by simp [Flags.set, Ne.symm hg])
          (by simp [Flags.set, Ne.symm hg])
  | give => exact .of_eq rfl rfl

end SimpleAwait
