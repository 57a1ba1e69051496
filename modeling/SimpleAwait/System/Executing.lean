import SimpleAwait.System.Trace
import SimpleAwait.WaitUntil.Step

/-!
# The task that executes

The body of a task executes while control is in it.  The task stays in its slot meanwhile.
-/

namespace SimpleAwait

variable {N : ℕ} {T : Type} {cfg : Config N} {w w' : World N T} {L : Layout N} {a : Action T}
  {s t : Fin N} {left : ℕ} {x : Fin N × UInt32}

/-- The task whose body executes. -/
def World.executing (w : World N T) : List (Fin N × UInt32) :=
  match w.control with
  | .body s _ => [w.sched.taskIn s]
  | _ => []

theorem World.executes_iff (hcontrol : w.control = .body s left) :
    w.executes x = true ↔ w.sched.taskIn s = x := by
  simp [World.executes, hcontrol]

theorem World.body_of_executes (h : w.executes x = true) :
    ∃ left, w.control = .body x.1 left ∧ w.sched.taskIn x.1 = x := by
  unfold World.executes at h
  split at h
  · rename_i s left hcontrol
    simp only [decide_eq_true_eq] at h
    subst h
    exact ⟨left, hcontrol, rfl⟩
  · cases h

theorem World.executing_of_body (hcontrol : w.control = .body s left) :
    w.executing = [w.sched.taskIn s] := by
  rw [World.executing, hcontrol]

theorem World.count_executing (w : World N T) (x : Fin N × UInt32) :
    w.executing.count x = if w.executes x then 1 else 0 := by
  cases hcontrol : w.control with
  | body s left =>
      by_cases h : w.sched.taskIn s = x <;> simp [World.executing, World.executes, hcontrol, h]
  | _ => simp [World.executing, World.executes, hcontrol]

/-- The task in a slot that is taken stays there. -/
theorem Inv.taskIn_step (h : Inv cfg w L) (hstep : w.step cfg a = some w')
    (hplace : (L.place t).state ≠ .free ∧ (L.place t).state ≠ .completed) :
    w'.sched.taskIn t = w.sched.taskIn t := by
  rw [← h.core.sound.threaded.state t] at hplace
  rw [Scheduler.taskIn, Scheduler.taskIn, (h.step_advances hstep).tenant t hplace]

theorem Inv.taskIn_control (h : Inv cfg w L) (hstep : w.step cfg a = some w')
    (hcontrol : w.control = .body t left) : w'.sched.taskIn t = w.sched.taskIn t := by
  apply h.taskIn_step hstep
  rw [(h.staged.running t).mpr (by rw [hcontrol]; rfl)]
  exact ⟨by simp [Place.state], by simp [Place.state]⟩

/-- A task goes on executing while the control stays. -/
theorem Inv.executes_step (h : Inv cfg w L) (hstep : w.step cfg a = some w')
    (hcontrol : w'.control = w.control) (hx : w.executes x = true) : w'.executes x = true := by
  cases hc : w.control with
  | body s left =>
      rw [World.executes_iff (hcontrol.trans hc), h.taskIn_control hstep hc]
      exact (World.executes_iff hc).mp hx
  | _ => simp [World.executes, hc] at hx

end SimpleAwait
