import SimpleAwait.System.Acquisitions

/-!
# Tasks have frames

A slot that holds a task holds the handle of its frame, as long as no coroutine awaits a
`TaskAwaiter` that owns none.
-/

namespace SimpleAwait

variable {N : ℕ} {T : Type} {cfg : Config N} {w w' : World N T} {L L' : Layout N} {s : Fin N}
  {frame : Handle}

/-- Every task has a frame. -/
def World.Filled (w : World N T) : Prop :=
  ∀ s, w.sched.Occupied s → (w.sched.slots s).handle ≠ none

namespace Inv

variable (h : Inv cfg w L) (h' : Inv cfg w' L')

include h h'

theorem filled_keeps (hfilled : w.Filled) (hkeeps : w.sched.Keeps w'.sched) : w'.Filled := by
  intro s hs
  rw [hkeeps.handle]
  exact hfilled s (h.occupied_before h' hkeeps.trace hs (by simp))

theorem filled_adopts (hfilled : w.Filled) (hadopts : w.sched.Adopts w'.sched s frame)
    (hframe : frame ≠ none) : w'.Filled := by
  intro t ht
  rw [hadopts.handle]
  split_ifs with hts
  · exact hframe
  · exact hfilled t (h.occupied_before h' hadopts.trace ht (by simp [Ne.symm hts]))

theorem filled_destroyed (hfilled : w.Filled) (hsched : w'.sched = w.sched.afterDestroy s) :
    w'.Filled := by
  obtain ⟨hstate, hhandle⟩ := w.sched.afterDestroy_slot s
  intro t ht
  have hts : t ≠ s := by
    rintro rfl
    rw [← hsched] at hstate
    exact ht.2 hstate
  have htrace : w.sched.Acquires w'.sched none := hsched ▸ .afterDestroy _ _
  rw [hsched, hhandle, if_neg hts]
  exact hfilled t (h.occupied_before h' htrace ht (by simp))

end Inv

theorem Scheduler.Keeps.schedule_none (c : Scheduler N) : c.Keeps (c.schedule none).sched := by
  unfold Scheduler.schedule
  split
  · exact .refl c
  · exact .report c _

/-- Every step fills the slots that it takes, where an awaited child has a frame. -/
theorem Inv.step_filled (h : Inv cfg w L) (hfilled : w.Filled) {a : Action T}
    (hchild : ∀ awaiter, a = .coAwait (.task awaiter) → awaiter.wasEmpty = true ∨
      awaiter.child ≠ none) (hstep : w.step cfg a = some w') : w'.Filled := by
  obtain ⟨L', h'⟩ := h.step hstep
  by_cases hmoves : a.movesFrame = false
  · have hkeeps := World.step_keeps hmoves hstep
    intro s hs
    rw [hkeeps.handle]
    exact hfilled s (h.occupied_before h' hkeeps.trace hs (by simp))
  cases World.steps_of_step hstep with
  | createTask _ task =>
      cases task with
      | none => exact h.filled_keeps h' hfilled (.schedule_none _)
      | some frame =>
          rcases w.sched.schedule_cases (some frame) with ⟨-, hkeeps⟩ | ⟨-, -, s, hadopts⟩
          · exact h.filled_keeps h' hfilled hkeeps
          · exact h.filled_adopts h' hfilled hadopts (by simp)
  | coAwait s left awaitable =>
      cases awaitable with
      | task awaiter =>
          rcases w.awaitTask_cases s left (w.sched.slots s).handle awaiter with
            hkeeps | ⟨hempty, t, hadopts⟩
          · exact h.filled_keeps h' hfilled hkeeps
          · exact h.filled_adopts h' hfilled hadopts
              ((hchild awaiter rfl).resolve_left (by simp [hempty]))
      | _ => exact absurd rfl hmoves
  | finish => exact h.filled_keeps h' hfilled (.afterFinish _ _)
  | destroyed => exact h.filled_destroyed h' hfilled rfl
  | _ => exact absurd rfl hmoves

end SimpleAwait
