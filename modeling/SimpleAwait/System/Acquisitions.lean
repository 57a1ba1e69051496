import SimpleAwait.Scheduler.Adoption
import SimpleAwait.System.Keeps

/-!
# Steps that acquire a slot

A step acquires at most one slot, the one that `acquire_slot` returns.  No other slot comes to hold
a task.
-/

namespace SimpleAwait

variable {N : ℕ} {T : Type} {cfg : Config N} {w w' : World N T} {L L' : Layout N} {s : Fin N}

/-- An await on a `Task` moves no frame into a slot, or takes the child into one. -/
theorem World.awaitTask_cases (w : World N T) (s : Fin N) (left : ℕ) (awaiting : Handle)
    (awaiter : TaskAwaiter) :
    let c := (World.afterAwait s left (w.coAwait cfg awaiting (.task awaiter))).sched
    w.sched.Keeps c ∨ awaiter.wasEmpty = false ∧ ∃ t, w.sched.Adopts c t awaiter.child := by
  have hafter : ∀ r : Bool × World N T, r.2.sched.Keeps (World.afterAwait s left r).sched := by
    intro r
    unfold World.afterAwait
    split
    · exact .afterSuspend _ s
    · exact .refl _
  have hawait : w.sched.Keeps (w.coAwait cfg awaiting (.task awaiter)).2.sched ∨
      awaiter.wasEmpty = false ∧
        ∃ t, w.sched.Adopts (w.coAwait cfg awaiting (.task awaiter)).2.sched t awaiter.child := by
    simp only [World.coAwait]
    split
    · exact Or.inl (.report _ _)
    · rename_i hempty
      exact (w.sched.startChildAwait_cases _ _).imp_right fun h => ⟨by simpa using hempty, h⟩
  rcases hawait with hkeeps | ⟨hempty, t, hadopts⟩
  · exact Or.inl (hkeeps.trans (hafter _))
  · exact Or.inr ⟨hempty, t, hadopts.keeps (hafter _)⟩

/-- A step acquires at most the slot that `acquire_slot` returns. -/
theorem World.step_acquires {a : Action T} (hstep : w.step cfg a = some w') :
    ∃ acquired, w.sched.Acquires w'.sched acquired ∧
      ∀ s, acquired = some s → ∃ claimed, w.sched.acquireSlot = some (s, claimed) := by
  by_cases hmoves : a.movesFrame = false
  · exact ⟨none, (World.step_keeps hmoves hstep).trace, by simp⟩
  cases World.steps_of_step hstep with
  | createTask _ task =>
      rcases w.sched.schedule_cases task with ⟨-, hkeeps⟩ | ⟨-, -, s, hadopts⟩
      · exact ⟨none, hkeeps.trace, by simp⟩
      · exact ⟨some s, hadopts.trace, fun t ht => Option.some.inj ht ▸ hadopts.acquired⟩
  | coAwait s left awaitable =>
      cases awaitable with
      | task awaiter =>
          rcases w.awaitTask_cases s left (w.sched.slots s).handle awaiter with
            hkeeps | ⟨-, t, hadopts⟩
          · exact ⟨none, hkeeps.trace, by simp⟩
          · exact ⟨some t, hadopts.trace, fun u hu => Option.some.inj hu ▸ hadopts.acquired⟩
      | _ => exact absurd rfl hmoves
  | finish => exact ⟨none, (Scheduler.Keeps.afterFinish _ _).trace, by simp⟩
  | destroyed => exact ⟨none, .afterDestroy _ _, by simp⟩
  | _ => exact absurd rfl hmoves

/-- No step of the system begins or ends the teardown. -/
theorem World.step_shuttingDown {a : Action T} (hstep : w.step cfg a = some w') :
    w'.sched.shuttingDown = w.sched.shuttingDown := by
  by_cases hmoves : a.movesFrame = false
  · exact (World.step_keeps hmoves hstep).shuttingDown
  cases World.steps_of_step hstep with
  | createTask _ task =>
      rcases w.sched.schedule_cases task with ⟨-, hkeeps⟩ | ⟨-, -, s, hadopts⟩
      · exact hkeeps.shuttingDown
      · exact hadopts.shuttingDown
  | coAwait s left awaitable =>
      cases awaitable with
      | task awaiter =>
          rcases w.awaitTask_cases s left (w.sched.slots s).handle awaiter with
            hkeeps | ⟨-, t, hadopts⟩
          · exact hkeeps.shuttingDown
          · exact hadopts.shuttingDown
      | _ => exact absurd rfl hmoves
  | finish => rfl
  | destroyed => exact (w.sched.afterDestroy_frame _).2.2
  | _ => exact absurd rfl hmoves

/-- A slot that is not acquired holds no task that it did not hold before. -/
theorem Inv.occupied_before (h : Inv cfg w L) (h' : Inv cfg w' L') {acquired : Option (Fin N)}
    (hacquires : w.sched.Acquires w'.sched acquired) (hs : w'.sched.Occupied s)
    (hne : acquired ≠ some s) : w.sched.Occupied s := by
  obtain ⟨obs, htrace, hobs⟩ := hacquires
  obtain ⟨hfree, hcompleted⟩ := h.core.sound.chronicle.vacant_kept h'.core.sound.chronicle htrace
    fun g hg => hne (hobs s g hg)
  exact ⟨fun hstate => hs.1 (hfree hstate), fun hstate => hs.2 (hcompleted hstate)⟩

end SimpleAwait
