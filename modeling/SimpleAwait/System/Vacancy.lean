import SimpleAwait.System.Keeps

/-!
# Slots without a task

A slot that is free or completed owns no frame: `run_pass` clears the handle of a completed slot,
and only an adoption fills one.
-/

namespace SimpleAwait

variable {N : ℕ} {T : Type} {cfg : Config N} {w w' : World N T}

namespace Scheduler

/-- Every slot that is without a task in `c'` has lost its frame or had none. -/
def Empties (c c' : Scheduler N) : Prop :=
  ∀ s, ¬ c'.Occupied s → (c'.slots s).handle = none ∨
    ¬ c.Occupied s ∧ (c'.slots s).handle = (c.slots s).handle

namespace Empties

variable {c c' c'' : Scheduler N}

theorem of_keeps (h : c.Keeps c') : Empties c c' :=
  fun s hs => Or.inr ⟨fun hoccupied => hs (h.occupied s hoccupied), h.handle s⟩

theorem trans (h : Empties c c') (h' : Empties c' c'') : Empties c c'' := by
  intro s hs
  rcases h' s hs with hnone | ⟨hs', hhandle'⟩
  · exact Or.inl hnone
  · rw [hhandle']
    exact h s hs'

variable (c) (s : Fin N)

/-- A write that leaves the slot occupied, or without a frame. -/
theorem modify {f : Slot N → Slot N}
    (hf : ((f (c.slots s)).state ≠ .free ∧ (f (c.slots s)).state ≠ .completed) ∨
      (f (c.slots s)).handle = none) : Empties c (c.modify s f) := by
  intro t ht
  by_cases hts : t = s
  · subst hts
    rcases hf with hf | hf
    · exact absurd (by simpa [Occupied] using hf) ht
    · exact Or.inl (by simpa using hf)
  · refine Or.inr ⟨?_, by simp [hts]⟩
    simpa [Occupied, hts] using ht

theorem adopt (frame : Handle) (parent : Option (Fin N)) : Empties c (c.adopt s frame parent) := by
  have hfilled : Empties c (c.modify s fun slot =>
      { slot with handle := frame, state := .ready, next := none, parent := parent }) :=
    modify c s (Or.inl ⟨by simp, by simp⟩)
  refine hfilled.trans ?_
  intro t ht
  refine Or.inr ⟨?_, by simp [Scheduler.adopt]⟩
  simpa [Scheduler.adopt, Occupied] using ht

theorem claim : Empties c (c.claim s) := by
  intro t ht
  by_cases hts : t = s
  · subst hts
    exact Or.inr ⟨by simpa [Scheduler.claim, Occupied] using ht, by simp [Scheduler.claim]⟩
  · exact Or.inr ⟨by simpa [Scheduler.claim, Occupied, hts] using ht, by simp [Scheduler.claim, hts]⟩

theorem schedule (task : Handle) : Empties c (c.schedule task).sched := by
  unfold Scheduler.schedule
  split
  · exact of_keeps (.refl c)
  · split
    · exact of_keeps (.report c _)
    · split
      · exact of_keeps (.report c _)
      · rename_i hacquire
        rw [(acquireSlot_spec hacquire).1]
        exact (claim c _).trans (adopt _ _ _ _)

theorem startChildAwait (child awaiting : Handle) :
    Empties c (c.startChildAwait child awaiting).sched := by
  have hrecorded : c.Keeps (c.record (.destroyed child)) := .record c (by simp)
  have hrejected := hrecorded.trans (.report _ .invalidTask)
  unfold Scheduler.startChildAwait
  split
  · exact of_keeps hrejected
  · split
    · split
      · exact of_keeps (hrecorded.trans (.of_wakes ((Wakes.enqueue _ _).trans (.report _ _))))
      · rename_i hacquire
        rw [(acquireSlot_spec hacquire).1]
        refine ((claim c _).trans (adopt _ _ _ _)).trans (of_keeps (.setState _ _ ?_))
        exact ⟨by simp, by simp⟩
    · exact of_keeps hrejected

theorem afterDestroy : Empties c (c.afterDestroy s) := by
  have hcleared : Empties c (c.modify s fun slot =>
      { slot with handle := none, parent := none, state := .completed }) := modify c s (Or.inr rfl)
  unfold Scheduler.afterDestroy
  dsimp only
  split
  · exact hcleared
  · split
    · refine Empties.trans ?_ (of_keeps (.of_wakes (.enqueue _ _)))
      exact hcleared
    · exact hcleared

end Empties

/-- A slot without a task owns no frame. -/
def Vacant (c : Scheduler N) : Prop := ∀ s, ¬ c.Occupied s → (c.slots s).handle = none

theorem Vacant.empties {c c' : Scheduler N} (h : c.Vacant) (hempties : c.Empties c') : c'.Vacant := by
  intro s hs
  rcases hempties s hs with hnone | ⟨hs', hsame⟩
  · exact hnone
  · exact hsame.trans (h s hs')

end Scheduler

/-! ## The steps of the system -/

/-- An await on a `Task`, up to where the coroutine goes on or is left suspended. -/
theorem World.empties_awaitTask (w : World N T) (awaiting : Handle) (awaiter : TaskAwaiter)
    (s : Fin N) (left : ℕ) : w.sched.Empties
      (World.afterAwait s left (w.coAwait cfg awaiting (.task awaiter))).sched := by
  have hawait : w.sched.Empties (w.coAwait cfg awaiting (.task awaiter)).2.sched := by
    simp only [World.coAwait]
    split
    · exact .of_keeps (.report _ _)
    · exact .startChildAwait _ _ _
  unfold World.afterAwait
  split
  · exact hawait.trans (.of_keeps (.afterSuspend _ _))
  · exact hawait

/-- No step leaves a frame in a slot without a task. -/
theorem World.step_empties {a : Action T} (hstep : w.step cfg a = some w') :
    w.sched.Empties w'.sched := by
  by_cases hmoves : a.movesFrame = false
  · have hkeeps := World.step_keeps hmoves hstep
    exact fun s hs => Or.inr ⟨fun ho => hs (hkeeps.occupied s ho), hkeeps.handle s⟩
  · cases World.steps_of_step hstep with
    | createTask _ task => exact .schedule _ task
    | coAwait s left awaitable =>
        cases awaitable with
        | task awaiter => exact w.empties_awaitTask _ awaiter _ _
        | _ => exact absurd rfl hmoves
    | finish => exact .of_keeps (.afterFinish _ _)
    | destroyed => exact .afterDestroy _ _
    | _ => exact absurd rfl hmoves

theorem World.Reachable.vacant (hw : w.Reachable cfg) : w.sched.Vacant := by
  refine Transition.Reachable.induction (P := fun u => u.sched.Vacant) hw (fun _ _ => rfl) ?_
  intro u a u' hvacant hstep
  exact hvacant.empties (World.step_empties hstep)

end SimpleAwait
