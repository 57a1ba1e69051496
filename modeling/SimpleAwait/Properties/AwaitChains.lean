import SimpleAwait.Library.Forest
import SimpleAwait.Properties.Consistency
import SimpleAwait.System.Acquisitions
import SimpleAwait.System.Parents

/-!
# Chains of child awaits

A child is adopted in a slot that holds no task and is linked to the running slot, so that no chain of
parents returns to where it began.  Whoever waits for a child waits, at the end of a chain of such
waits, for a task that does not.
-/

namespace SimpleAwait

open Transition

variable {N : ℕ} {T : Type} {cfg : Config N} {w w' : World N T} {L L' : Layout N} {p s : Fin N}

namespace Scheduler

/-- The parent links of all slots. -/
def parents (c : Scheduler N) (s : Fin N) : Option (Fin N) := (c.slots s).parent

/-! ## New links -/

theorem parents_of_schedule (c : Scheduler N) (task : Handle)
    (h : (c.schedule task).sched.parents s = some p) : c.parents s = some p := by
  unfold schedule at h
  split_ifs at h
  · exact h
  · cases task with
    | none => exact h
    | some frame =>
        cases hacquire : c.acquireSlot with
        | none =>
            rw [hacquire] at h
            exact h
        | some r =>
            obtain ⟨t, claimed⟩ := r
            obtain ⟨rfl, -, -⟩ := acquireSlot_spec hacquire
            simp only [hacquire, parents, adopt, claim, readyPush_slots, modify_slots,
              record_slots] at h
            split_ifs at h with hst
            exact h

theorem parents_of_startChildAwait (c : Scheduler N) (child awaiting : Handle)
    (h : (c.startChildAwait child awaiting).sched.parents s = some p) :
    c.parents s = some p ∨ c.current = some p := by
  unfold startChildAwait at h
  cases hcurrent : c.current with
  | none =>
      rw [hcurrent] at h
      exact Or.inl h
  | some q =>
      rw [hcurrent] at h
      dsimp only at h
      split_ifs at h
      · cases hacquire : c.acquireSlot with
        | none =>
            left
            simpa [hacquire, parents, report] using h
        | some r =>
            obtain ⟨t, claimed⟩ := r
            obtain ⟨rfl, -, -⟩ := acquireSlot_spec hacquire
            simp only [hacquire, parents, setState_parent, adopt, claim, readyPush_slots,
              modify_slots, record_slots] at h
            split_ifs at h
            · exact Or.inr h
            · exact Or.inl h
      · exact Or.inl h

theorem parents_afterSuspend (c : Scheduler N) (t : Fin N) :
    (c.afterSuspend t).parents s = c.parents s := by
  unfold afterSuspend
  dsimp only
  split
  · exact setState_parent ..
  · rfl

theorem parents_of_afterDestroy (c : Scheduler N) {t : Fin N}
    (h : (c.afterDestroy t).parents s = some p) : c.parents s = some p := by
  unfold afterDestroy at h
  dsimp only at h
  split at h
  · simp only [parents, record_slots, modify_slots] at h
    split_ifs at h
    exact h
  · split at h <;> simp only [parents, readyPush_slots, setState_parent, record_slots,
      modify_slots] at h <;> split_ifs at h <;> exact h

end Scheduler

/-- An await on a `Task` links a child to the running slot only. -/
theorem World.parents_of_awaitTask (w : World N T) (r : Fin N) (left : ℕ) (awaiting : Handle)
    (awaiter : TaskAwaiter)
    (h : (World.afterAwait r left
      (w.coAwait cfg awaiting (.task awaiter))).sched.parents s = some p) :
    w.sched.parents s = some p ∨ w.sched.current = some p := by
  have hawait : (w.coAwait cfg awaiting (.task awaiter)).2.sched.parents s = some p := by
    unfold World.afterAwait at h
    split at h
    · rwa [World.suspend, Scheduler.parents_afterSuspend] at h
    · exact h
  simp only [World.coAwait] at hawait
  split at hawait
  · exact Or.inl hawait
  · exact w.sched.parents_of_startChildAwait _ _ hawait

/-- A step links only a slot that held no task, and only to the current slot. -/
theorem Inv.step_parents (h : Inv cfg w L) (h' : Inv cfg w' L') {a : Action T}
    (hstep : w.step cfg a = some w') (hs : w'.sched.parents s = some p) :
    w.sched.parents s = some p ∨ ¬ w.sched.Occupied s ∧ w.sched.current = some p := by
  by_cases hoccupied : w.sched.Occupied s
  · left
    cases h.step_rouses hstep with
    | nobody hspares =>
        rw [← hs]
        exact (hspares.tenant s hoccupied).2.2.symm
    | clock _ hslots _ => rwa [Scheduler.parents, hslots] at hs
    | due _ hsched =>
        rw [hsched, Scheduler.parents, h.core.sound.timers.processDueTimers_slots] at hs
        exact hs
    | parent _ hsched => exact w.sched.parents_of_afterDestroy (by rwa [hsched] at hs)
  · have halive : w'.sched.Occupied s := by
      have hkin := h'.core.sound.kin
      have hactive := Place.active_iff_state.mp (hkin.alive s p ((hkin.parent s p).mp hs))
      rwa [← h'.core.sound.threaded.state] at hactive
    -- a step that acquires no slot fills none
    have hfills : ¬ w.sched.Acquires w'.sched none := fun hnone =>
      hoccupied (h.occupied_before h' hnone halive (by simp))
    have hmoves : a.movesFrame = true := by
      by_contra hnot
      exact hfills (World.step_keeps (by simpa using hnot) hstep).trace
    cases World.steps_of_step hstep with
    | createTask _ task => exact Or.inl (w.sched.parents_of_schedule task hs)
    | coAwait r left awaitable hcontrol hflag =>
        cases awaitable with
        | task awaiter =>
            exact (w.parents_of_awaitTask r left _ awaiter hs).imp_right fun hcurrent =>
              ⟨hoccupied, hcurrent⟩
        | _ => cases hmoves
    | finish => exact Or.inl hs
    | destroyed r left => exact Or.inl (w.sched.parents_of_afterDestroy hs)
    | _ => cases hmoves

/-! ## Chains -/

/-- The current slot holds a task. -/
theorem Inv.occupied_current (h : Inv cfg w L) (hp : w.sched.current = some p) :
    w.sched.Occupied p := by
  have hplace : L.place p = .running := by
    rw [h.staged.running]
    have := h.staged.current.symm.trans hp
    cases hctl : w.control <;> simp_all [Control.current, Control.running]
  have hstate := h.core.sound.threaded.state p
  rw [hplace, Place.state_running] at hstate
  simp [Scheduler.Occupied, hstate]

/-- No chain of parents returns to where it began. -/
theorem World.Reachable.parents_acyclic (hw : w.Reachable cfg) :
    Forest.Acyclic w.sched.parents := by
  have hall : w.Reachable cfg ∧ Forest.Acyclic w.sched.parents := by
    apply Transition.Reachable.induction (P := fun u => World.Reachable cfg u ∧
      Forest.Acyclic u.sched.parents) hw
    · exact ⟨.refl, .of_none⟩
    · rintro u a u' ⟨hu, hacyclic⟩ hstep
      have hu' : u'.Reachable cfg := hu.succ hstep
      obtain ⟨L, hinv⟩ := hu.inv
      obtain ⟨L', hinv'⟩ := hu'.inv
      refine ⟨hu', hacyclic.graft (fun s => ¬ u.sched.Occupied s) ?_ ?_
        fun c p hc => hinv.step_parents hinv' hstep hc⟩
      · intro p hcurrent hvacant
        exact hvacant (hinv.occupied_current hcurrent)
      · intro s hvacant c hc
        -- whoever is a parent waits for its child
        have hplace := (hinv.core.sound.kin.parent c s).mp hc
        have hstate := hinv.core.sound.threaded.state s
        rw [hplace, Place.state_child] at hstate
        exact hvacant (by simp [Scheduler.Occupied, hstate])
  exact hall.2

/-- A task that waits for its child waits, at the end of a chain of such waits, for a task that does
not.  Every slot of the chain but the last waits for the next one, whose parent it is, and no slot
occurs twice. -/
theorem await_chain_ends (hw : w.Reachable cfg) (hp : (w.sched.slots p).state = .waitingChild) :
    ∃ (chain : List (Fin N)) (s : Fin N),
      (p :: (chain ++ [s])).IsChain (fun p c => (w.sched.slots p).state = .waitingChild ∧
        (w.sched.slots c).parent = some p) ∧
      (p :: (chain ++ [s])).Nodup ∧ w.sched.Occupied s ∧
      (w.sched.slots s).state ≠ .waitingChild := by
  obtain ⟨L, hinv⟩ := hw.inv
  have hkin := hinv.core.sound.kin
  have hthreaded := hinv.core.sound.threaded
  have hchild : ∀ p, (w.sched.slots p).state = .waitingChild →
      ∃ c, w.sched.parents c = some p := by
    intro p hp
    rw [hthreaded.state] at hp
    obtain ⟨c, hc⟩ := Place.eq_child_of_state hp
    exact ⟨c, (hkin.parent c p).mpr hc⟩
  obtain ⟨chain, hlinked, hnodup, hlast⟩ := hw.parents_acyclic.exists_chain p
  rcases List.eq_nil_or_concat chain with rfl | ⟨init, s, rfl⟩
  · obtain ⟨c, hc⟩ := hchild p hp
    exact absurd hc (hlast c)
  · rw [List.concat_eq_append] at hlinked hnodup
    have hlast : ∀ c, w.sched.parents c ≠ some s := by
      simpa using hlast
    refine ⟨init, s, hlinked.imp fun p c hc => ⟨?_, hc⟩, hnodup, ?_, fun hs => ?_⟩
    · rw [hthreaded.state, (hkin.parent c p).mp hc, Place.state_child]
    · -- the last slot of the chain is the child of the one before it
      obtain ⟨q, hq⟩ : ∃ q, w.sched.parents s = some q := by
        rw [← List.cons_append, List.isChain_append] at hlinked
        exact ⟨_, hlinked.2.2 _ (List.getLast?_eq_some_getLast (List.cons_ne_nil p init)) s rfl⟩
      have hactive := Place.active_iff_state.mp (hkin.alive s q ((hkin.parent s q).mp hq))
      rwa [← hthreaded.state] at hactive
    · obtain ⟨c, hc⟩ := hchild s hs
      exact hlast c hc

/-- A task waits for its child, which waits for a child of its own. -/
theorem await_chain_ends_small :
    let actions : List (Action ℕ) := [.createTask (some 1), .poll false 0, .checkPending,
      .startPass, .passPop, .coAwait (.task (.ofTask (some 2))), .endPass 0, .poll false 1,
      .checkPending, .startPass, .passPop, .coAwait (.task (.ofTask (some 3)))]
    let w := World.after .small actions
    (w.sched.slots 0).state = .waitingChild ∧ (w.sched.slots 1).state = .waitingChild ∧
      ∃ (chain : List (Fin 3)) (s : Fin 3), (0 :: (chain ++ [s])).Nodup ∧ w.sched.Occupied s ∧
        (w.sched.slots s).state ≠ .waitingChild := by
  intro actions w
  have hwaits : (w.sched.slots 0).state = .waitingChild := by decide
  obtain ⟨chain, s, -, hnodup, hoccupied, hstate⟩ :=
    await_chain_ends (.after .small (by decide) : w.Reachable .small) hwaits
  exact ⟨hwaits, by decide, chain, s, hnodup, hoccupied, hstate⟩

end SimpleAwait
