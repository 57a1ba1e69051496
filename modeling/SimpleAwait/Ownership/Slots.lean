import SimpleAwait.Ownership.Objects
import SimpleAwait.System.Vacancy
import SimpleAwait.Teardown.Step

/-!
# The frames in the slots

`Slots w left` is what the scheduler contributes to the invariant of the owners: an empty slot
owns nothing, so that an adoption overwrites no frame, and the loop of `~Scheduler` has emptied the
slots that are not in `left`.  Each piece of the scheduler that moves a frame does so in one slot.
-/

namespace SimpleAwait

open Function

variable {N : ℕ} {T : Type} {cfg : Config N} {w w' : World N T} {left : List (Fin N)} {s : Fin N}
  {frame : Handle}

/-- What holds of the slots, of which `~Scheduler` has yet to visit `left`. -/
structure Slots (w : World N T) (left : List (Fin N)) : Prop where
  vacant : w.sched.Vacant
  polls : w.Polls
  releasing : ∀ s, w.control.releasing = some s → w.sched.Occupied s
  torn : left ≠ [] → w.sched.shuttingDown = true
  loop : w.sched.shuttingDown = true → w.control = .loop
  emptied : w.sched.shuttingDown = true → ∀ s ∉ left, (w.sched.slots s).handle = none

theorem World.slotFrame_of_ne (h : w.control.releasing ≠ some s) :
    w.slotFrame s = (w.sched.slots s).handle := if_neg h

namespace Slots

theorem initial : Slots (World.initial : World N T) [] where
  vacant _ _ := rfl
  polls := rfl
  releasing s hs := by cases hs
  torn hleft := absurd rfl hleft
  loop hdown := by cases hdown
  emptied hdown := by cases hdown

/-- Outside the teardown nothing is left to visit. -/
theorem running (h : Slots w left) (hcontrol : w.control ≠ .loop) :
    w.sched.shuttingDown = false ∧ left = [] := by
  have hdown : w.sched.shuttingDown = false :=
    Bool.eq_false_iff.mpr fun hdown => hcontrol (h.loop hdown)
  refine ⟨hdown, ?_⟩
  by_contra hleft
  rw [h.torn hleft] at hdown
  cases hdown

/-- No frame moves. -/
theorem keeps (h : Slots w left) (hkeeps : w.Keeps w') :
    Slots w' left ∧ w'.slotFrame = w.slotFrame := by
  have hreleasing := hkeeps.releasing h.polls
  constructor
  · exact {
      vacant := fun t ht =>
        (hkeeps.handle t).trans (h.vacant t fun ho => ht (hkeeps.occupied t ho))
      polls := hkeeps.polls h.polls
      releasing := fun t ht => hkeeps.occupied t (h.releasing t (hreleasing ▸ ht))
      torn := fun hleft => hkeeps.shuttingDown.trans (h.torn hleft)
      loop := fun hdown => by
        rw [hkeeps.shuttingDown] at hdown
        exact hkeeps.loop hdown (h.loop hdown)
      emptied := fun hdown t ht => by
        rw [hkeeps.shuttingDown] at hdown
        exact (hkeeps.handle t).trans (h.emptied hdown t ht) }
  · funext t
    rw [World.slotFrame, World.slotFrame, hreleasing, hkeeps.handle]

/-- A slot takes a frame. -/
theorem adopts (h : Slots w left) (w' : World N T) (hdown : w.sched.shuttingDown = false)
    (hadopts : w.sched.Adopts w'.sched s frame) (hinPoll : w'.control.inPoll = w.control.inPoll)
    (hreleasing : w'.control.releasing = w.control.releasing) :
    Slots w' left ∧ w.slotFrame s = none ∧ w'.slotFrame = update w.slotFrame s frame := by
  have hne : w.control.releasing ≠ some s := fun hs => hadopts.vacant (h.releasing s hs)
  have hdown' : w'.sched.shuttingDown = false := hadopts.shuttingDown.trans hdown
  refine ⟨?_, ?_, ?_⟩
  · exact {
      vacant := fun t ht => by
        have hts : t ≠ s := fun hts => ht (hadopts.occupied t (Or.inl hts))
        rw [hadopts.handle, if_neg hts]
        exact h.vacant t fun ho => ht (hadopts.occupied t (Or.inr ho))
      polls := (hadopts.inPoll.trans h.polls).trans hinPoll.symm
      releasing := fun t ht => hadopts.occupied t (Or.inr (h.releasing t (hreleasing ▸ ht)))
      torn := fun hleft => by
        rw [h.torn hleft] at hdown
        cases hdown
      loop := fun hdown => by
        rw [hdown'] at hdown
        cases hdown
      emptied := fun hdown => by
        rw [hdown'] at hdown
        cases hdown }
  · rw [World.slotFrame_of_ne hne]
    exact h.vacant s hadopts.vacant
  · funext t
    by_cases hts : t = s
    · rw [hts, update_self, World.slotFrame_of_ne (by rwa [hreleasing]), hadopts.handle, if_pos rfl]
    · rw [update_of_ne hts, World.slotFrame, World.slotFrame, hreleasing, hadopts.handle, if_neg hts]

/-- A task runs to its end, and `run_pass` begins to destroy its frame. -/
theorem finish (h : Slots w left) {rest : ℕ} (hcontrol : w.control = .body s rest)
    (hframe : (w.sched.slots s).handle ≠ none) :
    Slots { w with sched := w.sched.afterFinish s, control := .release s rest } left ∧
      w.slotFrame s = (w.sched.slots s).handle ∧
      World.slotFrame { w with sched := w.sched.afterFinish s, control := .release s rest } =
        update w.slotFrame s none := by
  obtain ⟨hdown, rfl⟩ := h.running (by simp [hcontrol])
  have hoccupied : w.sched.Occupied s := by
    by_contra hvacant
    exact hframe (h.vacant s hvacant)
  have hpolls := h.polls
  rw [World.Polls, hcontrol] at hpolls
  refine ⟨?_, ?_, ?_⟩
  · exact {
      vacant := h.vacant
      polls := hpolls
      releasing := fun t ht => by
        cases ht
        exact hoccupied
      torn := fun hleft => absurd rfl hleft
      loop := fun hdown' => by
        rw [show w.sched.shuttingDown = true from hdown'] at hdown
        cases hdown
      emptied := fun hdown' => by
        rw [show w.sched.shuttingDown = true from hdown'] at hdown
        cases hdown }
  · exact World.slotFrame_of_ne (by simp [hcontrol, Control.releasing])
  · funext t
    by_cases hts : t = s
    · rw [hts, update_self]
      exact if_pos rfl
    · rw [update_of_ne hts, World.slotFrame_of_ne, World.slotFrame_of_ne]
      · rfl
      · simp [hcontrol, Control.releasing]
      · simp [Control.releasing, Ne.symm hts]

/-- The frame of the completed task is destroyed. -/
theorem destroyed (h : Slots w left) {rest : ℕ} (hcontrol : w.control = .release s rest) :
    Slots { w with sched := w.sched.afterDestroy s, control := .pass rest } left ∧
      World.slotFrame { w with sched := w.sched.afterDestroy s, control := .pass rest } =
        w.slotFrame := by
  obtain ⟨hdown, rfl⟩ := h.running (by simp [hcontrol])
  obtain ⟨-, hinPoll, hdown'⟩ := w.sched.afterDestroy_frame s
  have hpolls := h.polls
  rw [World.Polls, hcontrol] at hpolls
  have hhandle := (w.sched.afterDestroy_slot s).2
  constructor
  · exact {
      vacant := h.vacant.empties (.afterDestroy _ _)
      polls := hinPoll.trans hpolls
      releasing := fun t ht => by cases ht
      torn := fun hleft => absurd rfl hleft
      loop := fun hdown'' => by
        rw [← hdown', show (w.sched.afterDestroy s).shuttingDown = true from hdown''] at hdown
        cases hdown
      emptied := fun hdown'' => by
        rw [← hdown', show (w.sched.afterDestroy s).shuttingDown = true from hdown''] at hdown
        cases hdown }
  · funext t
    rw [World.slotFrame_of_ne (by simp [Control.releasing]), World.slotFrame, hcontrol]
    show ((w.sched.afterDestroy s).slots t).handle = _
    rw [hhandle]
    simp [Control.releasing, eq_comm]

/-! ## The teardown -/

/-- `~Scheduler` begins. -/
theorem shutDown (h : Slots w left) (hcontrol : w.control = .loop) :
    Slots { w with sched := { w.sched with shuttingDown := true } } (List.finRange N) where
  vacant := h.vacant
  polls := h.polls
  releasing := h.releasing
  torn _ := rfl
  loop _ := hcontrol
  emptied _ t ht := absurd (List.mem_finRange t) ht

/-- `~Scheduler` skips a slot that owns no frame. -/
theorem skip (h : Slots w (s :: left)) (hnone : w.sched.ownedFrame s = none) : Slots w left where
  vacant := h.vacant
  polls := h.polls
  releasing := h.releasing
  torn _ := h.torn (by simp)
  loop := h.loop
  emptied hdown t ht := by
    by_cases hts : t = s
    · rw [Scheduler.ownedFrame] at hnone
      split_ifs at hnone with hcompleted
      · exact h.vacant t fun ho => ho.2 (hts ▸ hcompleted)
      · rw [hts, hnone]
    · exact h.emptied hdown t (by simp [hts, ht])

/-- `~Scheduler` detaches a slot from its frame. -/
theorem detach (h : Slots w (s :: left)) {frame : Frame}
    (hframe : w.sched.ownedFrame s = some frame) :
    Slots { w with sched := w.sched.detach s frame } left ∧ w.slotFrame s = some frame ∧
      World.slotFrame { w with sched := w.sched.detach s frame } = update w.slotFrame s none := by
  have hcontrol := h.loop (h.torn (by simp))
  have hnone : ∀ t, w.control.releasing ≠ some t := by simp [hcontrol, Control.releasing]
  rw [Scheduler.ownedFrame] at hframe
  split_ifs at hframe
  refine ⟨?_, ?_, ?_⟩
  · exact {
      vacant := fun t ht => by
        by_cases hts : t = s
        · simp [Scheduler.detach, hts]
        · have hvacant := h.vacant t
          simp only [Scheduler.Occupied, Scheduler.detach, Scheduler.record_slots,
            Scheduler.modify_slots, if_neg hts] at ht hvacant ⊢
          exact hvacant ht
      polls := h.polls
      releasing := fun t ht => absurd ht (hnone t)
      torn := fun _ => h.torn (by simp)
      loop := h.loop
      emptied := fun hdown t ht => by
        by_cases hts : t = s
        · simp [Scheduler.detach, hts]
        · have hempty := h.emptied hdown t (by simp [hts, ht])
          simpa [Scheduler.detach, hts] using hempty }
  · rw [World.slotFrame_of_ne (hnone s), hframe]
  · funext t
    have hafter : World.slotFrame { w with sched := w.sched.detach s frame } t =
        ((w.sched.detach s frame).slots t).handle := World.slotFrame_of_ne (hnone t)
    rw [hafter]
    by_cases hts : t = s
    · rw [hts, update_self]
      simp [Scheduler.detach]
    · rw [update_of_ne hts, World.slotFrame_of_ne (hnone t)]
      simp [Scheduler.detach, hts]

end Slots

end SimpleAwait
