import SimpleAwait.Scheduler.Keeps

/-!
# How a slot comes to own a frame

`schedule` and `start_child_await` put a frame into a slot that holds no task, or leave the frame
to others.  `start_child_await` destroys the frame of a child that it rejects: it is cut there,
where user code runs, into `rejection` and `afterReject`.
-/

namespace SimpleAwait

/-- Why `start_child_await` rejects a child. -/
inductive Rejection (N : ℕ)
  /-- The awaiting coroutine is not the running task. -/
  | foreign
  /-- There is no slot for a child of `parent`. -/
  | noSlot (parent : Fin N)
  deriving DecidableEq

namespace Scheduler

variable {N : ℕ} (c : Scheduler N)

/-- The tests of `start_child_await`; `none` if the child is adopted. -/
def rejection (awaiting : Handle) : Option (Rejection N) :=
  match c.current with
  | none => some .foreign
  | some parent =>
      if c.isRunning awaiting then
        match c.acquireSlot with
        | none => some (.noSlot parent)
        | some _ => none
      else some .foreign

/-- What `start_child_await` does after `child.destroy()`. -/
def afterReject : Rejection N → Scheduler N
  | .foreign => c.report .invalidTask
  | .noSlot parent => ((c.setState parent .ready).readyPush parent).report .taskLimit

variable {c} {c' c'' : Scheduler N} {s : Fin N} {frame child awaiting : Handle}

/-- A rejected child is destroyed in between. -/
theorem startChildAwait_rejected {r : Rejection N} (h : c.rejection awaiting = some r) :
    c.startChildAwait child awaiting =
      ⟨decide (r ≠ .foreign), true, (c.record (.destroyed child)).afterReject r⟩ := by
  unfold rejection at h
  unfold startChildAwait
  cases hcurrent : c.current with
  | none =>
      rw [hcurrent] at h
      cases h
      rfl
  | some parent =>
      rw [hcurrent] at h
      dsimp only at h ⊢
      split_ifs at h ⊢
      · cases hacquire : c.acquireSlot with
        | none =>
            rw [hacquire] at h
            cases h
            rfl
        | some _ =>
            rw [hacquire] at h
            cases h
      · cases h
        rfl

/-- The parent of a child without a slot is the current task. -/
theorem current_of_rejection {p : Fin N} (h : c.rejection awaiting = some (.noSlot p)) :
    c.current = some p := by
  unfold rejection at h
  split at h
  · cases h
  · rename_i hcurrent
    split_ifs at h
    · split at h <;> cases h
      exact hcurrent
    · cases h

/-! ## Adoptions -/

/-- From `c` to `c'` the slot `s`, which held no task, takes the frame. -/
structure Adopts (c c' : Scheduler N) (s : Fin N) (frame : Handle) : Prop where
  acquired : ∃ claimed, c.acquireSlot = some (s, claimed)
  trace : Acquires c c' (some s)
  handle : ∀ t, (c'.slots t).handle = if t = s then frame else (c.slots t).handle
  occupied : ∀ t, t = s ∨ c.Occupied t → c'.Occupied t
  inPoll : c'.inPoll = c.inPoll
  shuttingDown : c'.shuttingDown = c.shuttingDown

theorem Adopts.vacant (h : Adopts c c' s frame) : ¬ c.Occupied s := by
  obtain ⟨claimed, hacquire⟩ := h.acquired
  obtain ⟨-, hstate, -⟩ := acquireSlot_spec hacquire
  exact fun hs => hstate.elim hs.1 hs.2

theorem Adopts.keeps (h : Adopts c c' s frame) (h' : c'.Keeps c'') : Adopts c c'' s frame where
  acquired := h.acquired
  trace := h.trace.trans h'.trace
  handle t := (h'.handle t).trans (h.handle t)
  occupied t ht := h'.occupied t (h.occupied t ht)
  inPoll := h'.inPoll.trans h.inPoll
  shuttingDown := h'.shuttingDown.trans h.shuttingDown

/-- An acquired slot is filled. -/
theorem Adopts.fill (hacquire : c.acquireSlot = some (s, c')) (frame : Handle)
    (parent : Option (Fin N)) : Adopts c (c'.adopt s frame parent) s frame := by
  obtain ⟨rfl, -, -⟩ := acquireSlot_spec hacquire
  refine ⟨⟨_, hacquire⟩, ?_, fun t => ?_, fun t ht => ?_, ?_, ?_⟩
  · have hclaim : Acquires c (c.claim s) (some s) := .one rfl (by simp)
    have hadopted : ((c.claim s).adopt s frame parent).trace =
        (c.claim s).trace ++ [.enqueued s ((c.slots s).generation + 1)] := by
      simp [adopt, claim]
    exact hclaim.trans (.one hadopted (by simp))
  · by_cases hts : t = s <;> simp [adopt, claim, hts]
  · by_cases hts : t = s
    · simp [adopt, Occupied, hts]
    · simpa [adopt, claim, Occupied, hts] using ht
  · simp [adopt, claim]
  · simp [adopt, claim]

theorem startChildAwait_adopts (h : c.rejection awaiting = none) (child : Handle) :
    ∃ s, Adopts c (c.startChildAwait child awaiting).sched s child := by
  unfold rejection at h
  unfold startChildAwait
  cases hcurrent : c.current with
  | none =>
      rw [hcurrent] at h
      cases h
  | some parent =>
      rw [hcurrent] at h
      dsimp only at h ⊢
      split_ifs at h ⊢
      cases hacquire : c.acquireSlot with
      | none =>
          rw [hacquire] at h
          cases h
      | some r =>
          have hadopts := Adopts.fill hacquire child (some parent)
          exact ⟨r.1, hadopts.keeps (.setState _ _ ⟨by simp, by simp⟩)⟩

/-- `schedule` leaves the frame to the caller, or takes it into a slot. -/
theorem schedule_cases (c : Scheduler N) (task : Handle) :
    (c.schedule task).task = task ∧ c.Keeps (c.schedule task).sched ∨
      (c.schedule task).task = none ∧ c.shuttingDown = false ∧
        ∃ s, Adopts c (c.schedule task).sched s task := by
  unfold schedule
  split_ifs with hdown
  · exact Or.inl ⟨rfl, .refl c⟩
  · cases task with
    | none => exact Or.inl ⟨rfl, .report c _⟩
    | some frame =>
        dsimp only
        split
        · exact Or.inl ⟨rfl, .report c _⟩
        · rename_i s claimed hacquire
          exact Or.inr ⟨rfl, Bool.eq_false_iff.mpr hdown, s, .fill hacquire _ _⟩

theorem Keeps.afterReject (c : Scheduler N) (r : Rejection N) : c.Keeps (c.afterReject r) := by
  cases r with
  | foreign => exact .report c _
  | noSlot parent => exact .of_wakes ((Wakes.enqueue c parent).trans (.report _ _))

/-- `start_child_await` moves no frame into a slot, or takes the child into one. -/
theorem startChildAwait_cases (c : Scheduler N) (child awaiting : Handle) :
    c.Keeps (c.startChildAwait child awaiting).sched ∨
      ∃ s, Adopts c (c.startChildAwait child awaiting).sched s child := by
  cases h : c.rejection awaiting with
  | none => exact Or.inr (startChildAwait_adopts h child)
  | some r =>
      rw [startChildAwait_rejected h]
      exact Or.inl ((Keeps.record c (by simp)).trans (.afterReject _ r))

/-- The end of a task acquires no slot. -/
theorem Acquires.afterDestroy (c : Scheduler N) (s : Fin N) : Acquires c (c.afterDestroy s) none := by
  unfold Scheduler.afterDestroy
  dsimp only
  split
  · exact .one rfl (by simp)
  · split
    · refine Acquires.trans (.one rfl ?_) (Keeps.of_wakes (.enqueue _ _)).trace
      simp
    · exact .one rfl (by simp)

end Scheduler

end SimpleAwait
