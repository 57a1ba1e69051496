import SimpleAwait.Scheduler.Calm

/-!
# The states that a call writes

`Shifts allowed c c'` says that from `c` to `c'` a slot keeps its state or comes to one that is allowed
for it.
-/

namespace SimpleAwait

variable {N : ℕ}

namespace Scheduler

/-- Every slot keeps its state, or is in a state that is allowed for it. -/
def Shifts (allowed : Fin N → State → Prop) (c c' : Scheduler N) : Prop :=
  ∀ s, (c'.slots s).state = (c.slots s).state ∨ allowed s (c'.slots s).state

namespace Shifts

variable {allowed : Fin N → State → Prop} {c c' c'' : Scheduler N}

theorem of_slots (hslots : c'.slots = c.slots) : Shifts allowed c c' :=
  fun s => Or.inl (by rw [hslots])

theorem refl (c : Scheduler N) : Shifts allowed c c := of_slots rfl

theorem trans (h : Shifts allowed c c') (h' : Shifts allowed c' c'') : Shifts allowed c c'' := by
  intro s
  rcases h' s with hsame | hallowed
  · rw [hsame]
    exact h s
  · exact Or.inr hallowed

variable (c) (s : Fin N)

theorem record (o : Obs N) : Shifts allowed c (c.record o) := of_slots rfl

theorem count (n : ℕ) : Shifts allowed c { c with activeCount := n } := of_slots rfl

theorem timed (deadline : Tick) : Shifts allowed c { c with nearestDeadline := deadline } :=
  of_slots rfl

theorem returned : Shifts allowed c { c with current := none } := of_slots rfl

theorem modify {f : Slot N → Slot N} (hf : (f (c.slots s)).state = (c.slots s).state ∨
    allowed s (f (c.slots s)).state) : Shifts allowed c (c.modify s f) := by
  intro t
  by_cases hts : t = s
  · subst hts
    simpa using hf
  · exact Or.inl (by simp [hts])

theorem setState {state : State} (hstate : allowed s state) :
    Shifts allowed c (c.setState s state) := modify c s (Or.inr hstate)

theorem readyPush : Shifts allowed c (c.readyPush s) :=
  fun t => Or.inl (by rw [readyPush_slots])

/-- A slot goes to the end of the ready FIFO. -/
theorem enqueue (hs : allowed s .ready) : Shifts allowed c ((c.setState s .ready).readyPush s) :=
  (setState c s hs).trans (readyPush _ s)

theorem wakeSlot {o : Option (Fin N)} (ho : ∀ s, o = some s → allowed s .ready) :
    Shifts allowed c (c.wakeSlot o) := by
  cases o with
  | none => exact refl c
  | some s => exact enqueue c s (ho s rfl)

/-! ## Slots that are filled and emptied -/

theorem acquire {s : Fin N} (h : c.acquireSlot = some (s, c')) (hs : allowed s .ready)
    (frame : Handle) (parent : Option (Fin N)) : Shifts allowed c (c'.adopt s frame parent) := by
  obtain ⟨rfl, -, -⟩ := acquireSlot_spec h
  have hclaim : Shifts allowed c (c.claim s) := (modify c s (Or.inl rfl)).trans (record _ _)
  exact ((hclaim.trans (modify _ s (Or.inr hs))).trans (readyPush _ s)).trans (count _ _)

theorem schedule (task : Handle) (hacquire : ∀ frame s c', task = some frame →
      c.acquireSlot = some (s, c') → allowed s .ready) : Shifts allowed c (c.schedule task).sched := by
  unfold Scheduler.schedule
  split
  · exact refl c
  · split
    · exact record c _
    · split
      · exact record c _
      · rename_i frame _ s _ hslot
        exact acquire c hslot (hacquire frame s _ rfl hslot) _ _

/-- A completed task leaves its slot, and its parent goes on. -/
theorem afterDestroy (hs : allowed s .completed)
    (hparent : ∀ p, (c.slots s).parent = some p → (c.slots p).state = .waitingChild →
      allowed p .ready) : Shifts allowed c (c.afterDestroy s) := by
  have hcompleted : Shifts allowed c { (c.modify s fun slot =>
      { slot with handle := none, parent := none, state := .completed }).record
        (.completed s (c.slots s).generation) with activeCount := c.activeCount - 1 } :=
    ((modify c s (Or.inr hs)).trans (record _ _)).trans (count _ _)
  unfold Scheduler.afterDestroy
  dsimp only
  split
  · exact hcompleted
  · split
    · rename_i p hp hwaits
      refine hcompleted.trans (enqueue _ p (hparent p hp ?_))
      by_cases hps : p = s
      · subst hps
        simp at hwaits
      · simpa [hps] using hwaits
    · exact hcompleted

/-! ## The running slot -/

/-- The head of the ready FIFO is taken off and runs. -/
theorem pop (hs : allowed s .running) : Shifts allowed c ((c.unlinkFront s).enter s) := by
  intro t
  rw [enter_state, unlinkFront_state]
  split_ifs with hts
  · exact Or.inr (hts ▸ hs)
  · exact Or.inl rfl

/-- The slot has registered a wake source. -/
theorem afterSuspend (hs : (c.slots s).state ≠ .running ∨ allowed s .suspended) :
    Shifts allowed c (c.afterSuspend s) := by
  unfold Scheduler.afterSuspend
  dsimp only
  split
  · rename_i hrunning
    exact (returned c).trans (setState _ s (hs.resolve_left fun hne => hne hrunning))
  · exact returned c

theorem yieldCurrent (hcurrent : ∀ s, c.current = some s → allowed s .ready) :
    Shifts allowed c c.yieldCurrent := by
  unfold Scheduler.yieldCurrent
  split
  · exact refl c
  · exact enqueue c _ (hcurrent _ ‹_›)

theorem armCurrentTimer (duration : Tick)
    (hready : duration = 0 ∨ addOverflows c.now duration = true → ∀ s, c.current = some s →
      allowed s .ready)
    (htimer : duration ≠ 0 → addOverflows c.now duration = false → ∀ s, c.current = some s →
      allowed s .waitingTimer) : Shifts allowed c (c.armCurrentTimer duration) := by
  unfold Scheduler.armCurrentTimer
  split
  · exact refl c
  · rename_i s hs
    split_ifs with hzero
    · exact yieldCurrent c (hready (Or.inl hzero))
    · split
      · rename_i hnone
        exact (record c _).trans (yieldCurrent _ (hready (Or.inr (computeDeadline_eq_none.mp hnone))))
      · rename_i deadline hsome
        have hfits : addOverflows c.now duration = false := by
          by_contra hover
          rw [computeDeadline_eq_none.mpr (by simpa using hover)] at hsome
          cases hsome
        rw [armTimer_eq]
        exact (modify c s (Or.inr (htimer hzero hfits s hs))).trans (timed _ _)

theorem startChildAwait (child awaiting : Handle)
    (hacquire : ∀ s c', c.acquireSlot = some (s, c') → allowed s .ready)
    (hready : c.acquireSlot = none → ∀ s, c.current = some s → allowed s .ready)
    (hchild : c.acquireSlot ≠ none → ∀ s, c.current = some s → allowed s .waitingChild) :
    Shifts allowed c (c.startChildAwait child awaiting).sched := by
  have hrejected : Shifts allowed c ((c.record (.destroyed child)).report .invalidTask) :=
    (record c (.destroyed child)).trans (record _ (.error .invalidTask))
  unfold Scheduler.startChildAwait
  split
  · exact hrejected
  · rename_i parent hparent
    split
    · split
      · rename_i hnone
        exact ((record c _).trans (enqueue _ _ (hready hnone parent hparent))).trans (record _ _)
      · rename_i s _ hslot
        have hsome : c.acquireSlot ≠ none := by simp [hslot]
        exact (acquire c hslot (hacquire s _ hslot) _ _).trans
          (setState _ _ (hchild hsome parent hparent))
    · exact hrejected

theorem waitOn (hcurrent : ∀ s, c.current = some s → allowed s .waitingLocal) (q : WaitQueue N)
    (awaiting : Handle) : Shifts allowed c (c.waitOn q awaiting).2.1 := by
  unfold Scheduler.waitOn
  split
  · exact record c _
  · split
    · rename_i s hs _
      refine (setState c s (hcurrent s hs)).trans ?_
      rw [waitPush_eq]
      exact fun t => Or.inl (by simp)
    · exact record c _

theorem runningIs (awaiting : Handle) : Shifts allowed c (c.runningIs awaiting).2 := by
  unfold Scheduler.runningIs
  split
  · exact refl c
  · exact record c _

theorem parkRunning (hcurrent : ∀ s, c.current = some s → allowed s .waitingLocal) :
    Shifts allowed c c.parkRunning.2 := by
  unfold Scheduler.parkRunning
  split
  · exact refl c
  · exact setState c _ (hcurrent _ ‹_›)

end Shifts

end Scheduler

end SimpleAwait
