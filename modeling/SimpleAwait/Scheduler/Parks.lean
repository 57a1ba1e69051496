import SimpleAwait.Primitives.Queue
import SimpleAwait.Scheduler.Calm

/-!
# Calls that leave the waiting slots linked

The wait queues of all events and the ready FIFO share one link per slot.  `Parks p c c'` says that
`c'` comes from `c` by calls that suspend no slot in `waiting_local` but `p`, and that leave the
link of every other slot that goes on waiting.  A call may write to the link of the slot behind which
it appends, which is why the tail of the ready FIFO must not be waiting.  The calls of `WaitQueue`
alone link waiting slots.
-/

namespace SimpleAwait

variable {N : ℕ} {T : Type}

namespace Scheduler

/-- The tail of the ready FIFO does not wait, unless it is `p`. -/
def TailAwake (p : Option (Fin N)) (c : Scheduler N) : Prop :=
  ∀ s, p ≠ some s → c.readyTail = some s → (c.slots s).state ≠ .waitingLocal

/-- From `c` to `c'` no slot but `p` is parked, and every other that still waits keeps its link. -/
structure Parks (p : Option (Fin N)) (c c' : Scheduler N) : Prop where
  tail : c.TailAwake p → c'.TailAwake p
  waiting : c.TailAwake p → ∀ s, p ≠ some s → (c'.slots s).state = .waitingLocal →
    (c.slots s).state = .waitingLocal ∧ c'.next s = c.next s

namespace Parks

variable {p : Option (Fin N)} {c c' c'' : Scheduler N}

theorem of_slots (hslots : c'.slots = c.slots) (htail : c'.readyTail = c.readyTail) :
    Parks p c c' where
  tail h := by
    intro s hp hs
    rw [hslots]
    exact h s hp (htail ▸ hs)
  waiting _ s _ hs := by
    rw [hslots] at hs
    exact ⟨hs, by rw [next, next, hslots]⟩

theorem refl (c : Scheduler N) : Parks p c c := of_slots rfl rfl

theorem trans (h : Parks p c c') (h' : Parks p c' c'') : Parks p c c'' where
  tail htail := h'.tail (h.tail htail)
  waiting htail s hp hs := by
    obtain ⟨hs', hnext'⟩ := h'.waiting (h.tail htail) s hp hs
    obtain ⟨hs'', hnext⟩ := h.waiting htail s hp hs'
    exact ⟨hs'', hnext'.trans hnext⟩

variable (c) (s : Fin N)

theorem record (o : Obs N) : Parks p c (c.record o) := of_slots rfl rfl

theorem report (e : Error) : Parks p c (c.report e) := record c _

theorem count (n : ℕ) : Parks p c { c with activeCount := n } := of_slots rfl rfl

theorem timed (deadline : Tick) : Parks p c { c with nearestDeadline := deadline } :=
  of_slots rfl rfl

theorem returned : Parks p c { c with current := none } := of_slots rfl rfl

/-- A slot is written that does not wait afterwards, or that is `p`. -/
theorem modify {f : Slot N → Slot N} (hf : (f (c.slots s)).state ≠ .waitingLocal ∨ p = some s) :
    Parks p c (c.modify s f) where
  tail h := by
    intro t hp ht
    by_cases hts : t = s
    · subst hts
      simpa using hf.resolve_right hp
    · simpa [hts] using h t hp ht
  waiting h t hp ht := by
    have hts : t ≠ s := by
      rintro rfl
      simp only [modify_slots, if_true] at ht
      exact hf.elim (fun hf => hf ht) hp
    simp only [modify_slots, hts, if_false] at ht
    exact ⟨ht, by simp [next, hts]⟩

theorem setState {state : State} (hstate : state ≠ .waitingLocal) : Parks p c (c.setState s state) :=
  modify c s (Or.inl hstate)

/-- A slot that does not wait is appended to the ready FIFO. -/
theorem readyPush (hs : (c.slots s).state ≠ .waitingLocal) : Parks p c (c.readyPush s) where
  tail _ := by
    intro t _ ht
    simp only [readyPush_readyTail, Option.some.injEq] at ht
    subst ht
    simpa using hs
  waiting h t hp ht := by
    simp only [readyPush_slots] at ht
    refine ⟨ht, ?_⟩
    rw [next_readyPush]
    refine Intrusive.pushNext_of_ne ?_ fun htail => h t hp htail ht
    rintro rfl
    exact hs ht

/-- A slot is made ready. -/
theorem enqueue : Parks p c ((c.setState s .ready).readyPush s) :=
  (setState c s (by simp)).trans (readyPush _ s (by simp))

theorem wakeSlot (s : Option (Fin N)) : Parks p c (c.wakeSlot s) := by
  cases s with
  | none => exact refl c
  | some s => exact enqueue c s

theorem adopt (frame : Handle) (parent : Option (Fin N)) : Parks p c (c.adopt s frame parent) :=
  ((modify c s (Or.inl (by simp))).trans (readyPush _ s (by simp))).trans (count _ _)

theorem acquireSlot {s : Fin N} (h : c.acquireSlot = some (s, c')) : Parks p c c' := by
  obtain ⟨rfl, hvacant, -⟩ := acquireSlot_spec h
  refine (modify c s (Or.inl ?_)).trans (record _ _)
  rcases hvacant with hs | hs <;> simp [hs]

theorem schedule (task : Handle) : Parks p c (c.schedule task).sched := by
  unfold Scheduler.schedule
  split
  · exact refl c
  · split
    · exact report c _
    · split
      · exact report c _
      · rename_i hacquire
        exact (acquireSlot c hacquire).trans (adopt _ _ _ _)

/-- The head of the ready FIFO is taken off and runs. -/
theorem pop : Parks p c ((c.unlinkFront s).enter s) where
  tail h := by
    intro t hp ht
    rw [enter_state]
    split_ifs with hts
    · simp
    · rw [unlinkFront_state]
      refine h t hp ?_
      rw [enter_readyTail, unlinkFront_readyTail] at ht
      cases hnext : c.next s with
      | none => simp [hnext, Intrusive.popTail] at ht
      | some u => simpa [hnext, Intrusive.popTail] using ht
  waiting h t hp ht := by
    rw [enter_state] at ht
    split_ifs at ht with hts
    rw [unlinkFront_state] at ht
    exact ⟨ht, by rw [enter_next, unlinkFront_next _ hts]⟩

theorem afterSuspend : Parks p c (c.afterSuspend s) := by
  unfold Scheduler.afterSuspend
  dsimp only
  split
  · exact (returned c).trans (setState _ s (by simp))
  · exact returned c

theorem afterFinish : Parks p c (c.afterFinish s) := (returned c).trans (record _ _)

theorem afterDestroy : Parks p c (c.afterDestroy s) := by
  have hcounted : Parks p c { (c.modify s fun slot =>
      { slot with handle := none, parent := none, state := .completed }).record
        (.completed s (c.slots s).generation) with activeCount := c.activeCount - 1 } :=
    ((modify c s (Or.inl (by simp))).trans (record _ _)).trans (count _ _)
  unfold Scheduler.afterDestroy
  dsimp only
  split
  · exact hcounted
  · split
    · exact hcounted.trans (enqueue _ _)
    · exact hcounted

theorem yieldCurrent : Parks p c c.yieldCurrent := by
  unfold Scheduler.yieldCurrent
  split
  · exact refl c
  · exact enqueue c _

theorem armCurrentTimer (duration : Tick) : Parks p c (c.armCurrentTimer duration) := by
  unfold Scheduler.armCurrentTimer
  split
  · exact refl c
  · split_ifs
    · exact yieldCurrent c
    · split
      · exact (report c _).trans (yieldCurrent _)
      · rename_i s _ _ _ deadline _
        rw [armTimer_eq]
        exact (modify c s (f := fun slot => { slot with deadline := deadline, state := .waitingTimer })
          (Or.inl (by simp))).trans (timed _ _)

theorem startChildAwait (child awaiting : Handle) :
    Parks p c (c.startChildAwait child awaiting).sched := by
  have hrejected := (record (p := p) c (.destroyed child)).trans (report _ .invalidTask)
  unfold Scheduler.startChildAwait
  split
  · exact hrejected
  · split
    · split
      · exact ((record c _).trans (enqueue _ _)).trans (report _ _)
      · rename_i hacquire
        exact ((acquireSlot c hacquire).trans (adopt _ _ _ _)).trans (setState _ _ (by simp))
    · exact hrejected

theorem runningIs (awaiting : Handle) : Parks p c (c.runningIs awaiting).2 := by
  unfold Scheduler.runningIs
  split
  · exact refl c
  · exact report c _

/-- The running slot is the one that parks. -/
theorem parkRunning (hcurrent : c.current = p) : Parks p c c.parkRunning.2 := by
  unfold Scheduler.parkRunning
  split
  · exact refl c
  · rename_i s hs
    show Parks p c (c.setState s .waitingLocal)
    exact modify c s (Or.inr (hcurrent.symm.trans hs))

theorem dueTimersLoop (fuel : ℕ) (c : Scheduler N) : Parks p c (Scheduler.dueTimersLoop fuel c) := by
  induction fuel generalizing c with
  | zero => exact refl c
  | succ fuel ih =>
      unfold Scheduler.dueTimersLoop
      split
      · exact refl c
      · exact (enqueue c _).trans (ih _)

theorem processDueTimers : Parks p c c.processDueTimers := by
  unfold Scheduler.processDueTimers
  split
  · exact refl c
  · exact (dueTimersLoop N c).trans (timed _ _)

theorem doSend (q : Queue N T) (cap : ℕ) (v : Option T) (source : Option Storage) :
    Parks p c (q.doSend cap c v source).2.1 := by
  unfold Queue.doSend
  split
  · exact wakeSlot c _
  · split <;> exact refl c

theorem admitOldestSender (q : Queue N T) (cap : ℕ) :
    Parks p c (q.admitOldestSender cap c).1 := by
  unfold Queue.admitOldestSender
  split
  · exact refl c
  · exact wakeSlot c _

theorem tryReceive (q : Queue N T) (cap : ℕ) : Parks p c (q.tryReceive cap c).2.1 := by
  unfold Queue.tryReceive
  split
  · exact refl c
  · exact admitOldestSender c _ cap

theorem receiveReady (q : Queue N T) (cap a : ℕ) : Parks p c (q.receiveReady cap a c).2.1 := by
  unfold Queue.receiveReady
  split
  · exact refl c
  · exact admitOldestSender c _ cap

end Parks

end Scheduler

end SimpleAwait
