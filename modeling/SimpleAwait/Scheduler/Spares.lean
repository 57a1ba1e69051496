import SimpleAwait.Scheduler.Calm

/-!
# Calls that wake no sleeper

A slot that waits for its deadline or for its child is asleep.  `Spares c c'` says that `c'`
comes from `c` without waking, moving or replacing a sleeper: all calls do, as long as the slots
that they make ready or suspend are not asleep themselves.  Only `process_due_timers` and the
completion of a child wake sleepers.
-/

namespace SimpleAwait

namespace Scheduler

variable {N : ℕ}

/-- The slot waits for its deadline or for its child. -/
def Asleep (c : Scheduler N) (s : Fin N) : Prop :=
  (c.slots s).state = .waitingTimer ∨ (c.slots s).state = .waitingChild

/-- `c'` comes from `c` by calls that wake no sleeper. -/
structure Spares (c c' : Scheduler N) : Prop where
  now : c'.now = c.now
  asleep : ∀ s, c.Asleep s → (c'.slots s).state = (c.slots s).state ∧
    (c'.slots s).deadline = (c.slots s).deadline
  /-- Every task keeps its frame and its parent. -/
  tenant : ∀ s, c.Occupied s → c'.Occupied s ∧ (c'.slots s).handle = (c.slots s).handle ∧
    (c'.slots s).parent = (c.slots s).parent

variable {c c' c'' : Scheduler N} {s : Fin N}

theorem Asleep.occupied (h : c.Asleep s) : c.Occupied s := by
  rcases h with h | h <;> simp [Occupied, h]

theorem Asleep.congr (h : c.Asleep s) (hstate : (c'.slots s).state = (c.slots s).state) :
    c'.Asleep s := by
  simpa only [Asleep, hstate] using h

theorem not_asleep_of_running (h : (c.slots s).state = .running) : ¬ c.Asleep s := by
  simp [Asleep, h]

theorem not_asleep_of_waitingLocal (h : (c.slots s).state = .waitingLocal) : ¬ c.Asleep s := by
  simp [Asleep, h]

namespace Spares

theorem of_slots (hslots : c'.slots = c.slots) (hnow : c'.now = c.now) : Spares c c' where
  now := hnow
  asleep t _ := by rw [hslots]; exact ⟨rfl, rfl⟩
  tenant t ht := by simpa [Occupied, hslots] using ht

theorem refl (c : Scheduler N) : Spares c c := of_slots rfl rfl

theorem trans (h : Spares c c') (h' : Spares c' c'') : Spares c c'' where
  now := h'.now.trans h.now
  asleep t ht := by
    obtain ⟨hstate, hdeadline⟩ := h.asleep t ht
    obtain ⟨hstate', hdeadline'⟩ := h'.asleep t (ht.congr hstate)
    exact ⟨hstate'.trans hstate, hdeadline'.trans hdeadline⟩
  tenant t ht := by
    obtain ⟨ht', hhandle, hparent⟩ := h.tenant t ht
    obtain ⟨ht'', hhandle', hparent'⟩ := h'.tenant t ht'
    exact ⟨ht'', hhandle'.trans hhandle, hparent'.trans hparent⟩

variable (c)

/-- A slot that holds no task is written. -/
theorem modify_vacant {f : Slot N → Slot N} (hs : ¬ c.Occupied s) : Spares c (c.modify s f) where
  now := rfl
  asleep t ht := by
    have hts : t ≠ s := fun he => hs (he ▸ ht.occupied)
    simp [hts]
  tenant t ht := by
    have hts : t ≠ s := fun he => hs (he ▸ ht)
    simpa [Occupied, hts] using ht

/-- A slot that is awake is written, and its task stays. -/
theorem modify_awake {f : Slot N → Slot N} (hs : ¬ c.Asleep s)
    (hoccupied : (f (c.slots s)).state ≠ .free ∧ (f (c.slots s)).state ≠ .completed)
    (htask : (f (c.slots s)).handle = (c.slots s).handle ∧
      (f (c.slots s)).parent = (c.slots s).parent) : Spares c (c.modify s f) where
  now := rfl
  asleep t ht := by
    have hts : t ≠ s := fun he => hs (he ▸ ht)
    simp [hts]
  tenant t ht := by
    by_cases hts : t = s
    · subst hts
      simpa [Occupied] using ⟨hoccupied, htask⟩
    · simpa [Occupied, hts] using ht

theorem setState {state : State} (hs : ¬ c.Asleep s) (hstate : state ≠ .free ∧ state ≠ .completed) :
    Spares c (c.setState s state) := modify_awake c hs hstate ⟨rfl, rfl⟩

theorem park (hs : ¬ c.Asleep s) : Spares c (c.setState s .waitingLocal) :=
  setState c hs ⟨by simp, by simp⟩

theorem record (o : Obs N) : Spares c (c.record o) := of_slots rfl rfl

theorem report (e : Error) : Spares c (c.report e) := record c _

theorem readyPush (s : Fin N) : Spares c (c.readyPush s) where
  now := by simp
  asleep t _ := by simp
  tenant t ht := by simpa [Occupied] using ht

/-- A slot that is awake is made ready. -/
theorem enqueue (hs : ¬ c.Asleep s) : Spares c ((c.setState s .ready).readyPush s) :=
  (setState c hs ⟨by simp, by simp⟩).trans (readyPush _ s)

theorem wakeSlot {o : Option (Fin N)} (ho : ∀ s, o = some s → ¬ c.Asleep s) :
    Spares c (c.wakeSlot o) := by
  cases o with
  | none => exact refl c
  | some s => exact enqueue c (ho s rfl)

theorem count (n : ℕ) : Spares c { c with activeCount := n } := of_slots rfl rfl

theorem timed (deadline : Tick) : Spares c { c with nearestDeadline := deadline } :=
  of_slots rfl rfl

theorem adopt (frame : Handle) (parent : Option (Fin N)) (hs : ¬ c.Occupied s) :
    Spares c (c.adopt s frame parent) :=
  ((modify_vacant c hs).trans (readyPush _ s)).trans (count _ _)

/-- An acquired slot is filled. -/
theorem acquired (h : c.acquireSlot = some (s, c')) (frame : Handle) (parent : Option (Fin N)) :
    Spares c (c'.adopt s frame parent) := by
  obtain ⟨rfl, hstate, -⟩ := acquireSlot_spec h
  have hvacant : ¬ c.Occupied s := fun hs => hstate.elim hs.1 hs.2
  have hclaim : Spares c (c.claim s) := (modify_vacant c hvacant).trans (record _ _)
  refine hclaim.trans (adopt _ _ _ ?_)
  simpa [Occupied, claim] using hvacant

theorem schedule (task : Handle) : Spares c (c.schedule task).sched := by
  unfold Scheduler.schedule
  split
  · exact refl c
  cases task with
  | none => exact report c _
  | some frame =>
      dsimp only
      split
      · exact report c _
      · rename_i hacquire
        exact acquired c hacquire _ _

theorem waitPush (q : WaitQueue N) (s : Fin N) : Spares c (c.waitPush q s).1 := by
  rw [waitPush_eq]
  exact ⟨rfl, fun _ _ => ⟨rfl, rfl⟩, fun _ ht => ⟨ht, rfl, rfl⟩⟩

theorem runningIs (awaiting : Handle) : Spares c (c.runningIs awaiting).2 := by
  unfold Scheduler.runningIs
  split
  · exact refl c
  · exact report c _

/-! ## Suspending the running task -/

variable (hcurrent : ∀ s, c.current = some s → ¬ c.Asleep s)

include hcurrent

theorem waitOn (q : WaitQueue N) (awaiting : Handle) :
    Spares c (c.waitOn q awaiting).2.1 := by
  unfold Scheduler.waitOn
  split
  · exact report c _
  · rename_i s hs
    split
    · exact (park c (hcurrent s hs)).trans (waitPush _ q s)
    · exact report c _

theorem parkRunning : Spares c c.parkRunning.2 := by
  unfold Scheduler.parkRunning
  split
  · exact refl c
  · rename_i s hs
    exact park c (hcurrent s hs)

theorem yieldCurrent : Spares c c.yieldCurrent := by
  unfold Scheduler.yieldCurrent
  split
  · exact refl c
  · rename_i s hs
    exact enqueue c (hcurrent s hs)

theorem armCurrentTimer (duration : Tick) : Spares c (c.armCurrentTimer duration) := by
  have hreport : Spares c (c.report .deadlineOverflow).yieldCurrent := by
    refine (report c .deadlineOverflow).trans (yieldCurrent _ fun s hs => ?_)
    exact hcurrent s hs
  unfold Scheduler.armCurrentTimer
  split
  · exact refl c
  · rename_i s hs
    split_ifs
    · exact yieldCurrent c hcurrent
    · split
      · exact hreport
      · rw [armTimer_eq]
        refine (modify_awake c (hcurrent s hs) ?_ ?_).trans (timed _ _)
        · exact ⟨by simp, by simp⟩
        · exact ⟨rfl, rfl⟩

theorem startChildAwait (child awaiting : Handle) :
    Spares c (c.startChildAwait child awaiting).sched := by
  have hreport : Spares c ((c.record (.destroyed child)).report .invalidTask) :=
    (record c _).trans (report _ _)
  unfold Scheduler.startChildAwait
  split
  · exact hreport
  · rename_i p hp
    split
    · split
      · refine ((record c _).trans (enqueue _ ?_)).trans (report _ _)
        exact hcurrent p hp
      · rename_i s claimed hacquire
        refine (acquired c hacquire child (some p)).trans (setState _ ?_ ⟨by simp, by simp⟩)
        obtain ⟨rfl, -, -⟩ := acquireSlot_spec hacquire
        have hawake := hcurrent p hp
        by_cases hps : p = s
        · simp [Asleep, Scheduler.adopt, hps]
        · simpa [Asleep, Scheduler.adopt, Scheduler.claim, hps] using hawake
    · exact hreport

end Spares

end Scheduler

end SimpleAwait
