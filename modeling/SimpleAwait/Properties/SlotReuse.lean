import SimpleAwait.Properties.Identity
import SimpleAwait.System.Acquisitions

/-!
# Which completed slot is reused

Where no free slot is left, `acquire_slot` is to reuse "the oldest completed tombstone".  Its scan
takes the one of lowest index instead.  The order of completion is that of the `completed` entries
in the trace.
-/

namespace SimpleAwait

open Transition

variable {N : ℕ} {T : Type} {cfg : Config N} {w w' : World N T} {s t : Fin N}

namespace Scheduler

variable (c : Scheduler N)

/-- A completed slot whose generation is not exhausted. -/
def Reusable (s : Fin N) : Prop :=
  (c.slots s).state = .completed ∧ (c.slots s).generation ≠ maxGeneration

/-- When the task in the completed slot `s` completed, as a position in the trace. -/
def completedAt (s : Fin N) : ℕ := c.trace.idxOf (.completed s (c.slots s).generation)

/-- Of the reusable completed slots, `s` completed first. -/
def Oldest (s : Fin N) : Prop :=
  c.Reusable s ∧ ∀ t, c.Reusable t → t ≠ s → c.completedAt s < c.completedAt t

/-- The reusable completed slot of lowest index completed before all others. -/
def LowestOldest : Prop := ∀ s, c.Reusable s → (∀ r < s, ¬ c.Reusable r) → c.Oldest s

instance : DecidablePred c.Reusable := fun _ => inferInstanceAs (Decidable (_ ∧ _))

instance : DecidablePred c.Oldest := fun _ => inferInstanceAs (Decidable (_ ∧ ∀ _, _))

end Scheduler

namespace World

/-- The slots that `acquire_slot` returned from `w` to `w'`. -/
def acquired (w w' : World N T) : List (Fin N) :=
  (acquiredTasks (w'.sched.trace.drop w.sched.trace.length)).map Prod.fst

/-- What is said of `acquire_slot`: it reuses the oldest completed slot, so a task that has
completed stays done while there is an older one to reuse. -/
structure ReusesOldest (w w' : World N T) : Prop where
  slot : w.sched.findSlot .free = none → ∀ s ∈ w.acquired w', w.sched.Oldest s
  done : ∀ id (s : Fin N), s.val = id.slot.toNat → w.sched.done (some id) = true →
    (∃ r, w.sched.Reusable r ∧ w.sched.completedAt r < w.sched.completedAt s) →
      w'.sched.done (some id) = true

end World

/-! ## The scan -/

/-- A scan of `acquire_slot` stops at the lowest reusable slot. -/
theorem Scheduler.findSlot_lowest {c : Scheduler N} {state : State}
    (h : c.findSlot state = some s) {r : Fin N} (hr : r < s) :
    ¬ ((c.slots r).state = state ∧ (c.slots r).generation ≠ maxGeneration) := by
  obtain ⟨-, before, behind, hsplit, hbefore⟩ := List.find?_eq_some_iff_append.mp h
  have hordered := List.pairwise_lt_finRange N
  have hmem : r ∈ before ++ s :: behind := hsplit ▸ List.mem_finRange r
  rw [hsplit] at hordered
  rcases List.mem_append.mp hmem with hmem | hmem
  · have hskipped := hbefore r hmem
    simpa [or_iff_not_imp_left] using hskipped
  · rcases List.mem_cons.mp hmem with rfl | hmem
    · exact absurd hr (lt_irrefl r)
    · have hlt := (List.pairwise_cons.mp (List.pairwise_append.mp hordered).2.1).1 r hmem
      exact absurd hr (lt_asymm hlt)

/-- Without a free slot, `acquire_slot` takes the lowest reusable completed one. -/
theorem Scheduler.acquireSlot_lowest {c claimed : Scheduler N} (hfree : c.findSlot .free = none)
    (hacquire : c.acquireSlot = some (s, claimed)) :
    c.Reusable s ∧ ∀ r < s, ¬ c.Reusable r := by
  unfold Scheduler.acquireSlot at hacquire
  rw [hfree] at hacquire
  dsimp only at hacquire
  split at hacquire <;> cases hacquire
  rename_i hfind
  exact ⟨findSlot_spec hfind, fun r hr => findSlot_lowest hfind hr⟩

/-! ## One step -/

theorem World.mem_acquired {obs : List (Obs N)} (htrace : w'.sched.trace = w.sched.trace ++ obs) :
    s ∈ w.acquired w' ↔ ∃ g, Obs.acquired s g ∈ obs := by
  rw [World.acquired, htrace, List.drop_left, List.mem_map]
  constructor
  · rintro ⟨⟨t, g⟩, hmem, rfl⟩
    obtain ⟨o, ho, heq⟩ := List.mem_filterMap.mp hmem
    cases o <;> cases heq
    exact ⟨g, ho⟩
  · rintro ⟨g, hmem⟩
    exact ⟨(s, g), List.mem_filterMap.mpr ⟨_, hmem, rfl⟩, rfl⟩

/-- A task that has completed stays done as long as its slot is not acquired. -/
theorem World.done_kept {obs : List (Obs N)} (hw : w.Reachable cfg) (hw' : w'.Reachable cfg)
    (htrace : w'.sched.trace = w.sched.trace ++ obs) (hs : ∀ g, Obs.acquired s g ∉ obs) {id : TaskId}
    (hid : s.val = id.slot.toNat) (hdone : w.sched.done (some id) = true) :
    w'.sched.done (some id) = true := by
  rw [done_iff hid] at hdone ⊢
  have hsame := (hw.chronicle.same_iff hw'.chronicle htrace s).mpr hs
  have hkept := (hw.chronicle.vacant_kept hw'.chronicle htrace hs).2
  exact ⟨hsame.trans hdone.1, hkept hdone.2⟩

/-- A step reuses the oldest slot exactly if that is the lowest one. -/
theorem World.step_reusesOldest_iff {a : Action T} (hw : w.Reachable cfg)
    (hstep : w.step cfg a = some w') : w.ReusesOldest w' ↔
      (w.sched.findSlot .free = none → w.acquired w' ≠ [] → w.sched.LowestOldest) := by
  obtain ⟨acquired, ⟨obs, htrace, honly⟩, hacquired⟩ := World.step_acquires hstep
  have hfound : ∀ s ∈ w.acquired w', ∃ claimed, w.sched.acquireSlot = some (s, claimed) := by
    intro s hs
    obtain ⟨g, hg⟩ := (World.mem_acquired htrace).mp hs
    exact hacquired s (honly s g hg)
  constructor
  · intro h hfree hsome s hs hlowest
    obtain ⟨t, ht⟩ := List.exists_mem_of_ne_nil _ hsome
    obtain ⟨claimed, hacquire⟩ := hfound t ht
    obtain ⟨hreusable, hbelow⟩ := Scheduler.acquireSlot_lowest hfree hacquire
    have heq : t = s := by
      rcases lt_trichotomy t s with hlt | heq | hlt
      · exact absurd hreusable (hlowest t hlt)
      · exact heq
      · exact absurd hs (hbelow s hlt)
    exact heq ▸ h.slot hfree t ht
  · intro hcondition
    have hslot : w.sched.findSlot .free = none → ∀ s ∈ w.acquired w', w.sched.Oldest s := by
      intro hfree s hs
      obtain ⟨claimed, hacquire⟩ := hfound s hs
      obtain ⟨hreusable, hbelow⟩ := Scheduler.acquireSlot_lowest hfree hacquire
      exact hcondition hfree (List.ne_nil_of_mem hs) s hreusable hbelow
    refine ⟨hslot, fun id s hid hdone ⟨r, hr, holder⟩ => ?_⟩
    refine World.done_kept hw (hw.succ hstep) htrace (fun g hg => ?_) hid hdone
    have hs : s ∈ w.acquired w' := (World.mem_acquired htrace).mpr ⟨g, hg⟩
    cases hfree : w.sched.findSlot .free with
    | none =>
        -- the slot is taken as the oldest, but `r` is older
        have hrs : r ≠ s := fun he => absurd (he ▸ holder) (lt_irrefl _)
        exact absurd ((hslot hfree s hs).2 r hr hrs) (lt_asymm holder)
    | some t =>
        obtain ⟨claimed, hacquire⟩ := hfound s hs
        unfold Scheduler.acquireSlot at hacquire
        rw [hfree] at hacquire
        cases hacquire
        have hstate := (Scheduler.findSlot_spec hfree).1
        rw [((done_iff hid).mp hdone).2] at hstate
        cases hstate

/-! ## Runs -/

/-- Along every run the oldest completed slot is reused exactly if, whenever a completed slot is
reused, the lowest one is the oldest. -/
theorem oldest_reused_iff (cfg : Config N) (actions : List (Action T)) :
    Along (World.step cfg) (fun u a => ∀ u', u.step cfg a = some u' → u.ReusesOldest u')
        World.initial actions ↔
      Along (World.step cfg) (fun u a => ∀ u', u.step cfg a = some u' →
        u.sched.findSlot .free = none → u.acquired u' ≠ [] → u.sched.LowestOldest)
        World.initial actions := by
  refine Along.congr (fun u => u.Reachable cfg) Reachable.refl
    (fun _ _ _ hu _ hstep => hu.succ hstep) fun u a hu => ?_
  exact forall_congr' fun u' => forall_congr' fun hstep => World.step_reusesOldest_iff hu hstep

/-- Of three tasks the first completes last.  The next task takes its slot, and its handle is no
longer done, though two older slots could have been reused. -/
theorem lowest_reused_first :
    let ended : List (Action ℕ) := [.createTask (some 1), .createTask (some 2),
      .createTask (some 3), .poll false 0, .checkPending, .startPass, .passPop, .coAwait .yield,
      .passPop, .finish, .destroyed, .passPop, .finish, .destroyed, .endPass 0,
      .poll false 0, .checkPending, .startPass, .passPop, .finish, .destroyed, .endPass 0]
    let w : World 3 ℕ := World.after .small ended
    let w' : World 3 ℕ := World.after .small (ended ++ [.createTask (some 4)])
    w.Reachable .small ∧ w.step .small (.createTask (some 4)) = some w' ∧
      w.sched.findSlot .free = none ∧ w.acquired w' = [0] ∧ w.sched.Oldest 1 ∧
      w.sched.done (some ⟨0, 1⟩) = true ∧ w'.sched.done (some ⟨0, 1⟩) = false ∧
      ¬ w.ReusesOldest w' := by
  intro ended w w'
  have hlost : w'.sched.done (some ⟨0, 1⟩) = false := by decide
  refine ⟨.after .small (by decide), ?_, by decide, by decide, by decide, by decide, hlost, ?_⟩
  · exact run_singleton.mp (World.run_after .small ended _ (by decide))
  · intro h
    have hkept := h.done ⟨0, 1⟩ 0 rfl (by decide) ⟨1, by decide, by decide⟩
    rw [hlost] at hkept
    cases hkept

end SimpleAwait
