import Mathlib.Data.List.MinMax
import Mathlib.Data.List.Sort
import SimpleAwait.System.DueTimers

/-!
# The order of due timers

`process_due_timers` selects the next due timer again and again, and skips the selection
altogether while the cached deadline lies ahead.  `processDueTimersPlain` does without both: it
sorts the due slots by deadline and index and makes them ready in this order.  The two agree
wherever the cache is exact.
-/

namespace SimpleAwait

variable {N : ℕ} {c : Scheduler N} {ev : ℕ → WaitQueue N} {v : View N} {s t : Fin N}
  {due : List (Fin N)}

namespace Scheduler

/-- Of two due timers, the one in slot `s` is woken first. -/
def Before (c : Scheduler N) (s t : Fin N) : Prop :=
  (c.slots s).deadline < (c.slots t).deadline ∨
    (c.slots s).deadline = (c.slots t).deadline ∧ s < t

instance (c : Scheduler N) : DecidableRel c.Before :=
  fun _ _ => inferInstanceAs (Decidable (_ ∨ _ ∧ _))

/-- The due slots, sorted. -/
def dueSlots (c : Scheduler N) : List (Fin N) :=
  ((List.finRange N).filter c.isDue).insertionSort fun s t => ¬ c.Before t s

/-- `timer->state = State::ready; ready_push(timer)`. -/
def makeReady (c : Scheduler N) (s : Fin N) : Scheduler N := (c.setState s .ready).readyPush s

/-- What `process_due_timers` is for, without its scans and its early exit. -/
def processDueTimersPlain (c : Scheduler N) : Scheduler N :=
  (c.dueSlots.foldl makeReady c).recomputeNearestDeadline

/-! ## The order -/

theorem before_iff : c.Before s t ↔ (c.slots s).deadline.toNat < (c.slots t).deadline.toNat ∨
    (c.slots s).deadline.toNat = (c.slots t).deadline.toNat ∧ s < t := by
  rw [Before, UInt64.lt_iff_toNat_lt, UInt64.toNat_inj]

theorem before_or (c : Scheduler N) (h : s ≠ t) : c.Before s t ∨ c.Before t s := by
  simp only [before_iff]
  have := lt_or_gt_of_ne h
  omega

theorem Before.asymm (h : c.Before s t) : ¬ c.Before t s := by
  simp only [before_iff] at *
  omega

theorem not_before_trans {u : Fin N} (h : ¬ c.Before t s) (h' : ¬ c.Before u t) :
    ¬ c.Before u s := by
  simp only [before_iff] at *
  omega

theorem mem_dueSlots : s ∈ c.dueSlots ↔ c.isDue s = true := by
  simp [dueSlots]

/-- The due slots are in strictly increasing order. -/
theorem pairwise_dueSlots (c : Scheduler N) : c.dueSlots.Pairwise c.Before := by
  have : Std.Total fun s t => ¬ c.Before t s := ⟨fun s t => by
    by_contra h
    rw [not_or, not_not, not_not] at h
    exact h.1.asymm h.2⟩
  have : IsTrans (Fin N) fun s t => ¬ c.Before t s := ⟨fun _ _ _ h h' => not_before_trans h h'⟩
  have hsorted := List.pairwise_insertionSort (fun s t => ¬ c.Before t s)
    ((List.finRange N).filter c.isDue)
  have hnodup : c.dueSlots.Nodup :=
    (List.perm_insertionSort _ _).nodup_iff.mpr ((List.nodup_finRange N).filter _)
  refine (hsorted.and hnodup).imp fun {s t} h => ?_
  exact (c.before_or h.2).resolve_right h.1

/-! ## The selection -/

/-- The scan finds the first due slot with the smallest deadline. -/
theorem soonest_eq (c : Scheduler N) : c.soonest =
    ((List.finRange N).filter c.isDue).argmin fun s => (c.slots s).deadline.toNat := by
  rw [soonest, List.argmin, List.foldl_filter]
  congr 1
  funext best s
  cases best with
  | none => by_cases hs : c.isDue s <;> simp [sooner, List.argAux, hs]
  | some b =>
      by_cases hs : c.isDue s <;> simp [sooner, List.argAux, hs, UInt64.lt_iff_toNat_lt]

theorem soonest_eq_none (h : ∀ s, c.isDue s = false) : c.soonest = none := by
  rw [soonest_eq, List.argmin_eq_none, List.filter_eq_nil_iff]
  simp [h]

/-- The scan finds the due slot that comes before all others. -/
theorem soonest_eq_some (hs : c.isDue s = true)
    (hfirst : ∀ t, c.isDue t = true → t ≠ s → c.Before s t) : c.soonest = some s := by
  set l := (List.finRange N).filter c.isDue with hl
  have hmem : ∀ t, t ∈ l ↔ c.isDue t = true := by simp [hl]
  obtain ⟨m, hm⟩ : ∃ m, c.soonest = some m := by
    rw [← Option.ne_none_iff_exists', soonest_eq, Ne, List.argmin_eq_none]
    exact List.ne_nil_of_mem ((hmem s).mpr hs)
  rw [hm]
  rw [soonest_eq, List.argmin_eq_some_iff] at hm
  obtain ⟨hml, hleast, hindex⟩ := hm
  by_contra hne
  have hbefore := hfirst m ((hmem m).mp hml) fun he => hne (congrArg some he)
  rw [before_iff] at hbefore
  have hle := hleast s ((hmem s).mpr hs)
  have hlt : s < m := by omega
  have hidx := hindex s ((hmem s).mpr hs) (by omega)
  -- the scan goes through the slots by increasing index
  have hsorted : l.Pairwise (· < ·) := (List.sortedLT_finRange N).pairwise.filter _
  rcases hidx.lt_or_eq with hidx | hidx
  · have hget := List.pairwise_iff_getElem.mp hsorted _ _ (List.idxOf_lt_length_of_mem hml)
      (List.idxOf_lt_length_of_mem ((hmem s).mpr hs)) hidx
    simp only [List.getElem_idxOf] at hget
    exact lt_asymm hlt hget
  · exact hne (congrArg some ((List.idxOf_inj hml).mp hidx))

/-! ## The loop -/

@[simp] theorem makeReady_slots (c : Scheduler N) (s t : Fin N) : (c.makeReady s).slots t =
    { c.slots t with
      state := if t = s then .ready else (c.slots t).state
      next := Intrusive.pushNext c.next c.readyTail s t } := by
  rw [makeReady, readyPush_slots, setState_slots, setState_next]
  split_ifs <;> rfl

theorem makeReady_isDue (c : Scheduler N) (s t : Fin N) :
    (c.makeReady s).isDue t = (c.isDue t && t ≠ s) := by
  have hnow : (c.makeReady s).now = c.now := readyPush_now ..
  by_cases ht : t = s <;> simp [isDue, hnow, ht]

theorem makeReady_before (c : Scheduler N) (s t u : Fin N) :
    (c.makeReady s).Before t u ↔ c.Before t u := by
  simp [Before]

/-- The loop of `process_due_timers` makes the due slots ready in their order, and then finds
no timer that is due. -/
theorem dueTimersLoop_eq (hsorted : due.Pairwise c.Before)
    (hmem : ∀ s, s ∈ due ↔ c.isDue s = true) {fuel : ℕ} (hfuel : due.length ≤ fuel) :
    dueTimersLoop fuel c = due.foldl makeReady c ∧ (dueTimersLoop fuel c).soonest = none := by
  induction due generalizing c fuel with
  | nil =>
      have hnone : c.soonest = none :=
        soonest_eq_none fun s => by simpa using (hmem s).not
      cases fuel <;> simp [dueTimersLoop, hnone]
  | cons s due ih =>
      obtain ⟨fuel, rfl⟩ : ∃ n, fuel = n + 1 := ⟨fuel - 1, by simp at hfuel; omega⟩
      obtain ⟨hs, hsorted⟩ := List.pairwise_cons.mp hsorted
      have hnot : s ∉ due := fun hmem => (hs s hmem).asymm (hs s hmem)
      have hsoonest : c.soonest = some s := by
        refine soonest_eq_some ((hmem s).mp (List.mem_cons_self ..)) fun t ht hts => hs t ?_
        exact (List.mem_cons.mp ((hmem t).mpr ht)).resolve_left hts
      have hrest : dueTimersLoop (fuel + 1) c = dueTimersLoop fuel (c.makeReady s) := by
        simp [dueTimersLoop, hsoonest, makeReady]
      rw [hrest, List.foldl_cons]
      refine ih (hsorted.imp fun h => (makeReady_before ..).mpr h) (fun t => ?_)
        (Nat.le_of_succ_le_succ hfuel)
      rw [makeReady_isDue, Bool.and_eq_true, ← hmem t, List.mem_cons, decide_eq_true_eq]
      grind

theorem length_dueSlots_le (c : Scheduler N) : c.dueSlots.length ≤ N := by
  rw [dueSlots, List.length_insertionSort]
  exact (List.length_filter_le _ _).trans List.length_finRange.le

/-! ## What becomes of the slots -/

/-- Making the slots of `l` ready changes their states and some links. -/
theorem foldl_makeReady_slots (l : List (Fin N)) (c : Scheduler N) (t : Fin N) :
    (l.foldl makeReady c).slots t =
      { c.slots t with
        state := if t ∈ l then .ready else (c.slots t).state
        next := (l.foldl makeReady c).next t } := by
  induction l generalizing c with
  | nil => rfl
  | cons s l ih =>
      rw [List.foldl_cons, ih, makeReady_slots]
      by_cases hl : t ∈ l <;> by_cases hs : t = s <;> simp [hl, hs]

/-- Of the other slots, only the last ready one is linked to the new ones. -/
theorem foldl_makeReady_next {l : List (Fin N)} {c : Scheduler N} (ht : t ∉ l)
    (htail : c.readyTail ≠ some t) : (l.foldl makeReady c).next t = c.next t := by
  induction l generalizing c with
  | nil => rfl
  | cons s l ih =>
      rw [List.mem_cons, not_or] at ht
      have hnext : (c.makeReady s).next = Intrusive.pushNext c.next c.readyTail s := by
        funext u
        simp [next]
      rw [List.foldl_cons, ih ht.2, hnext, Intrusive.pushNext_of_ne ht.1 htail]
      simpa [makeReady] using Ne.symm ht.1

end Scheduler

open Scheduler

/-- Armed timers are made ready one after the other. -/
theorem Threaded.makeReadyAll {l : List (Fin N)} (h : Threaded c ev v) (hnodup : l.Nodup)
    (hl : ∀ s ∈ l, v.place s = .timer) :
    Threaded (l.foldl makeReady c) ev (v.enqueueAll l) := by
  induction l generalizing c v with
  | nil => exact h
  | cons s l ih =>
      obtain ⟨hs, hnodup⟩ := List.nodup_cons.mp hnodup
      have hplace : v.place s = .timer := hl s (List.mem_cons_self ..)
      refine ih (h.enqueue (by simp [hplace, Place.Unlinked]) rfl) hnodup fun t ht => ?_
      have hts : t ≠ s := fun he => hs (he ▸ ht)
      rw [View.enqueue_place, if_neg hts]
      exact hl t (List.mem_cons_of_mem _ ht)

/-- The cached deadline is what a scan over all slots finds. -/
theorem Timers.nearest_eq (h : Timers c) : c.nearestDeadline = c.minDeadline := by
  obtain ⟨hlower, hattained⟩ := c.minDeadline_spec
  have hmax : ∀ d : Tick, d ≤ tickMax := fun d => UInt64.le_iff_toNat_le.mpr
    (Nat.le_of_lt_succ d.toNat_lt)
  refine UInt64.le_antisymm ?_ ?_
  · rcases hattained with hnone | ⟨s, hs, hdeadline⟩
    · rw [hnone]
      exact hmax _
    · rw [← hdeadline]
      exact h.lower s hs
  · rcases h.attained with hnone | ⟨s, hs, hdeadline⟩
    · rw [hnone]
      exact hmax _
    · rw [← hdeadline]
      exact hlower s hs

/-- With an exact cache, the early exit is taken only where nothing is due and the cache would
not change. -/
theorem Timers.processDueTimers_eq (h : Timers c) :
    c.processDueTimers = c.processDueTimersPlain := by
  have hloop := (dueTimersLoop_eq c.pairwise_dueSlots (fun _ => mem_dueSlots)
    c.length_dueSlots_le).1
  rw [Scheduler.processDueTimers]
  split_ifs with hearly
  · have hnone : c.dueSlots = [] := by
      refine List.eq_nil_iff_forall_not_mem.mpr fun s hs => ?_
      have hdue := mem_dueSlots.mp hs
      have hle := h.lower s (state_of_isDue hdue)
      simp only [isDue, Bool.and_eq_true, decide_eq_true_eq] at hdue
      exact UInt64.lt_irrefl _ (UInt64.lt_of_lt_of_le hearly (UInt64.le_trans hle hdue.2))
    rw [processDueTimersPlain, hnone, List.foldl_nil, recomputeNearestDeadline, ← h.nearest_eq]
  · rw [processDueTimersPlain, hloop]

end SimpleAwait
