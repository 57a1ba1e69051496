import SimpleAwait.System.Moves

/-!
# `process_due_timers`

The selection loop moves due timers to the ready FIFO one by one, and the recomputation
restores the cached deadline.  Until then the cache may be stale, so the loop is shown to
keep the rest of `Sound` only.
-/

namespace SimpleAwait

variable {N : ℕ} {c : Scheduler N} {ev : ℕ → WaitQueue N} {v : View N} {s : Fin N}

namespace Scheduler

/-- The selection scan returns a due timer if it returns a slot at all. -/
theorem isDue_of_soonest (h : c.soonest = some s) : c.isDue s = true := by
  have key : ∀ (l : List (Fin N)) (best : Option (Fin N)), (∀ b, best = some b → c.isDue b = true) →
      ∀ r, l.foldl c.sooner best = some r → c.isDue r = true := by
    intro l
    induction l with
    | nil => exact fun best hbest r hr => hbest r hr
    | cons t l ih =>
        intro best hbest r hr
        refine ih (c.sooner best t) (fun b hb => ?_) r hr
        unfold sooner at hb
        split at hb
        · rename_i hdue
          cases hb
          exact (Bool.and_eq_true _ _ ▸ hdue).1
        · exact hbest b hb
  exact key _ none (by simp) s h

theorem state_of_isDue (h : c.isDue s = true) : (c.slots s).state = .waitingTimer := by
  simp only [isDue, Bool.and_eq_true, decide_eq_true_eq] at h
  exact h.1

/-- The scan of `recompute_nearest_deadline` finds the smallest armed deadline. -/
theorem minDeadline_spec (c : Scheduler N) :
    (∀ s, (c.slots s).state = .waitingTimer → c.minDeadline ≤ (c.slots s).deadline) ∧
      (c.minDeadline = tickMax ∨
        ∃ s, (c.slots s).state = .waitingTimer ∧ (c.slots s).deadline = c.minDeadline) := by
  have key : ∀ (l : List (Fin N)) (start : Tick), l.foldl c.nearer start ≤ start ∧
      (∀ s ∈ l, (c.slots s).state = .waitingTimer →
        l.foldl c.nearer start ≤ (c.slots s).deadline) ∧
      (l.foldl c.nearer start = start ∨ ∃ s, (c.slots s).state = .waitingTimer ∧
        (c.slots s).deadline = l.foldl c.nearer start) := by
    intro l
    induction l with
    | nil => exact fun start => ⟨UInt64.le_refl _, by simp, Or.inl rfl⟩
    | cons t l ih =>
        intro start
        simp only [List.foldl_cons, List.mem_cons, forall_eq_or_imp]
        obtain ⟨hle, hall, hattained⟩ := ih (c.nearer start t)
        by_cases ht : (c.slots t).state = .waitingTimer ∧ (c.slots t).deadline < start
        · have hstep : c.nearer start t = (c.slots t).deadline := by simp [nearer, ht]
          rw [hstep] at hle hall hattained ⊢
          refine ⟨UInt64.le_of_lt (UInt64.lt_of_le_of_lt hle ht.2), ⟨fun _ => hle, hall⟩, Or.inr ?_⟩
          rcases hattained with h | h
          · exact ⟨t, ht.1, h.symm⟩
          · exact h
        · have hstep : c.nearer start t = start := by
            rw [nearer, if_neg (by simpa only [Bool.and_eq_true, decide_eq_true_eq] using ht)]
          rw [hstep] at hle hall hattained ⊢
          refine ⟨hle, ⟨fun hstate => ?_, hall⟩, hattained⟩
          have : ¬ (c.slots t).deadline < start := fun hlt => ht ⟨hstate, hlt⟩
          exact UInt64.le_trans hle (UInt64.not_lt.mp this)
  obtain ⟨-, hall, hattained⟩ := key (List.finRange N) tickMax
  exact ⟨fun s hs => hall s (List.mem_finRange s) hs, hattained⟩

end Scheduler

/-- `recompute_nearest_deadline` makes the cache exact, whatever it held. -/
theorem Timers.recompute (c : Scheduler N) : Timers c.recomputeNearestDeadline :=
  ⟨c.minDeadline_spec.1, c.minDeadline_spec.2⟩

/-- The loop of `process_due_timers` enqueues some armed timers. -/
theorem dueTimersLoop_spec : ∀ (fuel : ℕ) {c : Scheduler N} {v : View N},
    Threaded c ev v → Kin c v.place → Chronicle c → ∃ due : List (Fin N),
      (∀ s ∈ due, v.place s = .timer) ∧
        Threaded (Scheduler.dueTimersLoop fuel c) ev (v.enqueueAll due) ∧
        Kin (Scheduler.dueTimersLoop fuel c) (v.enqueueAll due).place ∧
        Chronicle (Scheduler.dueTimersLoop fuel c) := by
  intro fuel
  induction fuel with
  | zero => exact fun h hk hch => ⟨[], by simp, h, hk, hch⟩
  | succ fuel ih =>
      intro c v h hk hch
      cases hsoonest : c.soonest with
      | none =>
          refine ⟨[], by simp, ?_, ?_, ?_⟩ <;> simpa [Scheduler.dueTimersLoop, hsoonest]
      | some s =>
          have hs : v.place s = .timer := by
            have := Scheduler.state_of_isDue (Scheduler.isDue_of_soonest hsoonest)
            rw [h.state] at this
            exact Place.eq_timer_of_state this
          have hthreaded : Threaded ((c.setState s .ready).readyPush s) ev (v.enqueue s) :=
            h.enqueue (by simp [hs, Place.Unlinked]) rfl
          have hkin : Kin ((c.setState s .ready).readyPush s) (v.enqueue s).place :=
            (hk.move (s := s) (p := .ready) (by simp [hs]) (by simp) (by simp [hs, Place.Active])
              (by simp [Place.Active])).congr (by simp) (by simp)
          have hchronicle : Chronicle ((c.setState s .ready).readyPush s) :=
            hch.move (s := s) .ready (by simp [h.state, hs]) (by simp) (by simp) (by simp) (by simp)
          obtain ⟨due, hdue, hrest, hkrest, hchrest⟩ := ih hthreaded hkin hchronicle
          refine ⟨s :: due, ?_, ?_, ?_, ?_⟩
          · simp only [List.mem_cons, forall_eq_or_imp]
            refine ⟨hs, fun t ht => ?_⟩
            have := hdue t ht
            rw [View.enqueue_place] at this
            split at this
            · cases this
            · exact this
          · simpa [Scheduler.dueTimersLoop, hsoonest] using hrest
          · simpa [Scheduler.dueTimersLoop, hsoonest] using hkrest
          · simpa [Scheduler.dueTimersLoop, hsoonest] using hchrest

/-- `process_due_timers` moves some armed timers to the end of the ready FIFO. -/
theorem Sound.processDueTimers (h : Sound c ev v) : ∃ due : List (Fin N),
    (∀ s ∈ due, v.place s = .timer) ∧ Sound c.processDueTimers ev (v.enqueueAll due) := by
  unfold Scheduler.processDueTimers
  split
  · exact ⟨[], by simp, h⟩
  · obtain ⟨due, hdue, hthreaded, hkin, hchronicle⟩ :=
      dueTimersLoop_spec N h.threaded h.kin h.chronicle
    exact ⟨due, hdue, hthreaded.congr rfl rfl rfl rfl rfl rfl, hkin.congr (fun _ => rfl) rfl,
      Timers.recompute _, hchronicle.congr (fun _ => rfl) (fun _ => Iff.rfl) (fun _ => Iff.rfl) rfl⟩

end SimpleAwait
