import SimpleAwait.Properties.Consistency
import SimpleAwait.System.TimerOrder
import SimpleAwait.System.Trace

/-!
# Due timers are woken in order

In every reachable world, and whatever the clock shows, `process_due_timers` is a stable sort of
the due timers.  Its early exit is harmless because the cached deadline is exact at all times.
-/

namespace SimpleAwait

open Transition

variable {N : ℕ} {T : Type} {cfg : Config N} {w : World N T} {c : Scheduler N} {s : Fin N}

/-- `nearest_deadline_` is the smallest deadline of a waiting timer, or `UINT64_MAX` when there
is no waiting timer. -/
def Scheduler.NearestExact (c : Scheduler N) : Prop :=
  (∀ s, (c.slots s).state = .waitingTimer → c.nearestDeadline ≤ (c.slots s).deadline) ∧
    ((∃ s, (c.slots s).state = .waitingTimer ∧ (c.slots s).deadline = c.nearestDeadline) ∨
      (∀ s, (c.slots s).state ≠ .waitingTimer) ∧ c.nearestDeadline = tickMax)

theorem Timers.nearestExact (h : Timers c) : c.NearestExact := by
  refine ⟨h.lower, ?_⟩
  rcases h.attained with hmax | hattained
  · by_cases hany : ∃ s, (c.slots s).state = .waitingTimer
    · obtain ⟨s, hs⟩ := hany
      refine Or.inl ⟨s, hs, ?_⟩
      -- a timer armed for `UINT64_MAX` itself
      have hlower := h.lower s hs
      rw [hmax] at hlower ⊢
      exact UInt64.le_antisymm (UInt64.le_iff_toNat_le.mpr (Nat.le_of_lt_succ (UInt64.toNat_lt _)))
        hlower
    · exact Or.inr ⟨fun s hs => hany ⟨s, hs⟩, hmax⟩
  · exact Or.inl hattained

/-- The deadlines and the links do not depend on the clock. -/
theorem Sound.at_clock {ev : ℕ → WaitQueue N} {v : View N} (h : Sound c ev v) (now : Tick) :
    Sound { c with now := now } ev v := h.congr rfl rfl rfl rfl rfl rfl rfl rfl rfl

/-- Whatever the clock shows, `process_due_timers` appends to the ready FIFO exactly the due
timers, each once and by increasing deadline and index, and leaves all else alone.  Its
selection loop ends within `N` rounds.  The cached deadline is exact, before and after. -/
theorem due_timers_exact (hw : w.Reachable cfg) (now : Tick) :
    let c := { w.sched with now := now }
    let c' := c.processDueTimers
    c' = c.processDueTimersPlain ∧
      (∀ fuel, N ≤ fuel → c.dueTimersLoop fuel = c.dueTimersLoop N) ∧
      (c.dueTimersLoop N).soonest = none ∧
      c.dueSlots.Pairwise c.Before ∧
      (∀ s, s ∈ c.dueSlots ↔
        (c.slots s).state = .waitingTimer ∧ (c.slots s).deadline ≤ now) ∧
      c'.readyTasks = c.readyTasks ++ c.dueSlots.map c.taskIn ∧
      (∀ s ∈ c.dueSlots, (c'.slots s).state = .ready) ∧
      (∀ s ∉ c.dueSlots, c'.slots s = { c.slots s with next := (c'.slots s).next } ∧
        (c.readyTail ≠ some s → c'.slots s = c.slots s)) ∧
      w.sched.NearestExact ∧ c'.NearestExact := by
  intro c c'
  obtain ⟨L, hinv⟩ := hw.inv
  have hsound := hinv.core.sound.at_clock now
  have hplain : c' = c.processDueTimersPlain := hsound.timers.processDueTimers_eq
  have hloop : ∀ fuel, c.dueSlots.length ≤ fuel →
      c.dueTimersLoop fuel = c.dueSlots.foldl Scheduler.makeReady c ∧
        (c.dueTimersLoop fuel).soonest = none := fun fuel =>
    Scheduler.dueTimersLoop_eq c.pairwise_dueSlots fun _ => Scheduler.mem_dueSlots
  have hlength := c.length_dueSlots_le
  have hdue : ∀ s, s ∈ c.dueSlots ↔
      (c.slots s).state = .waitingTimer ∧ (c.slots s).deadline ≤ now := by
    intro s
    rw [Scheduler.mem_dueSlots, Scheduler.isDue, Bool.and_eq_true, decide_eq_true_eq,
      decide_eq_true_eq]
  have hslots : ∀ s, c'.slots s = { c.slots s with
      state := if s ∈ c.dueSlots then .ready else (c.slots s).state
      next := (c'.slots s).next } := by
    intro s
    rw [hplain]
    exact Scheduler.foldl_makeReady_slots c.dueSlots c s
  refine ⟨hplain, fun fuel hfuel => ?_, (hloop N hlength).2, c.pairwise_dueSlots, hdue, ?_,
    fun s hs => ?_, fun s hs => ⟨?_, fun htail => ?_⟩, hinv.core.sound.timers.nearestExact, ?_⟩
  · rw [(hloop fuel (hlength.trans hfuel)).1, (hloop N hlength).1]
  · have hplace : ∀ s ∈ c.dueSlots, L.place s = .timer := fun s hs =>
      (hsound.state_eq_timer).mp ((hdue s).mp hs).1
    have hnodup : c.dueSlots.Nodup := c.pairwise_dueSlots.imp fun h he => (he ▸ h).asymm (he ▸ h)
    have hthreaded : Threaded c' (fun e => (w.event e).waiters)
        (L.toView.enqueueAll c.dueSlots) := by
      rw [hplain]
      exact (hsound.threaded.makeReadyAll hnodup hplace).congr rfl rfl rfl rfl rfl rfl
    have htask : c'.taskIn = c.taskIn := by
      funext s
      rw [Scheduler.taskIn, hslots s]
      rfl
    rw [hthreaded.readyTasks_eq, hsound.threaded.readyTasks_eq, View.enqueueAll_ready, htask,
      List.map_append]
  · rw [hslots s, if_pos hs]
  · conv_lhs => rw [hslots s, if_neg hs]
  · have hnext : (c'.slots s).next = (c.slots s).next := by
      rw [hplain]
      exact Scheduler.foldl_makeReady_next hs htail
    rw [hslots s, if_neg hs, hnext]
  · refine Timers.nearestExact ?_
    rw [hplain]
    exact Timers.recompute _

/-- Three tasks sleep until 9, 4 and 4.  At 4 the second and the third are due, in this order, and
the first then has the nearest deadline. -/
theorem due_timers_exact_small :
    let asleep : List (Action ℕ) := [.createTask (some 1), .createTask (some 2),
      .createTask (some 3), .poll false 1, .checkPending, .startPass, .passPop, .coAwait (.delay 8),
      .passPop, .coAwait (.delay 3), .passPop, .coAwait (.delay 3), .endPass 1]
    let c := { (World.after .small asleep).sched with now := 4 }
    c.dueSlots = [1, 2] ∧ c.processDueTimers.readyTasks = c.readyTasks ++ [(1, 1), (2, 1)] ∧
      c.nearestDeadline = 4 ∧ c.processDueTimers.nearestDeadline = 9 := by
  intro asleep c
  have hdue : c.dueSlots = [1, 2] := by decide
  have hw : (World.after .small asleep).Reachable .small := .after .small (by decide)
  obtain ⟨-, -, -, -, -, hready, -⟩ := due_timers_exact hw 4
  refine ⟨hdue, ?_, by decide, by decide⟩
  rw [hready, hdue]
  decide

end SimpleAwait
