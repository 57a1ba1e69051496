import SimpleAwait.Signaling.Walk

/-!
# The armed list is exact

The armed list holds each flag with a parked waiter once.  A walk takes the signaled flags off it
and wakes their waiters, a destructor takes one flag off it wherever it stands, and neither ever
comes to a flag that has been destroyed.
-/

namespace SimpleAwait

open Intrusive Transition

variable {N : ℕ} {armed done rest woken : List ℕ} {f : ℕ}

namespace Signaling

variable {x y : Signaling N} {actions : List (SignalingAction N)}

/-- A walk has resolved the signals of the flags `woken` and left the others alone. -/
structure Resolves (x y : Signaling N) (actions : List (SignalingAction N)) (armed woken : List ℕ) :
    Prop where
  /-- The flags are those that are signaled when the walk begins, and some that are signaled
  before the walk comes to them. -/
  sub : woken.Sublist armed
  early : ∀ f ∈ armed, (x.flags.flag f).signaled = true → f ∈ woken
  late : ∀ f ∈ woken, (x.flags.flag f).signaled = true ∨ .setFlag f ∈ actions
  /-- Their waiters are put on the ready FIFO, once each. -/
  sched : y.sched = x.wakeAll woken
  enqueued : enqueuedTasks y.sched.trace = enqueuedTasks x.sched.trace ++ woken.filterMap x.task
  once : (woken.filterMap x.task).Nodup
  /-- They are cleared and unlinked. -/
  cleared : ∀ f ∈ woken, y.task f = none ∧ (y.flags.flag f).waiter = none ∧
    y.flags.armedNext f = none ∧ (.setFlag f ∉ actions → (y.flags.flag f).signaled = false)
  /-- The others are armed as before, in the same order. -/
  left : Linked y.flags.armedNext y.flags.armedHead (armed.filter fun f => f ∉ woken)
  kept : ∀ f ∉ woken, y.task f = x.task f ∧ (y.flags.flag f).waiter = (x.flags.flag f).waiter ∧
    (.setFlag f ∉ actions → (y.flags.flag f).signaled = (x.flags.flag f).signaled)

/-- A destructor has taken the flag `f` off the list. -/
structure Removes (x y : Signaling N) (f : ℕ) (armed : List ℕ) : Prop where
  left : Linked y.flags.armedNext y.flags.armedHead (armed.erase f)
  gone : y.alive f = false ∧ y.task f = none ∧ (y.flags.flag f).waiter = none
  kept : ∀ g ≠ f, y.alive g = x.alive g ∧ y.task g = x.task g ∧
    (y.flags.flag g).waiter = (x.flags.flag g).waiter ∧
    (y.flags.flag g).signaled = (x.flags.flag g).signaled
  quiet : enqueuedTasks y.sched.trace = enqueuedTasks x.sched.trace

/-- A flag is armed once if a task is parked on it, and otherwise not at all. -/
theorem Inv.count_eq (h : Inv x armed) (f : ℕ) :
    armed.count f = if (x.task f).isSome then 1 else 0 := by
  rw [h.linked.nodup.count, h.task, Option.isSome_map]
  by_cases hf : f ∈ armed
  · simp [hf, Option.isSome_iff_ne_none.mpr (h.mem.mp hf)]
  · have hnone : (x.flags.flag f).waiter = none := by
      by_contra hsome
      exact hf (h.mem.mpr hsome)
    simp [hf, hnone]

/-- Waking a list of waiters enqueues their tasks in order. -/
theorem enqueuedTasks_foldl (flags : Flags N) (woken : List ℕ) (c : Scheduler N) :
    enqueuedTasks (woken.foldl (fun c f => c.wakeSlot (flags.flag f).waiter) c).trace =
      enqueuedTasks c.trace ++ woken.filterMap fun f => (flags.flag f).waiter.map c.taskIn := by
  induction woken generalizing c with
  | nil => simp
  | cons f woken ih =>
      rw [List.foldl_cons, ih]
      cases hs : (flags.flag f).waiter with
      | none => simp [Scheduler.wakeSlot, hs]
      | some s =>
          have htask : (c.wakeSlot (some s)).taskIn = c.taskIn :=
            funext fun t => c.taskIn_wakeSlot (some s) t
          rw [htask, c.wakeSlot_trace]
          simp [hs, Scheduler.taskIn]

theorem Inv.tasks_nodup (h : Inv x armed) (hwoken : woken.Nodup) : (woken.filterMap x.task).Nodup := by
  obtain ⟨place, harmed⟩ := h.listed
  refine hwoken.filterMap fun f g t hf hg => ?_
  rw [Option.mem_def, h.task] at hf hg
  obtain ⟨s, hs, rfl⟩ := Option.map_eq_some_iff.mp hf
  obtain ⟨s', hs', he⟩ := Option.map_eq_some_iff.mp hg
  obtain rfl : s' = s := congrArg Prod.fst he
  exact harmed.waiter_injective hs hs'

/-- What a walk has done when it returns. -/
theorem Walked.resolves (h : Walked x y actions armed [] woken) (hx : Inv x armed) :
    x.Resolves y actions armed woken where
  sub := h.sub
  early := h.early
  late := h.late
  sched := h.sched
  enqueued := by
    have htask : x.task = fun f => (x.flags.flag f).waiter.map x.sched.taskIn := funext hx.task
    rw [h.sched, wakeAll, enqueuedTasks_foldl, htask]
  once := hx.tasks_nodup (h.sub.nodup hx.linked.nodup)
  cleared f hf := by
    refine ⟨?_, ?_, h.unlinked f hf, fun hset => ?_⟩
    · rw [h.task, if_pos hf]
    · rw [h.waiter, if_pos hf]
    · simp [h.signaled f hset, hf]
  left := by simpa using h.inv.linked
  kept f hf := by
    refine ⟨?_, ?_, fun hset => ?_⟩
    · rw [h.task, if_neg hf]
    · rw [h.waiter, if_neg hf]
    · simp [h.signaled f hset, hf]

/-- Where a walk stands, and what it has done when it returns. -/
theorem Inv.walk_resolves (h : Inv x armed) (hwalk : x.walk = none) (hpending : x.flags.pending = true)
    (hactions : ∀ a ∈ actions, a.inWalk = true)
    (hrun : run Signaling.step x (.checkPending :: actions) = some y) :
    (y.walk = none ↔ (actions.filter SignalingAction.isVisit).length = armed.length) ∧
      (y.walk = none → ∃ woken, x.Resolves y actions armed woken) := by
  obtain ⟨done, rest, woken, rfl, hwalked⟩ := h.walk_run hwalk hpending hactions hrun
  cases rest with
  | nil =>
      rw [List.append_nil] at h ⊢
      have hdone : y.walk = none := hwalked.walk
      exact ⟨iff_of_true hdone hwalked.visits, fun _ => ⟨woken, hwalked.resolves h⟩⟩
  | cons g rest =>
      have hgoes : y.walk ≠ none := by simp [hwalked.walk]
      have hvisits : (actions.filter SignalingAction.isVisit).length ≠ (done ++ g :: rest).length := by
        rw [hwalked.visits, List.length_append, List.length_cons]
        omega
      exact ⟨iff_of_false hgoes hvisits, fun hdone => absurd hdone hgoes⟩

/-- A destructor takes its flag off the list, wherever it stands. -/
theorem Inv.removes (h : Inv x armed) (hstep : x.step (.destroy f) = some y) :
    x.Removes y f armed := by
  simp only [Signaling.step, call] at hstep
  split_ifs at hstep with hcall
  cases hstep
  by_cases hf : (x.flags.flag f).waiter = none
  · have hnot : f ∉ armed := fun hmem => h.mem.mp hmem hf
    obtain ⟨heq, hinv⟩ := h.destroy_vacant hf
    refine ⟨?_, ?_, fun g hg => ?_, ?_⟩
    · rw [List.erase_of_not_mem hnot]
      exact hinv.linked
    · simp [heq, hf]
    · simp [heq, hg]
    · simp [heq]
  · obtain ⟨pre, post, rfl⟩ := List.append_of_mem (h.mem.mpr hf)
    obtain ⟨place, harmed⟩ := h.listed
    have hpre : f ∉ pre := fun hmem =>
      harmed.linked.not_mem_of_middle (List.mem_append_left _ hmem)
    obtain ⟨heq, hinv⟩ := h.destroy_armed hcall.2
    refine ⟨?_, ?_, fun g hg => ?_, ?_⟩
    · rw [List.erase_append_right _ hpre, List.erase_cons_head]
      exact hinv.linked
    · simp [heq, (harmed.unarm_flag f).2]
    · simp [heq, hg, harmed.unarm_flag g]
    · simp [heq, Scheduler.report]

end Signaling

/-- The armed list holds every flag with a parked waiter, once.  A walk ends when it has visited each
flag of the list; it wakes the waiters of those that are signaled, takes these off the list and leaves
the others in order.  A destructor takes off its own flag only, and no destroyed flag is ever reached. -/
theorem armed_list_exact {x : Signaling N} (hx : x.Reachable) :
    (∃ armed, Linked x.flags.armedNext x.flags.armedHead armed ∧
        ∀ f, armed.count f = if (x.task f).isSome then 1 else 0) ∧
      (∀ armed, Linked x.flags.armedNext x.flags.armedHead armed →
        (x.walk = none → x.flags.pending = true → ∀ actions y,
          (∀ a ∈ actions, SignalingAction.inWalk a = true) →
          run Signaling.step x (.checkPending :: actions) = some y →
          (y.walk = none ↔ (actions.filter SignalingAction.isVisit).length = armed.length) ∧
          (y.walk = none → ∃ woken, x.Resolves y actions armed woken)) ∧
        ∀ f y, x.step (.destroy f) = some y → x.Removes y f armed) ∧
      x.stray = [] := by
  obtain ⟨armed, h⟩ := hx.inv
  refine ⟨⟨armed, h.linked, h.count_eq⟩, fun armed' harmed' => ?_, h.stray⟩
  obtain rfl := h.linked.unique harmed'
  exact ⟨fun hwalk hpending _ _ hactions hrun => h.walk_resolves hwalk hpending hactions hrun,
    fun _ _ hstep => h.removes hstep⟩

/-- Three tasks park, one flag is signaled, and a walk wakes its waiter; then the first flag of the
list is destroyed. -/
theorem armed_list_exact_small :
    let parks : ℕ → List (SignalingAction 3) := fun f => [.elsewhere (Scheduler.startNew (f + 1)),
      .awaitReady f, .awaitSuspend f (some (f + 1))]
    let walk : List (SignalingAction 3) := [.walkStep, .walkStep, .walkStep]
    let x : Signaling 3 := .after (parks 0 ++ parks 1 ++ parks 2 ++ [.setFlag 1])
    ∃ y z, run Signaling.step x (.checkPending :: walk) = some y ∧
      (∃ woken, x.Resolves y walk [2, 1, 0] woken) ∧
      x.step (.destroy 2) = some z ∧ x.Removes z 2 [2, 1, 0] := by
  intro parks walk x
  have hx : x.Reachable := .after (by decide)
  obtain ⟨y, hy⟩ := Option.isSome_iff_exists.mp
    (by decide : (run Signaling.step x (.checkPending :: walk)).isSome = true)
  obtain ⟨z, hz⟩ := Option.isSome_iff_exists.mp (by decide : (x.step (.destroy 2)).isSome = true)
  have harmed : Linked x.flags.armedNext x.flags.armedHead [2, 1, 0] :=
    ⟨by decide, by decide, by decide, linked_nil.mpr (by decide)⟩
  obtain ⟨hwalks, hremoves⟩ := (armed_list_exact hx).2.1 _ harmed
  obtain ⟨hends, hresolves⟩ := hwalks (by decide) (by decide) walk y (by decide) hy
  exact ⟨y, z, hy, hresolves (hends.mpr (by decide)), hz, hremoves 2 z hz⟩

end SimpleAwait
