import SimpleAwait.Signaling.Invariant

/-!
# The walk of `poll_external_signals`

`Walked` says what a walk has done so far: it has visited the flags `done` and woken the waiters of
`woken`, and has yet to visit `rest`.  Signals that are set during the walk count where their flag
has not been visited.
-/

namespace SimpleAwait

open Intrusive Transition

variable {N : ℕ} {armed done rest woken : List ℕ} {f : ℕ} {s : Fin N}

/-- What may happen during the walk. -/
def SignalingAction.inWalk : SignalingAction N → Bool
  | .setFlag _ | .walkStep => true
  | _ => false

/-- The walk visits a flag. -/
def SignalingAction.isVisit : SignalingAction N → Bool
  | .walkStep => true
  | _ => false

namespace Signaling

variable {x y y' : Signaling N} {actions : List (SignalingAction N)} {action : SignalingAction N}

/-- The scheduler after the waiters of the flags `woken` have been woken, in this order. -/
def wakeAll (x : Signaling N) (woken : List ℕ) : Scheduler N :=
  woken.foldl (fun c f => c.wakeSlot (x.flags.flag f).waiter) x.sched

/-- What the walk that began in `x` has done by `actions`. -/
structure Walked (x y : Signaling N) (actions : List (SignalingAction N))
    (done rest woken : List ℕ) : Prop where
  inv : y.Inv (done.filter (fun f => f ∉ woken) ++ rest)
  walk : y.walk = rest.head?.map fun f => ((done.filter fun f => f ∉ woken).getLast?, f)
  visits : (actions.filter SignalingAction.isVisit).length = done.length
  sub : woken.Sublist done
  early : ∀ f ∈ done, (x.flags.flag f).signaled = true → f ∈ woken
  late : ∀ f ∈ woken, (x.flags.flag f).signaled = true ∨ .setFlag f ∈ actions
  ahead : ∀ f ∈ rest, (y.flags.flag f).signaled = true ↔
    (x.flags.flag f).signaled = true ∨ .setFlag f ∈ actions
  signaled : ∀ f, .setFlag f ∉ actions →
    (y.flags.flag f).signaled = ((x.flags.flag f).signaled && decide (f ∉ woken))
  waiter : ∀ f, (y.flags.flag f).waiter = if f ∈ woken then none else (x.flags.flag f).waiter
  unlinked : ∀ f ∈ woken, y.flags.armedNext f = none
  task : ∀ f, y.task f = if f ∈ woken then none else x.task f
  sched : y.sched = x.wakeAll woken

namespace Walked

/-- A signal is set. -/
theorem setFlag (h : Walked x y actions done rest woken) (g : ℕ) :
    Walked x { y with flags := (y.flags.set g).2 } (actions ++ [.setFlag g]) done rest woken where
  inv := h.inv.signal rfl fun k => by by_cases hk : k = g <;> simp [Flags.set, hk]
  walk := h.walk
  visits := by simpa [SignalingAction.isVisit] using h.visits
  sub := h.sub
  early := h.early
  late k hk := (h.late k hk).imp_right fun hmem => List.mem_append_left _ hmem
  ahead k hk := by
    by_cases hkg : k = g
    · subst hkg
      simp [Flags.set]
    · simp [Flags.set, hkg, h.ahead k hk]
  signaled k hk := by
    have hkg : k ≠ g := by
      rintro rfl
      exact hk (by simp)
    have hbefore : SignalingAction.setFlag k ∉ actions :=
      fun hmem => hk (List.mem_append_left _ hmem)
    simp [Flags.set, hkg, h.signaled k hbefore]
  waiter k := by
    rw [← h.waiter k]
    by_cases hk : k = g <;> simp [Flags.set, hk]
  unlinked k hk := by
    rw [← h.unlinked k hk]
    by_cases hkg : k = g <;> simp [Flags.armedNext, Flags.set, hkg]
  task := h.task
  sched := h.sched

theorem filter_snoc_of_not_mem (hf : f ∉ woken) : (done ++ [f]).filter (fun g => g ∉ woken) =
    done.filter (fun g => g ∉ woken) ++ [f] := by
  simp [List.filter_append, hf]

theorem filter_snoc_of_mem (hf : f ∉ done) : (done ++ [f]).filter (fun g => g ∉ woken ++ [f]) =
    done.filter fun g => g ∉ woken := by
  rw [List.filter_append]
  have hlast : [f].filter (fun g => g ∉ woken ++ [f]) = [] := by simp
  rw [hlast, List.append_nil]
  refine List.filter_congr fun g hg => ?_
  have hgf : g ≠ f := fun he => hf (he ▸ hg)
  simp [hgf]

theorem mem_setFlag_append {actions : List (SignalingAction N)} {g : ℕ} :
    .setFlag g ∈ actions ++ [SignalingAction.walkStep] ↔ .setFlag g ∈ actions := by
  simp

theorem visits_append {actions : List (SignalingAction N)} {n : ℕ}
    (h : (actions.filter SignalingAction.isVisit).length = n) :
    ((actions ++ [SignalingAction.walkStep]).filter SignalingAction.isVisit).length = n + 1 := by
  rw [List.filter_append, List.length_append, h]
  rfl

/-- The walk leaves the next flag armed. -/
theorem skip (h : Walked x y actions done (f :: rest) woken) (hfresh : f ∉ done)
    (hf : (y.flags.flag f).signaled = false) :
    Walked x (y.visit (done.filter fun g => g ∉ woken).getLast? f) (actions ++ [.walkStep])
      (done ++ [f]) rest woken := by
  have hnot : f ∉ woken := fun hmem => hfresh (h.sub.subset hmem)
  have hinv := h.inv.skip
  rw [h.inv.visit_skip hf]
  refine ⟨?_, ?_, ?_, h.sub.trans (List.sublist_append_left ..), fun g hg hsignaled => ?_,
    fun g hg => ?_, fun g hg => ?_, fun g hg => ?_, h.waiter, h.unlinked, h.task, h.sched⟩
  · rw [filter_snoc_of_not_mem hnot, List.append_assoc]
    exact hinv
  · rw [filter_snoc_of_not_mem hnot, List.getLast?_append_cons]
    rfl
  · rw [List.length_append]
    exact visits_append h.visits
  · rcases List.mem_append.mp hg with hg | hg
    · exact h.early g hg hsignaled
    · obtain rfl := List.mem_singleton.mp hg
      have := (h.ahead g (by simp)).mpr (Or.inl hsignaled)
      simp [hf] at this
  · rw [mem_setFlag_append]
    exact h.late g hg
  · rw [mem_setFlag_append]
    exact h.ahead g (List.mem_cons_of_mem _ hg)
  · rw [mem_setFlag_append] at hg
    exact h.signaled g hg

/-- The walk wakes the waiter of the next flag. -/
theorem wake (h : Walked x y actions done (f :: rest) woken) (hfresh : f ∉ done ++ rest)
    (hf : (y.flags.flag f).signaled = true) :
    Walked x (y.visit (done.filter fun g => g ∉ woken).getLast? f) (actions ++ [.walkStep])
      (done ++ [f]) rest (woken ++ [f]) := by
  have hdone : f ∉ done := fun hmem => hfresh (List.mem_append_left _ hmem)
  have hnot : f ∉ woken := fun hmem => hdone (h.sub.subset hmem)
  obtain ⟨s, hs⟩ := Option.ne_none_iff_exists'.mp (h.inv.mem.mp (by simp : f ∈ _))
  have hwaiter : (x.flags.flag f).waiter = some s := by
    rw [← hs, h.waiter, if_neg hnot]
  have hkept : ∀ g ∈ woken, (done.filter fun g => g ∉ woken).getLast? ≠ some g := by
    intro g hg he
    have := (List.mem_filter.mp (List.mem_of_getLast? he)).2
    simp [hg] at this
  have hlast : (done.filter fun g => g ∉ woken).getLast? ≠ some f := fun he =>
    hdone (List.mem_filter.mp (List.mem_of_getLast? he)).1
  obtain ⟨-, -, hfields⟩ := Armed.disarm_spec y.flags _ hlast
  have hinv := h.inv.wake hs
  rw [h.inv.visit_wake hf hs]
  refine ⟨?_, ?_, ?_, h.sub.append_right _, fun g hg hsignaled => ?_, fun g hg => ?_,
    fun g hg => ?_, fun g hg => ?_, fun g => ?_, fun g hg => ?_, fun g => ?_, ?_⟩
  · rw [filter_snoc_of_mem hdone]
    exact hinv
  · rw [filter_snoc_of_mem hdone]
  · rw [List.length_append]
    exact visits_append h.visits
  · rcases List.mem_append.mp hg with hg | hg
    · exact List.mem_append_left _ (h.early g hg hsignaled)
    · exact List.mem_append_right _ hg
  · rw [mem_setFlag_append]
    rcases List.mem_append.mp hg with hg | hg
    · exact h.late g hg
    · obtain rfl := List.mem_singleton.mp hg
      exact (h.ahead g (by simp)).mp hf
  · have hgf : g ≠ f := fun he => hfresh (he ▸ List.mem_append_right _ hg)
    rw [mem_setFlag_append, (hfields g).2.2, if_neg hgf]
    exact h.ahead g (List.mem_cons_of_mem _ hg)
  · rw [mem_setFlag_append] at hg
    rw [(hfields g).2.2]
    by_cases hgf : g = f
    · simp [hgf]
    · simp [hgf, h.signaled g hg]
  · rw [(hfields g).2.1]
    by_cases hgf : g = f
    · simp [hgf]
    · simp [hgf, h.waiter g]
  · rw [(hfields g).1]
    rcases List.mem_append.mp hg with hg | hg
    · rw [if_neg (hkept g hg), h.unlinked g hg, ite_self]
    · obtain rfl := List.mem_singleton.mp hg
      rw [if_neg hlast, if_pos rfl]
  · by_cases hgf : g = f
    · simp [hgf]
    · simp [hgf, h.task g]
  · rw [h.sched]
    simp [wakeAll, List.foldl_append, hwaiter]

/-- A step during the walk. -/
theorem step (h : Walked x y actions done rest woken) (hnodup : (done ++ rest).Nodup)
    (haction : action.inWalk = true) (hstep : y.step action = some y') :
    ∃ done' rest' woken', done ++ rest = done' ++ rest' ∧
      Walked x y' (actions ++ [action]) done' rest' woken' := by
  cases action with
  | setFlag g =>
      simp only [Signaling.step] at hstep
      split_ifs at hstep
      cases hstep
      exact ⟨done, rest, woken, rfl, h.setFlag g⟩
  | walkStep =>
      cases rest with
      | nil => simp [Signaling.step, h.walk] at hstep
      | cons f rest =>
          simp only [Signaling.step, h.walk, List.head?_cons, Option.map_some] at hstep
          cases hstep
          have hfresh : f ∉ done ++ rest :=
            (List.nodup_cons.mp (List.perm_middle.nodup_iff.mp hnodup)).1
          have hdone : f ∉ done := fun hmem => hfresh (List.mem_append_left _ hmem)
          by_cases hf : (y.flags.flag f).signaled = true
          · exact ⟨done ++ [f], rest, woken ++ [f], by simp, h.wake hfresh hf⟩
          · exact ⟨done ++ [f], rest, woken, by simp, h.skip hdone (by simpa using hf)⟩
  | clear _ | awaitReady _ | awaitSuspend _ _ | checkPending | destroy _ | elsewhere _ =>
      cases haction

end Walked

/-- Every run that begins with a walk and does not leave it. -/
theorem Inv.walk_run (h : Inv x armed) (hwalk : x.walk = none) (hpending : x.flags.pending = true)
    (hactions : ∀ a ∈ actions, a.inWalk = true)
    (hrun : run Signaling.step x (.checkPending :: actions) = some y) :
    ∃ done rest woken, armed = done ++ rest ∧ Walked x y actions done rest woken := by
  obtain ⟨x₁, hfirst, hrest⟩ := run_cons.mp hrun
  rw [h.checkPending_eq hwalk hpending] at hfirst
  clear hrun
  induction actions using List.reverseRecOn generalizing y with
  | nil =>
      cases hrest
      cases hfirst
      refine ⟨[], armed, [], rfl, h.begin false, rfl, rfl, .slnil, by simp, by simp, by simp,
        by simp, by simp, by simp, by simp, rfl⟩
  | append_singleton actions a ih =>
      obtain ⟨u, hu, hlast⟩ := run_append.mp hrest
      rw [run_singleton] at hlast
      obtain ⟨done, rest, woken, rfl, hwalked⟩ :=
        ih (fun b hb => hactions b (List.mem_append_left _ hb)) hu
      obtain ⟨done', rest', woken', hsplit, hwalked'⟩ :=
        hwalked.step h.linked.nodup (hactions a (by simp)) hlast
      exact ⟨done', rest', woken', hsplit, hwalked'⟩

end Signaling

end SimpleAwait
