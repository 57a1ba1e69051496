import SimpleAwait.Exchange.Fairness
import SimpleAwait.Signaling.Step
import SimpleAwait.System.Armed

/-!
# The armed list while flags are destroyed

`Armed` of `System/Armed.lean` is what the walk and `park` keep.  So does `unarm`, which takes a flag
out of the list wherever it stands.  `Signaling.Inv` adds that every armed flag is alive, and
where the walk is.
-/

namespace SimpleAwait

open Intrusive

variable {N : ℕ} {F : Flags N} {place : Fin N → Place N} {armed pre post : List ℕ} {f : ℕ} {s : Fin N}

namespace Armed

/-- No two flags have one slot as waiter. -/
theorem waiter_injective (h : Armed F place armed) {g : ℕ} (hf : (F.flag f).waiter = some s)
    (hg : (F.flag g).waiter = some s) : f = g := by
  have hplace := (h.waiter f s).mp hf
  rw [(h.waiter g s).mp hg] at hplace
  cases hplace
  rfl

/-- There are no more armed flags than slots. -/
theorem length_le (h : Armed F place armed) : armed.length ≤ N := by
  have hslots : (armed.filterMap fun f => (F.flag f).waiter).Nodup :=
    h.linked.nodup.filterMap fun f g s hf hg => h.waiter_injective hf hg
  have hlength : (armed.filterMap fun f => (F.flag f).waiter).length = armed.length :=
    List.filterMap_length_eq_length.mpr fun f hf => Option.isSome_iff_ne_none.mpr ((h.mem f).mp hf)
  calc armed.length = (armed.filterMap fun f => (F.flag f).waiter).length := hlength.symm
    _ ≤ Fintype.card (Fin N) := hslots.length_le_card
    _ = N := Fintype.card_fin N

/-- `unarm` writes what the walk writes when it wakes the waiter, but for the signal. -/
theorem unarm_eq (h : Armed F place (pre ++ f :: post)) :
    F.unarm f = (F.disarm pre.getLast? f).modify f fun flag =>
      { flag with signaled := (F.flag f).signaled } := by
  have hlength := h.length_le
  have hlast : pre.getLast? ≠ some f := fun he =>
    h.linked.not_mem_of_middle (List.mem_append_left _ (List.mem_of_getLast? he))
  have hbefore : before F.armedNext f N none F.armedHead = some pre.getLast? := by
    refine h.linked.before_eq ?_
    rw [List.length_append, List.length_cons] at hlength
    omega
  unfold Flags.unarm Flags.disarm
  rw [hbefore]
  cases hp : pre.getLast? with
  | none =>
      simp only [Flags.modify, Flags.armedNext, Flags.mk.injEq, and_true]
      funext g
      by_cases hg : g = f <;> simp [hg]
  | some p =>
      have hpf : p ≠ f := fun he => hlast (he ▸ hp)
      simp only [Flags.modify, Flags.armedNext, Flags.mk.injEq, and_true]
      funext g
      by_cases hg : g = f
      · subst hg
        simp [Ne.symm hpf]
      · by_cases hgp : g = p
        · subst hgp
          simp [hpf]
        · simp [hg, hgp]

/-- A flag is taken out of the list, and its waiter is forgotten. -/
theorem unarm (h : Armed F place (pre ++ f :: post)) (hs : (F.flag f).waiter = some s) :
    Armed (F.unarm f) (Function.update place s .ready) (pre ++ post) := by
  rw [h.unarm_eq]
  refine (h.disarm hs).congr rfl (fun g => ?_) (fun g => ?_) fun _ _ => Iff.rfl
  · by_cases hg : g = f <;> simp [hg]
  · by_cases hg : g = f <;> simp [hg]

/-- What else `unarm` leaves of the flags. -/
theorem unarm_flag (h : Armed F place (pre ++ f :: post)) (g : ℕ) :
    ((F.unarm f).flag g).signaled = (F.flag g).signaled ∧
      ((F.unarm f).flag g).waiter = if g = f then none else (F.flag g).waiter := by
  have hlast : pre.getLast? ≠ some f := fun he =>
    h.linked.not_mem_of_middle (List.mem_append_left _ (List.mem_of_getLast? he))
  obtain ⟨-, -, hfields⟩ := disarm_spec F pre.getLast? hlast
  obtain ⟨-, hwaiter, hsignaled⟩ := hfields g
  rw [h.unarm_eq]
  by_cases hg : g = f
  · subst hg
    simp [hwaiter]
  · simp [hg, hwaiter, hsignaled]

end Armed

namespace Signaling

/-- The flags `armed` are armed, and none of them has been destroyed. -/
structure Inv (x : Signaling N) (armed : List ℕ) : Prop where
  listed : ∃ place, Armed x.flags place armed
  alive : ∀ f ∈ armed, x.alive f = true
  /-- The slot of a waiter holds the task that parked, suspended. -/
  task : ∀ f, x.task f = (x.flags.flag f).waiter.map x.sched.taskIn
  idle : ∀ f s, (x.flags.flag f).waiter = some s → x.sched.current ≠ some s
  walk : ∀ prev f, x.walk = some (prev, f) →
    ∃ visited rest, armed = visited ++ f :: rest ∧ prev = visited.getLast?
  stray : x.stray = []

variable {x x' : Signaling N} {action : SignalingAction N} {prev : Option ℕ} {visited rest : List ℕ}

/-! ## Every step keeps the invariant -/

namespace Inv

theorem initial : Inv (initial : Signaling N) [] where
  listed := ⟨fun _ => .free, rfl, by simp [Signaling.initial], by simp [Signaling.initial]⟩
  alive := by simp
  task _ := rfl
  idle := by simp [Signaling.initial]
  walk := by simp [Signaling.initial]
  stray := rfl

theorem linked (h : Inv x armed) : Linked x.flags.armedNext x.flags.armedHead armed := by
  obtain ⟨place, harmed⟩ := h.listed
  exact harmed.linked

theorem mem (h : Inv x armed) : f ∈ armed ↔ (x.flags.flag f).waiter ≠ none := by
  obtain ⟨place, harmed⟩ := h.listed
  exact harmed.mem f

theorem follow_eq (h : Inv x armed) : follow x.flags.armedNext N x.flags.armedHead = armed := by
  obtain ⟨place, harmed⟩ := h.listed
  exact harmed.linked.follow_eq harmed.length_le

/-- Only flags that are alive are reached by way of the list. -/
theorem reach_eq (h : Inv x armed) {fs : List ℕ} (hfs : ∀ f ∈ fs, f ∈ armed) : x.reach fs = x := by
  have hnone : fs.filter (fun f => !x.alive f) = [] := by
    refine List.filter_eq_nil_iff.mpr fun f hf => ?_
    simp [h.alive f (hfs f hf)]
  unfold reach
  rw [hnone, List.append_nil]

/-- Signals come and go. -/
theorem signal (h : Inv x armed) {F : Flags N} (hhead : F.armedHead = x.flags.armedHead)
    (hflag : ∀ f, (F.flag f).armedNext = (x.flags.flag f).armedNext ∧
      (F.flag f).waiter = (x.flags.flag f).waiter) : Inv { x with flags := F } armed where
  listed := by
    obtain ⟨place, harmed⟩ := h.listed
    exact ⟨place, harmed.congr hhead (fun f => (hflag f).1) (fun f => (hflag f).2) fun _ _ => Iff.rfl⟩
  alive := h.alive
  task f := by
    rw [(hflag f).2]
    exact h.task f
  idle f s hs := h.idle f s ((hflag f).2 ▸ hs)
  walk := h.walk
  stray := h.stray

/-- The scheduler goes on, and leaves the waiters alone. -/
theorem leave (h : Inv x armed) {c : Scheduler N} (hleave : ∀ f s, (x.flags.flag f).waiter = some s →
    c.taskIn s = x.sched.taskIn s ∧ c.current ≠ some s) : Inv { x with sched := c } armed where
  listed := h.listed
  alive := h.alive
  task f := by
    refine (h.task f).trans ?_
    cases hs : (x.flags.flag f).waiter with
    | none => rfl
    | some s => exact congrArg some (hleave f s hs).1.symm
  idle f s hs := (hleave f s hs).2
  walk := h.walk
  stray := h.stray

theorem report (h : Inv x armed) (e : Error) : Inv { x with sched := x.sched.report e } armed :=
  h.leave fun f s hs => ⟨rfl, h.idle f s hs⟩

/-- The running task parks on a flag that has no waiter. -/
theorem park (h : Inv x armed) (hf : x.alive f = true) (hwalk : x.walk = none)
    (hcurrent : x.sched.current = some s) (hwaiter : (x.flags.flag f).waiter = none) :
    Inv { x with
      sched := (x.sched.setState s .waitingLocal).afterSuspend s
      flags := (x.flags.modify f fun flag => { flag with waiter := some s }).arm f
      task := Function.update x.task f (some (x.sched.taskIn s)) } (f :: armed) where
  listed := by
    obtain ⟨place, harmed⟩ := h.listed
    refine ⟨_, harmed.park (fun g hg => ?_) hwaiter⟩
    exact h.idle g s ((harmed.waiter g s).mpr hg) hcurrent
  alive g hg := by
    rcases List.mem_cons.mp hg with rfl | hg
    · exact hf
    · exact h.alive g hg
  task g := by
    have hsame : ((x.sched.setState s .waitingLocal).afterSuspend s).taskIn = x.sched.taskIn :=
      funext fun t => (x.sched.parked_eq t).1
    rw [hsame]
    by_cases hg : g = f
    · subst hg
      simp [Flags.arm]
    · simp [Flags.arm, hg, h.task]
  idle g t ht := by simp [(x.sched.parked_eq (s := s) t).2.1]
  walk := by simp [hwalk]
  stray := h.stray

theorem awaitSuspend (h : Inv x armed) (hf : x.alive f = true) (hwalk : x.walk = none)
    (awaiting : Handle) : ∃ armed', Inv (x.awaitSuspend f awaiting) armed' := by
  unfold Signaling.awaitSuspend Flags.park Scheduler.runningIs
  by_cases hrunning : x.sched.isRunning awaiting = true
  · obtain ⟨s, hcurrent⟩ := Exchange.exists_current hrunning
    obtain ⟨hpark, hsuspend, htask⟩ := Exchange.parkRunning_eq hcurrent
    simp only [hrunning, if_true]
    by_cases hwaiter : (x.flags.flag f).waiter = none
    · simp only [hwaiter, ne_eq, not_true_eq_false, if_false, hpark, hsuspend, htask]
      exact ⟨_, h.park hf hwalk hcurrent hwaiter⟩
    · simp only [hwaiter, ne_eq, not_false_eq_true, if_true]
      exact ⟨_, h.report _⟩
  · simp only [hrunning, Bool.false_eq_true, if_false]
    exact ⟨_, h.report _⟩

/-! ### The walk -/

/-- The walk begins at the first armed flag. -/
theorem begin (h : Inv x armed) (pending : Bool) :
    Inv { x with
      flags := { x.flags with pending := pending }
      walk := armed.head?.map fun f => (none, f) } armed where
  listed := (h.signal (F := { x.flags with pending := pending }) rfl fun _ => ⟨rfl, rfl⟩).listed
  alive := h.alive
  task := h.task
  idle := h.idle
  walk prev f he := by
    cases armed with
    | nil => cases he
    | cons g rest =>
        cases he
        exact ⟨[], rest, rfl, rfl⟩
  stray := h.stray

theorem checkPending_eq (h : Inv x armed) (hwalk : x.walk = none) (hpending : x.flags.pending = true) :
    x.step .checkPending = some { x with
      flags := { x.flags with pending := false }
      walk := armed.head?.map fun f => (none, f) } := by
  have hhead : armed.head? = x.flags.armedHead := h.linked.head?_eq
  simp only [step, hwalk, if_true, Flags.takePending, hpending, walkTo, hhead]

/-- What the walk reaches. -/
theorem reach_visit (h : Inv x (visited ++ f :: rest)) :
    x.reach (f :: visited.getLast?.toList) = x := by
  refine h.reach_eq fun g hg => ?_
  rcases List.mem_cons.mp hg with rfl | hg
  · simp
  · exact List.mem_append_left _ (List.mem_of_getLast? (Option.mem_toList.mp hg))

/-- The walk leaves a flag armed that is not signaled. -/
theorem visit_skip (h : Inv x (visited ++ f :: rest)) (hf : (x.flags.flag f).signaled = false) :
    x.visit visited.getLast? f = { x with walk := rest.head?.map fun g => (some f, g) } := by
  obtain ⟨place, harmed⟩ := h.listed
  have hwaiter : (x.flags.flag f).waiter ≠ none := h.mem.mp (by simp)
  unfold visit
  rw [harmed.walkStep_skip x.sched _ hf, h.reach_visit]
  simp only [hwaiter, if_false]
  rfl

/-- The walk wakes the waiter of a flag that is signaled, and takes the flag off the list. -/
theorem visit_wake (h : Inv x (visited ++ f :: rest)) (hf : (x.flags.flag f).signaled = true)
    (hs : (x.flags.flag f).waiter = some s) :
    x.visit visited.getLast? f = { x with
      sched := x.sched.wakeSlot (some s)
      flags := x.flags.disarm visited.getLast? f
      task := Function.update x.task f none
      walk := rest.head?.map fun g => (visited.getLast?, g) } := by
  obtain ⟨place, harmed⟩ := h.listed
  have hlast : visited.getLast? ≠ some f := fun he =>
    harmed.linked.not_mem_of_middle (List.mem_append_left _ (List.mem_of_getLast? he))
  obtain ⟨-, -, hfields⟩ := Armed.disarm_spec x.flags visited.getLast? hlast
  have hnone : ((x.flags.disarm visited.getLast? f).flag f).waiter = none := by
    rw [(hfields f).2.1, if_pos rfl]
  unfold visit
  rw [harmed.walkStep_wake x.sched _ hf hs, h.reach_visit]
  simp only [hnone, if_true]
  rfl

/-- The walk moves on. -/
theorem skip (h : Inv x (visited ++ f :: rest)) :
    Inv { x with walk := rest.head?.map fun g => (some f, g) } (visited ++ f :: rest) where
  listed := h.listed
  alive := h.alive
  task := h.task
  idle := h.idle
  walk prev g he := by
    cases rest with
    | nil => cases he
    | cons k rest =>
        cases he
        exact ⟨visited ++ [f], rest, by simp, by simp⟩
  stray := h.stray

theorem wake (h : Inv x (visited ++ f :: rest)) (hs : (x.flags.flag f).waiter = some s) :
    Inv { x with
      sched := x.sched.wakeSlot (some s)
      flags := x.flags.disarm visited.getLast? f
      task := Function.update x.task f none
      walk := rest.head?.map fun g => (visited.getLast?, g) } (visited ++ rest) := by
  obtain ⟨place, harmed⟩ := h.listed
  have hlast : visited.getLast? ≠ some f := fun he =>
    harmed.linked.not_mem_of_middle (List.mem_append_left _ (List.mem_of_getLast? he))
  obtain ⟨-, -, hfields⟩ := Armed.disarm_spec x.flags visited.getLast? hlast
  refine ⟨⟨_, harmed.disarm hs⟩, fun g hg => h.alive g ?_, fun g => ?_, fun g t ht => ?_,
    fun prev g he => ?_, h.stray⟩
  · simp only [List.mem_append, List.mem_cons] at hg ⊢
    exact hg.imp_right Or.inr
  · rw [(hfields g).2.1]
    by_cases hg : g = f
    · simp [hg]
    · simp only [hg, if_false, Function.update_of_ne, ne_eq, not_false_eq_true, h.task]
      cases (x.flags.flag g).waiter <;> simp
  · rw [(hfields g).2.1] at ht
    split_ifs at ht
    rw [x.sched.current_wakeSlot]
    exact h.idle g t ht
  · cases rest with
    | nil => cases he
    | cons k rest =>
        cases he
        exact ⟨visited, rest, rfl, rfl⟩

/-! ### Destruction -/

/-- A flag without a waiter is destroyed. -/
theorem destroy_vacant (h : Inv x armed) (hf : (x.flags.flag f).waiter = none) :
    x.destroy f = { x with
        alive := Function.update x.alive f false
        task := Function.update x.task f none } ∧
      Inv (x.destroy f) armed := by
  have hnot : f ∉ armed := fun hmem => h.mem.mp hmem hf
  have hreach : x.reach [] = x := h.reach_eq (by simp)
  have heq : x.destroy f = { x with
      alive := Function.update x.alive f false
      task := Function.update x.task f none } := by
    unfold Signaling.destroy Flags.destroy Flags.unarmReads
    simp only [hf, ne_eq, not_true_eq_false, if_false, if_true, hreach]
  refine ⟨heq, ?_⟩
  rw [heq]
  refine ⟨h.listed, fun g hg => ?_, fun g => ?_, h.idle, h.walk, h.stray⟩
  · have hgf : g ≠ f := fun he => hnot (he ▸ hg)
    exact (Function.update_of_ne hgf ..).trans (h.alive g hg)
  · by_cases hg : g = f
    · subst hg
      simp [hf]
    · simp [hg, h.task]

/-- A flag with a waiter is destroyed, wherever it stands in the list. -/
theorem destroy_armed (h : Inv x (pre ++ f :: post)) (hwalk : x.walk = none) :
    x.destroy f = { x with
        sched := x.sched.report .objectDestroyedWithWaiters
        flags := x.flags.unarm f
        alive := Function.update x.alive f false
        task := Function.update x.task f none } ∧
      Inv (x.destroy f) (pre ++ post) := by
  obtain ⟨place, harmed⟩ := h.listed
  have hnot := harmed.linked.not_mem_of_middle
  have hwaiter : (x.flags.flag f).waiter ≠ none := h.mem.mp (by simp)
  obtain ⟨s, hs⟩ := Option.ne_none_iff_exists'.mp hwaiter
  have hreach : x.reach (x.flags.unarmReads f) = x := by
    unfold Flags.unarmReads
    rw [if_neg hwaiter, h.follow_eq]
    exact h.reach_eq fun g hg => List.takeWhile_subset _ hg
  have heq : x.destroy f = { x with
      sched := x.sched.report .objectDestroyedWithWaiters
      flags := x.flags.unarm f
      alive := Function.update x.alive f false
      task := Function.update x.task f none } := by
    unfold Signaling.destroy Flags.destroy
    rw [hreach]
    simp only [hwaiter, ne_eq, not_false_eq_true, if_true]
  refine ⟨heq, ?_⟩
  rw [heq]
  refine ⟨⟨_, harmed.unarm hs⟩, fun g hg => ?_, fun g => ?_, fun g t ht => ?_, by simp [hwalk],
    h.stray⟩
  · have hgf : g ≠ f := fun he => hnot (he ▸ hg)
    refine (Function.update_of_ne hgf ..).trans (h.alive g ?_)
    simp only [List.mem_append, List.mem_cons] at hg ⊢
    exact hg.imp_right Or.inr
  · rw [(harmed.unarm_flag g).2]
    by_cases hg : g = f
    · simp [hg]
    · simp only [hg, if_false, Function.update_of_ne, ne_eq, not_false_eq_true]
      exact h.task g
  · rw [(harmed.unarm_flag g).2] at ht
    split_ifs at ht
    exact h.idle g t ht

/-! ### The step -/

theorem step (h : Inv x armed) (hstep : x.step action = some x') : ∃ armed', Inv x' armed' := by
  cases action with
  | setFlag f =>
      simp only [Signaling.step] at hstep
      split_ifs at hstep
      cases hstep
      refine ⟨armed, h.signal rfl fun g => ?_⟩
      by_cases hg : g = f <;> simp [Flags.set, hg]
  | clear f =>
      simp only [Signaling.step, call] at hstep
      split_ifs at hstep
      cases hstep
      refine ⟨armed, h.signal rfl fun g => ?_⟩
      by_cases hg : g = f <;> simp [Flags.clear, hg]
  | awaitReady f =>
      simp only [Signaling.step, call] at hstep
      split_ifs at hstep
      cases hstep
      refine ⟨armed, h.signal ?_ fun g => ?_⟩
      · unfold Flags.consume
        split_ifs <;> rfl
      · unfold Flags.consume
        by_cases hg : g = f <;> split_ifs <;> simp [hg]
  | awaitSuspend f awaiting =>
      simp only [Signaling.step, call] at hstep
      split_ifs at hstep with hcall
      cases hstep
      exact h.awaitSuspend hcall.1 hcall.2 awaiting
  | checkPending =>
      by_cases hwalk : x.walk = none
      · by_cases hpending : x.flags.pending = true
        · rw [h.checkPending_eq hwalk hpending] at hstep
          cases hstep
          exact ⟨armed, h.begin false⟩
        · simp only [Signaling.step] at hstep
          rw [if_pos hwalk, Flags.takePending, if_neg hpending] at hstep
          cases hstep
          exact ⟨armed, h⟩
      · simp only [Signaling.step, hwalk, if_false] at hstep
        cases hstep
  | walkStep =>
      obtain ⟨⟨prev, f⟩, hwalk, rfl⟩ := Option.map_eq_some_iff.mp hstep
      obtain ⟨visited, rest, rfl, rfl⟩ := h.walk prev f hwalk
      obtain ⟨s, hs⟩ := Option.ne_none_iff_exists'.mp (h.mem.mp (by simp : f ∈ _))
      by_cases hf : (x.flags.flag f).signaled = true
      · dsimp only
        rw [h.visit_wake hf hs]
        exact ⟨_, h.wake hs⟩
      · dsimp only
        rw [h.visit_skip (by simpa using hf)]
        exact ⟨_, h.skip⟩
  | destroy f =>
      simp only [Signaling.step, call] at hstep
      split_ifs at hstep with hcall
      cases hstep
      by_cases hf : (x.flags.flag f).waiter = none
      · exact ⟨_, (h.destroy_vacant hf).2⟩
      · obtain ⟨pre, post, rfl⟩ := List.append_of_mem (h.mem.mpr hf)
        exact ⟨_, (h.destroy_armed hcall.2).2⟩
  | elsewhere change =>
      simp only [Signaling.step] at hstep
      split_ifs at hstep with hchange
      cases hstep
      refine ⟨armed, h.leave fun f s hs => ?_⟩
      have hparked : s ∈ x.parkedSlots := by
        unfold parkedSlots
        rw [h.follow_eq]
        exact List.mem_filterMap.mpr ⟨f, h.mem.mpr (by simp [hs]), hs⟩
      exact ⟨(hchange.2.2 s hparked).1, (hchange.2.2 s hparked).2.1⟩

end Inv

theorem Reachable.inv (hx : x.Reachable) : ∃ armed, x.Inv armed :=
  Transition.Reachable.induction (P := fun x => ∃ armed, x.Inv armed) hx ⟨[], .initial⟩
    fun _ _ _ ⟨_, h⟩ hstep => h.step hstep

end Signaling

end SimpleAwait
