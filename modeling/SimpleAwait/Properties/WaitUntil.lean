import SimpleAwait.Properties.Consistency
import SimpleAwait.WaitUntil.Phases

/-!
# `waitUntil` evaluates its predicate once in each pass

Three mechanisms add up: the adoption of the child, which puts it behind the budget of the pass in
progress; its yields, which put it there again; and its end, which puts the parent there.  Each
makes the next thing happen in the next pass, neither earlier nor later.
-/

namespace SimpleAwait

open Transition

variable {N : ℕ} {T : Type} {cfg : Config N} {w w₁ : World N T} {p s : Fin N} {left k n : ℕ}
  {child : Frame} {x y : Fin N × UInt32} {predicate : ℕ → Bool} {v v' : WaitUntil N T}

theorem passes_cons (act : WaitUntilAction T) (actions : List (WaitUntilAction T)) :
    passes (act :: actions) = (if act.isStart then 1 else 0) + passes actions := by
  rw [passes, List.countP_cons, Nat.add_comm]
  rfl

/-- One step leads from phase to phase, and resumes the parent only in the last one. -/
theorem WaitUntil.Phase.step {act : WaitUntilAction T} (h : Phase x y child k n v)
    (hw : v.world.Reachable cfg) (hfalse : ∀ i < k, predicate i = false)
    (htrue : predicate k = true) (hstep : WaitUntil.step cfg predicate y v act = some v') :
    v'.world.Reachable cfg ∧ Phase x y child k ((if act.isStart then 1 else 0) + n) v' ∧
      (n ≤ k + 1 → v'.world.resumptions x = v.world.resumptions x) := by
  cases act with
  | evaluate =>
      have hphase := h.evaluate hw hfalse htrue hstep
      obtain ⟨-, -, hworld, -⟩ := WaitUntil.step_evaluate hstep
      rw [hworld]
      exact ⟨hw, by simpa [WaitUntilAction.isStart] using hphase, fun _ => rfl⟩
  | other a =>
      have hworld := (WaitUntil.step_other hstep).1
      refine ⟨hw.succ hworld, ?_, h.resumptions hw hworld⟩
      cases hstart : a.isStart with
      | true =>
          obtain rfl : a = .startPass := by
            cases a <;> first | rfl | cases hstart
          simpa [WaitUntilAction.isStart, Action.isStart, Nat.add_comm] using h.start hw hstep
      | false => simpa [WaitUntilAction.isStart, hstart] using h.other hw hstep hstart

theorem WaitUntil.Phase.run {actions : List (WaitUntilAction T)} (h : Phase x y child k n v)
    (hw : v.world.Reachable cfg) (hfalse : ∀ i < k, predicate i = false)
    (htrue : predicate k = true)
    (hrun : Transition.run (WaitUntil.step cfg predicate y) v actions = some v') :
    v'.world.Reachable cfg ∧ Phase x y child k (passes actions + n) v' ∧
      (passes actions + n ≤ k + 1 → v'.world.resumptions x = v.world.resumptions x) := by
  induction actions generalizing n v with
  | nil =>
      cases hrun
      exact ⟨hw, by simpa [passes] using h, fun _ => rfl⟩
  | cons act actions ih =>
      obtain ⟨u, hstep, hrest⟩ := run_cons.mp hrun
      obtain ⟨hu, hphase, hsame⟩ := h.step hw hfalse htrue hstep
      obtain ⟨hv', hphase', hsame'⟩ := ih hphase hu hrest
      rw [passes_cons]
      refine ⟨hv', ?_, fun hn => (hsame' (by omega)).trans (hsame (by omega))⟩
      rwa [Nat.add_comm (if act.isStart then 1 else 0), Nat.add_assoc]

/-- The evaluations after `n` passes have begun. -/
theorem WaitUntil.Phase.evaluations (h : Phase x y child k n v) :
    (min (n - 1) (k + 1) ≤ v.evaluations ∧ v.evaluations ≤ min n (k + 1)) ∧
      (v.world.control.inPass = false → v.evaluations = min n (k + 1)) := by
  cases h with
  | waiting _ _ _ hcount hn => exact ⟨by omega, fun _ => by omega⟩
  | due _ hdue _ hcount hn =>
      exact ⟨by omega, fun hout => absurd (hdue.inPass.symm.trans hout) (by simp)⟩
  | testing _ hcontrol _ hcount hn =>
      exact ⟨by omega, fun hout => by simp [hcontrol, Control.inPass] at hout⟩
  | looping _ _ _ hcount hn => exact ⟨by omega, fun _ => by omega⟩
  | returning _ _ _ hcount => exact ⟨by omega, fun _ => by omega⟩
  | releasing _ _ hcount => exact ⟨by omega, fun _ => by omega⟩
  | woken _ _ hcount => exact ⟨by omega, fun _ => by omega⟩
  | gone _ hcount hn => exact ⟨by omega, fun _ => by omega⟩

/-- The parent is ready before the pass that follows the last evaluation. -/
theorem WaitUntil.Phase.behind (h : Phase x y child k (k + 1) v)
    (hout : v.world.control.inPass = false) : v.world.Behind x := by
  generalize hn : k + 1 = n at h
  cases h with
  | waiting _ _ _ _ hle => omega
  | due _ hdue => simp [hdue.inPass] at hout
  | testing _ hcontrol | looping _ hcontrol | returning _ hcontrol | releasing _ hcontrol =>
      simp [hcontrol, Control.inPass] at hout
  | woken _ hbehind => exact hbehind
  | gone _ _ hlate => omega

/-- The running task in slot `p` awaits `waitUntil`, with a slot available, and the predicate is
false `k` times and then true.  Then each of the next `k + 1` passes evaluates the predicate once
while it runs the child, and nothing evaluates it after that: between passes the evaluations are as
many as the passes, up to `k + 1`.  The parent is not resumed in these passes, and once in the pass
after them. -/
theorem waitUntil_exact {claimed : Scheduler N} (hw : w.Reachable cfg)
    (hcontrol : w.control = .body p left) (hslot : w.sched.acquireSlot = some (s, claimed))
    (hawait : w.step cfg (.coAwait (.task (.ofTask (some child)))) = some w₁)
    (hfalse : ∀ i < k, predicate i = false) (htrue : predicate k = true) :
    let x := w.sched.taskIn p
    let y := (s, (w.sched.slots s).generation + 1)
    ∀ actions v, run (WaitUntil.step cfg predicate y) { world := w₁ } actions = some v →
      (v.world.control.inPass = false → v.evaluations = min (passes actions) (k + 1)) ∧
      (min (passes actions - 1) (k + 1) ≤ v.evaluations ∧
        v.evaluations ≤ min (passes actions) (k + 1)) ∧
      (∀ v', WaitUntil.step cfg predicate y v .evaluate = some v' →
        ∃ left, v.world.control = .body s left ∧ v.world.sched.taskIn s = y) ∧
      (passes actions ≤ k + 1 → v.world.resumptions x = w₁.resumptions x) ∧
      (passes actions = k + 1 → ∀ v₁ body clock v₂,
        WaitUntil.step cfg predicate y v (.other .startPass) = some v₁ →
        run (WaitUntil.step cfg predicate y) v₁ (body ++ [.other (.endPass clock)]) = some v₂ →
        (∀ act ∈ body, WaitUntilAction.isEnd act = false) →
        v₂.world.resumptions x = w₁.resumptions x + 1) := by
  intro x y actions v hrun
  have hw₁ : w₁.Reachable cfg := hw.succ hawait
  obtain ⟨L, hinv⟩ := hw.inv
  obtain ⟨-, hawaits⟩ := hinv.step_awaitTask hcontrol hslot hawait
  have hbehind := World.behind_of_awaitTask hw hcontrol hslot hawait
  have hstart : WaitUntil.Phase x y child k 0 { world := w₁ } :=
    .waiting hawaits hbehind rfl rfl (Nat.zero_le k)
  obtain ⟨hv, hphase, hsame⟩ := hstart.run hw₁ hfalse htrue hrun
  rw [Nat.add_zero] at hphase hsame
  refine ⟨hphase.evaluations.2, hphase.evaluations.1, fun v' hstep => ?_, hsame, ?_⟩
  · have hexecutes := (WaitUntil.step_evaluate hstep).1
    unfold World.executes at hexecutes
    split at hexecutes
    · rename_i t left' hbody
      simp only [decide_eq_true_eq] at hexecutes
      obtain rfl : t = s := congrArg Prod.fst hexecutes
      exact ⟨left', hbody, hexecutes⟩
    · cases hexecutes
  · intro hpasses v₁ body clock v₂ hpass hrun' hbody
    have hpass' := (WaitUntil.step_other hpass).1
    have hout : v.world.control.inPass = false := World.outside_of_startPass hpass'
    rw [hpasses] at hphase
    have hready := hphase.behind hout
    have hworld := WaitUntil.run_world hrun'
    rw [List.filterMap_append] at hworld
    have hbody' : ∀ a ∈ body.filterMap WaitUntilAction.world?, Action.isEnd a = false := by
      intro a ha
      obtain ⟨act, hact, hsome⟩ := List.mem_filterMap.mp ha
      cases act with
      | evaluate => cases hsome
      | other b =>
          cases hsome
          exact hbody _ hact
    rw [hready.passed hv hpass' hworld hbody', hsame hpasses.le]

/-- A predicate that is false once and then true, next to a task that yields: it is evaluated in the
first two passes after the await, and the parent is resumed in the third. -/
theorem waitUntil_exact_small :
    let running : List (Action ℕ) := [.createTask (some 1), .createTask (some 3), .poll false 0,
      .checkPending, .startPass, .passPop]
    let awaiting := running ++ [.coAwait (.task (.ofTask (some 2)))]
    let polled : List (WaitUntilAction ℕ) := [.other .passPop, .other (.coAwait .yield),
      .other (.endPass 0), .other (.poll false 1), .other .checkPending, .other .startPass,
      .other .passPop, .evaluate, .other (.coAwait .yield), .other .passPop,
      .other (.coAwait .yield), .other (.endPass 1), .other (.poll false 2), .other .checkPending,
      .other .startPass, .other .passPop, .evaluate, .other .finish, .other .destroyed,
      .other .passPop, .other (.coAwait .yield), .other (.endPass 2), .other (.poll false 3),
      .other .checkPending]
    let started := polled ++ [.other .startPass]
    let resumed := started ++ [.other .passPop, .other .finish, .other .destroyed, .other .passPop,
      .other (.coAwait .yield), .other (.endPass 3)]
    let after := WaitUntil.after .small (fun i => 0 < i) (2, 1) (World.after .small awaiting)
    (after polled).evaluations = 2 ∧ (after polled).world.resumptions (0, 1) = 1 ∧
      (after resumed).world.resumptions (0, 1) = 2 := by
  intro running awaiting polled started resumed after
  have hw : (World.after .small running).Reachable .small := .after .small (by decide)
  have hslot : (World.after .small running).sched.acquireSlot =
      some (2, (World.after .small running).sched.claim 2) := by
    unfold Scheduler.acquireSlot
    rw [show (World.after .small running).sched.findSlot .free = some 2 by decide]
  have hawait : (World.after .small running).step .small
      (.coAwait (.task (.ofTask (some 2)))) = some (World.after .small awaiting) :=
    run_singleton.mp (World.run_after .small running _ (by decide))
  have hfalse : ∀ i < 1, decide (0 < i) = false := by decide
  have hexact := waitUntil_exact (k := 1) hw
    (show (World.after .small running).control = .body 0 1 by decide) hslot hawait hfalse
    (by decide)
  obtain ⟨hevaluations, -, -, hwaits, hpass⟩ := hexact polled (after polled)
    (WaitUntil.run_after [] polled (by decide))
  have hresumed := hpass (by decide) (after started) [.other .passPop, .other .finish,
    .other .destroyed, .other .passPop, .other (.coAwait .yield)] 3 (after resumed)
    (run_singleton.mp (WaitUntil.run_after polled [.other .startPass] (by decide)))
    (WaitUntil.run_after started _ (by decide)) (by decide)
  refine ⟨hevaluations (by decide), ?_, hresumed.trans (by decide)⟩
  exact (hwaits (by decide)).trans (by decide)

end SimpleAwait
