import SimpleAwait.Library.Potential
import SimpleAwait.Properties.Consistency
import SimpleAwait.Signaling.Invariant
import SimpleAwait.System.Control
import SimpleAwait.System.Filled

/-!
# The work of a pass

A pass visits each armed flag once and resumes each task that is ready when it takes its budget once.
What external contexts and task bodies do in between does not make it longer.
-/

namespace SimpleAwait

open Transition

variable {N : ℕ} {T : Type} {cfg : Config N} {w w' : World N T} {L L' : Layout N} {a : Action T}
  {n k : ℕ}

/-- A step of a pass outside the bodies of tasks, where the end of a body counts as one. -/
def Action.isStage : Action T → Bool
  | .checkPending | .walkStep | .startPass | .passPop | .finish | .destroyed | .endPass _ => true
  | _ => false

/-- `poll()` or `poll_and_wait()`. -/
def Action.isPoll : Action T → Bool
  | .poll .. => true
  | _ => false

/-- The most steps that the pass in progress has before it, where the walk has yet to visit
`unvisited` flags. -/
def Control.work (unvisited : ℕ) : Control N → ℕ
  | .loop | .take .. => 0
  | .checkPending => 4 * N + 3
  | .walk .. => unvisited + (3 * N + 2)
  | .dueTimers => 3 * N + 2
  | .pass left => 3 * left + 1
  | .body _ left | .flagSuspend _ _ left => 3 * left + 3
  | .release _ left => 3 * left + 2

/-- The pass in progress has at most `n` steps before it. -/
def World.Owes (cfg : Config N) (w : World N T) (n : ℕ) : Prop :=
  ∃ L, Inv cfg w L ∧ w.control.work L.unvisited.length ≤ n

theorem Inv.left_le (h : Inv cfg w L) : w.control.left ≤ N := by
  have hready := h.core.sound.threaded.nodup_ready.length_le_card
  rw [Fintype.card_fin] at hready
  exact h.staged.budget.trans hready

theorem Inv.unvisited_le (h : Inv cfg w L) : L.unvisited.length ≤ N := by
  have hlength := h.core.armed.length_le
  rw [List.length_append] at hlength
  omega

/-- At no time are there more than `4 * SIMPLEAWAIT_MAX_TASKS + 3` steps to go. -/
theorem Inv.work_le (h : Inv cfg w L) : w.control.work L.unvisited.length ≤ 4 * N + 3 := by
  have hbudget := h.left_le
  have harmed := h.unvisited_le
  cases hcontrol : w.control <;> simp only [hcontrol, Control.left, Control.work] at hbudget ⊢ <;>
    omega

/-- Outside the walk every step pays for itself, whatever is left to the walk that it begins. -/
theorem Control.Moves.work_le {c c' : Control N} (hmoves : Control.Moves c a c')
    (hpoll : c = .loop → a.isPoll = false) (hwalk : a ≠ .walkStep)
    (hexternal : a.isExternal = false) (hbudget : c'.left ≤ N) (hk : k ≤ N) :
    c'.work k + (if a.isStage then 1 else 0) ≤ c.work n := by
  cases hmoves with
  | call hc ha =>
      cases c <;> cases hc <;> cases a <;> simp_all [Action.isCall, Action.isStage, Control.work]
  | external ha =>
      rw [ha] at hexternal
      cases hexternal
  | poll => cases hpoll rfl
  | walkNext | walkEnd => exact absurd rfl hwalk
  | _ =>
      simp only [Control.left] at hbudget
      simp only [Control.work, Action.isStage, if_true, Bool.false_eq_true, if_false]
      omega

/-- Until a pass begins, every step pays for itself. -/
theorem World.Owes.step (h : w.Owes cfg n) (hpoll : w.control = .loop → a.isPoll = false)
    (hstep : w.step cfg a = some w') :
    ∃ m, w'.Owes cfg m ∧ m + (if a.isStage then 1 else 0) ≤ n := by
  obtain ⟨L, hinv, hle⟩ := h
  have hmoves := hinv.step_control hstep
  cases hexternal : a.isExternal with
  | true =>
      -- what an external context does leaves the walk where it is
      have hsame : Inv cfg w' L ∧ w'.control = w.control ∧ a.isStage = false := by
        cases World.steps_of_step hstep with
        | setFlag f => exact ⟨hinv.setFlag f, rfl, rfl⟩
        | give f => exact ⟨hinv.give f, rfl, rfl⟩
        | _ => cases hexternal
      obtain ⟨hinv', hcontrol, hstage⟩ := hsame
      refine ⟨_, ⟨L, hinv', le_rfl⟩, ?_⟩
      rw [hcontrol, hstage]
      exact hle
  | false =>
      by_cases hwalk : a = .walkStep
      · subst hwalk
        obtain ⟨prev, f, hcontrol, rfl⟩ := World.step_walkStep hstep
        obtain ⟨rest, hunvisited, hvisit⟩ := hinv.walkStep hcontrol
        have hrest : ∃ L', Inv cfg (w.afterVisit (w.flags.walkStep w.sched prev f)) L' ∧
            L'.unvisited = rest := by
          rcases hvisit with ⟨-, hinv'⟩ | ⟨t, -, -, hinv'⟩
          · exact ⟨_, hinv', rfl⟩
          · exact ⟨_, hinv', rfl⟩
        obtain ⟨L', hinv', hrest⟩ := hrest
        refine ⟨_, ⟨L', hinv', le_rfl⟩, le_trans ?_ hle⟩
        rw [hcontrol] at hmoves ⊢
        rw [hunvisited, hrest]
        generalize (w.afterVisit (w.flags.walkStep w.sched prev f)).control = c' at hmoves ⊢
        cases hmoves <;>
          simp only [Control.work, Action.isStage, if_true, List.length_cons] <;> omega
      · obtain ⟨L', hinv'⟩ := hinv.step hstep
        refine ⟨_, ⟨L', hinv', le_rfl⟩, le_trans ?_ hle⟩
        exact hmoves.work_le hpoll hwalk hexternal hinv'.left_le hinv'.unvisited_le

/-- A pass has at most `4 * SIMPLEAWAIT_MAX_TASKS + 3` steps outside the bodies of tasks, whatever
tasks, destructors and external contexts do meanwhile. -/
theorem pass_work_bounded {actions : List (Action T)} (hw : w.Reachable cfg)
    (hrun : run (World.step cfg) w actions = some w')
    (hpoll : Along (World.step cfg) (fun u a => u.control = .loop → a.isPoll = false) w actions) :
    actions.countP Action.isStage ≤ 4 * N + 3 := by
  obtain ⟨L, hinv⟩ := hw.inv
  exact countP_le_of_pays (World.Owes cfg)
    (fun u n a u' howes hpoll hstep => howes.step hpoll hstep) ⟨L, hinv, hinv.work_le⟩ hrun hpoll

/-- Two tasks wait on flags, one of which is signaled, and a third is created and ends: the pass
makes nine of at most fifteen steps. -/
theorem pass_work_bounded_small :
    let actions : List (Action ℕ) := [.checkPending, .walkStep, .setFlag 1, .walkStep, .startPass,
      .passPop, .finish, .destroyed, .passPop, .coAwait .yield, .endPass 1, .setFlag 0]
    actions.countP Action.isStage = 9 ∧ actions.countP Action.isStage ≤ 15 := by
  intro actions
  refine ⟨by decide, ?_⟩
  exact pass_work_bounded (.after .small (by decide)) (World.run_after .small [.createTask (some 1),
    .createTask (some 2), .poll false 0, .checkPending, .startPass, .passPop, .coAwait (.flag 0),
    .flagPark, .passPop, .coAwait (.flag 1), .flagPark, .endPass 0, .setFlag 0,
    .createTask (some 3), .poll false 1] actions (by decide)) (by decide)

/-! ## The end of a pass -/

/-- The walk is at a flag. -/
theorem World.Reachable.walk_at (hw : w.Reachable cfg) (prev : Option ℕ) :
    w.control ≠ .walk prev none := by
  have hall : w.Reachable cfg ∧ ∀ prev, w.control ≠ .walk prev none := by
    apply Transition.Reachable.induction (P := fun u => World.Reachable cfg u ∧
      ∀ prev, u.control ≠ .walk prev none) hw
    · exact ⟨.refl, by simp [World.initial]⟩
    · rintro u a u' ⟨hu, hat⟩ hstep
      obtain ⟨L, hinv⟩ := hu.inv
      have hmoves := hinv.step_control hstep
      refine ⟨hu.succ hstep, fun prev he => ?_⟩
      rw [he] at hmoves
      generalize hc : u.control = c at hmoves
      cases hmoves with
      | call | external => exact hat prev hc
  exact hall.2 prev

/-- In each stage of a pass its next step is possible. -/
theorem Inv.exists_stage (h : Inv cfg w L) (hfilled : w.Filled)
    (hwalk : ∀ prev, w.control ≠ .walk prev none) (hpoll : w.control.inPoll = true)
    (hsuspend : w.control.suspendingOn = none) :
    ∃ a, a.isStage = true ∧ (w.step cfg a).isSome = true := by
  cases hcontrol : w.control with
  | loop | take => simp [hcontrol, Control.inPoll] at hpoll
  | flagSuspend => simp [hcontrol, Control.suspendingOn] at hsuspend
  | checkPending =>
      refine ⟨.checkPending, rfl, ?_⟩
      simp only [World.step, hcontrol]
      split <;> rfl
  | walk prev f =>
      cases f with
      | none => exact absurd hcontrol (hwalk prev)
      | some f => exact ⟨.walkStep, rfl, by simp only [World.step, hcontrol, Option.isSome_some]⟩
  | dueTimers => exact ⟨.startPass, rfl, by simp only [World.step, hcontrol, Option.isSome_some]⟩
  | pass left =>
      cases left with
      | zero => exact ⟨.endPass 0, rfl, by simp only [World.step, hcontrol, Option.isSome_some]⟩
      | succ left =>
          obtain ⟨s, rest, hready, hpop, -⟩ := h.passPop hcontrol
          have hthreaded := h.core.sound.threaded
          have hstate : (w.sched.slots s).state = .ready := by
            rw [hthreaded.state, (hthreaded.mem_ready s).mp (by simp [hready]), Place.state_ready]
          have hframe : (((w.sched.unlinkFront s).enter s).slots s).handle ≠ none := by
            rw [Scheduler.enter_handle, Scheduler.unlinkFront_handle]
            exact hfilled s (by simp [Scheduler.Occupied, hstate])
          refine ⟨.passPop, rfl, ?_⟩
          simp only [World.step, hcontrol, hpop, if_neg hframe, Option.isSome_some]
  | body s left => exact ⟨.finish, rfl, by simp only [World.step, hcontrol, Option.isSome_some]⟩
  | release s left =>
      exact ⟨.destroyed, rfl, by simp only [World.step, hcontrol, Option.isSome_some]⟩

/-- The pass in progress has at most `n` steps before it, and none of them gets stuck. -/
structure World.Proceeds (cfg : Config N) (w : World N T) (n : ℕ) : Prop where
  reachable : w.Reachable cfg
  filled : w.Filled
  owes : w.Owes cfg n
  suspend : w.control.suspendingOn = none

/-- A stage of a pass leads to the next one. -/
theorem World.Proceeds.step (h : w.Proceeds cfg n) (hstage : a.isStage = true)
    (hstep : w.step cfg a = some w') : ∃ m, w'.Proceeds cfg m ∧ m < n := by
  obtain ⟨L, hinv⟩ := h.reachable.inv
  have hpoll : w.control = .loop → a.isPoll = false := by
    intro
    cases a <;> cases hstage <;> rfl
  obtain ⟨m, howes, hle⟩ := h.owes.step hpoll hstep
  rw [if_pos hstage] at hle
  refine ⟨m, ⟨h.reachable.succ hstep, ?_, howes, ?_⟩, hle⟩
  · exact hinv.step_filled h.filled (fun awaiter he => by rw [he] at hstage; cases hstage) hstep
  · have hmoves := hinv.step_control hstep
    have hsuspend := h.suspend
    generalize w.control = c at hmoves hsuspend
    generalize w'.control = c' at hmoves
    cases hmoves with
    | call => exact hsuspend
    | flagReady => cases hstage
    | _ => first | rfl | exact hsuspend

/-- From every reachable world whose tasks have their frames `poll()` returns, or goes to sleep in the
platform wait, after at most `4 * SIMPLEAWAIT_MAX_TASKS + 4` steps, if the bodies that it resumes run to
their ends. -/
theorem poll_returns (hw : w.Reachable cfg) (hfilled : w.Filled) :
    ∃ actions w', run (World.step cfg) w actions = some w' ∧ w'.control.inPoll = false ∧
      actions.length ≤ 4 * N + 4 ∧ ∀ a ∈ actions, a.isStage = true ∨ a = .flagPark := by
  have hnext : ∀ (u : World N T) n, u.Proceeds cfg n → u.control.inPoll = false ∨
      ∃ a u' m, Action.isStage a = true ∧ u.step cfg a = some u' ∧ u'.Proceeds cfg m ∧ m < n := by
    intro u n hproceeds
    cases hpoll : u.control.inPoll with
    | false => exact Or.inl rfl
    | true =>
        obtain ⟨L, hinv⟩ := hproceeds.reachable.inv
        obtain ⟨a, hstage, hpossible⟩ := hinv.exists_stage hproceeds.filled
          hproceeds.reachable.walk_at hpoll hproceeds.suspend
        obtain ⟨u', hstep⟩ := Option.isSome_iff_exists.mp hpossible
        obtain ⟨m, hm, hlt⟩ := hproceeds.step hstage hstep
        exact Or.inr ⟨a, u', m, hstage, hstep, hm, hlt⟩
  have hstages : ∀ u : World N T, u.Reachable cfg → u.Filled → u.control.suspendingOn = none →
      ∃ actions w', run (World.step cfg) u actions = some w' ∧ w'.control.inPoll = false ∧
        actions.length ≤ 4 * N + 3 ∧ ∀ a ∈ actions, Action.isStage a = true := by
    intro u hu hfilled hsuspend
    obtain ⟨L, hinv⟩ := hu.inv
    exact exists_run_of_pays (World.Proceeds cfg) hnext
      ⟨hu, hfilled, ⟨L, hinv, hinv.work_le⟩, hsuspend⟩
  by_cases hsuspend : w.control.suspendingOn = none
  · obtain ⟨actions, w', hrun, hend, hlength, hall⟩ := hstages w hw hfilled hsuspend
    exact ⟨actions, w', hrun, hend, by omega, fun a ha => Or.inl (hall a ha)⟩
  · -- `await_suspend` of the flag wait comes first
    obtain ⟨L, hinv⟩ := hw.inv
    obtain ⟨s, f, left, hcontrol⟩ : ∃ s f left, w.control = .flagSuspend s f left := by
      cases hcontrol : w.control <;> simp [hcontrol, Control.suspendingOn] at hsuspend
      exact ⟨_, _, _, rfl⟩
    have hstep : w.step cfg .flagPark =
        some (World.afterAwait s left (w.flagPark f (w.sched.slots s).handle)) := by
      simp only [World.step, hcontrol]
    have hparked : (World.afterAwait s left
        (w.flagPark f (w.sched.slots s).handle)).control.suspendingOn = none := by
      rcases World.afterAwait_control s left (w.flagPark f (w.sched.slots s).handle) with hctl | hctl <;>
        rw [hctl] <;> rfl
    have hfilled' := hinv.step_filled hfilled (fun awaiter he => by cases he) hstep
    obtain ⟨actions, w', hrun, hend, hlength, hall⟩ :=
      hstages _ (hw.succ hstep) hfilled' hparked
    refine ⟨.flagPark :: actions, w', run_cons.mpr ⟨_, hstep, hrun⟩, hend, ?_, ?_⟩
    · rw [List.length_cons]
      omega
    · exact List.forall_mem_cons.mpr ⟨Or.inr rfl, fun a ha => Or.inl (hall a ha)⟩

/-- A pass is interrupted between `await_ready` and `await_suspend` of a flag wait. -/
theorem poll_returns_small :
    let w : World 3 ℕ := World.after .small [.createTask (some 1), .createTask (some 2),
      .poll true 0, .checkPending, .startPass, .passPop, .coAwait (.flag 0)]
    ∃ actions w', run (World.step .small) w actions = some w' ∧ w'.control.inPoll = false ∧
      actions.length ≤ 16 := by
  intro w
  have hfilled : w.Filled := by
    unfold World.Filled Scheduler.Occupied
    decide
  obtain ⟨actions, w', hrun, hend, hlength, -⟩ := poll_returns (.after .small (by decide)) hfilled
  exact ⟨actions, w', hrun, hend, hlength⟩

end SimpleAwait
