import SimpleAwait.System.Passes
import SimpleAwait.System.Sleepers

/-!
# Parents that wait for a child

The parent link of a child is a pointer to a slot that is held over any number of passes.  It
denotes the waiting parent throughout (`Kin`), so every step but the completion of exactly this child
leaves the parent waiting.
-/

namespace SimpleAwait

open Transition

variable {N : ℕ} {T : Type} {cfg : Config N} {w w' w₁ : World N T} {L : Layout N} {p s : Fin N}
  {left : ℕ} {child : Frame} {x y : Fin N × UInt32} {a : Action T}

/-- Task `x` waits for its child `y`, whose frame is `child`. -/
structure World.Awaits (w : World N T) (x y : Fin N × UInt32) (child : Frame) : Prop where
  waits : (w.sched.slots x.1).state = .waitingChild
  parent : (w.sched.slots y.1).parent = some x.1
  frame : (w.sched.slots y.1).handle = some child
  generation : (w.sched.slots x.1).generation = x.2 ∧ (w.sched.slots y.1).generation = y.2

/-! ## The await -/

/-- `start_child_await` adopts the child in the acquired slot. -/
theorem Inv.step_awaitTask_eq (h : Inv cfg w L) (hcontrol : w.control = .body p left)
    {claimed : Scheduler N} (hslot : w.sched.acquireSlot = some (s, claimed))
    (hstep : w.step cfg (.coAwait (.task (.ofTask (some child)))) = some w₁) :
    p ≠ s ∧ w₁ = World.suspend { w with
      sched := ((w.sched.claim s).adopt s (some child) (some p)).setState p .waitingChild } p left := by
  have hcurrent : w.sched.current = some p := by
    rw [h.staged.current, hcontrol]
    rfl
  have hp : L.place p = .running := (h.staged.running p).mpr (by rw [hcontrol]; rfl)
  obtain ⟨rfl, hstate, -⟩ := Scheduler.acquireSlot_spec hslot
  have hps : p ≠ s := by
    rintro rfl
    have hrunning := h.core.sound.threaded.state p
    rw [hp, Place.state_running] at hrunning
    simp [hrunning] at hstate
  have hchild : w.sched.startChildAwait (some child) (w.sched.slots p).handle =
      ⟨true, false, ((w.sched.claim s).adopt s (some child) (some p)).setState p
        .waitingChild⟩ := by
    simp only [Scheduler.startChildAwait, hcurrent, h.core.sound.isRunning hcurrent hp, if_true,
      hslot]
  simp only [World.step, hcontrol, World.coAwait, TaskAwaiter.ofTask, Option.isNone_some,
    Bool.false_eq_true, if_false, hchild, World.afterAwait, if_true, Option.some.injEq] at hstep
  exact ⟨hps, hstep.symm⟩

/-- The parent waits for the child. -/
theorem Inv.step_awaitTask (h : Inv cfg w L) (hcontrol : w.control = .body p left)
    {claimed : Scheduler N} (hslot : w.sched.acquireSlot = some (s, claimed))
    (hstep : w.step cfg (.coAwait (.task (.ofTask (some child)))) = some w₁) :
    w₁.control = .pass left ∧
      w₁.Awaits (w.sched.taskIn p) (s, (w.sched.slots s).generation + 1) child := by
  obtain ⟨hps, rfl⟩ := h.step_awaitTask_eq hcontrol hslot hstep
  have hsched : ∀ u : World N T, (u.sched.slots p).state ≠ .running →
      (u.suspend p left).sched.slots = u.sched.slots := by
    intro u hu
    simp [World.suspend, Scheduler.afterSuspend, hu]
  refine ⟨rfl, ?_⟩
  constructor <;> rw [hsched _ (by simp)] <;>
    simp [Scheduler.taskIn, Scheduler.adopt, Scheduler.claim, hps]

/-- The child is ready, behind the budget. -/
theorem World.behind_of_awaitTask (hw : w.Reachable cfg) (hcontrol : w.control = .body p left)
    {claimed : Scheduler N} (hslot : w.sched.acquireSlot = some (s, claimed))
    (hstep : w.step cfg (.coAwait (.task (.ofTask (some child)))) = some w₁) :
    w₁.Behind (s, (w.sched.slots s).generation + 1) := by
  obtain ⟨L, hinv⟩ := hw.inv
  obtain ⟨hps, hw₁⟩ := hinv.step_awaitTask_eq hcontrol hslot hstep
  have htrace : w₁.sched.trace = w.sched.trace ++ [.acquired s ((w.sched.slots s).generation + 1),
      .enqueued s ((w.sched.slots s).generation + 1)] := by
    rw [hw₁]
    simp [World.suspend, Scheduler.afterSuspend, Scheduler.adopt, Scheduler.claim]
  refine (World.behind_of_enqueued hw hstep rfl ?_ ?_).2
  · rw [hw₁, hcontrol]
    exact le_rfl
  · rw [htrace, enqueuedTasks_append]
    rfl

/-! ## Waiting for the child -/

/-- The child still holds its slot. -/
theorem World.Awaits.child_occupied (h : w.Awaits x y child) (hinv : Inv cfg w L) :
    w.sched.Occupied y.1 := by
  have hkin := hinv.core.sound.kin
  have hactive := Place.active_iff_state.mp (hkin.alive y.1 x.1 ((hkin.parent _ _).mp h.parent))
  rwa [← hinv.core.sound.threaded.state] at hactive

/-- The child has not completed. -/
theorem World.Awaits.pending (h : w.Awaits x y child) (hinv : Inv cfg w L) :
    Obs.completed y.1 y.2 ∉ w.sched.trace := by
  intro hmem
  have hlife : Obs.completed y.1 y.2 ∈ lifecycle w.sched.trace := by simpa [lifecycle] using hmem
  obtain ⟨-, hlt | ⟨-, hcompleted⟩⟩ := (hinv.core.sound.chronicle.completed _ _).mp hlife
  · rw [h.generation.2] at hlt
    exact lt_irrefl _ hlt
  · exact (h.child_occupied hinv).2 hcompleted

/-- The completion of the child records it, detaches the child and enqueues the parent. -/
theorem World.Awaits.afterDestroy (h : w.Awaits x y child) (hinv : Inv cfg w L)
    (hcontrol : w.control = .release y.1 left) :
    (w.sched.afterDestroy y.1).trace =
        w.sched.trace ++ [.completed y.1 y.2, .enqueued x.1 x.2] ∧
      ((w.sched.afterDestroy y.1).slots y.1).handle = none ∧
      ((w.sched.afterDestroy y.1).slots y.1).parent = none := by
  have hrunning : L.place y.1 = .running :=
    (hinv.staged.running y.1).mpr (by rw [hcontrol]; rfl)
  have hne : x.1 ≠ y.1 := by
    intro he
    have hstate := hinv.core.sound.threaded.state x.1
    rw [h.waits, he, hrunning] at hstate
    cases hstate
  unfold Scheduler.afterDestroy
  simp [h.parent, h.waits, hne, Ne.symm hne, h.generation.1, h.generation.2]

/-- Every step but the completion of the child leaves the parent waiting. -/
theorem World.Awaits.step (h : w.Awaits x y child) (hw : w.Reachable cfg)
    (hstep : w.step cfg a = some w') :
    (∃ left, a = .destroyed ∧ w.control = .release y.1 left) ∨
      w'.Awaits x y child ∧ w'.resumptions x = w.resumptions x ∧ w'.enqueues x = w.enqueues x := by
  obtain ⟨L, hinv⟩ := hw.inv
  refine (hinv.step_child hstep h.waits h.parent).imp_right fun ⟨hwaits, hparent, hframe⟩ => ?_
  have hadvances := hinv.step_advances hstep
  have hx : w.sched.Occupied x.1 := by simp [Scheduler.Occupied, h.waits]
  refine ⟨⟨hwaits, hparent, hframe.trans h.frame, ?_, ?_⟩, ?_⟩
  · rw [hadvances.tenant x.1 hx, h.generation.1]
  · rw [hadvances.tenant y.1 (h.child_occupied hinv), h.generation.2]
  · exact World.step_unqueued hw hstep (by simp [h.waits]) (by simp [hwaits])

end SimpleAwait
