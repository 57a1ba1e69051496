import SimpleAwait.Properties.Consistency
import SimpleAwait.System.Parents

/-!
# A parent resumes after its child

A parent sleeps until exactly its child completes, with the child's frame destroyed once, and is
then enqueued behind what is already ready.
-/

namespace SimpleAwait

open Transition

variable {N : ℕ} {T : Type} {cfg : Config N} {w w' w₁ : World N T} {L : Layout N} {p s : Fin N}
  {left : ℕ} {child : Frame} {x y : Fin N × UInt32} {a : Action T}

/-- The step destroys `frame`, as the frame of slot `s` whose body has run to its end. -/
def completesFrame (s : Fin N) (frame : Frame) (w : World N T) (a : Action T) (w' : World N T) :
    Bool :=
  match w.control, a with
  | .body t _, .finish => t = s ∧ w'.sched.trace = w.sched.trace ++ [.destroyed (some frame)]
  | _, _ => false

/-! ## The frame of the child -/

/-- The destructors of the frame of slot `s` are running. -/
def Control.releases (s : Fin N) : Control N → Bool
  | .release t _ => t = s
  | _ => false

/-- The child's frame is destroyed by the step that enters its destructors. -/
theorem World.Awaits.step_frame (h : w.Awaits x y child) (hw : w.Reachable cfg)
    (hstep : w.step cfg a = some w')
    (hpending : ¬ ∃ left, a = .destroyed ∧ w.control = .release y.1 left) :
    (if completesFrame y.1 child w a w' then 1 else 0) +
      (if w.control.releases y.1 then 1 else 0) = if w'.control.releases y.1 then 1 else 0 := by
  obtain ⟨L, hinv⟩ := hw.inv
  have hmoves := hinv.step_control hstep
  generalize hc : w.control = c at hmoves
  generalize hc' : w'.control = c' at hmoves ⊢
  cases hmoves with
  | call _ ha =>
      cases a <;> simp [Action.isCall] at ha <;> simp [completesFrame]
  | external ha =>
      cases a <;> simp [Action.isExternal] at ha <;> simp [completesFrame]
  | @finish t left =>
      by_cases ht : t = y.1
      · subst ht
        have htrace : w'.sched.trace = w.sched.trace ++ [.destroyed (some child)] := by
          simp only [World.step, hc, Option.some.injEq] at hstep
          subst hstep
          simp [Scheduler.afterFinish, h.frame]
        simp [completesFrame, hc, htrace, Control.releases]
      · simp [completesFrame, hc, ht, Control.releases]
  | @destroyed t left =>
      have ht : t ≠ y.1 := fun he => hpending ⟨left, rfl, by rw [hc, he]⟩
      simp [completesFrame, hc, ht, Control.releases]
  | poll | nothingPending | walkFirst | walkNext | walkEnd | start | pop | goOn | suspend
  | flagReady | flagRejected | flagParked | endPass | sleep | tokenTaken | timedOut =>
      simp [completesFrame, hc, Control.releases]

/-- While the child has not completed, the parent waits for it, and the child's frame has been
destroyed once if its destructors are running and not at all otherwise. -/
theorem World.Awaits.run {actions : List (Action T)} (h : w.Awaits x y child)
    (hw : w.Reachable cfg) (hrun : Transition.run (World.step cfg) w actions = some w')
    (hpending : Obs.completed y.1 y.2 ∉ w'.sched.trace) :
    w'.Awaits x y child ∧ w'.resumptions x = w.resumptions x ∧ w'.enqueues x = w.enqueues x ∧
      tally (World.step cfg) (completesFrame y.1 child) w actions +
        (if w.control.releases y.1 then 1 else 0) =
        if w'.control.releases y.1 then 1 else 0 := by
  induction actions generalizing w with
  | nil =>
      cases hrun
      exact ⟨h, rfl, rfl, Nat.zero_add _⟩
  | cons a actions ih =>
      obtain ⟨u, hstep, hrest⟩ := run_cons.mp hrun
      have hu : u.Reachable cfg := hw.succ hstep
      have hnot : ¬ ∃ left, a = .destroyed ∧ w.control = .release y.1 left := by
        rintro ⟨left, rfl, hcontrol⟩
        -- the step would have recorded the completion
        have hcompleted : Obs.completed y.1 y.2 ∈ u.sched.trace := by
          simp only [World.step, hcontrol, Option.some.injEq] at hstep
          subst hstep
          obtain ⟨L, hinv⟩ := hw.inv
          simp [(h.afterDestroy hinv hcontrol).1]
        obtain ⟨obs, htrace⟩ := World.run_trace hu hrest
        rw [htrace, List.mem_append, not_or] at hpending
        exact hpending.1 hcompleted
      obtain ⟨hu', hresumed, henqueued⟩ := (h.step hw hstep).resolve_left hnot
      have hframe := h.step_frame hw hstep hnot
      obtain ⟨hw', hresumed', henqueued', htally⟩ := ih hu' hu hrest
      refine ⟨hw', hresumed'.trans hresumed, henqueued'.trans henqueued, ?_⟩
      rw [tally_cons hstep]
      omega

/-- The running task in slot `p` awaits a child, and slot `s` is available for it.  Until the child
has completed, the parent waits and is neither made ready nor resumed, whatever else happens.  The
step that completes the child finds its body at its end and its frame destroyed once, detaches it
and enqueues the parent and no other task, behind all that are ready.  The parent is resumed in
the next pass. -/
theorem parent_resumes_after_child {claimed : Scheduler N} (hw : w.Reachable cfg)
    (hcontrol : w.control = .body p left) (hslot : w.sched.acquireSlot = some (s, claimed))
    (hawait : w.step cfg (.coAwait (.task (.ofTask (some child)))) = some w₁) :
    let x := w.sched.taskIn p
    let y := (s, (w.sched.slots s).generation + 1)
    ∀ actions w₂, run (World.step cfg) w₁ actions = some w₂ →
      Obs.completed y.1 y.2 ∉ w₂.sched.trace →
      w₂.Awaits x y child ∧ w₂.resumptions x = w₁.resumptions x ∧
        w₂.enqueues x = w₁.enqueues x ∧
        ∀ a w₃, w₂.step cfg a = some w₃ → Obs.completed y.1 y.2 ∈ w₃.sched.trace →
          tally (World.step cfg) (completesFrame s child) w₁ actions = 1 ∧
          w₃.sched.trace = w₂.sched.trace ++ [.completed y.1 y.2, .enqueued x.1 x.2] ∧
          (w₃.sched.slots s).handle = none ∧ (w₃.sched.slots s).parent = none ∧
          w₃.sched.readyTasks = w₂.sched.readyTasks ++ [x] ∧ w₃.ResumedNextPass cfg x := by
  intro x y actions w₂ hrun hpending
  have hw₁ : w₁.Reachable cfg := hw.succ hawait
  have hw₂ : w₂.Reachable cfg := hw₁.append hrun
  obtain ⟨L, hinv⟩ := hw.inv
  obtain ⟨hcontrol₁, hawaits⟩ := hinv.step_awaitTask hcontrol hslot hawait
  obtain ⟨hawaits₂, hresumed, henqueued, htally⟩ := hawaits.run hw₁ hrun hpending
  refine ⟨hawaits₂, hresumed, henqueued, fun a w₃ hstep hcompleted => ?_⟩
  have hw₃ : w₃.Reachable cfg := hw₂.succ hstep
  obtain ⟨L₃, hinv₃⟩ := hw₃.inv
  obtain ⟨left', rfl, hcontrol₂⟩ := (hawaits₂.step hw₂ hstep).resolve_right
    fun h => h.1.pending hinv₃ hcompleted
  obtain ⟨L₂, hinv₂⟩ := hw₂.inv
  obtain ⟨htrace, hhandle, hparent⟩ := hawaits₂.afterDestroy hinv₂ hcontrol₂
  have hw₃eq : w₃ = { w₂ with sched := w₂.sched.afterDestroy s, control := .pass left' } := by
    simp only [World.step, hcontrol₂, Option.some.injEq] at hstep
    exact hstep.symm
  have hnext := World.resumedNextPass_of_enqueued (x := x) hw₂ hstep rfl
    (by rw [hw₃eq]; rfl) (by rw [hw₃eq, hcontrol₂]; exact le_rfl)
    (by rw [hw₃eq, htrace, enqueuedTasks_append]; rfl)
  refine ⟨?_, by rw [hw₃eq, htrace], by rw [hw₃eq, hhandle], by rw [hw₃eq, hparent], hnext⟩
  simpa [hcontrol₁, hcontrol₂, Control.releases] using htally

/-- A parent awaits a child, which yields once before it ends.  When the child is destroyed, the
parent has been resumed only for its own start, and is then ready behind a task that the child
has spawned. -/
theorem parent_resumes_after_child_small :
    let running : List (Action ℕ) := [.createTask (some 1), .poll false 0, .checkPending,
      .startPass, .passPop]
    let awaiting := running ++ [.coAwait (.task (.ofTask (some 2)))]
    let later : List (Action ℕ) := [.endPass 0, .poll false 1, .checkPending, .startPass, .passPop,
      .coAwait .yield, .endPass 1, .poll false 2, .checkPending, .startPass, .passPop,
      .createTask (some 3), .finish]
    let ending := awaiting ++ later
    let ended := ending ++ [.destroyed]
    (World.after .small ending).Awaits (0, 1) (1, 1) 2 ∧
      (World.after .small ending).resumptions (0, 1) = 1 ∧
      (World.after .small ended).sched.readyTasks = [(2, 1), (0, 1)] := by
  intro running awaiting later ending ended
  have hw : (World.after .small running).Reachable .small := .after .small (by decide)
  have hcontrol : (World.after .small running).control = .body 0 0 := by decide
  have hslot : (World.after .small running).sched.acquireSlot =
      some (1, (World.after .small running).sched.claim 1) := by
    unfold Scheduler.acquireSlot
    rw [show (World.after .small running).sched.findSlot .free = some 1 by decide]
  have hawait : (World.after .small running).step .small
      (.coAwait (.task (.ofTask (some 2)))) = some (World.after .small awaiting) :=
    run_singleton.mp (World.run_after .small running _ (by decide))
  have hrun : run (World.step .small) (World.after .small awaiting) later =
      some (World.after .small ending) := World.run_after .small awaiting later (by decide)
  have hstep : (World.after .small ending).step .small .destroyed =
      some (World.after .small ended) :=
    run_singleton.mp (World.run_after .small ending [.destroyed] (by decide))
  obtain ⟨hawaits, -, -, hend⟩ := parent_resumes_after_child hw hcontrol hslot hawait
    later _ hrun (by decide)
  obtain ⟨-, -, -, -, hready, -⟩ := hend _ _ hstep (by decide)
  refine ⟨hawaits, by decide, hready.trans (by decide)⟩

end SimpleAwait
