import SimpleAwait.Library.Lines
import SimpleAwait.Properties.Consistency
import SimpleAwait.System.Passes

/-!
# Runnable tasks take turns

The ready FIFO is a line of tasks: `passPop` serves its head, and every other step lets tasks join at
its end.  A task that is runnable throughout a stretch of a run therefore gets one resumption of each
`SIMPLEAWAIT_MAX_TASKS` in a row, and no other task gets more than one more than it does, over any
number of passes.
-/

namespace SimpleAwait

open Transition Lines

variable {N : ℕ} {T : Type} {cfg : Config N} {w w' : World N T} {L : Layout N} {a : Action T}
  {x y : Fin N × UInt32} {actions : List (Action T)}

/-- Task `y` is ready or running. -/
def Scheduler.Runnable (c : Scheduler N) (y : Fin N × UInt32) : Prop :=
  ((c.slots y.1).state = .ready ∨ (c.slots y.1).state = .running) ∧
    (c.slots y.1).generation = y.2

instance (c : Scheduler N) (y : Fin N × UInt32) : Decidable (c.Runnable y) :=
  inferInstanceAs (Decidable (_ ∧ _))

/-- A runnable task is in the ready FIFO when the loop of `run_pass` comes to its head. -/
theorem Inv.mem_readyTasks_of_pop (h : Inv cfg w L) (hy : w.sched.Runnable y)
    (hcontrol : w.control.running = none) : y ∈ w.sched.readyTasks := by
  obtain ⟨hstate, hgeneration⟩ := hy
  have hthreaded := h.core.sound.threaded
  have hready : L.place y.1 = .ready := by
    rw [hthreaded.state] at hstate
    rcases hstate with hstate | hstate
    · exact Place.eq_ready_of_state hstate
    · have hrunning := (h.staged.running y.1).mp (Place.eq_running_of_state hstate)
      rw [hcontrol] at hrunning
      cases hrunning
  rw [hthreaded.readyTasks_eq]
  exact List.mem_map.mpr ⟨y.1, (hthreaded.mem_ready y.1).mpr hready, Prod.ext rfl hgeneration⟩

/-- A step serves the head of the ready FIFO, or lets tasks join at its end.  It serves nobody while
a runnable task is not in the FIFO. -/
theorem World.step_line (hw : w.Reachable cfg) (hstep : w.step cfg a = some w') :
    ∃ obs, w'.sched.trace = w.sched.trace ++ obs ∧
      Lines.Step w.sched.readyTasks (resumedTasks obs) w'.sched.readyTasks ∧
      ∀ y, w.sched.Runnable y → resumedTasks obs ≠ [] → y ∈ w.sched.readyTasks := by
  obtain ⟨L, hinv⟩ := hw.inv
  obtain ⟨obs, htrace, hlength⟩ := (hinv.step_advances hstep).grows
  have hflow := World.flow hw (hw.succ hstep) htrace
  refine ⟨obs, htrace, ?_⟩
  cases hpop : a.isPop with
  | false =>
      rw [hpop] at hlength
      have hnone : resumedTasks obs = [] := List.length_eq_zero_iff.mp hlength
      rw [hnone, List.nil_append] at hflow
      rw [hnone, ← hflow]
      exact ⟨.join _ _, fun y _ hne => absurd rfl hne⟩
  | true =>
      cases a <;> cases hpop
      cases World.steps_of_step hstep with
      | passPop left _ hcontrol hpops =>
          obtain ⟨t, rest, -, rfl, -⟩ := hinv.pops hcontrol hpops
          rw [World.resume_sched, Scheduler.enter_trace, Scheduler.unlinkFront_trace] at htrace
          rw [← List.append_cancel_left htrace] at hflow ⊢
          have hready : w.sched.readyTasks = [_] ++ _ := (List.append_nil _).symm.trans hflow
          refine ⟨?_, fun y hy _ => hinv.mem_readyTasks_of_pop hy (by rw [hcontrol]; rfl)⟩
          rw [hready]
          exact .serve _ _

/-- What holds of the tasks resumed in a stretch of a run throughout which task `y` is runnable. -/
theorem World.run_line (hw : w.Reachable cfg) (hrun : run (World.step cfg) w actions = some w')
    (hy : Along (World.step cfg) (fun u _ => u.sched.Runnable y) w actions) :
    ∃ obs, w'.sched.trace = w.sched.trace ++ obs ∧
      (∀ x, x ≠ y → Abreast x y w'.sched.readyTasks (resumedTasks obs)) ∧
      Share N y w'.sched.readyTasks (resumedTasks obs) := by
  have hshort : ∀ {u : World N T}, u.Reachable cfg → u.sched.readyTasks.length ≤ N := by
    intro u hu
    obtain ⟨L, hinv⟩ := hu.inv
    have hthreaded := hinv.core.sound.threaded
    rw [hthreaded.readyTasks_eq, List.length_map]
    simpa using hthreaded.nodup_ready.length_le_card
  have hall : w'.Reachable cfg ∧ ∃ obs, w'.sched.trace = w.sched.trace ++ obs ∧
      (∀ x, x ≠ y → Abreast x y w'.sched.readyTasks (resumedTasks obs)) ∧
      Share N y w'.sched.readyTasks (resumedTasks obs) := by
    refine hy.induction (P := fun u => u.Reachable cfg ∧ ∃ obs,
      u.sched.trace = w.sched.trace ++ obs ∧
      (∀ x, x ≠ y → Abreast x y u.sched.readyTasks (resumedTasks obs)) ∧
      Share N y u.sched.readyTasks (resumedTasks obs)) hrun
      ⟨hw, [], (List.append_nil _).symm, fun x _ => .start x y _, .start y (hshort hw)⟩ ?_
    rintro u a u' - ⟨hu, obs, htrace, habreast, hshare⟩ hrunnable hstep
    have hu' : u'.Reachable cfg := hu.succ hstep
    obtain ⟨more, hmore, hline, hserved⟩ := World.step_line hu hstep
    refine ⟨hu', obs ++ more, by rw [hmore, htrace, List.append_assoc], ?_⟩
    rw [resumedTasks_append]
    have hnodup := hu.readyTasks.1
    refine ⟨fun x hxy => ?_, hshare.step hline (hserved y hrunnable) hnodup (hshort hu')⟩
    exact (habreast x hxy).step hline hxy (hserved y hrunnable) hnodup hu'.readyTasks.1
  exact hall.2

/-- The resumptions in a stretch of a run add up. -/
theorem World.resumptions_append {obs : List (Obs N)} (htrace : w'.sched.trace = w.sched.trace ++ obs)
    (x : Fin N × UInt32) : w'.resumptions x = w.resumptions x + (resumedTasks obs).count x := by
  rw [World.resumptions, htrace, resumedTasks_append, List.count_append]
  rfl

/-- In a stretch of a run throughout which task `y` is ready or running, over any number of passes, no
other task is resumed more than once more often than `y`. -/
theorem no_task_overtaken (hw : w.Reachable cfg)
    (hrun : run (World.step cfg) w actions = some w')
    (hy : Along (World.step cfg) (fun u _ => u.sched.Runnable y) w actions) (hxy : x ≠ y) :
    w'.resumptions x + w.resumptions y ≤ w.resumptions x + w'.resumptions y + 1 := by
  obtain ⟨obs, htrace, habreast, -⟩ := World.run_line hw hrun hy
  have hbound := (habreast x hxy).bound
  rw [World.resumptions_append htrace x, World.resumptions_append htrace y]
  omega

/-- Two tasks yield in each pass.  The first has just been resumed for the third time, and the second
twice. -/
theorem no_task_overtaken_small :
    let created : List (Action ℕ) := [.createTask (some 1), .createTask (some 2)]
    let pass : List (Action ℕ) := [.poll false 0, .checkPending, .startPass, .passPop,
      .coAwait .yield, .passPop, .coAwait .yield, .endPass 0]
    let actions := pass ++ pass ++ [.poll false 0, .checkPending, .startPass, .passPop]
    let w := World.after .small created
    let w' := World.after .small (created ++ actions)
    w'.resumptions (0, 1) = 3 ∧ w'.resumptions (1, 1) = 2 ∧
      w'.resumptions (0, 1) + w.resumptions (1, 1) ≤
        w.resumptions (0, 1) + w'.resumptions (1, 1) + 1 := by
  intro created pass actions w w'
  refine ⟨by decide, by decide, ?_⟩
  exact no_task_overtaken (.after .small (by decide)) (World.run_after .small created actions
    (by decide)) (by decide) (by decide)

/-- In a stretch of a run throughout which task `y` is ready or running, `y` gets one of every
`SIMPLEAWAIT_MAX_TASKS` resumptions in a row. -/
theorem runnable_task_has_share (hw : w.Reachable cfg)
    (hrun : run (World.step cfg) w actions = some w')
    (hy : Along (World.step cfg) (fun u _ => u.sched.Runnable y) w actions) :
    ∃ n, Grows w w' n ∧ n + N * w.resumptions y < N * (w'.resumptions y + 1) := by
  obtain ⟨obs, htrace, -, hshare⟩ := World.run_line hw hrun hy
  refine ⟨_, ⟨obs, htrace, rfl⟩, ?_⟩
  have hless : (resumedTasks obs).length < N * ((resumedTasks obs).count y + 1) := by
    by_cases hmem : y ∈ w'.sched.readyTasks
    · exact Nat.lt_of_le_of_lt (Nat.le_add_right _ _) (hshare.waiting hmem)
    · have hN : 0 < N := y.1.pos
      calc (resumedTasks obs).length ≤ N * (resumedTasks obs).count y := hshare.out hmem
        _ < N * ((resumedTasks obs).count y + 1) := Nat.mul_lt_mul_of_pos_left (Nat.lt_succ_self _) hN
  calc (resumedTasks obs).length + N * w.resumptions y
      < N * ((resumedTasks obs).count y + 1) + N * w.resumptions y := Nat.add_lt_add_right hless _
    _ = N * (w'.resumptions y + 1) := by
      rw [World.resumptions_append htrace y, ← Nat.mul_add]
      congr 1
      omega

/-- Three slots, of which two hold a task that yields: the second has one of every three
resumptions. -/
theorem runnable_task_has_share_small :
    let created : List (Action ℕ) := [.createTask (some 1), .createTask (some 2)]
    let pass : List (Action ℕ) := [.poll false 0, .checkPending, .startPass, .passPop,
      .coAwait .yield, .passPop, .coAwait .yield, .endPass 0]
    let actions := pass ++ pass ++ [.poll false 0, .checkPending, .startPass, .passPop]
    let w := World.after .small created
    let w' := World.after .small (created ++ actions)
    w.resumptions (1, 1) = 0 ∧ w'.resumptions (1, 1) = 2 ∧ ∃ n, Grows w w' n ∧ n < 3 * 3 := by
  intro created pass actions w w'
  have hbefore : w.resumptions (1, 1) = 0 := by decide
  have hafter : w'.resumptions (1, 1) = 2 := by decide
  obtain ⟨n, hgrows, hless⟩ := runnable_task_has_share (y := (1, 1)) (.after .small (by decide))
    (World.run_after .small created actions (by decide)) (by decide)
  refine ⟨hbefore, hafter, n, hgrows, ?_⟩
  rwa [hbefore, hafter] at hless

end SimpleAwait
