import SimpleAwait.System.Control
import SimpleAwait.System.Trace

/-!
# Passes

`passPop` is the only step that resumes a task, and the loop of `run_pass` performs it as often
as `ready_count_` said when the pass took its budget.  Since tasks are resumed in the order in
which they were enqueued, the tasks that a pass resumes are the first so many of its ready FIFO:
counting them is enough to know them.  A task behind the budget waits for the next pass.
-/

namespace SimpleAwait

open Transition

variable {N : ℕ} {T : Type} {cfg : Config N} {w w' w₁ w₂ w₃ : World N T} {L : Layout N}
  {a : Action T}

/-- The loop of `run_pass` is executing. -/
def Control.inPass : Control N → Bool
  | .pass _ | .body .. | .flagSuspend .. | .release .. => true
  | _ => false

/-- The step that takes the budget of a pass. -/
def Action.isStart : Action T → Bool
  | .startPass => true
  | _ => false

/-- The step that ends a pass. -/
def Action.isEnd : Action T → Bool
  | .endPass _ => true
  | _ => false

/-! ## Where the loop of `run_pass` is -/

/-- Outside the loop of `run_pass`, only the start of a pass enters it. -/
theorem Inv.step_outside (h : Inv cfg w L) (hstep : w.step cfg a = some w')
    (hout : w.control.inPass = false) (ha : a.isStart = false) :
    w'.control.inPass = false ∧ a.isPop = false := by
  have hmoves := h.step_control hstep
  generalize w.control = c at hmoves hout
  generalize w'.control = c' at hmoves ⊢
  cases hmoves with
  | call _ hcall => exact ⟨hout, by cases a <;> first | rfl | cases hcall⟩
  | external hexternal => exact ⟨hout, by cases a <;> first | rfl | cases hexternal⟩
  | start => cases ha
  | poll | nothingPending | walkFirst | walkNext | walkEnd | tokenTaken | timedOut =>
      exact ⟨rfl, rfl⟩
  | pop | goOn | suspend | flagReady | flagRejected | flagParked | finish | destroyed | endPass
  | sleep => cases hout

/-- Inside the loop, every resumption uses up one iteration. -/
theorem Inv.step_inside (h : Inv cfg w L) (hstep : w.step cfg a = some w')
    (hin : w.control.inPass = true) (ha : a.isEnd = false) :
    w'.control.inPass = true ∧ w'.control.left + (if a.isPop then 1 else 0) = w.control.left := by
  have hmoves := h.step_control hstep
  generalize w.control = c at hmoves hin
  generalize w'.control = c' at hmoves ⊢
  cases hmoves with
  | call _ hcall => exact ⟨hin, by cases a <;> first | rfl | cases hcall⟩
  | external hexternal => exact ⟨hin, by cases a <;> first | rfl | cases hexternal⟩
  | pop | goOn | suspend | flagReady | flagRejected | flagParked | finish | destroyed =>
      exact ⟨rfl, rfl⟩
  | endPass | sleep => cases ha
  | poll | nothingPending | walkFirst | walkNext | walkEnd | tokenTaken | timedOut | start =>
      cases hin

/-! ## Stretches of a run -/

/-- A stretch of a run between two passes resumes nothing. -/
theorem World.run_outside {actions : List (Action T)} (hw : w.Reachable cfg)
    (hrun : run (World.step cfg) w actions = some w') (hout : w.control.inPass = false)
    (hstart : ∀ a ∈ actions, a.isStart = false) :
    w'.control.inPass = false ∧ Grows w w' 0 := by
  have hall : w'.Reachable cfg ∧ w'.control.inPass = false ∧ Grows w w' 0 := by
    refine run_induction (P := fun u => u.Reachable cfg ∧ u.control.inPass = false ∧
      Grows w u 0) hrun ⟨hw, hout, Grows.refl⟩ ?_
    rintro u a u' ha ⟨hu, hout, hgrows⟩ hstep
    obtain ⟨L, hinv⟩ := hu.inv
    obtain ⟨hout', hpop⟩ := hinv.step_outside hstep hout (hstart a ha)
    have hmore := (hinv.step_advances hstep).grows
    rw [hpop] at hmore
    exact ⟨hu.succ hstep, hout', hgrows.trans hmore⟩
  exact hall.2

/-- A stretch of a run within one pass resumes as many tasks as it takes off the budget. -/
theorem World.run_inside {actions : List (Action T)} (hw : w.Reachable cfg)
    (hrun : run (World.step cfg) w actions = some w') (hin : w.control.inPass = true)
    (hend : ∀ a ∈ actions, a.isEnd = false) :
    ∃ n, w'.control.left + n = w.control.left ∧ Grows w w' n := by
  have hall : w'.Reachable cfg ∧ w'.control.inPass = true ∧
      ∃ n, w'.control.left + n = w.control.left ∧ Grows w w' n := by
    refine run_induction (P := fun u => u.Reachable cfg ∧ u.control.inPass = true ∧
      ∃ n, u.control.left + n = w.control.left ∧ Grows w u n) hrun
      ⟨hw, hin, 0, rfl, Grows.refl⟩ ?_
    rintro u a u' ha ⟨hu, hin, n, hleft, hgrows⟩ hstep
    obtain ⟨L, hinv⟩ := hu.inv
    obtain ⟨hin', hless⟩ := hinv.step_inside hstep hin (hend a ha)
    exact ⟨hu.succ hstep, hin', n + (if a.isPop then 1 else 0), by omega,
      hgrows.trans ((hinv.step_advances hstep).grows)⟩
  exact hall.2.2

/-- As many tasks as were ready are resumed: they are the ones that were ready. -/
theorem Grows.resumed {n : ℕ} (hgrows : Grows w w' n) (hw : w.Reachable cfg)
    (hw' : w'.Reachable cfg) (hn : n = w.sched.readyTasks.length) :
    resumedTasks w'.sched.trace = resumedTasks w.sched.trace ++ w.sched.readyTasks := by
  obtain ⟨obs, htrace, hlength⟩ := hgrows
  have hsame := List.append_inj_left (World.flow hw hw' htrace) (by rw [hlength, hn])
  rw [htrace, resumedTasks_append, hsame]

/-! ## One pass -/

theorem World.step_startPass (hstep : w.step cfg .startPass = some w') :
    w.control = .dueTimers ∧ w' = w.startPass := by
  cases World.steps_of_step hstep with
  | startPass hcontrol => exact ⟨hcontrol, rfl⟩

/-- The budget of a pass is the number of ready tasks. -/
theorem World.step_startPass_control (hstep : w.step cfg .startPass = some w') :
    w'.control = .pass w'.sched.readyCount := by
  rw [(World.step_startPass hstep).2]
  rfl

/-- A pass begins where none is in progress. -/
theorem World.outside_of_startPass (hstep : w.step cfg .startPass = some w') :
    w.control.inPass = false := by
  rw [(World.step_startPass hstep).1]
  rfl

theorem World.step_endPass {clock : Tick} (hstep : w.step cfg (.endPass clock) = some w') :
    w.control = .pass 0 := by
  cases World.steps_of_step hstep with
  | endPass hcontrol => exact hcontrol

/-- A whole pass resumes the tasks that are ready when its budget is taken, in FIFO order. -/
theorem World.run_pass {before body : List (Action T)} {clock : Tick}
    (hw : w.Reachable cfg) (hout : w.control.inPass = false)
    (henter : run (World.step cfg) w (before ++ [.startPass]) = some w₁)
    (hbefore : ∀ a ∈ before, a.isStart = false)
    (hpass : run (World.step cfg) w₁ (body ++ [.endPass clock]) = some w')
    (hbody : ∀ a ∈ body, a.isEnd = false) :
    resumedTasks w'.sched.trace = resumedTasks w.sched.trace ++ w₁.sched.readyTasks ∧
      w.sched.readyTasks <+: w₁.sched.readyTasks := by
  obtain ⟨w₀, hrun₀, hstart⟩ := run_append.mp henter
  obtain ⟨w₂, hrun₂, hend⟩ := run_append.mp hpass
  rw [run_singleton] at hstart hend
  have hw₀ : w₀.Reachable cfg := hw.append hrun₀
  have hw₁ : w₁.Reachable cfg := hw₀.succ hstart
  have hw₂ : w₂.Reachable cfg := hw₁.append hrun₂
  have hw' : w'.Reachable cfg := hw₂.succ hend
  obtain ⟨-, hidle⟩ := World.run_outside hw hrun₀ hout hbefore
  obtain ⟨L₀, hinv₀⟩ := hw₀.inv
  have hidle₁ : Grows w w₁ 0 := hidle.trans (hinv₀.step_advances hstart).grows
  -- The budget is the length of the ready FIFO, and it is used up when the pass ends.
  have hcontrol₁ := World.step_startPass_control hstart
  obtain ⟨n, hleft, hgrows⟩ := World.run_inside hw₁ hrun₂ (by rw [hcontrol₁]; rfl) hbody
  have hn : n = w₁.sched.readyTasks.length := by
    rw [hw₁.readyTasks.2]
    simpa [World.step_endPass hend, hcontrol₁, Control.left] using hleft
  obtain ⟨L₂, hinv₂⟩ := hw₂.inv
  have hpassed : Grows w₁ w' n := hgrows.trans (hinv₂.step_advances hend).grows
  have hbefore₁ : resumedTasks w₁.sched.trace = resumedTasks w.sched.trace := by
    obtain ⟨obs, htrace, hnone⟩ := hidle₁
    rw [htrace, resumedTasks_append, List.length_eq_zero_iff.mp hnone, List.append_nil]
  refine ⟨?_, hidle₁.keepsReady hw hw₁⟩
  rw [hpassed.resumed hw₁ hw' hn, hbefore₁]

/-! ## The next pass -/

/-- A whole pass, of `poll()` or `poll_and_wait()`, whose sampled clock is `now`. -/
def Pass (cfg : Config N) (now : Tick) (w w' : World N T) : Prop :=
  ∃ andWait before body clock w₁, w.control = .loop ∧
    run (World.step cfg) w (.poll andWait now :: before ++ [.startPass]) = some w₁ ∧
    (∀ a ∈ before, Action.isStart a = false) ∧
    run (World.step cfg) w₁ (body ++ [.endPass clock]) = some w' ∧
    ∀ a ∈ body, Action.isEnd a = false

/-- How often a task was resumed. -/
def World.resumptions (w : World N T) (x : Fin N × UInt32) : ℕ :=
  (resumedTasks w.sched.trace).count x

/-- How often a task entered the ready FIFO. -/
def World.enqueues (w : World N T) (x : Fin N × UInt32) : ℕ :=
  (enqueuedTasks w.sched.trace).count x

/-- In whatever way the pass in progress goes on, task `x` is not resumed in it nor before the
next pass, and exactly once in that. -/
def World.ResumedNextPass (cfg : Config N) (w : World N T) (x : Fin N × UInt32) : Prop :=
  (∀ rest w', run (World.step cfg) w rest = some w' → (∀ a ∈ rest, Action.isEnd a = false) →
      w'.resumptions x = w.resumptions x) ∧
    ∀ rest clock w₁ idle w₂ now w₃,
      run (World.step cfg) w (rest ++ [.endPass clock]) = some w₁ →
      (∀ a ∈ rest, Action.isEnd a = false) →
      run (World.step cfg) w₁ idle = some w₂ → (∀ a ∈ idle, Action.isStart a = false) →
      Pass cfg now w₂ w₃ →
      w₂.resumptions x = w.resumptions x ∧ w₃.resumptions x = w.resumptions x + 1

variable {x : Fin N × UInt32}

/-- A slot that is not ready before and after a step is not enqueued or resumed by it. -/
theorem World.step_unqueued {a : Action T} (hw : w.Reachable cfg) (hstep : w.step cfg a = some w')
    (hs : (w.sched.slots x.1).state ≠ .ready) (hs' : (w'.sched.slots x.1).state ≠ .ready) :
    w'.resumptions x = w.resumptions x ∧ w'.enqueues x = w.enqueues x := by
  have hw' : w'.Reachable cfg := hw.succ hstep
  obtain ⟨L, hinv⟩ := hw.inv
  have hunready : ∀ {u : World N T}, u.Reachable cfg → (u.sched.slots x.1).state ≠ .ready →
      x ∉ u.sched.readyTasks := by
    intro u hu hstate hmem
    obtain ⟨M, hinv'⟩ := hu.inv
    have hthreaded := hinv'.core.sound.threaded
    rw [hthreaded.readyTasks_eq] at hmem
    obtain ⟨t, ht, heq⟩ := List.mem_map.mp hmem
    obtain rfl : t = x.1 := congrArg Prod.fst heq
    exact hstate (by rw [hthreaded.state, (hthreaded.mem_ready _).mp ht, Place.state_ready])
  obtain ⟨obs, htrace, hlength⟩ := (hinv.step_advances hstep).grows
  have hflow := World.flow hw hw' htrace
  -- a step does not both enqueue and resume
  have hone : resumedTasks obs = [] ∨ enqueuedTasks obs = [] := by
    cases hpop : a.isPop with
    | false =>
        rw [hpop] at hlength
        exact Or.inl (List.length_eq_zero_iff.mp hlength)
    | true =>
        cases a <;> cases hpop
        cases World.steps_of_step hstep with
        | passPop left _ hcontrol hpops =>
            obtain ⟨t, rest, -, rfl, -⟩ := hinv.pops hcontrol hpops
            rw [World.resume_sched, Scheduler.enter_trace, Scheduler.unlinkFront_trace] at htrace
            rw [← List.append_cancel_left htrace]
            exact Or.inr rfl
  have hmem : x ∈ enqueuedTasks obs ↔ x ∈ resumedTasks obs := by
    have := congrArg (fun l => x ∈ l) hflow
    simpa [hunready hw hs, hunready hw' hs'] using this
  have hnone : x ∉ enqueuedTasks obs ∧ x ∉ resumedTasks obs := by
    rcases hone with hnone | hnone <;> simp [hnone] at hmem ⊢ <;> exact hmem
  constructor
  · rw [World.resumptions, htrace, resumedTasks_append, List.count_append,
      List.count_eq_zero.mpr hnone.2]
    rfl
  · rw [World.enqueues, htrace, enqueuedTasks_append, List.count_append,
      List.count_eq_zero.mpr hnone.1]
    rfl

/-! ## Behind the budget -/

/-- Task `x` is ready, and the pass in progress, if there is one, does not come to it. -/
def World.Behind (w : World N T) (x : Fin N × UInt32) : Prop :=
  ∃ xs ys, w.sched.readyTasks = xs ++ x :: ys ∧ w.control.left ≤ xs.length

theorem World.Behind.mem (h : w.Behind x) : x ∈ w.sched.readyTasks := by
  obtain ⟨xs, ys, hready, -⟩ := h
  simp [hready]

/-- Until a pass takes its budget, every resumption uses up one iteration. -/
theorem Inv.step_left (h : Inv cfg w L) (hstep : w.step cfg a = some w') (ha : a.isStart = false) :
    w'.control.left + (if a.isPop then 1 else 0) ≤ w.control.left := by
  have hmoves := h.step_control hstep
  generalize w.control = c at hmoves
  generalize w'.control = c' at hmoves ⊢
  cases hmoves with
  | call _ hcall => cases a <;> first | exact le_rfl | cases hcall
  | external hexternal => cases a <;> first | exact le_rfl | cases hexternal
  | start => cases ha
  | _ => exact le_rfl

/-- A task behind the budget is not resumed and stays behind it, until a pass takes its budget. -/
theorem World.Behind.step (h : w.Behind x) (hw : w.Reachable cfg) (hstep : w.step cfg a = some w')
    (ha : a.isStart = false) : w'.Behind x ∧ w'.resumptions x = w.resumptions x := by
  obtain ⟨xs, ys, hready, hleft⟩ := h
  obtain ⟨L, hinv⟩ := hw.inv
  obtain ⟨obs, htrace, hlength⟩ := (hinv.step_advances hstep).grows
  have hbudget := hinv.step_left hstep ha
  have hflow := World.flow hw (hw.succ hstep) htrace
  rw [hready, List.append_assoc] at hflow
  -- what is resumed comes from the front of the FIFO
  have hprefix : resumedTasks obs <+: xs :=
    List.prefix_of_prefix_length_le ⟨_, hflow.symm⟩ (List.prefix_append _ _) (by omega)
  obtain ⟨zs, hzs⟩ := hprefix
  have hx : x ∉ xs := by
    have hnodup := hw.readyTasks.1
    rw [hready] at hnodup
    exact fun hmem => (List.nodup_append.mp hnodup).2.2 x hmem x (List.mem_cons_self ..) rfl
  constructor
  · rw [← hzs, List.append_assoc] at hflow
    refine ⟨zs, ys ++ enqueuedTasks obs, (List.append_cancel_left hflow).symm, ?_⟩
    have hsplit := congrArg List.length hzs
    rw [List.length_append] at hsplit
    omega
  · have hnone : (resumedTasks obs).count x = 0 :=
      List.count_eq_zero.mpr fun hmem => hx (hzs ▸ List.mem_append_left _ hmem)
    rw [World.resumptions, htrace, resumedTasks_append, List.count_append, hnone]
    rfl

theorem World.Behind.run {actions : List (Action T)} (h : w.Behind x) (hw : w.Reachable cfg)
    (hrun : run (World.step cfg) w actions = some w') (hactions : ∀ a ∈ actions, a.isStart = false) :
    w'.Behind x ∧ w'.resumptions x = w.resumptions x := by
  have hall : w'.Reachable cfg ∧ w'.Behind x ∧ w'.resumptions x = w.resumptions x := by
    refine run_induction (P := fun u => u.Reachable cfg ∧ u.Behind x ∧
      u.resumptions x = w.resumptions x) hrun ⟨hw, h, rfl⟩ ?_
    intro u a u' ha hu hstep
    obtain ⟨hbehind, hsame⟩ := hu.2.1.step hu.1 hstep (hactions a ha)
    exact ⟨hu.1.succ hstep, hbehind, hsame.trans hu.2.2⟩
  exact hall.2

/-- `passPop` is the only step that resumes a task. -/
theorem Inv.step_resumptions (h : Inv cfg w L) (hstep : w.step cfg a = some w')
    (ha : a.isPop = false) : w'.resumptions x = w.resumptions x := by
  obtain ⟨obs, htrace, hlength⟩ := (h.step_advances hstep).grows
  rw [ha] at hlength
  rw [World.resumptions, htrace, resumedTasks_append, List.length_eq_zero_iff.mp hlength,
    List.append_nil]
  rfl

/-- Task `x` is ready, and the pass in progress comes to it. -/
def World.Due (w : World N T) (x : Fin N × UInt32) : Prop :=
  ∃ xs ys, w.sched.readyTasks = xs ++ x :: ys ∧ xs.length < w.control.left

theorem World.Due.mem (h : w.Due x) : x ∈ w.sched.readyTasks := by
  obtain ⟨xs, ys, hready, -⟩ := h
  simp [hready]

theorem World.Due.inPass (h : w.Due x) : w.control.inPass = true := by
  obtain ⟨xs, ys, -, hleft⟩ := h
  cases hcontrol : w.control <;> simp [hcontrol, Control.left] at hleft <;> rfl

/-- Every task that is ready is within the budget that a pass takes. -/
theorem World.Behind.start (h : w.Behind x) (hw : w.Reachable cfg)
    (hstep : w.step cfg .startPass = some w') : w'.Due x := by
  have hw' : w'.Reachable cfg := hw.succ hstep
  obtain ⟨xs, ys, hready, -⟩ := h
  obtain ⟨L, hinv⟩ := hw.inv
  have hgrows : Grows w w' 0 := (hinv.step_advances hstep).grows
  obtain ⟨tasks, -, hready'⟩ := hgrows.enqueued hw hw'
  rw [hready, List.append_assoc, List.cons_append] at hready'
  refine ⟨xs, ys ++ tasks, hready', ?_⟩
  have hlength := hw'.readyTasks.2
  rw [World.step_startPass_control hstep, Control.left, ← hlength, hready', List.length_append,
    List.length_cons]
  omega

/-- A task within the budget stays there until the pass comes to it. -/
theorem World.Due.step (h : w.Due x) (hw : w.Reachable cfg) (hstep : w.step cfg a = some w') :
    w'.Due x ∨ ∃ left, a = .passPop ∧ w'.control = .body x.1 left := by
  have hw' : w'.Reachable cfg := hw.succ hstep
  have hin := h.inPass
  obtain ⟨xs, ys, hready, hleft⟩ := h
  obtain ⟨L, hinv⟩ := hw.inv
  have hend : a.isEnd = false := by
    cases a <;> first | rfl | skip
    rw [World.step_endPass hstep] at hleft
    simp [Control.left] at hleft
  obtain ⟨-, hless⟩ := hinv.step_inside hstep hin hend
  obtain ⟨obs, htrace, hlength⟩ := (hinv.step_advances hstep).grows
  have hflow := World.flow hw hw' htrace
  rw [hready, List.append_assoc] at hflow
  cases hpop : a.isPop with
  | false =>
      rw [hpop] at hless hlength
      rw [List.length_eq_zero_iff.mp hlength, List.nil_append] at hflow
      refine Or.inl ⟨xs, ys ++ enqueuedTasks obs, hflow.symm, ?_⟩
      simpa [← hless] using hleft
  | true =>
      cases a <;> cases hpop
      cases xs with
      | nil =>
          -- the head of the FIFO is the one that is resumed
          cases World.steps_of_step hstep with
          | passPop left _ hcontrol hpops =>
              obtain ⟨s, rest, hhead, rfl, -⟩ := hinv.pops hcontrol hpops
              rw [hinv.core.sound.threaded.readyTasks_eq, hhead, List.map_cons, List.nil_append,
                List.cons.injEq] at hready
              refine Or.inr ⟨left, rfl, ?_⟩
              rw [← hready.1, World.resume_control]
              rfl
      | cons t xs =>
          obtain ⟨u, hone⟩ := List.length_eq_one_iff.mp hlength
          rw [hone, List.cons_append, List.singleton_append, List.cons.injEq] at hflow
          refine Or.inl ⟨xs, ys ++ enqueuedTasks obs, hflow.2.symm, ?_⟩
          simp only [Action.isPop, if_true] at hless
          rw [List.length_cons] at hleft
          omega

/-- A pass does not take its budget again. -/
theorem World.run_inside_isStart {body : List (Action T)} (hw : w.Reachable cfg)
    (hin : w.control.inPass = true) (hrun : run (World.step cfg) w body = some w')
    (hbody : ∀ a ∈ body, a.isEnd = false) : ∀ a ∈ body, a.isStart = false := by
  induction body generalizing w with
  | nil => simp
  | cons a body ih =>
      obtain ⟨u, hstep, hrest⟩ := run_cons.mp hrun
      obtain ⟨L, hinv⟩ := hw.inv
      obtain ⟨hin', -⟩ := hinv.step_inside hstep hin (hbody a (List.mem_cons_self ..))
      refine List.forall_mem_cons.mpr ⟨?_, ih (hw.succ hstep) hin' hrest fun b hb =>
        hbody b (List.mem_cons_of_mem _ hb)⟩
      cases a <;> first | rfl | skip
      rw [World.outside_of_startPass hstep] at hin
      cases hin

/-- The tasks that are ready at the start of a pass are resumed once in it. -/
theorem World.run_pass_ready {before body : List (Action T)} {clock : Tick}
    (hw : w.Reachable cfg) (hout : w.control.inPass = false)
    (henter : run (World.step cfg) w (before ++ [.startPass]) = some w₁)
    (hbefore : ∀ a ∈ before, a.isStart = false)
    (hpass : run (World.step cfg) w₁ (body ++ [.endPass clock]) = some w')
    (hbody : ∀ a ∈ body, a.isEnd = false) (hx : x ∈ w₁.sched.readyTasks) :
    w'.resumptions x = w.resumptions x + 1 := by
  obtain ⟨hresumed, -⟩ := World.run_pass hw hout henter hbefore hpass hbody
  have hw₁ : w₁.Reachable cfg := hw.append henter
  rw [World.resumptions, hresumed, List.count_append,
    List.count_eq_one_of_mem hw₁.readyTasks.1 hx]
  rfl

/-- A task behind the budget is resumed once by the pass that takes its budget next. -/
theorem World.Behind.passed {body : List (Action T)} {clock : Tick} (h : w.Behind x)
    (hw : w.Reachable cfg) (hstart : w.step cfg .startPass = some w₁)
    (hpass : Transition.run (World.step cfg) w₁ (body ++ [.endPass clock]) = some w')
    (hbody : ∀ a ∈ body, a.isEnd = false) : w'.resumptions x = w.resumptions x + 1 := by
  have hout : w.control.inPass = false := World.outside_of_startPass hstart
  obtain ⟨L, hinv⟩ := hw.inv
  have hstarted : Grows w w₁ 0 := (hinv.step_advances hstart).grows
  have henter : Transition.run (World.step cfg) w ([] ++ [.startPass]) = some w₁ :=
    run_singleton.mpr hstart
  refine World.run_pass_ready hw hout henter (by simp) hpass hbody ?_
  exact (hstarted.keepsReady hw (hw.succ hstart)).subset h.mem

/-- Task `x` is not resumed before a pass takes its budget, and exactly once in that pass. -/
def World.ResumedOnce (cfg : Config N) (w : World N T) (x : Fin N × UInt32) : Prop :=
  ∀ before w₁, run (World.step cfg) w before = some w₁ →
    (∀ a ∈ before, Action.isStart a = false) →
    w₁.resumptions x = w.resumptions x ∧
      ∀ w₂ body clock w₃, w₁.step cfg .startPass = some w₂ →
        run (World.step cfg) w₂ (body ++ [.endPass clock]) = some w₃ →
        (∀ a ∈ body, Action.isEnd a = false) → w₃.resumptions x = w.resumptions x + 1

theorem World.Behind.resumedOnce (h : w.Behind x) (hw : w.Reachable cfg) :
    w.ResumedOnce cfg x := by
  intro before w₁ hrun hbefore
  obtain ⟨hbehind, hsame⟩ := h.run hw hrun hbefore
  refine ⟨hsame, fun w₂ body clock w₃ hstart hpass hbody => ?_⟩
  rw [hbehind.passed (hw.append hrun) hstart hpass hbody, hsame]

/-- A task behind the budget of the pass in progress is resumed in the next pass. -/
theorem World.resumedNextPass (hw : w.Reachable cfg) (hin : w.control.inPass = true)
    (h : w.Behind x) : w.ResumedNextPass cfg x := by
  refine ⟨fun rest w' hrun hrest =>
    (h.run hw hrun (run_inside_isStart hw hin hrun hrest)).2, ?_⟩
  intro rest clock w₁ idle w₂ now w₃ hrun hrest hrunIdle hidle hpass
  obtain ⟨u, hrunRest, hend⟩ := run_append.mp hrun
  have hw₁ : w₁.Reachable cfg := hw.append hrun
  have hended : ∀ a ∈ rest ++ [.endPass clock], Action.isStart a = false :=
    List.forall_mem_append.mpr ⟨run_inside_isStart hw hin hrunRest hrest, by simp [Action.isStart]⟩
  obtain ⟨hbehind₁, hsame₁⟩ := h.run hw hrun hended
  obtain ⟨hbehind₂, hsame₂⟩ := hbehind₁.run hw₁ hrunIdle hidle
  obtain ⟨andWait, before, body, clock', w₄, -, henter, hbefore, hbody, hends⟩ := hpass
  obtain ⟨v, hrunv, hstart⟩ := run_append.mp henter
  have hpolls : ∀ a ∈ Action.poll andWait now :: before, Action.isStart a = false :=
    List.forall_mem_cons.mpr ⟨rfl, hbefore⟩
  have hw₂ : w₂.Reachable cfg := hw₁.append hrunIdle
  obtain ⟨hbehind₃, hsame₃⟩ := hbehind₂.run hw₂ hrunv hpolls
  refine ⟨hsame₂.trans hsame₁, ?_⟩
  rw [hbehind₃.passed (hw₂.append hrunv) (run_singleton.mp hstart) hbody hends, hsame₃, hsame₂,
    hsame₁]

/-- A task that a step makes ready is behind the budget. -/
theorem World.behind_of_enqueued (hw : w.Reachable cfg) (hstep : w.step cfg a = some w')
    (ha : a.isPop = false) (hleft : w'.control.left ≤ w.control.left)
    (henqueued : enqueuedTasks w'.sched.trace = enqueuedTasks w.sched.trace ++ [x]) :
    w'.sched.readyTasks = w.sched.readyTasks ++ [x] ∧ w'.Behind x := by
  have hw' : w'.Reachable cfg := hw.succ hstep
  obtain ⟨L, hinv⟩ := hw.inv
  have hgrows := (hinv.step_advances hstep).grows
  rw [ha] at hgrows
  obtain ⟨tasks, htasks, hready⟩ := hgrows.enqueued hw hw'
  rw [henqueued] at htasks
  rw [← List.append_cancel_left htasks] at hready
  refine ⟨hready, _, [], hready, hleft.trans ?_⟩
  have hbudget := hinv.staged.budget
  rwa [hinv.core.sound.threaded.readyTasks_eq, List.length_map]

/-- A task that a step in a pass makes ready is resumed in the next pass. -/
theorem World.resumedNextPass_of_enqueued (hw : w.Reachable cfg) (hstep : w.step cfg a = some w')
    (ha : a.isPop = false) (hin : w'.control.inPass = true)
    (hleft : w'.control.left ≤ w.control.left)
    (henqueued : enqueuedTasks w'.sched.trace = enqueuedTasks w.sched.trace ++ [x]) :
    w'.sched.readyTasks = w.sched.readyTasks ++ [x] ∧ w'.ResumedNextPass cfg x := by
  obtain ⟨hready, hbehind⟩ := World.behind_of_enqueued hw hstep ha hleft henqueued
  exact ⟨hready, World.resumedNextPass (hw.succ hstep) hin hbehind⟩

end SimpleAwait
