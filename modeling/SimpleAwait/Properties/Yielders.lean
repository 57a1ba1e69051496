import SimpleAwait.Library.Logs
import SimpleAwait.Properties.Fairness
import SimpleAwait.System.Executing
import SimpleAwait.WaitUntil.Phases

/-!
# Tasks that only yield advance together

A task that only yields is always ready or executing, so it keeps its turn.  Two such tasks are
resumed alternately, so neither has made more than one round of its loop more than the other,
however many other tasks there are and whatever happens to these.
-/

namespace SimpleAwait

open Transition Lines

variable {N : ℕ} {T : Type} {cfg : Config N} {w w' : World N T} {L : Layout N} {a : Action T}
  {x y : Fin N × UInt32} {s : Fin N} {left : ℕ}

def Action.isYield : Action T → Bool
  | .coAwait .yield => true
  | _ => false

/-- The tasks that yield in a run, in order. -/
def World.yielded (cfg : Config N) (w : World N T) (actions : List (Action T)) :
    List (Fin N × UInt32) :=
  written (World.step cfg) (fun u a _ => if a.isYield then u.executing else []) w actions

/-- Besides calls that return at once, the body of `x` only yields. -/
def OnlyYields (x : Fin N × UInt32) (u : World N T) (a : Action T) : Prop :=
  u.executes x = true → a.isYield = true ∨ a.isCall = true ∨ a.isExternal = true

instance (x : Fin N × UInt32) (u : World N T) (a : Action T) : Decidable (OnlyYields x u a) :=
  inferInstanceAs (Decidable (_ → _))

/-- Task `x` waits for its turn or has it. -/
def World.InTurn (w : World N T) (x : Fin N × UInt32) : Prop :=
  x ∈ w.sched.readyTasks ∨ w.executes x = true

theorem Inv.runnable_of_inTurn (h : Inv cfg w L) (hx : w.InTurn x) : w.sched.Runnable x := by
  have hthreaded := h.core.sound.threaded
  rcases hx with hready | hexecutes
  · rw [hthreaded.readyTasks_eq] at hready
    obtain ⟨s, hs, rfl⟩ := List.mem_map.mp hready
    refine ⟨Or.inl ?_, rfl⟩
    change (w.sched.slots s).state = .ready
    rw [hthreaded.state, (hthreaded.mem_ready s).mp hs, Place.state_ready]
  · obtain ⟨hplace, htask⟩ := h.place_of_executes hexecutes
    refine ⟨Or.inr ?_, congrArg Prod.snd htask⟩
    rw [hthreaded.state, hplace, Place.state_running]

/-! ## One step -/

/-- A task is resumed for the round that it begins and yields at the end of one. -/
structure World.Turns (w w' : World N T) (x : Fin N × UInt32) (yielded : List (Fin N × UInt32)) :
    Prop where
  inTurn : w'.InTurn x
  count : w'.resumptions x + w.executing.count x =
    w.resumptions x + yielded.count x + w'.executing.count x

/-- A step that resumes nobody leaves a task in the line. -/
theorem World.turns_waiting (hw : w.Reachable cfg) (hstep : w.step cfg a = some w')
    (hx : x ∈ w.sched.readyTasks) (ha : a.isPop = false) :
    w.Turns w' x (if a.isYield then w.executing else []) := by
  have hw' : w'.Reachable cfg := hw.succ hstep
  obtain ⟨L, hinv⟩ := hw.inv
  have hgrows : Grows w w' 0 := by
    have hadvances := (hinv.step_advances hstep).grows
    rwa [ha] at hadvances
  have hx' : x ∈ w'.sched.readyTasks := (hgrows.keepsReady hw hw').subset hx
  have hnone : w.executing.count x = 0 := by
    rw [World.count_executing, World.not_executes_of_ready hw hx]
    rfl
  have hnone' : w'.executing.count x = 0 := by
    rw [World.count_executing, World.not_executes_of_ready hw' hx']
    rfl
  refine ⟨Or.inl hx', ?_⟩
  rw [hinv.step_resumptions hstep ha, hnone, hnone']
  split_ifs
  · rw [hnone]
  · rfl

/-- A pass comes to the first task in the line. -/
theorem World.turns_pop (hw : w.Reachable cfg) (hstep : w.step cfg .passPop = some w')
    (hx : x ∈ w.sched.readyTasks) : w.Turns w' x [] := by
  have hw' : w'.Reachable cfg := hw.succ hstep
  obtain ⟨L, hinv⟩ := hw.inv
  cases World.steps_of_step hstep with
  | passPop left _ hcontrol hpops =>
      obtain ⟨s, rest, hready, rfl, -⟩ := hinv.pops hcontrol hpops
      set u := w.resume s ((w.sched.unlinkFront s).enter s) left with hu
      have hcontrol' : u.control = .body s left := World.resume_control ..
      have htask : u.sched.taskIn s = w.sched.taskIn s := by
        rw [hu, World.resume_sched, Scheduler.taskIn, Scheduler.enter_generation,
          Scheduler.unlinkFront_generation]
        rfl
      have htrace : u.sched.trace = w.sched.trace ++ [.resumed s (w.sched.slots s).generation] := by
        rw [hu, World.resume_sched, Scheduler.enter_trace, Scheduler.unlinkFront_trace,
          Scheduler.unlinkFront_generation]
      have hline : w.sched.readyTasks = w.sched.taskIn s :: rest.map w.sched.taskIn := by
        rw [hinv.core.sound.threaded.readyTasks_eq, hready, List.map_cons]
      constructor
      · rw [hline, List.mem_cons] at hx
        rcases hx with rfl | hrest
        · exact Or.inr ((World.executes_iff hcontrol').mpr htask)
        · have hflow := World.flow hw hw' htrace
          rw [hline] at hflow
          simp only [enqueuedTasks_cons, enqueuedTasks_nil, resumedTasks_cons, resumedTasks_nil,
            List.append_nil, List.singleton_append] at hflow
          exact Or.inl ((List.cons.inj hflow).2 ▸ hrest)
      · rw [World.resumptions, htrace, resumedTasks_append, List.count_append,
          World.executing_of_body hcontrol', htask, World.executing, hcontrol]
        rfl

/-- A task executes until it yields. -/
theorem World.turns_executing (hw : w.Reachable cfg) (hstep : w.step cfg a = some w')
    (hx : w.executes x = true) (honly : OnlyYields x w a) :
    w.Turns w' x (if a.isYield then w.executing else []) := by
  have hw' : w'.Reachable cfg := hw.succ hstep
  obtain ⟨L, hinv⟩ := hw.inv
  obtain ⟨left, hcontrol, htask⟩ := World.body_of_executes hx
  cases hyield : a.isYield with
  | true =>
      obtain rfl : a = .coAwait .yield := by
        unfold Action.isYield at hyield
        split at hyield
        · rfl
        · cases hyield
      have hx' : x ∈ w'.sched.readyTasks := by
        rw [← htask]
        exact (World.behind_of_yield hw hcontrol hstep).mem
      refine ⟨Or.inl hx', ?_⟩
      have hnone' : w'.executing.count x = 0 := by
        rw [World.count_executing, World.not_executes_of_ready hw' hx']
        rfl
      rw [hinv.step_resumptions hstep rfl, hnone']
      rfl
  | false =>
      have hcalls := (honly hx).resolve_left (by simp [hyield])
      have hpop : a.isPop = false := by
        rcases hcalls with hcalls | hcalls <;> cases a <;> first | rfl | cases hcalls
      have hcontrol' := (hinv.step_body hstep hcontrol hcalls).trans hcontrol.symm
      have hx' := hinv.executes_step hstep hcontrol' hx
      refine ⟨Or.inr hx', ?_⟩
      rw [hinv.step_resumptions hstep hpop, World.count_executing, World.count_executing, hx, hx']
      rfl

theorem World.step_turns (hw : w.Reachable cfg) (hstep : w.step cfg a = some w')
    (hx : w.InTurn x) (honly : OnlyYields x w a) :
    w.Turns w' x (if a.isYield then w.executing else []) := by
  rcases hx with hready | hexecutes
  · cases hpop : a.isPop with
    | false => exact World.turns_waiting hw hstep hready hpop
    | true =>
        cases a <;> cases hpop
        exact World.turns_pop hw hstep hready
  · exact World.turns_executing hw hstep hexecutes honly

/-! ## Runs -/

variable {actions : List (Action T)}

/-- The rounds that a task has begun are those that it has ended, and the one that it is in. -/
theorem World.run_turns (hw : w.Reachable cfg) (hx : x ∈ w.sched.readyTasks)
    (hrun : run (World.step cfg) w actions = some w')
    (honly : Along (World.step cfg) (OnlyYields x) w actions) :
    w.Turns w' x (World.yielded cfg w actions) := by
  have hall : w'.Reachable cfg ∧ w.Turns w' x (World.yielded cfg w actions) := by
    refine Along.written_induction (P := fun u l => World.Reachable cfg u ∧ w.Turns u x l) hrun
      honly ⟨hw, Or.inl hx, rfl⟩ ?_
    intro u a u' l ⟨hu, hturns⟩ ha hstep
    have hnext := World.step_turns hu hstep hturns.inTurn ha
    refine ⟨hu.succ hstep, hnext.inTurn, ?_⟩
    have hcount := hturns.count
    have hcount' := hnext.count
    rw [List.count_append]
    omega
  exact hall.2

/-- Of two tasks that only yield, neither yields more than once more often than the other. -/
theorem World.yields_le (hw : w.Reachable cfg) (hx : x ∈ w.sched.readyTasks)
    (hy : y ∈ w.sched.readyTasks) (hrun : run (World.step cfg) w actions = some w')
    (hxonly : Along (World.step cfg) (OnlyYields x) w actions)
    (hyonly : Along (World.step cfg) (OnlyYields y) w actions) :
    (World.yielded cfg w actions).count x ≤ (World.yielded cfg w actions).count y + 1 := by
  by_cases hxy : x = y
  · subst hxy
    exact Nat.le_succ _
  · have hrunnable : Along (World.step cfg) (fun u _ => u.sched.Runnable y) w actions := by
      refine hyonly.weaken (fun u => World.Reachable cfg u ∧ u.InTurn y) ⟨hw, Or.inl hy⟩ ?_ ?_
      · intro u a u' ⟨hu, hturn⟩ ha hstep
        exact ⟨hu.succ hstep, (World.step_turns hu hstep hturn ha).inTurn⟩
      · intro u a ⟨hu, hturn⟩ _
        obtain ⟨L, hinv⟩ := hu.inv
        exact hinv.runnable_of_inTurn hturn
    obtain ⟨obs, htrace, habreast, -⟩ := World.run_line hw hrun hrunnable
    have hturnsx := (World.run_turns hw hx hrun hxonly).count
    have hturnsy := (World.run_turns hw hy hrun hyonly).count
    rw [World.resumptions_append htrace, World.count_executing w,
      World.not_executes_of_ready hw hx] at hturnsx
    rw [World.resumptions_append htrace, World.count_executing w,
      World.not_executes_of_ready hw hy, World.count_executing] at hturnsy
    have hbound := (habreast x hxy).bound
    cases hexecutes : w'.executes y with
    | true =>
        -- `y` is out of the line, and `x` has not been resumed more often
        have hout : y ∉ w'.sched.readyTasks := by
          intro hmem
          have hw' : w'.Reachable cfg := hw.append hrun
          rw [World.not_executes_of_ready hw' hmem] at hexecutes
          cases hexecutes
        have hahead := (habreast x hxy).ahead (Or.inl hout)
        rw [hexecutes] at hturnsy
        simp only [Bool.false_eq_true, if_false, if_true] at hturnsx hturnsy
        omega
    | false =>
        rw [hexecutes] at hturnsy
        simp only [Bool.false_eq_true, if_false] at hturnsx hturnsy
        omega

/-- From where two tasks are ready, and as long as they only yield, each has yielded as often as the
other, or once more or less, whatever other tasks, calls and external contexts do. -/
theorem yielders_advance_together (hw : w.Reachable cfg) (hx : x ∈ w.sched.readyTasks)
    (hy : y ∈ w.sched.readyTasks) (hrun : run (World.step cfg) w actions = some w')
    (hxonly : Along (World.step cfg) (OnlyYields x) w actions)
    (hyonly : Along (World.step cfg) (OnlyYields y) w actions) :
    (World.yielded cfg w actions).count x ≤ (World.yielded cfg w actions).count y + 1 ∧
      (World.yielded cfg w actions).count y ≤ (World.yielded cfg w actions).count x + 1 :=
  ⟨World.yields_le hw hx hy hrun hxonly hyonly, World.yields_le hw hy hx hrun hyonly hxonly⟩

/-- Two counters beside a task that sleeps: one has ended its third round, and the other two. -/
theorem yielders_advance_together_small :
    let created : List (Action ℕ) := [.createTask (some 1), .createTask (some 2),
      .createTask (some 3)]
    let pass : List (Action ℕ) := [.checkPending, .startPass, .passPop, .coAwait .yield, .passPop,
      .coAwait .yield]
    let actions := [.poll false 0] ++ pass ++ [.passPop, .coAwait (.delay 1000000), .endPass 0,
      .poll false 5] ++ pass ++ [.endPass 5, .poll false 9, .checkPending, .startPass, .passPop,
      .coAwait .yield, .passPop]
    let w := World.after .small created
    (World.yielded .small w actions).count (0, 1) = 3 ∧
      (World.yielded .small w actions).count (1, 1) = 2 ∧
      (World.yielded .small w actions).count (0, 1) ≤
        (World.yielded .small w actions).count (1, 1) + 1 := by
  intro created pass actions w
  refine ⟨by decide, by decide, ?_⟩
  exact (yielders_advance_together (.after .small (by decide)) (by decide) (by decide)
    (World.run_after .small created actions (by decide)) (by decide) (by decide)).1

end SimpleAwait
