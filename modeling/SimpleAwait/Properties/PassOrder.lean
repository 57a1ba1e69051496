import SimpleAwait.Properties.Consistency
import SimpleAwait.System.Passes

/-!
# A pass resumes what was ready

The tasks that a pass resumes are those that are ready when `run_pass` takes its budget, in the
order in which they became ready.
-/

namespace SimpleAwait

open Transition

variable {N : ℕ} {T : Type} {cfg : Config N} {w w' w₁ : World N T}

/-- A pass resumes exactly the tasks that are ready when its budget is taken, each once and
in FIFO order; those that were ready before it are among them.  At its end, as always, the
tasks made ready so far are the ones resumed, in the same order, and then the ready ones. -/
theorem pass_resumes_ready {before body : List (Action T)} {clock : Tick}
    (hw : w.Reachable cfg) (hout : w.control.inPass = false)
    (henter : run (World.step cfg) w (before ++ [.startPass]) = some w₁)
    (hbefore : ∀ a ∈ before, a.isStart = false)
    (hpass : run (World.step cfg) w₁ (body ++ [.endPass clock]) = some w')
    (hbody : ∀ a ∈ body, a.isEnd = false) :
    resumedTasks w'.sched.trace = resumedTasks w.sched.trace ++ w₁.sched.readyTasks ∧
      w₁.sched.readyTasks.Nodup ∧ w.sched.readyTasks <+: w₁.sched.readyTasks ∧
      enqueuedTasks w'.sched.trace = resumedTasks w'.sched.trace ++ w'.sched.readyTasks := by
  obtain ⟨hresumed, hready⟩ := World.run_pass hw hout henter hbefore hpass hbody
  have hw₁ : w₁.Reachable cfg := hw.append henter
  have hw' : w'.Reachable cfg := hw₁.append hpass
  exact ⟨hresumed, hw₁.readyTasks.1, hready, hw'.history⟩

/-- Of two tasks, the first yields and the second spawns a third and ends: the pass resumes
each of the two once, and leaves the first and the third ready. -/
theorem pass_resumes_ready_small :
    let created : List (Action ℕ) := [.createTask (some 1), .createTask (some 2)]
    let entered := created ++ [.poll false 0, .checkPending, .startPass]
    let passed := entered ++ [.passPop, .coAwait .yield, .passPop, .createTask (some 3), .finish,
      .destroyed, .endPass 0]
    resumedTasks (World.after .small passed).sched.trace =
        (World.after .small entered).sched.readyTasks ∧
      (World.after .small entered).sched.readyTasks = [(0, 1), (1, 1)] ∧
      (World.after .small passed).sched.readyTasks = [(0, 1), (2, 1)] := by
  intro created entered passed
  obtain ⟨hresumed, -⟩ := pass_resumes_ready (.after _ (by decide)) (by decide)
    (World.run_after .small created ([.poll false 0, .checkPending] ++ [.startPass]) (by decide))
    (by decide)
    (World.run_after .small entered ([.passPop, .coAwait .yield, .passPop, .createTask (some 3),
      .finish, .destroyed] ++ [.endPass 0]) (by decide)) (by decide)
  exact ⟨hresumed, by decide, by decide⟩

end SimpleAwait
