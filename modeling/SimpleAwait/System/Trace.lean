import SimpleAwait.System.Preservation

/-!
# What a step adds to the trace

`passPop` is the only step that resumes a task, and it resumes one.  No step replaces a task
that has not completed.  Since `Threaded.history` holds in every reachable world, the ready FIFO
only grows at its tail while nothing is resumed.
-/

namespace SimpleAwait

open Transition

variable {N : ℕ} {T : Type} {cfg : Config N} {w w' w₁ w₂ : World N T} {L : Layout N}
  {a : Action T}

/-- The tasks in the ready FIFO, in order. -/
def Scheduler.readyTasks (c : Scheduler N) : List (Fin N × UInt32) :=
  (Intrusive.follow c.next c.readyCount c.readyHead).map c.taskIn

/-- The step that resumes a task. -/
def Action.isPop : Action T → Bool
  | .passPop => true
  | _ => false

theorem Threaded.readyTasks_eq {c : Scheduler N} {ev : ℕ → WaitQueue N} {v : View N}
    (h : Threaded c ev v) : c.readyTasks = v.ready.map c.taskIn := by
  rw [Scheduler.readyTasks, h.ready.linked.follow_eq h.count.ge]

/-- The trace has grown, by `n` resumptions. -/
def Grows (w w' : World N T) (n : ℕ) : Prop :=
  ∃ obs, w'.sched.trace = w.sched.trace ++ obs ∧ (resumedTasks obs).length = n

theorem Grows.refl : Grows w w 0 := ⟨[], (List.append_nil _).symm, rfl⟩

theorem Grows.trans {n m : ℕ} (h : Grows w w₁ n) (h' : Grows w₁ w₂ m) : Grows w w₂ (n + m) := by
  obtain ⟨obs, htrace, hobs⟩ := h
  obtain ⟨obs', htrace', hobs'⟩ := h'
  exact ⟨obs ++ obs', by rw [htrace', htrace, List.append_assoc], by simp [hobs, hobs']⟩

/-- What a step from `w` to `w'` does to tasks: `n` are resumed, and none is replaced. -/
structure Advances (w w' : World N T) (n : ℕ) : Prop where
  grows : Grows w w' n
  tenant : ∀ s, w.sched.Occupied s → (w'.sched.slots s).generation = (w.sched.slots s).generation

theorem Advances.of_eq (hslots : w'.sched.slots = w.sched.slots)
    (htrace : w'.sched.trace = w.sched.trace) : Advances w w' 0 :=
  ⟨⟨[], by rw [htrace, List.append_nil], rfl⟩, fun s _ => by rw [hslots]⟩

theorem Advances.of_calm {c : Scheduler N} (h : w.sched.Calm c) (hc : w'.sched = c) :
    Advances w w' 0 := by
  obtain ⟨obs, htrace, hobs⟩ := h.trace
  subst hc
  exact ⟨⟨obs, htrace, by rw [hobs, List.length_nil]⟩, fun s hs => (h.tenant s hs).2⟩

theorem Advances.afterAwait {s : Fin N} {left : ℕ} {r : Bool × World N T}
    (h : w.sched.Calm r.2.sched) : Advances w (World.afterAwait s left r) 0 := by
  unfold World.afterAwait
  split
  · have hsuspend : (r.2.suspend s left).sched.trace = r.2.sched.trace ∧
        ∀ t, ((r.2.suspend s left).sched.slots t).generation = (r.2.sched.slots t).generation := by
      unfold World.suspend Scheduler.afterSuspend
      dsimp only
      split
      · exact ⟨rfl, fun t => Scheduler.setState_generation ..⟩
      · exact ⟨rfl, fun _ => rfl⟩
    obtain ⟨obs, hobs, hresumed⟩ := h.trace
    exact ⟨⟨obs, hsuspend.1.trans hobs, by rw [hresumed, List.length_nil]⟩,
      fun t ht => (hsuspend.2 t).trans (h.tenant t ht).2⟩
  · exact .of_calm h rfl

theorem Advances.afterDestroy {s : Fin N}
    (hsched : w'.sched = w.sched.afterDestroy s) : Advances w w' 0 := by
  have hdestroy : (∃ obs, (w.sched.afterDestroy s).trace = w.sched.trace ++ obs ∧
      resumedTasks obs = []) ∧
      ∀ t, ((w.sched.afterDestroy s).slots t).generation = (w.sched.slots t).generation := by
    have hcleared : ∀ t, (((w.sched.modify s fun slot =>
        { slot with handle := none, parent := none, state := .completed }).slots t).generation =
          (w.sched.slots t).generation) := by
      intro t
      rw [Scheduler.modify_slots]
      split <;> rfl
    unfold Scheduler.afterDestroy
    dsimp only
    split
    · exact ⟨⟨_, rfl, rfl⟩, hcleared⟩
    · split
      · refine ⟨?_, fun t => ?_⟩
        · rw [Scheduler.readyPush_trace]
          exact ⟨_, List.append_assoc _ [_] [_], rfl⟩
        · rw [Scheduler.readyPush_slots]
          exact (Scheduler.setState_generation ..).trans (hcleared t)
      · exact ⟨⟨_, rfl, rfl⟩, hcleared⟩
  obtain ⟨⟨obs, hobs, hresumed⟩, hgeneration⟩ := hdestroy
  rw [← hsched] at hobs hgeneration
  exact ⟨⟨obs, hobs, by rw [hresumed, List.length_nil]⟩, fun t _ => hgeneration t⟩

/-- A step resumes one task if it pops the ready FIFO, and none otherwise. -/
theorem Inv.step_advances (h : Inv cfg w L) (hstep : w.step cfg a = some w') :
    Advances w w' (if a.isPop then 1 else 0) := by
  cases World.steps_of_step hstep with
  | createTask _ task => exact .of_calm (Scheduler.Calm.schedule _ task) rfl
  | poll _ andWait clock =>
      change Advances w (w.poll andWait clock) 0
      obtain ⟨wake, ⟨-, hpoll⟩ | ⟨-, -, hpoll⟩ | ⟨-, -, hpoll⟩⟩ := w.poll_cases andWait clock <;>
        rw [hpoll]
      · exact .of_eq rfl rfl
      · exact .of_calm (Scheduler.Calm.report w.sched _) rfl
      · exact .of_eq rfl rfl
  | eventSet _ e => exact .of_calm (Scheduler.Calm.wakeAll _ (w.event e).waiters) rfl
  | eventClear => exact .of_eq rfl rfl
  | trySend _ q v =>
      have hcalm := Scheduler.Calm.doSend w.sched (w.queue q) (cfg.capacity q) (some v) none
      exact .of_calm hcalm (World.afterSend_sched ..)
  | tryReceive _ q =>
      have hcalm : w.sched.Calm ((w.queue q).tryReceive (cfg.capacity q) w.sched).2.1 := by
        unfold Queue.tryReceive
        split
        · exact Scheduler.Calm.refl _
        · exact Scheduler.Calm.admitOldestSender _ _ _
      exact .of_calm hcalm rfl
  | flagClear | flagIsSet | flagTaken | flagNotReady => exact .of_eq rfl rfl
  | coAwait s left awaitable hcontrol hflag =>
      have hcurrent : w.sched.current = some s := by rw [h.staged.current, hcontrol]; rfl
      have hs : L.place s = .running := (h.staged.running s).mpr (by rw [hcontrol]; rfl)
      by_cases hknown : awaitable = .unknown
      · subst hknown
        exact .afterAwait (Scheduler.Calm.refl _)
      · obtain ⟨hcalls, -⟩ := h.core.coAwait hcurrent hs awaitable hflag hknown
        exact .afterAwait hcalls.sched
  | flagPark s f left =>
      refine .afterAwait ?_
      simp only [World.flagPark, Flags.park]
      split
      · rename_i c hrunning
        have := Scheduler.Calm.runningIs w.sched (w.sched.slots s).handle
        rwa [hrunning] at this
      · rename_i c hrunning
        have := Scheduler.Calm.runningIs w.sched (w.sched.slots s).handle
        rw [hrunning] at this
        split
        · exact this.trans (Scheduler.Calm.report _ _)
        · exact this.trans (Scheduler.Calm.parkRunning _)
  | finish => exact ⟨⟨_, rfl, rfl⟩, fun _ _ => rfl⟩
  | destroyed => exact .afterDestroy rfl
  | walkStarts | nothingPending => exact .of_eq rfl rfl
  | walkStep prev f =>
      have hcalm : w.sched.Calm (w.flags.walkStep w.sched prev f).2.2.1 := by
        rcases w.walkStep_sched prev f with hsched | hsched <;> rw [hsched]
        · exact Scheduler.Calm.refl _
        · exact Scheduler.Calm.wakeSlot _ _
      exact .of_calm hcalm rfl
  | startPass => exact .of_calm (Scheduler.Calm.processDueTimers _) rfl
  | passPop left w' hcontrol hpops =>
      obtain ⟨s, rest, -, rfl, -⟩ := h.pops hcontrol hpops
      refine ⟨⟨[.resumed s ((w.sched.unlinkFront s).slots s).generation], ?_, rfl⟩, fun t _ => ?_⟩
      · rw [World.resume_sched]
        rfl
      · rw [World.resume_sched, Scheduler.enter_generation, Scheduler.unlinkFront_generation]
  | endPass _ clock =>
      change Advances w (w.endPass cfg clock) 0
      rcases w.endPass_cases clock with hend | ⟨timeout, hend⟩ <;> rw [hend] <;> exact .of_eq rfl rfl
  | tokenTaken | timedOut | setFlag | give => exact .of_eq rfl rfl

/-! ## The ready FIFO over a run -/

/-- Tasks are enqueued in the order in which they are resumed or still wait to be. -/
theorem World.Reachable.history (hw : w.Reachable cfg) :
    enqueuedTasks w.sched.trace = resumedTasks w.sched.trace ++ w.sched.readyTasks := by
  obtain ⟨L, hinv⟩ := hw.inv
  rw [hinv.core.sound.threaded.readyTasks_eq]
  exact hinv.core.sound.threaded.history

/-- What a stretch of a run resumes comes from the front of the ready FIFO, and what it enqueues goes
to the end. -/
theorem World.flow {obs : List (Obs N)} (hw : w.Reachable cfg) (hw' : w'.Reachable cfg)
    (htrace : w'.sched.trace = w.sched.trace ++ obs) :
    w.sched.readyTasks ++ enqueuedTasks obs = resumedTasks obs ++ w'.sched.readyTasks := by
  have hhistory := hw'.history
  rw [htrace, enqueuedTasks_append, resumedTasks_append, hw.history, List.append_assoc,
    List.append_assoc] at hhistory
  exact List.append_cancel_left hhistory

/-- Where nothing is resumed, the ready FIFO grows by what is enqueued. -/
theorem Grows.enqueued (hgrows : Grows w w' 0) (hw : w.Reachable cfg) (hw' : w'.Reachable cfg) :
    ∃ tasks, enqueuedTasks w'.sched.trace = enqueuedTasks w.sched.trace ++ tasks ∧
      w'.sched.readyTasks = w.sched.readyTasks ++ tasks := by
  obtain ⟨obs, htrace, hnone⟩ := hgrows
  have hflow := World.flow hw hw' htrace
  rw [List.length_eq_zero_iff.mp hnone, List.nil_append] at hflow
  exact ⟨enqueuedTasks obs, by rw [htrace, enqueuedTasks_append], hflow.symm⟩

theorem Grows.keepsReady (hgrows : Grows w w' 0) (hw : w.Reachable cfg)
    (hw' : w'.Reachable cfg) : w.sched.readyTasks <+: w'.sched.readyTasks := by
  obtain ⟨tasks, -, hready⟩ := hgrows.enqueued hw hw'
  exact ⟨tasks, hready.symm⟩

theorem World.Reachable.readyTasks (hw : w.Reachable cfg) :
    w.sched.readyTasks.Nodup ∧ w.sched.readyTasks.length = w.sched.readyCount := by
  obtain ⟨L, hinv⟩ := hw.inv
  have hthreaded := hinv.core.sound.threaded
  rw [hthreaded.readyTasks_eq]
  refine ⟨hthreaded.nodup_ready.map fun s t he => (Prod.mk.inj he).1, ?_⟩
  rw [List.length_map, hthreaded.count]

/-- The trace of a run extends that of its start. -/
theorem World.run_trace {actions : List (Action T)} (hw : w.Reachable cfg)
    (hrun : run (World.step cfg) w actions = some w') :
    ∃ obs, w'.sched.trace = w.sched.trace ++ obs := by
  have hall : w'.Reachable cfg ∧ ∃ obs, w'.sched.trace = w.sched.trace ++ obs := by
    refine run_induction (P := fun u => u.Reachable cfg ∧
      ∃ obs, u.sched.trace = w.sched.trace ++ obs) hrun ⟨hw, [], (List.append_nil _).symm⟩ ?_
    rintro u a u' - ⟨hu, obs, htrace⟩ hstep
    obtain ⟨L, hinv⟩ := hu.inv
    obtain ⟨more, hmore, -⟩ := (hinv.step_advances hstep).grows
    exact ⟨hu.succ hstep, obs ++ more, by rw [hmore, htrace, List.append_assoc]⟩
  exact hall.2

end SimpleAwait
