import SimpleAwait.Properties.Consistency
import SimpleAwait.System.Passes
import SimpleAwait.System.Sleepers

/-!
# Delays end on time

A task that awaits a delay sleeps until the first pass whose clock has reached its deadline, and
is resumed in that pass.  Where the deadline does not fit, no deadline is stored and the task
yields instead.
-/

namespace SimpleAwait

open Transition

variable {N : ℕ} {T : Type} {cfg : Config N} {w w' w₁ : World N T} {L : Layout N} {s : Fin N}
  {left : ℕ} {duration deadline : Tick}

/-! ## Deadlines -/

theorem addOverflows_iff (a b : Tick) : addOverflows a b = true ↔ 2 ^ 64 ≤ a.toNat + b.toNat := by
  have hmax : tickMax.toNat = 2 ^ 64 - 1 := by decide
  have hle : a ≤ tickMax := UInt64.le_iff_toNat_le.mpr (by rw [hmax]; have := a.toNat_lt; omega)
  have hsub : (tickMax - a).toNat = tickMax.toNat - a.toNat := UInt64.toNat_sub_of_le _ _ hle
  rw [addOverflows, decide_eq_true_eq, gt_iff_lt, UInt64.lt_iff_toNat_lt, hsub, hmax]
  have := a.toNat_lt
  have := b.toNat_lt
  omega

/-- The deadline of a delay that fits. -/
theorem computeDeadline_fits {now : Tick} (h : now.toNat + duration.toNat < 2 ^ 64) :
    computeDeadline now duration = some (now + duration) ∧
      (now + duration).toNat = now.toNat + duration.toNat := by
  have hfits : ¬ addOverflows now duration = true := by
    rw [addOverflows_iff]
    omega
  rw [computeDeadline, if_neg hfits, UInt64.toNat_add]
  exact ⟨rfl, Nat.mod_eq_of_lt h⟩

theorem computeDeadline_overflow {now : Tick} (h : 2 ^ 64 ≤ now.toNat + duration.toNat) :
    computeDeadline now duration = none := by
  rw [computeDeadline, if_pos ((addOverflows_iff ..).mpr h)]

/-! ## The await -/

/-- The running task is suspended whatever the delay. -/
theorem World.step_delay (hcontrol : w.control = .body s left) :
    w.step cfg (.coAwait (.delay duration)) = some ({ w with
      sched := (w.sched.armCurrentTimer duration).afterSuspend s, control := .pass left }) := by
  simp only [World.step, hcontrol]
  rfl

theorem World.step_yield (hcontrol : w.control = .body s left) :
    w.step cfg (.coAwait .yield) = some ({ w with
      sched := w.sched.yieldCurrent.afterSuspend s, control := .pass left }) := by
  simp only [World.step, hcontrol]
  rfl

theorem Scheduler.armCurrentTimer_zero (c : Scheduler N) :
    c.armCurrentTimer 0 = c.yieldCurrent := by
  cases hcurrent : c.current <;> simp [armCurrentTimer, yieldCurrent, hcurrent]

/-- After an await that registered a wake source only `current_` is written. -/
theorem Scheduler.afterSuspend_eq {c : Scheduler N} (hs : (c.slots s).state ≠ .running) :
    c.afterSuspend s = { c with current := none } := by
  simp [afterSuspend, hs]

/-- A delay that fits arms the timer. -/
theorem Inv.delay_fits (h : Inv cfg w L) (hcontrol : w.control = .body s left)
    (hduration : duration ≠ 0) (hfits : w.sched.now.toNat + duration.toNat < 2 ^ 64)
    (hstep : w.step cfg (.coAwait (.delay duration)) = some w₁) :
    w₁.control = .pass left ∧ (w₁.sched.slots s).state = .waitingTimer ∧
      (w₁.sched.slots s).deadline = w.sched.now + duration := by
  have hcurrent : w.sched.current = some s := by
    rw [h.staged.current, hcontrol]
    rfl
  rw [World.step_delay hcontrol] at hstep
  cases hstep
  have harm : w.sched.armCurrentTimer duration =
      w.sched.armTimer s (w.sched.now + duration) := by
    simp only [Scheduler.armCurrentTimer, hcurrent, hduration, if_false,
      (computeDeadline_fits hfits).1]
  rw [harm, Scheduler.armTimer_eq, Scheduler.afterSuspend_eq (by simp)]
  exact ⟨rfl, by simp, by simp⟩

/-- A delay that does not fit is reported, stores no deadline and enqueues the task. -/
theorem Inv.delay_overflow (h : Inv cfg w L) (hcontrol : w.control = .body s left)
    (hduration : duration ≠ 0) (hover : 2 ^ 64 ≤ w.sched.now.toNat + duration.toNat)
    (hstep : w.step cfg (.coAwait (.delay duration)) = some w₁) :
    w₁.control = .pass left ∧
      w₁.sched.trace = w.sched.trace ++
        [.error .deadlineOverflow, .enqueued s (w.sched.slots s).generation] ∧
      (∀ t, (w₁.sched.slots t).deadline = (w.sched.slots t).deadline) ∧
      w₁.sched.nearestDeadline = w.sched.nearestDeadline := by
  have hcurrent : w.sched.current = some s := by
    rw [h.staged.current, hcontrol]
    rfl
  rw [World.step_delay hcontrol] at hstep
  cases hstep
  have hyield : w.sched.armCurrentTimer duration =
      ((w.sched.report .deadlineOverflow).setState s .ready).readyPush s := by
    have hreported : (w.sched.report .deadlineOverflow).current = some s := hcurrent
    simp only [Scheduler.armCurrentTimer, hcurrent, hduration, if_false,
      computeDeadline_overflow hover, Scheduler.yieldCurrent, hreported]
  rw [hyield, Scheduler.afterSuspend_eq (by simp)]
  refine ⟨rfl, ?_, fun t => ?_, ?_⟩
  · simp [Scheduler.report]
  · simp [Scheduler.report]
  · simp [Scheduler.report]

/-! ## Sleeping -/

/-- The stages of a pass between the sampling of the clock and `process_due_timers`. -/
def Control.polling : Control N → Bool
  | .checkPending | .walk .. | .dueTimers => true
  | _ => false

/-- If the step samples the clock for a pass, it shows less than `deadline`. -/
def SamplesBefore (deadline : Tick) (w : World N T) (a : Action T) : Prop :=
  ∀ andWait clock, a = .poll andWait clock → w.control = .loop → clock < deadline

/-- `poll()` from the user loop samples the clock and touches no slot. -/
theorem Inv.step_poll (h : Inv cfg w L) {andWait : Bool} {clock : Tick}
    (hcontrol : w.control = .loop) (hstep : w.step cfg (.poll andWait clock) = some w') :
    w'.control = .checkPending ∧ w'.sched.now = clock ∧ w'.sched.slots = w.sched.slots ∧
      w'.sched.trace = w.sched.trace := by
  have hin : w.sched.inPoll = false := by
    rw [h.staged.inPoll, hcontrol]
    rfl
  have hshutting := h.staged.shuttingDown
  simp only [World.step, World.user, hcontrol, Control.isUser, if_true, Option.some.injEq] at hstep
  subst hstep
  cases andWait <;> simp [World.poll, hin, hshutting]

/-- Before `process_due_timers` the clock of a pass does not change. -/
theorem Inv.step_polling (h : Inv cfg w L) {a : Action T} (hstep : w.step cfg a = some w')
    (hpolling : w.control.polling = true) : w'.sched.now = w.sched.now := by
  refine (h.step_now hstep).resolve_right ?_
  rintro ⟨andWait, -, hcontrol⟩
  rw [hcontrol] at hpolling
  cases hpolling

/-- The clock of a pass was sampled on entry. -/
theorem Inv.step_clock (h : Inv cfg w L) {a : Action T} (hstep : w.step cfg a = some w')
    (hearly : SamplesBefore deadline w a)
    (hclock : w.control.polling = true → w.sched.now < deadline)
    (hpolling : w'.control.polling = true) : w'.sched.now < deadline := by
  have hmoves := h.step_control hstep
  generalize hc : w.control = c at hmoves
  generalize hc' : w'.control = c' at hmoves hpolling
  have hkept : c.polling = true → w'.sched.now < deadline := by
    intro hp
    rw [← hc] at hp
    rw [h.step_polling hstep hp]
    exact hclock hp
  cases hmoves with
  | call hu _ => cases c <;> simp [Control.isUser, Control.polling] at hu hpolling
  | external => exact hkept hpolling
  | @poll andWait clock =>
      rw [(h.step_poll hc hstep).2.1]
      exact hearly andWait clock rfl hc
  | nothingPending | walkFirst | walkNext | walkEnd => exact hkept rfl
  | start | pop | goOn | suspend | flagReady | flagRejected | flagParked | finish | destroyed
  | endPass | sleep | tokenTaken | timedOut => cases hpolling

/-- The timer of slot `s` sleeps towards `deadline`. -/
structure SleepsUntil (deadline : Tick) (x : Fin N × UInt32) (w : World N T) : Prop where
  state : (w.sched.slots x.1).state = .waitingTimer
  deadline : (w.sched.slots x.1).deadline = deadline
  generation : (w.sched.slots x.1).generation = x.2

variable {x : Fin N × UInt32}

/-- A sleeping task that is not due stays asleep. -/
theorem SleepsUntil.step (h : SleepsUntil deadline x w) (hw : w.Reachable cfg) {a : Action T}
    (hstep : w.step cfg a = some w')
    (hdue : a = .startPass → w.sched.now < deadline) :
    SleepsUntil deadline x w' ∧ w'.resumptions x = w.resumptions x := by
  obtain ⟨L, hinv⟩ := hw.inv
  have hkept := (hinv.step_timer hstep h.state).resolve_right fun hwoken => by
    have hlt := hdue hwoken.1
    rw [← h.deadline] at hlt
    exact UInt64.lt_irrefl _ (UInt64.lt_of_lt_of_le hlt hwoken.2)
  have hoccupied : w.sched.Occupied x.1 := by simp [Scheduler.Occupied, h.state]
  refine ⟨⟨hkept.1, hkept.2.trans h.deadline, ?_⟩, ?_⟩
  · rw [(hinv.step_advances hstep).tenant x.1 hoccupied, h.generation]
  · exact (World.step_unqueued hw hstep (by simp [h.state]) (by simp [hkept.1])).1

/-- A sleeping task stays asleep while no pass has a clock at or past its deadline. -/
theorem SleepsUntil.run {actions : List (Action T)} (h : SleepsUntil deadline x w)
    (hw : w.Reachable cfg) (hpolling : w.control.polling = false)
    (hrun : run (World.step cfg) w actions = some w')
    (hearly : Along (World.step cfg) (SamplesBefore deadline) w actions) :
    SleepsUntil deadline x w' ∧ w'.resumptions x = w.resumptions x := by
  have hall : w'.Reachable cfg ∧ (w'.control.polling = true → w'.sched.now < deadline) ∧
      SleepsUntil deadline x w' ∧ w'.resumptions x = w.resumptions x := by
    refine Along.induction (P := fun u => u.Reachable cfg ∧
      (u.control.polling = true → u.sched.now < deadline) ∧
      SleepsUntil deadline x u ∧ u.resumptions x = w.resumptions x) hrun hearly
      ⟨hw, by simp [hpolling], h, rfl⟩ ?_
    rintro u a u' - ⟨hu, hclock, hsleeps, hsame⟩ hbefore hstep
    obtain ⟨L, hinv⟩ := hu.inv
    obtain ⟨hsleeps', hsame'⟩ := hsleeps.step hu hstep fun hstart => by
      refine hclock ?_
      subst hstart
      have hmoves := hinv.step_control hstep
      generalize u.control = c at hmoves ⊢
      generalize u'.control = c' at hmoves
      cases hmoves with
      | call _ hcall => cases hcall
      | external hexternal => cases hexternal
      | start => rfl
    exact ⟨hu.succ hstep, hinv.step_clock hstep hbefore hclock, hsleeps', hsame'.trans hsame⟩
  exact hall.2.2

/-- A pass whose clock has reached the deadline resumes the task once. -/
theorem SleepsUntil.pass {now : Tick} (h : SleepsUntil deadline x w) (hw : w.Reachable cfg)
    (hnow : deadline ≤ now) (hpass : Pass cfg now w w') :
    w'.resumptions x = w.resumptions x + 1 := by
  obtain ⟨andWait, before, body, clock, w₁, hloop, henter, hbefore, hbody, hends⟩ := hpass
  have hstarts : ∀ a ∈ Action.poll andWait now :: before, Action.isStart a = false :=
    List.forall_mem_cons.mpr ⟨rfl, hbefore⟩
  refine World.run_pass_ready hw (by rw [hloop]; rfl) henter hstarts hbody hends ?_
  obtain ⟨v, hrunv, hstart⟩ := run_append.mp henter
  rw [run_singleton] at hstart
  obtain ⟨u, hpoll, hrunv⟩ := run_cons.mp hrunv
  obtain ⟨L, hinv⟩ := hw.inv
  obtain ⟨hcontrol, hclock, -⟩ := hinv.step_poll hloop hpoll
  have hsleeps : SleepsUntil deadline x u := (h.step hw hpoll (by simp)).1
  -- the clock stays, and so does the sleeper, up to `process_due_timers`
  have hall : v.Reachable cfg ∧ v.control.polling = true ∧ v.sched.now = now ∧
      SleepsUntil deadline x v := by
    refine run_induction (P := fun u => u.Reachable cfg ∧ u.control.polling = true ∧
      u.sched.now = now ∧ SleepsUntil deadline x u) hrunv
      ⟨hw.succ hpoll, by rw [hcontrol]; rfl, hclock, hsleeps⟩ ?_
    rintro u a u' ha ⟨hu, hpolling, hnow', hsleeps⟩ hstep
    obtain ⟨M, hinv'⟩ := hu.inv
    have hnot : a ≠ .startPass := by
      rintro rfl
      exact absurd (hbefore _ ha) (by simp [Action.isStart])
    refine ⟨hu.succ hstep, ?_, (hinv'.step_polling hstep hpolling).trans hnow',
      (hsleeps.step hu hstep fun he => absurd he hnot).1⟩
    have hmoves := hinv'.step_control hstep
    generalize u.control = c at hmoves hpolling
    generalize u'.control = c' at hmoves ⊢
    cases hmoves with
    | call _ _ | external _ => exact hpolling
    | nothingPending | walkFirst | walkNext | walkEnd => rfl
    | start => exact absurd rfl hnot
    | poll | pop | goOn | suspend | flagReady | flagRejected | flagParked | finish | destroyed
    | endPass | sleep | tokenTaken | timedOut => cases hpolling
  obtain ⟨hv, -, hvnow, hsleeps⟩ := hall
  obtain ⟨M, hinv'⟩ := hv.inv
  have hoccupied : v.sched.Occupied x.1 := by simp [Scheduler.Occupied, hsleeps.state]
  have hgeneration := (hinv'.step_advances hstart).tenant x.1 hoccupied
  have hready : (w₁.sched.slots x.1).state = .ready := by
    have hsched : w₁.sched = v.sched.processDueTimers := by
      rw [(World.step_startPass hstart).2]
      rfl
    have hdue : v.sched.isDue x.1 = true := by
      simp only [Scheduler.isDue, hsleeps.state, hsleeps.deadline, hvnow, decide_true,
        Bool.true_and, decide_eq_true_eq]
      exact hnow
    rw [hsched, hinv'.core.sound.timers.processDueTimers_slots, if_pos hdue]
  have hw₁ : w₁.Reachable cfg := hv.succ hstart
  obtain ⟨L₁, hinv₁⟩ := hw₁.inv
  have hthreaded := hinv₁.core.sound.threaded
  rw [hthreaded.readyTasks_eq]
  refine List.mem_map.mpr ⟨x.1, ?_, ?_⟩
  · rw [hthreaded.mem_ready]
    exact Place.eq_ready_of_state ((hthreaded.state x.1).symm.trans hready)
  · rw [Scheduler.taskIn, hgeneration, hsleeps.generation]

/-- The running task awaits a delay in a pass whose clock shows `w.sched.now`.  If the deadline
fits, the task is not resumed before the first pass whose clock has reached it, and once in that
pass.  If it does not fit, this is reported, no deadline is stored and the task is resumed in the
next pass.  A zero delay is a `yield()`. -/
theorem delay_resumes_on_time (hw : w.Reachable cfg) (hcontrol : w.control = .body s left)
    (hawait : w.step cfg (.coAwait (.delay duration)) = some w₁) :
    let x := w.sched.taskIn s
    let deadline := w.sched.now + duration
    (duration = 0 → w.step cfg (.coAwait .yield) = some w₁) ∧
      (duration ≠ 0 → w.sched.now.toNat + duration.toNat < 2 ^ 64 →
        deadline.toNat = w.sched.now.toNat + duration.toNat ∧
        ∀ actions w₂, run (World.step cfg) w₁ actions = some w₂ →
          Along (World.step cfg) (SamplesBefore deadline) w₁ actions →
          SleepsUntil deadline x w₂ ∧ w₂.resumptions x = w₁.resumptions x ∧
            ∀ now w₃, deadline ≤ now → Pass cfg now w₂ w₃ →
              w₃.resumptions x = w₁.resumptions x + 1) ∧
      (duration ≠ 0 → 2 ^ 64 ≤ w.sched.now.toNat + duration.toNat →
        w₁.sched.trace = w.sched.trace ++ [.error .deadlineOverflow, .enqueued s x.2] ∧
        (∀ t, (w₁.sched.slots t).deadline = (w.sched.slots t).deadline) ∧
        w₁.sched.nearestDeadline = w.sched.nearestDeadline ∧ w₁.ResumedNextPass cfg x) := by
  intro x deadline
  have hw₁ : w₁.Reachable cfg := hw.succ hawait
  obtain ⟨L, hinv⟩ := hw.inv
  refine ⟨fun hzero => ?_, fun hduration hfits => ?_, fun hduration hover => ?_⟩
  · subst hzero
    rw [← hawait, World.step_delay hcontrol, World.step_yield hcontrol,
      Scheduler.armCurrentTimer_zero]
  · obtain ⟨hcontrol₁, hstate, hdeadline⟩ := hinv.delay_fits hcontrol hduration hfits hawait
    have hoccupied : w.sched.Occupied s := by
      have hplace := (hinv.staged.running s).mpr (by rw [hcontrol]; rfl)
      simp [Scheduler.Occupied, hinv.core.sound.threaded.state, hplace]
    have hsleeps : SleepsUntil deadline x w₁ :=
      ⟨hstate, hdeadline, (hinv.step_advances hawait).tenant s hoccupied⟩
    refine ⟨(computeDeadline_fits hfits).2, fun actions w₂ hrun hearly => ?_⟩
    obtain ⟨hsleeps₂, hsame⟩ := hsleeps.run hw₁ (by rw [hcontrol₁]; rfl) hrun hearly
    refine ⟨hsleeps₂, hsame, fun now w₃ hnow hpass => ?_⟩
    rw [hsleeps₂.pass (hw₁.append hrun) hnow hpass, hsame]
  · obtain ⟨hcontrol₁, htrace, hdeadlines, hnearest⟩ :=
      hinv.delay_overflow hcontrol hduration hover hawait
    refine ⟨htrace, hdeadlines, hnearest, ?_⟩
    refine (World.resumedNextPass_of_enqueued hw hawait rfl (by rw [hcontrol₁]; rfl)
      (by rw [hcontrol₁, hcontrol]; rfl) ?_).2
    rw [htrace, enqueuedTasks_append]
    rfl

/-- A task awaits 5 at clock 10.  A pass at 14 leaves it asleep, and a pass at 15 resumes it. -/
theorem delay_resumes_on_time_small :
    let running : List (Action ℕ) := [.createTask (some 1), .poll false 10, .checkPending,
      .startPass, .passPop]
    let asleep := running ++ [.coAwait (.delay 5)]
    let early := asleep ++ [.endPass 10, .poll false 14, .checkPending, .startPass, .endPass 14]
    let late := early ++ [.poll false 15, .checkPending, .startPass, .passPop, .coAwait .yield,
      .endPass 15]
    SleepsUntil 15 (0, 1) (World.after .small early) ∧
      (World.after .small early).resumptions (0, 1) = 1 ∧
      (World.after .small late).resumptions (0, 1) = 2 := by
  intro running asleep early late
  have hw : (World.after .small running).Reachable .small := .after .small (by decide)
  have hcontrol : (World.after .small running).control = .body 0 0 := by decide
  have hawait : (World.after .small running).step .small (.coAwait (.delay 5)) =
      some (World.after .small asleep) :=
    run_singleton.mp (World.run_after .small running [.coAwait (.delay 5)] (by decide))
  obtain ⟨-, hfits, -⟩ := delay_resumes_on_time hw hcontrol hawait
  obtain ⟨-, hsleeps⟩ := hfits (by decide) (by decide)
  have hdeadline : (World.after .small running).sched.now + 5 = 15 := by decide
  have htask : (World.after .small running).sched.taskIn 0 = (0, 1) := by decide
  rw [hdeadline, htask] at hsleeps
  have hearly : Along (World.step .small) (SamplesBefore 15) (World.after .small asleep)
      [.endPass 10, .poll false 14, .checkPending, .startPass, .endPass 14] := by
    refine ⟨?_, fun _ _ => ⟨?_, fun _ _ => ⟨?_, fun _ _ => ⟨?_, fun _ _ => ⟨?_, fun _ _ =>
      trivial⟩⟩⟩⟩⟩ <;> intro _ _ hpoll _ <;> cases hpoll
    decide
  obtain ⟨hsleeps₂, -⟩ := hsleeps _ _ (World.run_after .small asleep _ (by decide)) hearly
  exact ⟨hsleeps₂, by decide, by decide⟩

end SimpleAwait
