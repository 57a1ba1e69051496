import SimpleAwait.Properties.Signals

/-!
# A second waiter on a flag

A task that awaits a flag with a parked waiter is meant to be rejected.  `park` does reject it,
but `await_ready` comes first, and there it consumes a signal that has landed since the last
walk: the second task goes on with the signal of the first.  As long as no task awaits a flag
that has a waiter and a signal, the waiter keeps its signal and every other task is rejected.
-/

namespace SimpleAwait

open Transition

variable {N : ℕ} {T : Type} {cfg : Config N} {w w' u v : World N T} {L : Layout N} {a : Action T}
  {f : ℕ} {s : Fin N} {task : Fin N × UInt32}

/-- The tasks made ready since `w`. -/
def World.enqueuedSince (w u : World N T) : List (Fin N × UInt32) :=
  (enqueuedTasks u.sched.trace).drop (enqueuedTasks w.sched.trace).length

/-- The step does not await a flag that has both a parked waiter and a signal. -/
def World.SparesSignal (w : World N T) : Action T → Prop
  | .coAwait (.flag f) => (w.flags.flag f).waiter ≠ none → (w.flags.flag f).signaled = false
  | _ => True

/-- The await on flag `f` that has just begun ends, whatever is set in between, with
`Error::multiple_flag_waiters`, and the awaiting task goes on. -/
def World.AwaitRejected (cfg : Config N) (f : ℕ) (u : World N T) : Prop :=
  ∃ b left, u.control = .flagSuspend b f left ∧
    ∀ during v, (∀ a ∈ during, Action.isExternal a = true) →
      run (World.step cfg) u during = some v →
      ∃ v', v.step cfg .flagPark = some v' ∧ v'.control = .body b left ∧
        v'.sched.trace = v.sched.trace ++ [.error .multipleFlagWaiters]

/-- A run from `w`, where the task in slot `s` is parked on flag `f`, to `u`: unless that task has
been woken it still waits, a last step that awaits the flag is rejected, and a signal that was
there and not cleared is there, to wake it in the next walk. -/
def World.KeepsWaiter (cfg : Config N) (f : ℕ) (s : Fin N) (w : World N T)
    (actions : List (Action T)) (u : World N T) : Prop :=
  w.sched.taskIn s ∉ w.enqueuedSince u →
    (u.flags.flag f).waiter = some s ∧
    (∀ before, actions = before ++ [.coAwait (.flag f)] → u.AwaitRejected cfg f) ∧
    ((w.flags.flag f).signaled = true → (∀ a ∈ actions, a.clears f = false) →
      (u.flags.flag f).signaled = true ∧
      ∀ walk w', run (World.step cfg) u (.checkPending :: walk) = some w' →
        (∀ a ∈ walk, a.isStart = false) → w'.control.inWalk = false →
        w.sched.taskIn s ∈ w'.sched.readyTasks)

/-! ## The waiter -/

/-- The task parked on `f` at `w` has been woken, or still waits, with its signal if `kept`. -/
def Waits (w u : World N T) (f : ℕ) (s : Fin N) (kept : Prop) : Prop :=
  (enqueuedTasks w.sched.trace).length ≤ (enqueuedTasks u.sched.trace).length ∧
    (w.sched.taskIn s ∈ w.enqueuedSince u ∨
      (u.flags.flag f).waiter = some s ∧ u.sched.taskIn s = w.sched.taskIn s ∧
        (kept → (u.flags.flag f).signaled = true))

/-- What has been made ready stays in the history. -/
theorem World.enqueuedSince_mono {tasks : List (Fin N × UInt32)}
    (hlength : (enqueuedTasks w.sched.trace).length ≤ (enqueuedTasks u.sched.trace).length)
    (h : enqueuedTasks v.sched.trace = enqueuedTasks u.sched.trace ++ tasks) :
    w.enqueuedSince v = w.enqueuedSince u ++ tasks := by
  rw [World.enqueuedSince, World.enqueuedSince, h, List.drop_append_of_le_length hlength]

theorem Grows.enqueued_append {n : ℕ} (h : Grows u v n) :
    ∃ tasks, enqueuedTasks v.sched.trace = enqueuedTasks u.sched.trace ++ tasks := by
  obtain ⟨obs, htrace, -⟩ := h
  exact ⟨enqueuedTasks obs, by rw [htrace, enqueuedTasks_append]⟩

/-- One step that spares the signal. -/
theorem Inv.step_waits (h : Inv cfg u L) (hstep : u.step cfg a = some v) {kept : Prop}
    (hspares : u.SparesSignal a) (hclear : kept → a.clears f = false)
    (hwaits : Waits w u f s kept) : Waits w v f s kept := by
  obtain ⟨hlength, hwaits⟩ := hwaits
  have hadvances := h.step_advances hstep
  obtain ⟨tasks, htasks⟩ := hadvances.grows.enqueued_append
  have hsince := World.enqueuedSince_mono hlength htasks
  refine ⟨hlength.trans (by simp [htasks]), ?_⟩
  rcases hwaits with hwoken | ⟨hwaiter, htask, hsignaled⟩
  · exact Or.inl (by rw [hsince]; exact List.mem_append_left _ hwoken)
  have htask' : v.sched.taskIn s = w.sched.taskIn s := by
    rw [← htask, Scheduler.taskIn, Scheduler.taskIn,
      hadvances.tenant s (h.core.occupied_of_waiter hwaiter)]
  cases h.step_flag hstep f with
  | other ha hsignaled' hwaiter' =>
      exact Or.inr ⟨hwaiter'.trans hwaiter, htask', fun hk => hsignaled'.trans (hsignaled hk)⟩
  | set ha hsignaled' hwaiter' => exact Or.inr ⟨hwaiter'.trans hwaiter, htask', fun _ => hsignaled'⟩
  | clear ha hsignaled' hwaiter' =>
      refine Or.inr ⟨hwaiter'.trans hwaiter, htask', fun hk => ?_⟩
      have hnone := hclear hk
      simp [ha, Action.clears] at hnone
  | consume ha hbefore hafter hwaiter' hcontrol =>
      -- excluded: the flag has a waiter and a signal
      subst ha
      have hnone := hspares (by simp [hwaiter])
      simp [hbefore] at hnone
  | suspend ha hbefore hafter hwaiter' hbody hcontrol =>
      refine Or.inr ⟨hwaiter'.trans hwaiter, htask', fun hk => ?_⟩
      simp [hsignaled hk] at hbefore
  | park ha hcontrol hsignaled' hbefore hafter =>
      simp [hwaiter] at hbefore
  | wake ha hbefore hafter hwaiter' hnone hready =>
      rw [hwaiter, Option.some.injEq] at hwaiter'
      refine Or.inl ?_
      rw [World.enqueuedSince_mono hlength hready, ← hwaiter', htask]
      simp

/-- A run that spares signals. -/
theorem World.Reachable.waits {actions : List (Action T)} {kept : Prop} (hu : u.Reachable cfg)
    (hrun : run (World.step cfg) u actions = some v)
    (halong : Along (World.step cfg) World.SparesSignal u actions)
    (hclear : kept → ∀ a ∈ actions, a.clears f = false)
    (hwaits : Waits w u f s kept) : Waits w v f s kept := by
  have hall : v.Reachable cfg ∧ Waits w v f s kept := by
    refine Along.induction (P := fun x => x.Reachable cfg ∧ Waits w x f s kept) hrun halong
      ⟨hu, hwaits⟩ ?_
    rintro x a y ha ⟨hx, hwaits⟩ hspares hstep
    obtain ⟨L, hinv⟩ := hx.inv
    exact ⟨hx.succ hstep, hinv.step_waits hstep hspares (fun hk => hclear hk a ha) hwaits⟩
  exact hall.2

/-! ## The second task -/

/-- External steps leave the stage and the waiters alone. -/
theorem World.step_external (f : ℕ) (hstep : u.step cfg a = some v) (ha : a.isExternal = true) :
    v.control = u.control ∧ (v.flags.flag f).waiter = (u.flags.flag f).waiter := by
  cases World.steps_of_step hstep with
  | setFlag g =>
      refine ⟨rfl, ?_⟩
      by_cases hg : f = g <;> simp [Flags.set, hg]
  | give g => exact ⟨rfl, rfl⟩
  | _ => cases ha

/-- Between `await_ready` and `await_suspend` on a flag with a waiter, the await is as good as
rejected. -/
theorem World.Reachable.rejected (hu : u.Reachable cfg) {b : Fin N} {left : ℕ}
    (hcontrol : u.control = .flagSuspend b f left) (hwaiter : (u.flags.flag f).waiter ≠ none) :
    u.AwaitRejected cfg f := by
  refine ⟨b, left, hcontrol, fun during v hduring hrun => ?_⟩
  obtain ⟨hv, hcontrol', hwaiter'⟩ : v.Reachable cfg ∧ v.control = .flagSuspend b f left ∧
      (v.flags.flag f).waiter ≠ none := by
    refine run_induction (P := fun x => x.Reachable cfg ∧ x.control = .flagSuspend b f left ∧
      (x.flags.flag f).waiter ≠ none) hrun ⟨hu, hcontrol, hwaiter⟩ ?_
    rintro x a y ha ⟨hx, hcontrol, hwaiter⟩ hstep
    obtain ⟨hsame, hkept⟩ := World.step_external f hstep (hduring a ha)
    exact ⟨hx.succ hstep, hsame.trans hcontrol, hkept ▸ hwaiter⟩
  obtain ⟨L, hinv⟩ := hv.inv
  have hpark := hinv.flagPark_eq hcontrol'
  rw [if_neg hwaiter'] at hpark
  refine ⟨{ v with sched := v.sched.report .multipleFlagWaiters, control := .body b left }, ?_,
    rfl, rfl⟩
  simp only [World.step, hcontrol', hpark]
  rfl

/-- Where every step spares the signals of parked waiters, a parked waiter is kept. -/
theorem parked_waiter_kept {actions : List (Action T)} (hw : w.Reachable cfg)
    (hwaiter : (w.flags.flag f).waiter = some s)
    (hrun : run (World.step cfg) w actions = some u)
    (halong : Along (World.step cfg) World.SparesSignal w actions) :
    World.KeepsWaiter cfg f s w actions u := by
  intro hasleep
  have hu : u.Reachable cfg := hw.append hrun
  have hkept : ∀ kept : Prop, (kept → ∀ a ∈ actions, a.clears f = false) →
      (kept → (w.flags.flag f).signaled = true) → (u.flags.flag f).waiter = some s ∧
        u.sched.taskIn s = w.sched.taskIn s ∧ (kept → (u.flags.flag f).signaled = true) := by
    intro kept hclear hsignaled
    obtain ⟨-, hwaits⟩ := hw.waits hrun halong hclear
      ⟨le_rfl, Or.inr ⟨hwaiter, rfl, hsignaled⟩⟩
    exact hwaits.resolve_left hasleep
  have hwaiter' := (hkept False (fun h => h.elim) (fun h => h.elim)).1
  refine ⟨hwaiter', fun before hlast => ?_, fun hsignaled hclear => ?_⟩
  · subst hlast
    obtain ⟨x, hbefore, hstep⟩ := run_append.mp hrun
    rw [run_singleton] at hstep
    obtain ⟨L, hinv⟩ := World.Reachable.inv (hw.append hbefore)
    cases hinv.step_flag hstep f with
    | suspend ha hunsignaled hafter hsame hbody hcontrol =>
        exact hu.rejected hcontrol (by simp [hwaiter'])
    | consume ha hsignaled hafter hsame hcontrol =>
        -- the last step would not have spared the signal
        have hspares := halong.append hbefore
        have hnone := hspares.1 (by simp [← hsame, hwaiter'])
        simp [hsignaled] at hnone
    | other ha => simp [Action.touches] at ha
    | set ha | clear ha | park ha | wake ha => cases ha
  · obtain ⟨-, htask, hsignaled'⟩ := hkept True (fun _ => hclear) (fun _ => hsignaled)
    refine ⟨hsignaled' trivial, fun walk w' hwalk hstart hover => ?_⟩
    rw [← htask]
    exact hu.resolves (hsignaled' trivial) hwaiter' hwalk hstart hover

/-- A parked waiter and a second task, which awaits the flag before it is set: the second task is
rejected.  Then the flag is set, and the waiter keeps its signal until the next walk. -/
theorem parked_waiter_kept_small :
    let before : List (Action ℕ) := [.createTask (some 1), .createTask (some 2), .poll false 0,
      .checkPending, .startPass, .passPop, .coAwait (.flag 0), .flagPark, .passPop]
    let signal := before ++ [.coAwait (.flag 0), .flagPark, .setFlag 0]
    let rest : List (Action ℕ) := [.finish, .destroyed, .endPass 0, .poll false 0]
    let w := World.after .small signal
    let u := World.after .small (signal ++ rest)
    (World.after .small (before ++ [.coAwait (.flag 0)])).AwaitRejected .small 0 ∧
      (u.flags.flag 0).signaled = true ∧
      ∀ walk w', run (World.step .small) u (.checkPending :: walk) = some w' →
        (∀ a ∈ walk, a.isStart = false) → w'.control.inWalk = false →
        w.sched.taskIn 0 ∈ w'.sched.readyTasks := by
  intro before signal rest w u
  have hbefore : (World.after .small before).Reachable .small := .after .small (by decide)
  have hawait := parked_waiter_kept (f := 0) (s := 0) hbefore (by decide)
    (World.run_after .small before [.coAwait (.flag 0)] (by decide))
    ⟨fun _ => by decide, fun _ _ => trivial⟩
  have hw : w.Reachable .small := .after .small (by decide)
  have hsignal := parked_waiter_kept (f := 0) (s := 0) hw (by decide)
    (World.run_after .small signal rest (by decide))
    ⟨trivial, fun _ _ => ⟨trivial, fun _ _ => ⟨trivial, fun _ _ => ⟨trivial, fun _ _ => trivial⟩⟩⟩⟩
  exact ⟨(hawait (by decide)).2.1 [] rfl, (hsignal (by decide)).2.2 (by decide) (by decide)⟩

/-- The flag is set before the second task awaits it: the second task takes the signal and goes
on, no error is reported, and the waiter is not woken by the next pass. -/
theorem second_waiter_takes_signal :
    let before : List (Action ℕ) := [.createTask (some 1), .createTask (some 2), .poll false 0,
      .checkPending, .startPass, .passPop, .coAwait (.flag 0), .flagPark, .passPop, .setFlag 0]
    let w := World.after .small before
    let u := World.after .small (before ++ [.coAwait (.flag 0)])
    let resolved := World.after .small (before ++ [.coAwait (.flag 0), .finish, .destroyed,
      .endPass 0, .poll false 0, .checkPending, .walkStep])
    w.Reachable .small ∧ (w.flags.flag 0).waiter = some 0 ∧ (w.flags.flag 0).signaled = true ∧
      run (World.step .small) w [.coAwait (.flag 0)] = some u ∧
      ¬ World.KeepsWaiter .small 0 0 w [.coAwait (.flag 0)] u ∧
      u.control = w.control ∧ u.sched.trace = w.sched.trace ∧
      (resolved.flags.flag 0).waiter = some 0 ∧ resolved.sched.readyTasks = [] := by
  intro before w u resolved
  refine ⟨.after _ (by decide), by decide, by decide, World.run_after .small before _ (by decide),
    fun h => ?_, by decide, by decide, by decide, by decide⟩
  have hkept := (h (by decide)).2.2 (by decide) (by decide)
  exact absurd hkept.1 (by decide)

end SimpleAwait
