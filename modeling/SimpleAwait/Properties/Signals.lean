import SimpleAwait.Properties.Consistency
import SimpleAwait.System.FlagMoves
import SimpleAwait.System.Passes

/-!
# No signal is lost

`set()` may land anywhere.  Outside the walk `s_pending_` covers every flag that is armed and
signaled, and the walk that follows the clearing of `s_pending_` visits each of them.  The
signals of a flag are accounted for: each was consumed by a `wait()` that did not suspend, or
woke the waiter, or was cleared, or is still there.
-/

namespace SimpleAwait

open Transition

variable {N : ℕ} {T : Type} {cfg : Config N} {w w' : World N T} {L : Layout N} {a : Action T}
  {f : ℕ} {s : Fin N}

/-- `poll_external_signals` is walking the armed list. -/
def Control.inWalk : Control N → Bool
  | .walk .. => true
  | _ => false

/-! ## Accounting -/

/-- Flag `f` goes from unsignaled to signaled. -/
def rises (f : ℕ) (w : World N T) (_ : Action T) (w' : World N T) : Bool :=
  !(w.flags.flag f).signaled && (w'.flags.flag f).signaled

/-- A `wait()` on flag `f` completes without suspending. -/
def completesWait (f : ℕ) (w : World N T) (a : Action T) (w' : World N T) : Bool :=
  match a with
  | .coAwait (.flag g) => g = f && w'.control = w.control
  | _ => false

/-- The task parked on flag `f` is woken. -/
def wakesWaiter (f : ℕ) (w : World N T) (_ : Action T) (w' : World N T) : Bool :=
  (w.flags.flag f).waiter.isSome && (w'.flags.flag f).waiter.isNone

/-- The step is `clear()` of flag `f`. -/
def Action.clears (f : ℕ) : Action T → Bool
  | .flagClear g => g = f
  | _ => false

/-- A `clear()` resets the signal of flag `f`. -/
def clearsSignal (f : ℕ) (w : World N T) (a : Action T) (_ : World N T) : Bool :=
  a.clears f && (w.flags.flag f).signaled

theorem Action.touches_of (h : a.touches f = false) (w w' : World N T) :
    completesWait f w a w' = false ∧ clearsSignal f w a w' = false := by
  cases a with
  | coAwait awaitable => cases awaitable <;> simp_all [Action.touches, completesWait, clearsSignal, Action.clears]
  | flagClear g => simp_all [Action.touches, completesWait, clearsSignal, Action.clears]
  | _ => simp_all [completesWait, clearsSignal, Action.clears]

/-- One step balances. -/
theorem FlagMoves.balance (h : FlagMoves w a w' f) :
    (if (w.flags.flag f).signaled then 1 else 0) + (if rises f w a w' then 1 else 0) =
      (if completesWait f w a w' then 1 else 0) + (if wakesWaiter f w a w' then 1 else 0) +
        (if clearsSignal f w a w' then 1 else 0) + if (w'.flags.flag f).signaled then 1 else 0 := by
  cases h with
  | other ha hsignaled hwaiter =>
      obtain ⟨hcompletes, hclears⟩ := Action.touches_of ha w w'
      cases hw : (w.flags.flag f).waiter <;> simp [rises, wakesWaiter, *]
  | set ha hsignaled hwaiter =>
      subst ha
      cases hw : (w.flags.flag f).waiter <;> cases hs : (w.flags.flag f).signaled <;>
        simp [rises, completesWait, wakesWaiter, clearsSignal, Action.clears, *]
  | clear ha hsignaled hwaiter =>
      subst ha
      cases hw : (w.flags.flag f).waiter <;> cases hs : (w.flags.flag f).signaled <;>
        simp [rises, completesWait, wakesWaiter, clearsSignal, Action.clears, *]
  | consume ha hbefore hafter hwaiter hcontrol =>
      subst ha
      cases hw : (w.flags.flag f).waiter <;>
        simp [rises, completesWait, wakesWaiter, clearsSignal, Action.clears, *]
  | suspend ha hbefore hafter hwaiter hbody hcontrol =>
      subst ha
      cases hw : (w.flags.flag f).waiter <;>
        simp [rises, completesWait, wakesWaiter, clearsSignal, Action.clears, *]
  | park ha hcontrol hsignaled hbefore hafter =>
      subst ha
      simp [rises, completesWait, wakesWaiter, clearsSignal, Action.clears, *]
  | wake ha hbefore hafter hwaiter hnone hready =>
      subst ha
      simp [rises, completesWait, wakesWaiter, clearsSignal, Action.clears, *]

/-- A run balances. -/
theorem World.Reachable.tally_balance {actions : List (Action T)} (hw : w.Reachable cfg)
    (hrun : run (World.step cfg) w actions = some w') (f : ℕ) :
    (if (w.flags.flag f).signaled then 1 else 0) +
        tally (World.step cfg) (rises f) w actions =
      tally (World.step cfg) (completesWait f) w actions +
        tally (World.step cfg) (wakesWaiter f) w actions +
        tally (World.step cfg) (clearsSignal f) w actions +
        if (w'.flags.flag f).signaled then 1 else 0 := by
  induction actions generalizing w with
  | nil =>
      cases hrun
      simp [tally]
  | cons a actions ih =>
      obtain ⟨u, hstep, hrest⟩ := run_cons.mp hrun
      obtain ⟨L, hinv⟩ := hw.inv
      have hbalance := (hinv.step_flag hstep f).balance
      have hih := ih (hw.succ hstep) hrest
      rw [tally_cons hstep, tally_cons hstep, tally_cons hstep, tally_cons hstep]
      omega

/-! ## The walk -/

/-- The pass in progress is between the clearing of `s_pending_` and its due timers. -/
def Control.resolving : Control N → Bool
  | .walk .. | .dueTimers => true
  | _ => false

theorem Control.unvisited_eq_nil {visited unvisited : List ℕ} {c : Control N}
    (h : c.Position visited unvisited) (hc : c.inWalk = false) : unvisited = [] := by
  cases c <;> first | exact h | cases hc

/-- A task parked on a flag occupies its slot. -/
theorem Core.occupied_of_waiter (h : Core cfg w L) (hs : (w.flags.flag f).waiter = some s) :
    w.sched.Occupied s := by
  have hplace := (h.armed.waiter f s).mp hs
  rw [Scheduler.Occupied, h.sound.threaded.state, hplace, Place.state_parked]
  simp

/-- The walk will come to flag `f`, on which `task` is parked, or has woken the task. -/
def Owed (w : World N T) (L : Layout N) (f : ℕ) (s : Fin N) (task : Fin N × UInt32) : Prop :=
  (f ∈ L.unvisited ∧ (w.flags.flag f).signaled = true ∧ (w.flags.flag f).waiter = some s ∧
    w.sched.taskIn s = task) ∨ task ∈ w.sched.readyTasks

/-- One step of the walk, or of an external context during it. -/
theorem Inv.step_owed (h : Inv cfg w L) (hw : w.Reachable cfg) (hstep : w.step cfg a = some w')
    (hresolving : w.control.resolving = true) (ha : a.isStart = false) {task : Fin N × UInt32}
    (howed : Owed w L f s task) :
    w'.control.resolving = true ∧ ∃ L', Inv cfg w' L' ∧ Owed w' L' f s task := by
  have hw' : w'.Reachable cfg := hw.succ hstep
  have hmoves := h.step_control hstep
  have hwalked : a.isPop = false ∧ w'.control.resolving = true ∧
      (a.isExternal = true ∨ a = .walkStep) := by
    generalize w.control = c at hmoves hresolving
    generalize w'.control = c' at hmoves ⊢
    cases hmoves with
    | call hc => cases c <;> simp_all [Control.isUser, Control.resolving]
    | external hexternal =>
        exact ⟨by cases a <;> simp_all [Action.isExternal, Action.isPop], hresolving, Or.inl hexternal⟩
    | walkNext | walkEnd => exact ⟨rfl, rfl, Or.inr rfl⟩
    | start => cases ha
    | poll | nothingPending | walkFirst | pop | goOn | suspend | flagReady | flagRejected
    | flagParked | finish | destroyed | endPass | sleep | tokenTaken | timedOut => cases hresolving
  obtain ⟨hpop, hresolving', hkind⟩ := hwalked
  have hadvances := h.step_advances hstep
  rw [hpop] at hadvances
  obtain ⟨tasks, henqueued, hready⟩ := hadvances.grows.enqueued hw hw'
  refine ⟨hresolving', ?_⟩
  rcases howed with ⟨hmem, hsignaled, hwaiter, htask⟩ | hdone
  swap
  · obtain ⟨L', hinv'⟩ := h.step hstep
    exact ⟨L', hinv', Or.inr (by rw [hready]; exact List.mem_append_left _ hdone)⟩
  have htask' : w'.sched.taskIn s = task := by
    rw [← htask, Scheduler.taskIn, Scheduler.taskIn,
      hadvances.tenant s (h.core.occupied_of_waiter hwaiter)]
  -- The step wakes the waiter of `f`, or leaves `f` as owed as it was.
  have hflag : task ∈ w'.sched.readyTasks ∨
      (w'.flags.flag f).signaled = true ∧ (w'.flags.flag f).waiter = some s := by
    cases h.step_flag hstep f with
    | other ha hsignaled' hwaiter' => exact Or.inr ⟨hsignaled'.trans hsignaled, hwaiter'.trans hwaiter⟩
    | set ha hsignaled' hwaiter' => exact Or.inr ⟨hsignaled', hwaiter'.trans hwaiter⟩
    | wake ha hbefore hafter hwaiter' hnone hwoken =>
        rw [hwaiter, Option.some.injEq] at hwaiter'
        rw [hwoken, ← hwaiter', htask] at henqueued
        rw [hready, ← List.append_cancel_left henqueued]
        exact Or.inl (by simp)
    | clear ha | consume ha | suspend ha | park ha =>
        subst ha
        rcases hkind with hkind | hkind <;> cases hkind
  rcases hflag with hdone | ⟨hsignaled', hwaiter'⟩
  · obtain ⟨L', hinv'⟩ := h.step hstep
    exact ⟨L', hinv', Or.inr hdone⟩
  rcases hkind with hexternal | rfl
  · -- external steps move no flag along the list
    have hsame : ∃ L', Inv cfg w' L' ∧ L'.unvisited = L.unvisited := by
      cases World.steps_of_step hstep with
      | setFlag g => exact ⟨L, h.setFlag g, rfl⟩
      | give g => exact ⟨L, h.give g, rfl⟩
      | _ => cases hexternal
    obtain ⟨L', hinv', hunvisited⟩ := hsame
    exact ⟨L', hinv', Or.inl ⟨hunvisited ▸ hmem, hsignaled', hwaiter', htask'⟩⟩
  · obtain ⟨prev, g, hcontrol, rfl⟩ := World.step_walkStep hstep
    obtain ⟨rest, hrest, hcase⟩ := h.walkStep hcontrol
    rw [hrest, List.mem_cons] at hmem
    rcases hcase with ⟨hunsignaled, hinv'⟩ | ⟨t, -, ht, hinv'⟩ <;>
      refine ⟨_, hinv', Or.inl ⟨hmem.resolve_left ?_, hsignaled', hwaiter', htask'⟩⟩
    · rintro rfl
      simp [hsignaled] at hunsignaled
    · rintro rfl
      have hplace := (hinv'.core.armed.waiter f s).mp hwaiter'
      rw [hwaiter, Option.some.injEq] at ht
      subst ht
      simp at hplace

/-- The clearing of `s_pending_` leaves every armed and signaled flag to the walk. -/
theorem Inv.checkPending_owed (h : Inv cfg w L)
    (hstep : w.step cfg .checkPending = some w') (hsignaled : (w.flags.flag f).signaled = true)
    (hwaiter : (w.flags.flag f).waiter = some s) :
    w'.control.resolving = true ∧ ∃ L', Inv cfg w' L' ∧ Owed w' L' f s (w.sched.taskIn s) := by
  obtain ⟨L', hinv'⟩ := h.step hstep
  have hmoves := h.step_control hstep
  have hresolving : w'.control.resolving = true := by
    generalize w.control = c at hmoves
    generalize w'.control = c' at hmoves ⊢
    cases hmoves with
    | call _ ha | external ha => cases ha
    | nothingPending | walkFirst => rfl
  have hpending : w'.flags.pending = false := by
    cases World.steps_of_step hstep with
    | walkStarts => rfl
    | nothingPending _ hpending => exact hpending
  have hgeneration := (h.step_advances hstep).tenant s (h.core.occupied_of_waiter hwaiter)
  refine ⟨hresolving, L', hinv', Or.inl ?_⟩
  cases h.step_flag hstep f with
  | other ha hsignaled' hwaiter' =>
      rw [hsignaled] at hsignaled'
      rw [hwaiter] at hwaiter'
      have harmed := (hinv'.core.armed.mem f).mpr (by simp [hwaiter'])
      refine ⟨(List.mem_append.mp harmed).resolve_left fun hvisited => ?_, hsignaled', hwaiter', ?_⟩
      · -- a visited flag would have set `s_pending_`
        have := hinv'.signals.heard f (Or.inl hvisited) hsignaled'
        simp [hpending] at this
      · rw [Scheduler.taskIn, hgeneration, Scheduler.taskIn]
  | set ha | clear ha | consume ha | suspend ha | park ha | wake ha => cases ha

/-- A flag that is armed and signaled when a pass clears `s_pending_` has its waiter on the ready
FIFO once the walk is over. -/
theorem World.Reachable.resolves (hw : w.Reachable cfg) {walk : List (Action T)}
    (hsignaled : (w.flags.flag f).signaled = true) (hwaiter : (w.flags.flag f).waiter = some s)
    (hrun : run (World.step cfg) w (.checkPending :: walk) = some w')
    (hwalk : ∀ a ∈ walk, a.isStart = false) (hover : w'.control.inWalk = false) :
    w.sched.taskIn s ∈ w'.sched.readyTasks := by
  obtain ⟨u, hstep, hrest⟩ := run_cons.mp hrun
  obtain ⟨L, hinv⟩ := hw.inv
  have hfirst := hinv.checkPending_owed hstep hsignaled hwaiter
  have hall : w'.Reachable cfg ∧ w'.control.resolving = true ∧
      ∃ L', Inv cfg w' L' ∧ Owed w' L' f s (w.sched.taskIn s) := by
    refine run_induction (P := fun v => v.Reachable cfg ∧ v.control.resolving = true ∧
      ∃ L', Inv cfg v L' ∧ Owed v L' f s (w.sched.taskIn s)) hrest ⟨hw.succ hstep, hfirst⟩ ?_
    rintro v a v' ha ⟨hv, hresolving, L', hinv', howed⟩ hstep'
    exact ⟨hv.succ hstep', hinv'.step_owed hv hstep' hresolving (hwalk a ha) howed⟩
  obtain ⟨-, -, L', hinv', ⟨hmem, -⟩ | hready⟩ := hall
  · rw [Control.unvisited_eq_nil hinv'.position hover] at hmem
    cases hmem
  · exact hready

/-- In every run: outside the walk, an armed and signaled flag means `s_pending_`; the walk of a
pass readies the waiter of every flag that is armed and signaled when it clears `s_pending_`; and
the signals of each flag are accounted for. -/
theorem signals_accounted {actions : List (Action T)}
    (hrun : run (World.step cfg) World.initial actions = some w) (f : ℕ) :
    (w.control.inWalk = false → (w.flags.flag f).waiter ≠ none →
      (w.flags.flag f).signaled = true → w.flags.pending = true) ∧
    (∀ s walk w', run (World.step cfg) w (.checkPending :: walk) = some w' →
      (∀ a ∈ walk, a.isStart = false) → w'.control.inWalk = false →
      (w.flags.flag f).waiter = some s → (w.flags.flag f).signaled = true →
      w.sched.taskIn s ∈ w'.sched.readyTasks) ∧
    tally (World.step cfg) (rises f) World.initial actions =
      tally (World.step cfg) (completesWait f) World.initial actions +
        tally (World.step cfg) (wakesWaiter f) World.initial actions +
        tally (World.step cfg) (clearsSignal f) World.initial actions +
        if (w.flags.flag f).signaled then 1 else 0 := by
  have hw : w.Reachable cfg := ⟨actions, hrun⟩
  refine ⟨fun hout hwaiter hsignaled => ?_, fun s walk w' hwalk hstart hover hwaiter hsignaled =>
    hw.resolves hsignaled hwaiter hwalk hstart hover, ?_⟩
  · obtain ⟨L, hinv⟩ := hw.inv
    have harmed := (hinv.core.armed.mem f).mpr hwaiter
    rw [Control.unvisited_eq_nil hinv.position hout, List.append_nil] at harmed
    exact hinv.signals.heard f (Or.inl harmed) hsignaled
  · have hinitial : (World.initial : World N T).Reachable cfg := Reachable.refl
    simpa [World.initial] using hinitial.tally_balance hrun f

/-- A task waits on flag 0, which is then set twice: the next pass readies the task, and the two
calls count as one signal. -/
theorem signals_accounted_small :
    let actions : List (Action ℕ) := [.createTask (some 1), .poll false 0, .checkPending,
      .startPass, .passPop, .coAwait (.flag 0), .flagPark, .endPass 0, .setFlag 0, .setFlag 0,
      .poll false 0]
    let resolved := World.after .small (actions ++ [.checkPending, .walkStep])
    (World.after .small actions).flags.pending = true ∧ (0, 1) ∈ resolved.sched.readyTasks ∧
      tally (World.step .small) (rises 0) World.initial actions = 1 := by
  intro actions resolved
  obtain ⟨hpending, hready, hbalance⟩ :=
    signals_accounted (World.run_after .small [] actions (by decide)) 0
  have hresolved := World.run_after .small actions [.checkPending, .walkStep] (by decide)
  exact ⟨hpending (by decide) (by decide) (by decide),
    hready 0 _ _ hresolved (by decide) (by decide) (by decide) (by decide),
    hbalance.trans (by decide)⟩

end SimpleAwait
