import SimpleAwait.Ownership.Steady
import SimpleAwait.Properties.Consistency

/-!
# Awaiting a consumed `Task`

An await of a `Task` that has been consumed is to report `task_awaited_twice` without suspending.
`TaskAwaiter` decides by `was_empty_`, which its constructor sets; an awaiter that a move or an
earlier await has emptied since then passes the test, and the scheduler adopts a null handle.
-/

namespace SimpleAwait

open Transition

variable {N w : ℕ} {T : Type} {cfg : Config N} {P : PoolConfig w} {c c' : Custody N w T}
  {a : CustodyAction w T} {k : ℕ} {awaiting : Handle}

/-- A call of the error hook. -/
def Obs.isError {N : ℕ} : Obs N → Bool
  | .error _ => true
  | _ => false

namespace Custody

/-- Outside the teardown no slot has adopted a null handle. -/
def NoneEmpty (c : Custody N w T) : Prop := c.world.sched.shuttingDown = false → c.world.Filled

/-- An await of an awaiter that owns no frame reports the error, and the coroutine goes on. -/
def ReportsEmpty (cfg : Config N) (P : PoolConfig w) (c : Custody N w T) :
    CustodyAction w T → Prop
  | .await k awaiting => ∀ a, (c.awaiter k).value = some a → a.child = none →
      c.step cfg P (.await k awaiting) = c.user (c.report .taskAwaitedTwice)
  | _ => True

/-- No user code awaits an awaiter that a move or an earlier await has emptied. -/
def CallsFresh (c : Custody N w T) (a : CustodyAction w T) : Prop :=
  c.world.control.isUser = true ∧ c.tearing = false → c.Fresh a

theorem user_eq_none (h : ¬ (c.world.control.isUser = true ∧ c.tearing = false))
    (c' : Custody N w T) : c.user c' = none := by
  unfold user
  rw [if_neg]
  simpa using h

/-- Where a null handle is adopted, the coroutine that awaits it is suspended. -/
theorem startChild_none (h : c.startChild none awaiting = some c') :
    (c.world.control.isUser = true ∧ c.tearing = false) ∧
      c'.world.control ≠ c.world.control := by
  unfold startChild at h
  cases hrejection : c.world.sched.rejection awaiting with
  | some r => simp [hrejection] at h
  | none =>
      rw [hrejection] at h
      dsimp only at h
      split at h
      · rename_i s left hcontrol
        split_ifs at h
        obtain ⟨hcall, rfl⟩ := user_eq_some.mp h
        exact ⟨hcall, by simp [hcontrol, withWorld, World.suspend]⟩
      · cases h

/-- The awaiter passes the test of `await_ready`, and owns nothing. -/
theorem stale_of_not_fresh (h : ¬ c.Fresh (.await k awaiting)) :
    ∃ a, (c.awaiter k).value = some a ∧ a.wasEmpty = false ∧ a.child = none := by
  cases hvalue : (c.awaiter k).value with
  | none =>
      refine absurd ?_ h
      show (c.awaiter k).value.all _ = true
      rw [hvalue]
      rfl
  | some a =>
      simp only [Fresh, hvalue, Option.all_some, Bool.or_eq_true, not_or, Bool.not_eq_true,
        Option.isSome_eq_false_iff, Option.isNone_iff_eq_none] at h
      exact ⟨a, rfl, h⟩

/-- Awaits of emptied awaiters report the error exactly where all calls are fresh. -/
theorem reportsEmpty_iff : c.ReportsEmpty cfg P a ↔ c.CallsFresh a := by
  cases a with
  | await k awaiting =>
      constructor
      · intro hreports hcall
        by_contra hstale
        obtain ⟨a, hvalue, hempty, hnone⟩ := stale_of_not_fresh hstale
        have hreport : c.user (c.report .taskAwaitedTwice) =
            some (c.report .taskAwaitedTwice) := if_pos (by simpa using hcall)
        have hstep := (hreports a hvalue hnone).trans hreport
        simp only [step, hvalue, hempty, hnone] at hstep
        exact (startChild_none hstep).2 rfl
      · intro hfresh a hvalue hnone
        by_cases hcall : c.world.control.isUser = true ∧ c.tearing = false
        · have hempty : a.wasEmpty = true := by
            have hall := hfresh hcall
            simpa [Fresh, hvalue, hnone] using hall
          simp only [step, hvalue, hempty, if_true]
        · rw [user_eq_none hcall]
          simp only [step, hvalue, hnone]
          split_ifs
          · exact user_eq_none hcall _
          · exact Option.eq_none_iff_forall_ne_some.mpr fun c' hc' => hcall (startChild_none hc').1
  | _ => exact ⟨fun _ _ => trivial, fun _ => trivial⟩

/-- A step with fresh calls keeps the scheduler steady. -/
theorem Steady.calls (h : c.Steady cfg) (hcalls : c.CallsFresh a)
    (hstep : c.step cfg P a = some c') : c'.Steady cfg := by
  by_cases hfresh : c.Fresh a
  · exact h.step hfresh hstep
  · cases a with
    | await k awaiting =>
        obtain ⟨a, hvalue, hempty, hnone⟩ := stale_of_not_fresh hfresh
        simp only [Custody.step, hvalue, hempty, hnone] at hstep
        exact absurd (hcalls (startChild_none hstep).1) hfresh
    | _ => exact absurd trivial hfresh

theorem Steady.noneEmpty (h : c.Steady cfg) : c.NoneEmpty := by
  intro hup
  rcases h with hdown | hsettled
  · rw [hdown] at hup
    cases hup
  · exact hsettled.filled

end Custody

/-- Along every run no slot adopts a null handle in a step that does not lead into the teardown (there
the loop itself clears the handles, and no task runs), and every await of a consumed `Task` or awaiter
reports the error without suspending, exactly if no awaiter is awaited that a move or an earlier
await has emptied. -/
theorem consumed_awaits_iff (cfg : Config N) (P : PoolConfig w) (memory : FramePool w)
    (actions : List (CustodyAction w T)) :
    Along (Custody.step cfg P) (fun c a => (∀ c', c.step cfg P a = some c' → c'.NoneEmpty) ∧
        c.ReportsEmpty cfg P a) (.start P memory) actions ↔
      Along (Custody.step cfg P) Custody.CallsFresh (.start P memory) actions := by
  refine Along.congr (fun c => c.Steady cfg) (Or.inr (.start memory)) ?_ ?_
  · intro c a c' h hp hstep
    exact h.calls (Custody.reportsEmpty_iff.mp hp.2) hstep
  · intro c a h
    refine ⟨fun hp => Custody.reportsEmpty_iff.mp hp.2,
      fun hcalls => ⟨fun c' hstep => ?_, Custody.reportsEmpty_iff.mpr hcalls⟩⟩
    exact (h.calls hcalls hstep).noneEmpty

/-- A task awaits an awaiter twice, and another one awaits an awaiter that has been moved from.  Each
time a null handle is adopted, and no error is reported. -/
theorem emptied_awaiter_adopted :
    let started : List (CustodyAction 32 ℕ) := [.create 16 none, .createTask 0,
      .act (.poll false 0), .act .checkPending, .act .startPass, .act .passPop, .create 16 none,
      .coAwait 1 none]
    let twice := started ++ [.await 0 (some 4112), .act (.endPass 0), .act (.poll false 0),
      .act .checkPending, .act .startPass, .act .passPop, .finish, .returned, .act (.endPass 0),
      .act (.poll false 0), .act .checkPending, .act .startPass, .act .passPop]
    let moved := started ++ [.moveAwaiter 0 none]
    let adopted := fun (actions : List (CustodyAction 32 ℕ)) (s : Fin 3) => ∃ c : Custody 3 32 ℕ,
      run (Custody.step .small .small) (.start .small (.zeroed 32)) actions = some c ∧
        (c.world.sched.slots s).state = .ready ∧ (c.world.sched.slots s).handle = none ∧
        (∀ e, Obs.error e ∉ c.world.sched.trace) ∧ ¬ c.NoneEmpty
    adopted (twice ++ [.await 0 (some 4112)]) 2 ∧ adopted (moved ++ [.await 0 (some 4112)]) 1 := by
  intro started twice moved adopted
  have hadopted : ∀ actions s, ((run (Custody.step .small .small) (.start .small (.zeroed 32))
      actions).map fun c : Custody 3 32 ℕ => decide ((c.world.sched.slots s).state = .ready ∧
        (c.world.sched.slots s).handle = none ∧ c.world.sched.shuttingDown = false ∧
        ∀ o ∈ c.world.sched.trace, o.isError = false)) = some true → adopted actions s := by
    intro actions s hrun
    obtain ⟨c, hc, hfacts⟩ := Option.map_eq_some_iff.mp hrun
    obtain ⟨hstate, hhandle, hup, hquiet⟩ := decide_eq_true_iff.mp hfacts
    refine ⟨c, hc, hstate, hhandle, fun e he => ?_, fun hnone => ?_⟩
    · cases hquiet _ he
    · exact hnone hup s (by simp [Scheduler.Occupied, hstate]) hhandle
  exact ⟨hadopted _ _ (by decide +kernel), hadopted _ _ (by decide +kernel)⟩

end SimpleAwait
