import SimpleAwait.System.Parents
import SimpleAwait.WaitUntil.Step

/-!
# Passes while a task waits

`Phase n` tells where the child that runs `waitUntil` is when `n` passes have taken their budget since
its parent awaited it.  Behind the budget, it has been resumed in all `n` of them; within the budget
or at the predicate, in one less.  The body evaluates the predicate once for each resumption and
yields, which puts the child behind the budget again, until the predicate returns true; the end of
the child then puts the parent there.
-/

namespace SimpleAwait

open Transition

variable {N : ℕ} {T : Type} {cfg : Config N} {w w' : World N T} {L : Layout N} {s : Fin N}
  {left k n : ℕ} {child : Frame} {x y : Fin N × UInt32} {a : Action T} {predicate : ℕ → Bool}
  {v v' : WaitUntil N T}

/-! ## When the child executes -/

theorem World.Awaits.executes (h : w.Awaits x y child) (hcontrol : w.control = .body y.1 left) :
    w.executes y = true := by
  simp only [World.executes, hcontrol, decide_eq_true_eq]
  exact Prod.ext rfl h.generation.2

theorem World.not_executes_of_release (hcontrol : w.control = .release s left) :
    w.executes y = false := by
  simp [World.executes, hcontrol]

/-- A task that executes is in state `running`. -/
theorem Inv.place_of_executes (h : Inv cfg w L) (hexecutes : w.executes y = true) :
    L.place y.1 = .running ∧ w.sched.taskIn y.1 = y := by
  unfold World.executes at hexecutes
  split at hexecutes
  · rename_i s left hcontrol
    simp only [decide_eq_true_eq] at hexecutes
    have hs : s = y.1 := congrArg Prod.fst hexecutes
    subst hs
    exact ⟨(h.staged.running _).mpr (by rw [hcontrol]; rfl), hexecutes⟩
  · cases hexecutes

theorem World.not_executes_of_ready (hw : w.Reachable cfg) (hy : y ∈ w.sched.readyTasks) :
    w.executes y = false := by
  obtain ⟨L, hinv⟩ := hw.inv
  by_contra hexecutes
  obtain ⟨hplace, -⟩ := hinv.place_of_executes (Bool.not_eq_false _ ▸ hexecutes)
  have hthreaded := hinv.core.sound.threaded
  rw [hthreaded.readyTasks_eq] at hy
  obtain ⟨t, ht, heq⟩ := List.mem_map.mp hy
  obtain rfl : t = y.1 := congrArg Prod.fst heq
  rw [(hthreaded.mem_ready _).mp ht] at hplace
  cases hplace

/-- A task that has completed does not execute again. -/
theorem World.not_executes_of_completed (hw : w.Reachable cfg)
    (hy : Obs.completed y.1 y.2 ∈ w.sched.trace) : w.executes y = false := by
  obtain ⟨L, hinv⟩ := hw.inv
  by_contra hexecutes
  obtain ⟨hplace, htask⟩ := hinv.place_of_executes (Bool.not_eq_false _ ▸ hexecutes)
  have hgeneration : (w.sched.slots y.1).generation = y.2 := congrArg Prod.snd htask
  have hlife : Obs.completed y.1 y.2 ∈ lifecycle w.sched.trace := by simpa [lifecycle] using hy
  obtain ⟨-, hlt | ⟨-, hcompleted⟩⟩ := (hinv.core.sound.chronicle.completed _ _).mp hlife
  · rw [hgeneration] at hlt
    exact lt_irrefl _ hlt
  · rw [hinv.core.sound.threaded.state, hplace] at hcompleted
    cases hcompleted

/-- The parent goes on waiting if the child is not being released. -/
theorem World.Awaits.keep (h : w.Awaits x y child) (hw : w.Reachable cfg)
    (hstep : w.step cfg a = some w') (hcontrol : w.control.running ≠ some y.1 ∨ a ≠ .destroyed) :
    w'.Awaits x y child := by
  rcases h.step hw hstep with ⟨left, rfl, hrelease⟩ | ⟨hawaits, -⟩
  · rw [hrelease] at hcontrol
    exact absurd rfl (hcontrol.resolve_right fun hne => hne rfl)
  · exact hawaits

theorem World.running_ne_of_ready (hw : w.Reachable cfg) (hy : y ∈ w.sched.readyTasks) :
    w.control.running ≠ some y.1 := by
  obtain ⟨L, hinv⟩ := hw.inv
  intro hrunning
  have hplace := (hinv.staged.running y.1).mpr hrunning
  have hthreaded := hinv.core.sound.threaded
  rw [hthreaded.readyTasks_eq] at hy
  obtain ⟨t, ht, heq⟩ := List.mem_map.mp hy
  obtain rfl : t = y.1 := congrArg Prod.fst heq
  rw [(hthreaded.mem_ready _).mp ht] at hplace
  cases hplace

/-! ## Single steps of the child -/

/-- Calls and external contexts leave control where it is while a task executes. -/
theorem Inv.step_body (h : Inv cfg w L) (hstep : w.step cfg a = some w')
    (hcontrol : w.control = .body s left) (ha : a.isCall = true ∨ a.isExternal = true) :
    w'.control = .body s left := by
  have hmoves := h.step_control hstep
  rw [hcontrol] at hmoves
  generalize w'.control = c at hmoves ⊢
  cases hmoves with
  | call | external => rfl
  | goOn | suspend | flagReady | finish =>
      rcases ha with ha | ha <;> cases ha

/-- `yield` puts the running task behind the budget. -/
theorem World.behind_of_yield (hw : w.Reachable cfg) (hcontrol : w.control = .body s left)
    (hstep : w.step cfg (.coAwait .yield) = some w') : w'.Behind (w.sched.taskIn s) := by
  obtain ⟨L, hinv⟩ := hw.inv
  have hcurrent : w.sched.current = some s := by
    rw [hinv.staged.current, hcontrol]
    rfl
  have hw' : w' = World.suspend { w with sched := (w.sched.setState s .ready).readyPush s } s left := by
    simp only [World.step, hcontrol, World.coAwait, Scheduler.yieldCurrent, hcurrent,
      World.afterAwait, if_true, Option.some.injEq] at hstep
    exact hstep.symm
  have htrace : w'.sched.trace = w.sched.trace ++ [.enqueued s (w.sched.slots s).generation] := by
    rw [hw']
    simp [World.suspend, Scheduler.afterSuspend]
  refine (World.behind_of_enqueued hw hstep rfl ?_ ?_).2
  · rw [hw', hcontrol]
    exact le_rfl
  · rw [htrace, enqueuedTasks_append]
    rfl

/-- The end of the child puts the parent behind the budget. -/
theorem World.Awaits.step_destroyed (h : w.Awaits x y child) (hw : w.Reachable cfg)
    (hcontrol : w.control = .release y.1 left) (hstep : w.step cfg .destroyed = some w') :
    Obs.completed y.1 y.2 ∈ w'.sched.trace ∧ w'.Behind x := by
  obtain ⟨L, hinv⟩ := hw.inv
  obtain ⟨htrace, -, -⟩ := h.afterDestroy hinv hcontrol
  have hw' : w' = { w with sched := w.sched.afterDestroy y.1, control := .pass left } := by
    simp only [World.step, hcontrol, Option.some.injEq] at hstep
    exact hstep.symm
  have htrace' : w'.sched.trace = w.sched.trace ++ [.completed y.1 y.2, .enqueued x.1 x.2] := by
    rw [hw', htrace]
  refine ⟨by simp [htrace'], (World.behind_of_enqueued hw hstep rfl ?_ ?_).2⟩
  · rw [hw', hcontrol]
    exact le_rfl
  · rw [htrace', enqueuedTasks_append]
    rfl

/-! ## The phases -/

/-- Where the child `y` of `x` is when `n` passes have taken their budget since the await, with a
predicate that is false `k` times and then true. -/
inductive WaitUntil.Phase (x y : Fin N × UInt32) (child : Frame) (k : ℕ) : ℕ → WaitUntil N T → Prop
  | waiting {n : ℕ} {v : WaitUntil N T} (hawaits : v.world.Awaits x y child)
      (hbehind : v.world.Behind y) (hresult : v.result = none) (hcount : v.evaluations = n)
      (hn : n ≤ k) : Phase x y child k n v
  | due {n : ℕ} {v : WaitUntil N T} (hawaits : v.world.Awaits x y child) (hdue : v.world.Due y)
      (hresult : v.result = none) (hcount : v.evaluations = n) (hn : n ≤ k) :
      Phase x y child k (n + 1) v
  | testing {n left : ℕ} {v : WaitUntil N T} (hawaits : v.world.Awaits x y child)
      (hcontrol : v.world.control = .body y.1 left) (hresult : v.result = none)
      (hcount : v.evaluations = n) (hn : n ≤ k) : Phase x y child k (n + 1) v
  | looping {n left : ℕ} {v : WaitUntil N T} (hawaits : v.world.Awaits x y child)
      (hcontrol : v.world.control = .body y.1 left) (hresult : v.result = some false)
      (hcount : v.evaluations = n) (hn : n ≤ k) : Phase x y child k n v
  | returning {left : ℕ} {v : WaitUntil N T} (hawaits : v.world.Awaits x y child)
      (hcontrol : v.world.control = .body y.1 left) (hresult : v.result = some true)
      (hcount : v.evaluations = k + 1) : Phase x y child k (k + 1) v
  | releasing {left : ℕ} {v : WaitUntil N T} (hawaits : v.world.Awaits x y child)
      (hcontrol : v.world.control = .release y.1 left) (hcount : v.evaluations = k + 1) :
      Phase x y child k (k + 1) v
  | woken {v : WaitUntil N T} (hcompleted : Obs.completed y.1 y.2 ∈ v.world.sched.trace)
      (hbehind : v.world.Behind x) (hcount : v.evaluations = k + 1) : Phase x y child k (k + 1) v
  | gone {n : ℕ} {v : WaitUntil N T} (hcompleted : Obs.completed y.1 y.2 ∈ v.world.sched.trace)
      (hcount : v.evaluations = k + 1) (hn : k + 1 < n) : Phase x y child k n v

namespace WaitUntil.Phase

/-- The predicate returns. -/
theorem evaluate (h : Phase x y child k n v) (hw : v.world.Reachable cfg)
    (hfalse : ∀ i < k, predicate i = false) (htrue : predicate k = true)
    (hstep : WaitUntil.step cfg predicate y v .evaluate = some v') : Phase x y child k n v' := by
  obtain ⟨hexecutes, hnone, hworld, hcount', hresult'⟩ := WaitUntil.step_evaluate hstep
  cases h with
  | waiting _ hbehind => simp [World.not_executes_of_ready hw hbehind.mem] at hexecutes
  | due _ hdue => simp [World.not_executes_of_ready hw hdue.mem] at hexecutes
  | @testing n _ _ hawaits hcontrol _ hcount hn =>
      rw [← hworld] at hawaits hcontrol
      rw [hcount] at hcount' hresult'
      rcases Nat.lt_or_ge n k with hlt | hge
      · rw [hfalse n hlt] at hresult'
        exact .looping hawaits hcontrol hresult' hcount' hlt
      · obtain rfl : n = k := Nat.le_antisymm hn hge
        rw [htrue] at hresult'
        exact .returning hawaits hcontrol hresult' hcount'
  | looping _ _ hresult => simp [hresult] at hnone
  | returning _ _ hresult => simp [hresult] at hnone
  | releasing _ hcontrol => simp [World.not_executes_of_release hcontrol] at hexecutes
  | woken hcompleted => simp [World.not_executes_of_completed hw hcompleted] at hexecutes
  | gone hcompleted => simp [World.not_executes_of_completed hw hcompleted] at hexecutes

/-- A pass takes its budget. -/
theorem start (h : Phase x y child k n v) (hw : v.world.Reachable cfg)
    (hstep : WaitUntil.step cfg predicate y v (.other .startPass) = some v') :
    Phase x y child k (n + 1) v' := by
  obtain ⟨hworld, hcount', -, hresult'⟩ := WaitUntil.step_other hstep
  -- no pass is in progress
  have hout : v.world.control.inPass = false := World.outside_of_startPass hworld
  obtain ⟨L, hinv⟩ := hw.inv
  obtain ⟨obs, htrace, -⟩ := (hinv.step_advances hworld).grows
  cases h with
  | waiting hawaits hbehind hresult hcount hn =>
      have hquiet := World.not_executes_of_ready hw hbehind.mem
      refine .due (hawaits.keep hw hworld (Or.inr (by simp))) (hbehind.start hw hworld) ?_
        (hcount'.trans hcount) hn
      exact (hresult' (Or.inl hquiet)).trans hresult
  | due _ hdue => simp [hdue.inPass] at hout
  | testing _ hcontrol | looping _ hcontrol | returning _ hcontrol | releasing _ hcontrol =>
      simp [hcontrol, Control.inPass] at hout
  | woken hcompleted _ hcount =>
      refine .gone ?_ (hcount'.trans hcount) (Nat.lt_succ_self _)
      rw [htrace]
      exact List.mem_append_left _ hcompleted
  | gone hcompleted hcount hn =>
      refine .gone ?_ (hcount'.trans hcount) (hn.trans (Nat.lt_succ_self _))
      rw [htrace]
      exact List.mem_append_left _ hcompleted

/-- Any other step of the system. -/
theorem other (h : Phase x y child k n v) (hw : v.world.Reachable cfg)
    (hstep : WaitUntil.step cfg predicate y v (.other a) = some v') (ha : a.isStart = false) :
    Phase x y child k n v' := by
  obtain ⟨hworld, hcount', hbody, hresult'⟩ := WaitUntil.step_other hstep
  obtain ⟨L, hinv⟩ := hw.inv
  obtain ⟨obs, htrace, -⟩ := (hinv.step_advances hworld).grows
  cases h with
  | waiting hawaits hbehind hresult hcount hn =>
      have hquiet := World.not_executes_of_ready hw hbehind.mem
      have hkept := hawaits.keep hw hworld (Or.inl (World.running_ne_of_ready hw hbehind.mem))
      exact .waiting hkept (hbehind.step hw hworld ha).1 ((hresult' (Or.inl hquiet)).trans hresult)
        (hcount'.trans hcount) hn
  | due hawaits hdue hresult hcount hn =>
      have hquiet := World.not_executes_of_ready hw hdue.mem
      have hkept := hawaits.keep hw hworld (Or.inl (World.running_ne_of_ready hw hdue.mem))
      have hnone := (hresult' (Or.inl hquiet)).trans hresult
      rcases hdue.step hw hworld with hdue' | ⟨left, -, hcontrol⟩
      · exact .due hkept hdue' hnone (hcount'.trans hcount) hn
      · exact .testing hkept hcontrol hnone (hcount'.trans hcount) hn
  | testing hawaits hcontrol hresult hcount hn =>
      -- the predicate is executing
      have hexecutes := hawaits.executes hcontrol
      have hcalls : (a.isCall = true ∨ a.isExternal = true) ∧ v'.result = none := by
        cases hexternal : a.isExternal with
        | true => exact ⟨Or.inr rfl, (hresult' (Or.inr hexternal)).trans hresult⟩
        | false =>
            obtain ⟨htakes, hnone⟩ := hbody hexecutes hexternal
            rw [hresult] at htakes
            exact ⟨Or.inl htakes, hnone⟩
      have hne : a ≠ .destroyed := by
        rintro rfl
        rcases hcalls.1 with h | h <;> cases h
      exact .testing (hawaits.keep hw hworld (Or.inr hne)) (hinv.step_body hworld hcontrol hcalls.1)
        hcalls.2 (hcount'.trans hcount) hn
  | looping hawaits hcontrol hresult hcount hn =>
      have hexecutes := hawaits.executes hcontrol
      cases hexternal : a.isExternal with
      | true =>
          have hne : a ≠ .destroyed := by
            rintro rfl
            cases hexternal
          exact .looping (hawaits.keep hw hworld (Or.inr hne))
            (hinv.step_body hworld hcontrol (Or.inr hexternal))
            ((hresult' (Or.inr hexternal)).trans hresult) (hcount'.trans hcount) hn
      | false =>
          obtain ⟨htakes, hnone⟩ := hbody hexecutes hexternal
          rw [hresult] at htakes
          obtain rfl : a = .coAwait .yield := by
            unfold WaitUntil.body at htakes
            split at htakes <;> simp_all
          have hbehind := World.behind_of_yield hw hcontrol hworld
          rw [show v.world.sched.taskIn y.1 = y from Prod.ext rfl hawaits.generation.2] at hbehind
          exact .waiting (hawaits.keep hw hworld (Or.inr (by simp))) hbehind hnone
            (hcount'.trans hcount) hn
  | returning hawaits hcontrol hresult hcount =>
      have hexecutes := hawaits.executes hcontrol
      cases hexternal : a.isExternal with
      | true =>
          have hne : a ≠ .destroyed := by
            rintro rfl
            cases hexternal
          exact .returning (hawaits.keep hw hworld (Or.inr hne))
            (hinv.step_body hworld hcontrol (Or.inr hexternal))
            ((hresult' (Or.inr hexternal)).trans hresult) (hcount'.trans hcount)
      | false =>
          obtain ⟨htakes, -⟩ := hbody hexecutes hexternal
          rw [hresult] at htakes
          obtain rfl : a = .finish := by
            unfold WaitUntil.body at htakes
            split at htakes <;> simp_all
          have hcontrol' : ∃ left, v'.world.control = .release y.1 left := by
            simp only [World.step, hcontrol, Option.some.injEq] at hworld
            rw [← hworld]
            exact ⟨_, rfl⟩
          obtain ⟨left', hrelease⟩ := hcontrol'
          exact .releasing (hawaits.keep hw hworld (Or.inr (by simp))) hrelease
            (hcount'.trans hcount)
  | releasing hawaits hcontrol hcount =>
      have hmoves := hinv.step_control hworld
      rw [hcontrol] at hmoves
      by_cases hdestroyed : a = .destroyed
      · subst hdestroyed
        obtain ⟨hcompleted, hbehind⟩ := hawaits.step_destroyed hw hcontrol hworld
        exact .woken hcompleted hbehind (hcount'.trans hcount)
      · have hcontrol' : ∃ left, v'.world.control = .release y.1 left := by
          generalize v'.world.control = c at hmoves ⊢
          cases hmoves with
          | call | external => exact ⟨_, rfl⟩
          | destroyed => exact absurd rfl hdestroyed
        obtain ⟨left', hrelease⟩ := hcontrol'
        exact .releasing (hawaits.keep hw hworld (Or.inr hdestroyed)) hrelease (hcount'.trans hcount)
  | woken hcompleted hbehind hcount =>
      refine .woken ?_ (hbehind.step hw hworld ha).1 (hcount'.trans hcount)
      rw [htrace]
      exact List.mem_append_left _ hcompleted
  | gone hcompleted hcount hn =>
      refine .gone ?_ (hcount'.trans hcount) hn
      rw [htrace]
      exact List.mem_append_left _ hcompleted

/-- The parent is not resumed before the child has ended and another pass has begun. -/
theorem resumptions (h : Phase x y child k n v) (hw : v.world.Reachable cfg)
    (hstep : v.world.step cfg a = some w') (hn : n ≤ k + 1) :
    w'.resumptions x = v.world.resumptions x := by
  obtain ⟨L, hinv⟩ := hw.inv
  have hawaiting : v.world.Awaits x y child → w'.resumptions x = v.world.resumptions x := by
    intro hawaits
    rcases hawaits.step hw hstep with ⟨_, rfl, -⟩ | ⟨-, hsame, -⟩
    · exact hinv.step_resumptions hstep rfl
    · exact hsame
  cases h with
  | waiting hawaits | due hawaits | testing hawaits | looping hawaits | returning hawaits
  | releasing hawaits => exact hawaiting hawaits
  | woken _ hbehind =>
      cases hstart : a.isStart with
      | true =>
          refine hinv.step_resumptions hstep ?_
          cases a <;> first | rfl | cases hstart
      | false => exact (hbehind.step hw hstep hstart).2
  | gone _ _ hlate => omega

end WaitUntil.Phase

end SimpleAwait
