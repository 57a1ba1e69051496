import SimpleAwait.Library.Logs
import SimpleAwait.Properties.Delays
import SimpleAwait.System.Arrows
import SimpleAwait.System.Executing

/-!
# Sleeping takes time

A deadline counts from the clock of the pass in which the delay is awaited, and the task goes on in a
pass whose clock has reached it.  So the delays that a task awaits one after another add up: at each
point of a run they come to no more than the time that has passed, or will have passed at the deadline
that the task sleeps towards.
-/

namespace SimpleAwait

open Transition

variable {N : ℕ} {T : Type} {cfg : Config N} {w w' : World N T} {L : Layout N} {a : Action T}
  {t : Fin N} {y : Fin N × UInt32} {n : ℕ}

/-- The delay that the body of task `y` awaits in this step, unless its deadline overflows. -/
def World.awaitedDelay (y : Fin N × UInt32) (w : World N T) (a : Action T) (_ : World N T) : List ℕ :=
  match a with
  | .coAwait (.delay d) =>
      if w.executes y ∧ addOverflows w.sched.now d = false then [d.toNat] else []
  | _ => []

/-- The delays that task `y` awaits in a run. -/
def World.awaitedDelays (cfg : Config N) (y : Fin N × UInt32) (w : World N T)
    (actions : List (Action T)) : List ℕ :=
  written (World.step cfg) (World.awaitedDelay y) w actions

/-- A call of `poll()` samples a clock that has not gone back. -/
def World.forward (w : World N T) : Action T → Bool
  | .poll _ clock => w.sched.now ≤ clock
  | _ => true

/-! ## What a step does to a sleeper -/

/-- Who sleeps keeps its deadline. -/
theorem Inv.step_deadline (h : Inv cfg w L) (hstep : w.step cfg a = some w')
    (ht : (w.sched.slots t).state = .waitingTimer) :
    (w'.sched.slots t).deadline = (w.sched.slots t).deadline := by
  rcases h.step_timer hstep ht with ⟨-, hdeadline⟩ | ⟨rfl, -⟩
  · exact hdeadline
  · exact (h.startPass_slots hstep t).1

/-- The clock does not go back. -/
theorem Inv.now_le (h : Inv cfg w L) (hstep : w.step cfg a = some w') (ha : w.forward a = true) :
    w.sched.now.toNat ≤ w'.sched.now.toNat := by
  rcases h.step_now hstep with hnow | ⟨andWait, rfl, -⟩
  · rw [hnow]
  · exact UInt64.le_iff_toNat_le.mp (of_decide_eq_true ha)

/-- `yield_current` leaves the running slot ready. -/
theorem Scheduler.state_of_yield {c : Scheduler N} (hcurrent : c.current = some t) :
    ((c.yieldCurrent.afterSuspend t).slots t).state = .ready := by
  simp only [yieldCurrent, hcurrent]
  rw [Scheduler.afterSuspend_eq (by simp)]
  simp

/-- A delay that has a deadline puts the task to sleep, ahead of the clock; any other makes it
ready. -/
theorem Inv.await_delay (h : Inv cfg w L) {left : ℕ} {d : Tick} (hcontrol : w.control = .body t left)
    (hstep : w.step cfg (.coAwait (.delay d)) = some w') :
    addOverflows w.sched.now d = false ∧ (w'.sched.slots t).state = .waitingTimer ∧
        (w'.sched.slots t).deadline.toNat = w.sched.now.toNat + d.toNat ∧ 0 < d.toNat ∨
      (addOverflows w.sched.now d = true ∨ d = 0) ∧ (w'.sched.slots t).state = .ready := by
  have hcurrent : w.sched.current = some t := by
    rw [h.staged.current, hcontrol]
    rfl
  by_cases hzero : d = 0
  · subst hzero
    rw [World.step_delay hcontrol, Scheduler.armCurrentTimer_zero] at hstep
    cases hstep
    exact Or.inr ⟨Or.inr rfl, Scheduler.state_of_yield hcurrent⟩
  · cases hover : addOverflows w.sched.now d with
    | false =>
        have hfits : w.sched.now.toNat + d.toNat < 2 ^ 64 := by
          by_contra hle
          rw [(addOverflows_iff _ _).mpr (by omega)] at hover
          cases hover
        obtain ⟨-, hstate, hdeadline⟩ := h.delay_fits hcontrol hzero hfits hstep
        have hpositive : 0 < d.toNat :=
          Nat.pos_of_ne_zero fun h => hzero (UInt64.toNat_inj.mp h)
        refine Or.inl ⟨rfl, hstate, ?_, hpositive⟩
        rw [hdeadline]
        exact (computeDeadline_fits hfits).2
    | true =>
        have harm : w.sched.armCurrentTimer d = (w.sched.report .deadlineOverflow).yieldCurrent := by
          simp only [Scheduler.armCurrentTimer, hcurrent, hzero, if_false,
            computeDeadline_overflow ((addOverflows_iff _ _).mp hover)]
        rw [World.step_delay hcontrol, harm] at hstep
        cases hstep
        exact Or.inr ⟨Or.inl rfl, Scheduler.state_of_yield hcurrent⟩

/-! ## The sum of the delays -/

/-- Task `y` sleeps. -/
def World.Sleeps (w : World N T) (y : Fin N × UInt32) : Prop :=
  (w.sched.slots y.1).state = .waitingTimer ∧ (w.sched.slots y.1).generation = y.2

instance (w : World N T) (y : Fin N × UInt32) : Decidable (w.Sleeps y) :=
  inferInstanceAs (Decidable (_ ∧ _))

/-- The time that task `y` has reached: the clock, or the deadline that it sleeps towards. -/
def World.reached (w : World N T) (y : Fin N × UInt32) : ℕ :=
  if w.Sleeps y then (w.sched.slots y.1).deadline.toNat else w.sched.now.toNat

theorem World.reached_of_sleeps (h : w.Sleeps y) :
    w.reached y = (w.sched.slots y.1).deadline.toNat := if_pos h

theorem World.reached_of_awake (h : ¬ w.Sleeps y) : w.reached y = w.sched.now.toNat := if_neg h

/-- Only a body that executes awaits a delay. -/
theorem World.awaitedDelay_eq_nil (h : ∀ d, a = .coAwait (.delay d) → w.executes y = false) :
    w.awaitedDelay y a w' = [] := by
  unfold World.awaitedDelay
  split
  · rename_i d
    rw [h d rfl]
    exact if_neg (by simp)
  · rfl

/-- A task that sleeps goes on sleeping, or its deadline has come. -/
theorem Inv.reached_of_sleeps (h : Inv cfg w L) (hstep : w.step cfg a = some w')
    (hforward : w.forward a = true) (hy : w.Sleeps y) : w.reached y ≤ w'.reached y := by
  have hoccupied : w.sched.Occupied y.1 := by simp [Scheduler.Occupied, hy.1]
  have hgeneration := (h.step_advances hstep).tenant y.1 hoccupied
  rw [World.reached_of_sleeps hy]
  by_cases hy' : w'.Sleeps y
  · rw [World.reached_of_sleeps hy', h.step_deadline hstep hy.1]
  · rw [World.reached_of_awake hy']
    have hdue : (w.sched.slots y.1).deadline ≤ w.sched.now := by
      rcases h.step_timer hstep hy.1 with ⟨hstate, -⟩ | ⟨-, hdue⟩
      · exact absurd ⟨hstate, hgeneration.trans hy.2⟩ hy'
      · exact hdue
    exact (UInt64.le_iff_toNat_le.mp hdue).trans (h.now_le hstep hforward)

/-- A task that awaits a delay goes to sleep for that long, or is ready again. -/
theorem Inv.reached_of_delay (h : Inv cfg w L) {d : Tick}
    (hstep : w.step cfg (.coAwait (.delay d)) = some w') (hy : w.executes y = true) :
    w.reached y + (w.awaitedDelay y (.coAwait (.delay d)) w').sum ≤ w'.reached y := by
  obtain ⟨left, hcontrol, htask⟩ := World.body_of_executes hy
  have hgeneration : (w'.sched.slots y.1).generation = y.2 :=
    congrArg Prod.snd ((h.taskIn_control hstep hcontrol).trans htask)
  have hawake : ¬ w.Sleeps y := by
    rintro ⟨hstate, -⟩
    rw [h.core.sound.threaded.state, (h.staged.running y.1).mpr (by rw [hcontrol]; rfl)] at hstate
    cases hstate
  rw [World.reached_of_awake hawake, World.awaitedDelay, hy]
  rcases h.await_delay hcontrol hstep with ⟨hfits, hstate, hdeadline, -⟩ | ⟨hshort, hstate⟩
  · rw [World.reached_of_sleeps ⟨hstate, hgeneration⟩, hdeadline, hfits]
    simp
  · have hawake' : ¬ w'.Sleeps y := by
      rintro ⟨hstate', -⟩
      rw [hstate] at hstate'
      cases hstate'
    rw [World.reached_of_awake hawake']
    have hnow := h.now_le hstep rfl
    rcases hshort with hover | rfl
    · rw [hover]
      simpa using hnow
    · split_ifs
      · simpa using hnow
      · simpa using hnow

/-- A step takes a task as far as the delay that it awaits. -/
theorem Inv.step_reached (h : Inv cfg w L) (hstep : w.step cfg a = some w')
    (hforward : w.forward a = true) : w.reached y + (w.awaitedDelay y a w').sum ≤ w'.reached y := by
  by_cases hdelay : ∃ d, a = .coAwait (.delay d) ∧ w.executes y = true
  · obtain ⟨d, rfl, hy⟩ := hdelay
    exact h.reached_of_delay hstep hy
  · push Not at hdelay
    rw [World.awaitedDelay_eq_nil fun d hd => Bool.eq_false_iff.mpr (hdelay d hd), List.sum_nil,
      Nat.add_zero]
    by_cases hy : w.Sleeps y
    · exact h.reached_of_sleeps hstep hforward hy
    · have hawake' : ¬ w'.Sleeps y := by
        rintro ⟨hstate, hgeneration⟩
        rcases h.step_asleep hstep hstate with hbefore | ⟨left, d, rfl, hcontrol⟩
        · have hoccupied : w.sched.Occupied y.1 := by simp [Scheduler.Occupied, hbefore]
          rw [(h.step_advances hstep).tenant y.1 hoccupied] at hgeneration
          exact hy ⟨hbefore, hgeneration⟩
        · -- its own body has awaited the delay
          have htask : w.sched.taskIn y.1 = y := by
            rw [← h.taskIn_control hstep hcontrol]
            exact Prod.ext rfl hgeneration
          exact hdelay d rfl ((World.executes_iff hcontrol).mpr htask)
      rw [World.reached_of_awake hy, World.reached_of_awake hawake']
      exact h.now_le hstep hforward

/-- From any point of a run on, while the clock does not go back: the delays that a task awaits, but
for those whose deadlines overflow, come to no more than the time from there to the clock, or to the
deadline that the task sleeps towards. -/
theorem sleeps_add_up {actions : List (Action T)} (hw : w.Reachable cfg)
    (hrun : run (World.step cfg) w actions = some w')
    (hforward : Along (World.step cfg) (fun u a => u.forward a = true) w actions)
    (y : Fin N × UInt32) :
    w.reached y + (World.awaitedDelays cfg y w actions).sum ≤ w'.reached y := by
  have hall : w'.Reachable cfg ∧
      w.reached y + (World.awaitedDelays cfg y w actions).sum ≤ w'.reached y := by
    refine Along.written_induction (P := fun u l => World.Reachable cfg u ∧
      w.reached y + l.sum ≤ u.reached y) hrun hforward ⟨hw, by simp⟩ ?_
    intro u a u' l ⟨hu, hle⟩ ha hstep
    obtain ⟨L, hinv⟩ := hu.inv
    refine ⟨hu.succ hstep, ?_⟩
    calc w.reached y + (l ++ u.awaitedDelay y a u').sum
        = w.reached y + l.sum + (u.awaitedDelay y a u').sum := by rw [List.sum_append, Nat.add_assoc]
      _ ≤ u.reached y + (u.awaitedDelay y a u').sum := Nat.add_le_add_right hle _
      _ ≤ u'.reached y := hinv.step_reached hstep ha
  exact hall.2

/-- A task awaits a delay of 500, is resumed at 700, and sleeps until 1200. -/
theorem sleeps_add_up_small :
    let created : List (Action ℕ) := [.createTask (some 1)]
    let actions : List (Action ℕ) := [.poll false 100, .checkPending, .startPass, .passPop,
      .coAwait (.delay 500), .endPass 100, .poll false 700, .checkPending, .startPass, .passPop,
      .coAwait (.delay 500), .endPass 700]
    let w : World 3 ℕ := World.after .small created
    let w' := World.after .small (created ++ actions)
    World.awaitedDelays .small (0, 1) w actions = [500, 500] ∧ w'.reached (0, 1) = 1200 ∧
      w.reached (0, 1) + (World.awaitedDelays .small (0, 1) w actions).sum ≤ w'.reached (0, 1) := by
  intro created actions w w'
  refine ⟨by decide, by decide, ?_⟩
  exact sleeps_add_up (.after .small (by decide)) (World.run_after .small created actions (by decide))
    (by decide) (0, 1)

end SimpleAwait
