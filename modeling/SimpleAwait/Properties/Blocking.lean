import SimpleAwait.Properties.AwaitChains
import SimpleAwait.Properties.Events
import SimpleAwait.Properties.Signals
import SimpleAwait.Properties.Sleeping

/-!
# Nobody waits for what has happened

In every reachable world a task that is neither ready nor running is parked where its wait is still
pending: on an event that is clear, as a sender on a queue that is full, as a receiver on a queue that is
empty, on a flag without a signal that nobody will look at, for a deadline ahead of the clock, or for a
child of which the same is true.  So no wakeup is ever lost.
-/

namespace SimpleAwait

open Transition Intrusive

variable {N : ℕ} {T : Type} {cfg : Config N} {w w' : World N T} {L : Layout N} {a : Action T}
  {s t : Fin N}

namespace World

/-- The walk of the armed list is at flag `f`, or the links lead from where it is to `f`. -/
def Ahead (w : World N T) (f : ℕ) : Prop :=
  ∃ prev g l, w.control = .walk prev (some g) ∧ Linked w.flags.armedNext (some g) l ∧ f ∈ l

/-- What a waiter of `r` waits for is still to come.  A signal of an armed flag is about to be noticed:
`s_pending_` is set, or the walk of the armed list comes to it. -/
def Pending (cfg : Config N) (w : World N T) : Registration → Prop
  | .event e => (w.event e).set = false
  | .sender q _ => (w.queue q).count = cfg.capacity q ∧ (w.queue q).recvHead = none
  | .receiver q _ => (w.queue q).count = 0 ∧ (w.queue q).sendHead = none
  | .flag f => (w.flags.flag f).signaled = true →
      w.flags.pending = true ∨ w.Ahead f

/-- The task in slot `s` is queued, runs, or waits for what is still to come, if need be through a chain
of children; or it is `suspended`, its last await having registered no wake source.  Between the sampling
of the clock and `process_due_timers` a deadline may have passed. -/
inductive Accounted (cfg : Config N) (w : World N T) : Fin N → Prop
  | ready {s : Fin N} (hqueued : w.sched.taskIn s ∈ w.sched.readyTasks) : Accounted cfg w s
  | running {s : Fin N} (hrunning : w.control.running = some s) : Accounted cfg w s
  | timer {s : Fin N} (hstate : (w.sched.slots s).state = .waitingTimer)
      (hahead : w.control.polling = false → w.sched.now < (w.sched.slots s).deadline) :
      Accounted cfg w s
  | parked {s : Fin N} (r : Registration) (hregistered : w.Registered s r)
      (hpending : w.Pending cfg r) : Accounted cfg w s
  | suspended {s : Fin N} (hstate : (w.sched.slots s).state = .suspended) : Accounted cfg w s
  | parent {s c : Fin N} (hstate : (w.sched.slots s).state = .waitingChild)
      (hparent : (w.sched.slots c).parent = some s) (hchild : Accounted cfg w c) : Accounted cfg w s

end World

/-! ## Deadlines are ahead -/

/-- But for the time between the sampling of the clock and `process_due_timers`, who sleeps has a
deadline ahead of the clock. -/
def World.DeadlinesAhead (w : World N T) : Prop :=
  w.control.polling = false → ∀ t, (w.sched.slots t).state = .waitingTimer →
    w.sched.now < (w.sched.slots t).deadline

/-- Only the sampling of the clock begins, and only `process_due_timers` ends, the time in which a
deadline may have passed. -/
theorem Control.Moves.polling {c c' : Control N} (h : Control.Moves c a c')
    (hpolling : c'.polling = false) (hstart : a ≠ .startPass) : c.polling = false := by
  cases h with
  | call _ _ | external _ => exact hpolling
  | start => exact absurd rfl hstart
  | poll | nothingPending | walkFirst | walkNext | walkEnd => cases hpolling
  | _ => rfl

theorem Inv.step_deadlinesAhead (h : Inv cfg w L) (hstep : w.step cfg a = some w')
    (hahead : w.DeadlinesAhead) : w'.DeadlinesAhead := by
  intro hpolling t ht
  by_cases hstart : a = .startPass
  · -- what is due has been woken
    subst hstart
    obtain ⟨hdeadline, hstate⟩ := h.startPass_slots hstep t
    have hnow : w'.sched.now = w.sched.now :=
      (h.step_now hstep).resolve_right (by rintro ⟨andWait, hpoll, -⟩; cases hpoll)
    rw [hstate] at ht
    split_ifs at ht with hdue
    rw [hnow, hdeadline]
    by_contra hle
    exact hdue (by simp [Scheduler.isDue, ht, UInt64.not_lt.mp hle])
  · have hnow : w'.sched.now = w.sched.now := by
      refine (h.step_now hstep).resolve_right ?_
      rintro ⟨andWait, rfl, hcontrol⟩
      rw [(h.step_poll hcontrol hstep).1] at hpolling
      cases hpolling
    rw [hnow]
    rcases h.step_asleep hstep ht with hbefore | ⟨left, d, rfl, hcontrol⟩
    · rw [h.step_deadline hstep hbefore]
      exact hahead ((h.step_control hstep).polling hpolling hstart) t hbefore
    · rcases h.await_delay hcontrol hstep with ⟨-, -, hdeadline, hpositive⟩ | ⟨-, hready⟩
      · rw [UInt64.lt_iff_toNat_lt, hdeadline]
        omega
      · rw [hready] at ht
        cases ht

theorem World.Reachable.deadlinesAhead (hw : w.Reachable cfg) : w.DeadlinesAhead := by
  have hall : w.Reachable cfg ∧ w.DeadlinesAhead := by
    refine Transition.Reachable.induction (P := fun u => World.Reachable cfg u ∧ u.DeadlinesAhead) hw
      ⟨.refl, fun _ t ht => by cases ht⟩ ?_
    rintro u a u' ⟨hu, hahead⟩ hstep
    obtain ⟨L, hinv⟩ := hu.inv
    exact ⟨hu.succ hstep, hinv.step_deadlinesAhead hstep hahead⟩
  exact hall.2

/-! ## Registrations are pending -/

/-- The walk comes to the flags that it has not visited. -/
theorem Inv.ahead (h : Inv cfg w L) {f : ℕ} (hf : f ∈ L.unvisited) : w.Ahead f := by
  have hposition := h.position
  cases hcontrol : w.control with
  | walk prev cursor =>
      rw [hcontrol] at hposition
      obtain ⟨g, rest, hunvisited⟩ := List.exists_cons_of_ne_nil (List.ne_nil_of_mem hf)
      have hlinked := h.core.armed.linked
      rw [hunvisited] at hf hlinked
      have hcursor : cursor = some g := by rw [hposition.2, hunvisited, List.head?_cons]
      exact ⟨prev, g, g :: rest, by rw [hcontrol, hcursor], hlinked.suffix, hf⟩
  | _ =>
      rw [hcontrol] at hposition
      rw [show L.unvisited = [] from hposition] at hf
      cases hf

/-- Whoever is parked on a flag is armed, and a signal of its flag is not overlooked. -/
theorem Inv.flag_pending (h : Inv cfg w L) {f : ℕ} (hplace : L.place s = .parked (.flag f)) :
    w.Pending cfg (.flag f) := by
  intro hsignaled
  have harmed : f ∈ L.visited ++ L.unvisited := by
    rw [h.core.armed.mem, (h.core.armed.waiter f s).mpr hplace]
    simp
  rcases List.mem_append.mp harmed with hvisited | hunvisited
  · exact Or.inl (h.signals.heard f (Or.inl hvisited) hsignaled)
  · exact Or.inr (h.ahead hunvisited)

theorem World.Reachable.pending (hw : w.Reachable cfg) (h : Inv cfg w L) {r : Registration}
    (hplace : L.place s = .parked r) : w.Pending cfg r := by
  cases r with
  | event e =>
      have hmem := h.mem_waiters.mpr hplace
      by_contra hpending
      have hset : (w.event e).set = true := by simpa [World.Pending] using hpending
      rw [hw.waiters_eq_nil hset] at hmem
      cases hmem
  | sender q a =>
      have hsenders : L.senders q ≠ [] := List.ne_nil_of_mem (((h.core.senders q).place a s).mpr hplace).1
      have hfull := (h.core.channel q).full hsenders
      refine ⟨hfull, (h.core.channel q).recv.head_eq_none.mpr ?_⟩
      -- a queue with waiters on both sides would be full and empty
      by_contra hreceivers
      have hempty := (h.core.channel q).empty hreceivers
      have := cfg.capacity_pos q
      omega
  | receiver q a =>
      have hreceivers : L.receivers q ≠ [] :=
        List.ne_nil_of_mem (((h.core.receivers q).place a s).mpr hplace).1
      have hempty := (h.core.channel q).empty hreceivers
      refine ⟨hempty, (h.core.channel q).send.head_eq_none.mpr ?_⟩
      by_contra hsenders
      have hfull := (h.core.channel q).full hsenders
      have := cfg.capacity_pos q
      omega
  | flag f => exact h.flag_pending hplace

/-! ## Every task -/

/-- In every reachable world each task that has not completed is in the ready FIFO or runs, or it waits
for what is still to come, or for a child of which the same is true. -/
theorem blocked_for_reason (hw : w.Reachable cfg) (s : Fin N) (hs : w.Active s) :
    w.Accounted cfg s := by
  obtain ⟨L, hinv⟩ := hw.inv
  have hthreaded := hinv.core.sound.threaded
  induction s using hw.parents_acyclic.children_wellFounded.induction with
  | _ s ih =>
    cases hplace : L.place s with
    | free | completed =>
        have hactive := (hinv.core.active_iff s).mp hs
        simp [hplace, Place.Active] at hactive
    | ready =>
        refine .ready ?_
        rw [hthreaded.readyTasks_eq]
        exact List.mem_map_of_mem ((hthreaded.mem_ready s).mpr hplace)
    | running => exact .running ((hinv.staged.running s).mp hplace)
    | timer =>
        have hstate : (w.sched.slots s).state = .waitingTimer := by
          rw [hthreaded.state, hplace]
          rfl
        exact .timer hstate fun hpolling => hw.deadlinesAhead hpolling s hstate
    | parked r =>
        exact .parked r ((hinv.core.registered_iff s r).mpr hplace) (hw.pending hinv hplace)
    | suspended =>
        refine .suspended ?_
        rw [hthreaded.state, hplace]
        rfl
    | child c =>
        have hstate : (w.sched.slots s).state = .waitingChild := by
          rw [hthreaded.state, hplace]
          rfl
        have hparent := (hinv.core.sound.kin.parent c s).mpr hplace
        have hactive := (hinv.core.active_iff c).mpr (hinv.core.sound.kin.alive c s hplace)
        exact .parent hstate hparent (ih c hparent hactive)

/-- A task waits for its child, which is parked on a clear event. -/
theorem blocked_for_reason_small :
    let actions : List (Action ℕ) := [.createTask (some 1), .poll false 0, .checkPending,
      .startPass, .passPop, .coAwait (.task (.ofTask (some 2))), .endPass 0, .poll false 1,
      .checkPending, .startPass, .passPop, .coAwait (.event 0)]
    let w := World.after .small actions
    w.Active 0 ∧ (w.sched.slots 0).state = .waitingChild ∧
      (w.sched.slots 1).state = .waitingLocal ∧ w.Accounted .small 0 := by
  intro actions w
  have hactive : w.Active 0 := by decide
  exact ⟨hactive, by decide, by decide, blocked_for_reason (.after .small (by decide)) 0 hactive⟩

end SimpleAwait
