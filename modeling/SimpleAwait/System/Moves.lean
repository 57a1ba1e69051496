import SimpleAwait.System.Chronicle
import SimpleAwait.System.Kin

/-!
# The moves of a slot

`Timers` ties the cached `nearest_deadline_` to the armed timers, and `Sound` puts it next
to `Threaded`, `Kin` and `Chronicle`.  Every operation of the scheduler keeps `Sound`, and the lemmas
here are their specifications: each says which slots change place, and in which order they
enter a list.
-/

namespace SimpleAwait

variable {N : ℕ} {c c' : Scheduler N} {ev : ℕ → WaitQueue N} {v : View N} {s : Fin N}

/-! ## The cached nearest deadline -/

/-- `nearest_deadline_` is the smallest deadline of an armed timer, or `UINT64_MAX`. -/
structure Timers (c : Scheduler N) : Prop where
  lower : ∀ s, (c.slots s).state = .waitingTimer → c.nearestDeadline ≤ (c.slots s).deadline
  attained : c.nearestDeadline = tickMax ∨
    ∃ s, (c.slots s).state = .waitingTimer ∧ (c.slots s).deadline = c.nearestDeadline

theorem Timers.congr (h : Timers c) (hnearest : c'.nearestDeadline = c.nearestDeadline)
    (hstate : ∀ s, (c'.slots s).state = .waitingTimer ↔ (c.slots s).state = .waitingTimer)
    (hdeadline : ∀ s, (c'.slots s).deadline = (c.slots s).deadline) : Timers c' where
  lower t ht := by
    rw [hnearest, hdeadline]
    exact h.lower t ((hstate t).mp ht)
  attained := by
    simpa [hnearest, hstate, hdeadline] using h.attained

/-! ## All together -/

/-- The scheduler and the events' wait queues store the view `v` soundly. -/
structure Sound (c : Scheduler N) (ev : ℕ → WaitQueue N) (v : View N) : Prop where
  threaded : Threaded c ev v
  kin : Kin c v.place
  timers : Timers c
  chronicle : Chronicle c

/-- A place off the shared lists of a task that waits for neither child nor timer. -/
structure Place.Plain (p : Place N) : Prop where
  unlinked : p.Unlinked
  active : p.Active
  not_child : ∀ s, p ≠ .child s
  not_timer : p ≠ .timer

theorem Place.plain_running : (running : Place N).Plain := by
  constructor <;> simp [Unlinked, Active]

theorem Place.plain_suspended : (suspended : Place N).Plain := by
  constructor <;> simp [Unlinked, Active]

theorem Place.plain_parked {r : Registration} (hr : ∀ e, r ≠ .event e) :
    (parked r : Place N).Plain := by
  constructor <;> simp [Unlinked, Active, hr]

theorem Sound.state_eq_timer (h : Sound c ev v) :
    (c.slots s).state = .waitingTimer ↔ v.place s = .timer := by
  rw [h.threaded.state]
  exact ⟨Place.eq_timer_of_state, fun hs => by rw [hs, Place.state_timer]⟩

namespace Sound

/-- Writes that the lists, the parents and the timers do not depend on. -/
theorem congr (h : Sound c ev v) (hslots : c'.slots = c.slots)
    (hhead : c'.readyHead = c.readyHead) (htail : c'.readyTail = c.readyTail)
    (hcount : c'.readyCount = c.readyCount) (hactive : c'.activeCount = c.activeCount)
    (hnearest : c'.nearestDeadline = c.nearestDeadline)
    (henqueued : enqueuedTasks c'.trace = enqueuedTasks c.trace)
    (hresumed : resumedTasks c'.trace = resumedTasks c.trace)
    (hlifecycle : lifecycle c'.trace = lifecycle c.trace) : Sound c' ev v where
  threaded := h.threaded.congr hslots hhead htail hcount henqueued hresumed
  kin := h.kin.congr (fun s => by rw [hslots]) hactive
  timers := h.timers.congr hnearest (fun s => by rw [hslots]) fun s => by rw [hslots]
  chronicle := h.chronicle.congr (fun s => by rw [hslots]) (fun s => by rw [hslots])
    (fun s => by rw [hslots]) hlifecycle

theorem state_active (h : Sound c ev v) (hs : (v.place s).Active) :
    (c.slots s).state ≠ .free ∧ (c.slots s).state ≠ .completed := by
  rw [h.threaded.state]
  exact Place.active_iff_state.mp hs

theorem report (h : Sound c ev v) (e : Error) : Sound (c.report e) ev v :=
  h.congr rfl rfl rfl rfl rfl rfl (by simp [Scheduler.report]) (by simp [Scheduler.report])
    (by simp [Scheduler.report])

theorem destroyed (h : Sound c ev v) (frame : Handle) : Sound (c.record (.destroyed frame)) ev v :=
  h.congr rfl rfl rfl rfl rfl rfl (by simp) (by simp) (by simp)

/-- A slot in a plain place is linked into the ready FIFO. -/
theorem enqueue (h : Sound c ev v) (hs : (v.place s).Plain) :
    Sound ((c.setState s .ready).readyPush s) ev (v.enqueue s) where
  threaded := h.threaded.enqueue hs.unlinked rfl
  kin := (h.kin.move hs.not_child (by simp) hs.active (by simp [Place.Active])).congr
    (by simp) (by simp)
  timers := h.timers.congr (by simp) (fun t => by
    by_cases ht : t = s
    · subst ht
      simpa [h.state_eq_timer] using hs.not_timer
    · simp [ht]) (by simp)
  chronicle := h.chronicle.move .ready (h.state_active hs.active) (by simp) (by simp) (by simp) (by simp)

/-- A slot in a plain place goes to another one. -/
theorem move (h : Sound c ev v) {p : Place N} (hs : (v.place s).Plain) (hp : p.Plain) :
    Sound (c.setState s p.state) ev (v.move s p) where
  threaded := h.threaded.move hs.unlinked hp.unlinked rfl
  kin := (h.kin.move hs.not_child hp.not_child hs.active hp.active).congr (by simp) (by simp)
  timers := h.timers.congr (by simp) (fun t => by
    by_cases ht : t = s
    · subst ht
      have hp' : p.state ≠ .waitingTimer := fun he => hp.not_timer (Place.eq_timer_of_state he)
      simp [h.state_eq_timer, hs.not_timer, hp']
    · simp [ht]) (by simp)
  chronicle := h.chronicle.move p.state (h.state_active hs.active) (Place.active_iff_state.mp hp.active)
    (by simp) (by simp) (by simp)

/-- `wake_slot` on a parked slot. -/
theorem wakeSlot (h : Sound c ev v) (hs : (v.place s).Plain) :
    Sound (c.wakeSlot (some s)) ev (v.enqueue s) :=
  h.enqueue hs

/-- The head of the ready FIFO starts to run. -/
theorem run (h : Sound c ev v) {rest : List (Fin N)} (hv : v.ready = s :: rest) :
    Sound ((c.unlinkFront s).enter s) ev (v.run s rest) where
  threaded := (h.threaded.run hv).2
  kin := by
    have hs : v.place s = .ready := (h.threaded.mem_ready s).mp (by simp [hv])
    refine (h.kin.move (s := s) (p := .running) (by simp [hs]) (by simp) ?_ ?_).congr ?_ ?_ <;>
      simp [hs, Place.Active]
  timers := h.timers.congr (by simp) (fun t => by
    have hs : v.place s = .ready := (h.threaded.mem_ready s).mp (by simp [hv])
    by_cases ht : t = s
    · subst ht
      simp [h.state_eq_timer, hs]
    · simp [ht]) (by simp)
  chronicle := by
    have hs : v.place s = .ready := (h.threaded.mem_ready s).mp (by simp [hv])
    exact h.chronicle.move .running (h.state_active (s := s) (by simp [hs, Place.Active])) (by simp)
      (by simp) (by simp) (by simp)

/-- The running slot waits for an event. -/
theorem park (h : Sound c ev v) {e : ℕ} (hs : (v.place s).Plain) :
    Sound ((c.setState s .waitingLocal).waitPush (ev e) s).1
      (Function.update ev e ((c.setState s .waitingLocal).waitPush (ev e) s).2) (v.park s e) where
  threaded := h.threaded.park hs.unlinked
  kin := by
    rw [Scheduler.waitPush_eq]
    exact (h.kin.move hs.not_child (by simp) hs.active (by simp [Place.Active])).congr (by simp) rfl
  timers := by
    rw [Scheduler.waitPush_eq]
    refine h.timers.congr rfl (fun t => ?_) (by simp)
    by_cases ht : t = s
    · subst ht
      simpa [h.state_eq_timer] using hs.not_timer
    · simp [ht]
  chronicle := by
    rw [Scheduler.waitPush_eq]
    exact h.chronicle.move .waitingLocal (h.state_active hs.active) (by simp) (by simp) (by simp) rfl

/-- `pop_front` on event `e`; see `Threaded.unpark`. -/
theorem unpark (h : Sound c ev v) {e : ℕ} {rest : List (Fin N)} {p : Place N}
    (hv : v.waiters e = s :: rest) (hp : p.Plain) (hstate : p.state = .waitingLocal) :
    ∃ q, c.waitPop (ev e) = (some s, c.modify s (fun slot => { slot with next := none }), q) ∧
      Sound (c.modify s fun slot => { slot with next := none }) (Function.update ev e q)
        ((v.setWaiters e rest).move s p) := by
  have hs : v.place s = .parked (.event e) := (h.threaded.mem_waiters e s).mp (by simp [hv])
  obtain ⟨q, hpop, hthreaded⟩ := h.threaded.unpark hv hp.unlinked hstate
  refine ⟨q, hpop, hthreaded, ?_, ?_, ?_⟩
  · refine (h.kin.move (s := s) (p := p) (by simp [hs]) hp.not_child
      (by simp [hs, Place.Active]) hp.active).congr (fun t => ?_) rfl
    by_cases ht : t = s <;> simp [ht]
  · refine h.timers.congr rfl (fun t => ?_) fun t => ?_ <;> by_cases ht : t = s <;> simp [ht]
  · refine h.chronicle.congr (fun t => ?_) (fun t => ?_) (fun t => ?_) rfl <;>
      by_cases ht : t = s <;> simp [ht]

/-- `wake_all` for at most `fuel` waiters, when there are no more. -/
theorem wakeAllLoop {e : ℕ} : ∀ (fuel : ℕ) {c : Scheduler N} {ev : ℕ → WaitQueue N} {v : View N},
    Sound c ev v → (v.waiters e).length ≤ fuel →
      Sound (Scheduler.wakeAllLoop fuel c (ev e)).1
        (Function.update ev e (Scheduler.wakeAllLoop fuel c (ev e)).2)
        ((v.setWaiters e []).enqueueAll (v.waiters e)) := by
  have hempty : ∀ {v : View N}, v.waiters e = [] → v.setWaiters e [] = v := by
    intro v hv
    simp only [View.setWaiters, ← hv, Function.update_eq_self]
  intro fuel
  induction fuel with
  | zero =>
      intro c ev v h hlength
      have hnil : v.waiters e = [] := List.length_eq_zero_iff.mp (by omega)
      rw [hnil, hempty hnil]
      simpa [Scheduler.wakeAllLoop] using h
  | succ fuel ih =>
      intro c ev v h hlength
      cases hv : v.waiters e with
      | nil => simpa [Scheduler.wakeAllLoop, h.threaded.waitPop_of_nil hv, hempty hv] using h
      | cons s rest =>
          -- between the two lists the slot counts as parked on some flag
          have hplain : (.parked (.flag 0) : Place N).Plain := Place.plain_parked (by simp)
          obtain ⟨q, hpop, hpopped⟩ := h.unpark hv hplain rfl
          have hwoken := hpopped.enqueue (s := s) (by simpa using hplain)
          have hview : ((v.setWaiters e rest).move s (.parked (.flag 0))).enqueue s =
              (v.setWaiters e rest).enqueue s := by
            simp [View.enqueue, View.move]
          rw [hview] at hwoken
          have hrest := ih hwoken (by simpa [View.setWaiters, hv] using hlength)
          simpa [Scheduler.wakeAllLoop, hpop, View.setWaiters, View.enqueue, View.move] using hrest

/-- `wake_all` on event `e` moves its waiters, in order, to the ready FIFO. -/
theorem wakeAll (h : Sound c ev v) (e : ℕ) :
    Sound (c.wakeAll (ev e)).1 (Function.update ev e (c.wakeAll (ev e)).2)
      ((v.setWaiters e []).enqueueAll (v.waiters e)) :=
  wakeAllLoop N h (h.threaded.length_waiters_le e)

/-! ### Suspending the running task -/

/-- `yield_current`. -/
theorem yieldCurrent (h : Sound c ev v) (hcurrent : c.current = some s)
    (hs : v.place s = .running) : Sound c.yieldCurrent ev (v.enqueue s) := by
  simp only [Scheduler.yieldCurrent, hcurrent]
  exact h.enqueue (hs ▸ Place.plain_running)

/-- The running task is suspended on a timer. -/
theorem armTimer (h : Sound c ev v) (hs : v.place s = .running) (deadline : Tick) :
    Sound (c.armTimer s deadline) ev (v.move s .timer) := by
  have hrunning : (c.slots s).state = .running := by rw [h.threaded.state, hs, Place.state_running]
  rw [Scheduler.armTimer_eq]
  refine ⟨?_, ?_, ⟨?_, ?_⟩, ?_⟩
  · exact (h.threaded.move (f := fun slot => { slot with deadline := deadline, state := .waitingTimer })
      (p := .timer) (hs ▸ Place.plain_running.unlinked) (by simp [Place.Unlinked]) rfl).congr
      rfl rfl rfl rfl rfl rfl
  · refine (h.kin.move (s := s) (p := .timer) (by simp [hs]) (by simp) (by simp [hs, Place.Active])
      (by simp [Place.Active])).congr (fun t => ?_) rfl
    by_cases ht : t = s <;> simp [ht]
  · intro t ht
    by_cases hts : t = s
    · simp only [hts, Scheduler.modify_slots, if_true]
      grind
    · simp only [Scheduler.modify_slots, hts, if_false] at ht ⊢
      have := h.timers.lower t ht
      grind
  · by_cases hlt : deadline < c.nearestDeadline
    · exact Or.inr ⟨s, by simp, by simp [hlt]⟩
    · simp only [hlt, if_false]
      rcases h.timers.attained with hmax | ⟨t, ht, hattained⟩
      · exact Or.inl hmax
      · have hts : t ≠ s := by
          rintro rfl
          simp [hrunning] at ht
        exact Or.inr ⟨t, by simp [hts, ht], by simp [hts, hattained]⟩
  · refine h.chronicle.move (s := s) .waitingTimer (by simp [hrunning]) (by simp)
      (fun t => ?_) (fun t => ?_) rfl <;> by_cases ht : t = s <;> simp [ht]

/-- `arm_current_timer`: a fair yield for a zero duration or an overflowing deadline, and a
timer otherwise. -/
theorem armCurrentTimer (h : Sound c ev v) (hcurrent : c.current = some s)
    (hs : v.place s = .running) (duration : Tick) :
    Sound (c.armCurrentTimer duration) ev (v.enqueue s) ∨
      Sound (c.armCurrentTimer duration) ev (v.move s .timer) := by
  simp only [Scheduler.armCurrentTimer, hcurrent]
  split_ifs with hzero
  · exact Or.inl (h.yieldCurrent hcurrent hs)
  cases computeDeadline c.now duration with
  | none => exact Or.inl ((h.report .deadlineOverflow).yieldCurrent hcurrent hs)
  | some deadline => exact Or.inr (h.armTimer hs deadline)

/-- What follows a `resume()` that left the coroutine suspended in a place other than
`running`. -/
theorem afterSuspend (h : Sound c ev v) (hs : v.place s ≠ .running) :
    Sound (c.afterSuspend s) ev v := by
  have hstate : (c.slots s).state ≠ .running := by
    rw [h.threaded.state]
    exact fun he => hs (Place.eq_running_of_state he)
  simp only [Scheduler.afterSuspend, hstate, if_false]
  exact h.congr rfl rfl rfl rfl rfl rfl rfl rfl rfl

/-- What follows a `resume()` that registered no wake source. -/
theorem afterSuspend_running (h : Sound c ev v) (hs : v.place s = .running) :
    Sound (c.afterSuspend s) ev (v.move s .suspended) := by
  have hstate : (c.slots s).state = .running := by rw [h.threaded.state, hs, Place.state_running]
  simp only [Scheduler.afterSuspend, hstate, if_true]
  have hc : Sound { c with current := none } ev v :=
    h.congr rfl rfl rfl rfl rfl rfl rfl rfl rfl
  exact hc.move (hs ▸ Place.plain_running) Place.plain_suspended

end Sound

end SimpleAwait
