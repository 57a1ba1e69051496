import Mathlib.Data.Fintype.Card
import SimpleAwait.Scheduler.Calm

/-!
# Where a slot is

A slot is in one *place* at a time: its scheduler state, refined by the list a waiting
slot is registered on and by the child a parent waits for.  A `View` assigns every slot
its place and lists the slots behind each shared-link list in order.

`Threaded c ev v` says that the scheduler `c` and the wait queues `ev` of the events
store the view `v`: the states are those of the places, and the head, tail and link
pointers thread exactly the listed slots.  `Kin c v` does the same for the parent links
and the count of active slots.  Each list operation moves one slot in the view, and the
lemmas here say which move it makes.
-/

namespace SimpleAwait

open Intrusive

/-- The list, awaiter or flag that a slot in state `waiting_local` is registered on. -/
inductive Registration
  | event (e : ℕ)
  | sender (q a : ℕ)
  | receiver (q a : ℕ)
  | flag (f : ℕ)
  deriving DecidableEq

/-- The place of a slot. -/
inductive Place (N : ℕ)
  | free | ready | running | timer
  /-- Waiting for the child in slot `s`. -/
  | child (s : Fin N)
  | parked (r : Registration)
  | suspended | completed
  deriving DecidableEq

namespace Place

variable {N : ℕ}

/-- The scheduler state of a slot in this place. -/
def state : Place N → State
  | .free => .free
  | .ready => .ready
  | .running => .running
  | .timer => .waitingTimer
  | .child _ => .waitingChild
  | .parked _ => .waitingLocal
  | .suspended => .suspended
  | .completed => .completed

@[simp] theorem state_free : (free : Place N).state = .free := rfl
@[simp] theorem state_ready : (ready : Place N).state = .ready := rfl
@[simp] theorem state_running : (running : Place N).state = .running := rfl
@[simp] theorem state_timer : (timer : Place N).state = .waitingTimer := rfl
@[simp] theorem state_child (s : Fin N) : (child s).state = .waitingChild := rfl
@[simp] theorem state_parked (r : Registration) :
    (parked r : Place N).state = .waitingLocal := rfl
@[simp] theorem state_suspended : (suspended : Place N).state = .suspended := rfl
@[simp] theorem state_completed : (completed : Place N).state = .completed := rfl

/-- The slot is on none of the lists threaded through `next`. -/
def Unlinked (p : Place N) : Prop := p ≠ .ready ∧ ∀ e, p ≠ .parked (.event e)

/-- The slot holds a task: it is neither free nor completed. -/
def Active (p : Place N) : Prop := p ≠ .free ∧ p ≠ .completed

instance (p : Place N) : Decidable p.Active := inferInstanceAs (Decidable (_ ∧ _))

theorem active_iff_state {p : Place N} :
    p.Active ↔ p.state ≠ .free ∧ p.state ≠ .completed := by
  cases p <;> simp [Active, state]

theorem eq_child_of_state {p : Place N} (h : p.state = .waitingChild) : ∃ s, p = .child s := by
  cases p <;> simp_all [state]

theorem eq_parked_of_state {p : Place N} (h : p.state = .waitingLocal) : ∃ r, p = .parked r := by
  cases p <;> simp_all [state]

theorem eq_running_of_state {p : Place N} (h : p.state = .running) : p = .running := by
  cases p <;> simp_all [state]

theorem eq_ready_of_state {p : Place N} (h : p.state = .ready) : p = .ready := by
  cases p <;> simp_all [state]

theorem eq_timer_of_state {p : Place N} (h : p.state = .waitingTimer) : p = .timer := by
  cases p <;> simp_all [state]

end Place

/-- The places of all slots, and the lists threaded through their links. -/
structure View (N : ℕ) where
  place : Fin N → Place N
  ready : List (Fin N)
  waiters : ℕ → List (Fin N)

namespace View

variable {N : ℕ} (v : View N)

/-- Slot `s` goes to place `p`. -/
def move (s : Fin N) (p : Place N) : View N := { v with place := Function.update v.place s p }

/-- Slot `s` goes to the end of the ready FIFO. -/
def enqueue (s : Fin N) : View N := { v.move s .ready with ready := v.ready ++ [s] }

/-- The slots of `l` go to the end of the ready FIFO, in order. -/
def enqueueAll (l : List (Fin N)) : View N := l.foldl enqueue v

/-- Slot `s` goes to the end of the wait queue of event `e`. -/
def park (s : Fin N) (e : ℕ) : View N :=
  { v.move s (.parked (.event e)) with
    waiters := Function.update v.waiters e (v.waiters e ++ [s]) }

/-- The wait queue of event `e` becomes `l`. -/
def setWaiters (e : ℕ) (l : List (Fin N)) : View N :=
  { v with waiters := Function.update v.waiters e l }

/-- The first ready slot, with `rest` behind it, starts to run. -/
def run (s : Fin N) (rest : List (Fin N)) : View N :=
  { v.move s .running with ready := rest }

@[simp] theorem move_place (s t : Fin N) (p : Place N) :
    (v.move s p).place t = if t = s then p else v.place t := by
  simp [move, Function.update_apply]

@[simp] theorem move_ready (s : Fin N) (p : Place N) : (v.move s p).ready = v.ready := rfl
@[simp] theorem move_waiters (s : Fin N) (p : Place N) : (v.move s p).waiters = v.waiters := rfl
@[simp] theorem enqueue_place (s t : Fin N) :
    (v.enqueue s).place t = if t = s then .ready else v.place t := v.move_place s t _
@[simp] theorem enqueue_ready (s : Fin N) : (v.enqueue s).ready = v.ready ++ [s] := rfl
@[simp] theorem enqueue_waiters (s : Fin N) : (v.enqueue s).waiters = v.waiters := rfl
@[simp] theorem park_place (s t : Fin N) (e : ℕ) :
    (v.park s e).place t = if t = s then .parked (.event e) else v.place t := v.move_place s t _
@[simp] theorem park_ready (s : Fin N) (e : ℕ) : (v.park s e).ready = v.ready := rfl
@[simp] theorem run_place (s t : Fin N) (rest : List (Fin N)) :
    (v.run s rest).place t = if t = s then .running else v.place t := v.move_place s t _
@[simp] theorem run_ready (s : Fin N) (rest : List (Fin N)) : (v.run s rest).ready = rest := rfl
@[simp] theorem run_waiters (s : Fin N) (rest : List (Fin N)) :
    (v.run s rest).waiters = v.waiters := rfl

@[simp] theorem enqueueAll_nil : v.enqueueAll [] = v := rfl
@[simp] theorem enqueueAll_cons (s : Fin N) (l : List (Fin N)) :
    v.enqueueAll (s :: l) = (v.enqueue s).enqueueAll l := rfl

@[simp] theorem enqueueAll_ready (l : List (Fin N)) : (v.enqueueAll l).ready = v.ready ++ l := by
  induction l generalizing v with
  | nil => simp
  | cons s l ih => simp [ih]

@[simp] theorem enqueueAll_waiters (l : List (Fin N)) :
    (v.enqueueAll l).waiters = v.waiters := by
  induction l generalizing v with
  | nil => rfl
  | cons s l ih => simp [ih]

@[simp] theorem enqueueAll_place (l : List (Fin N)) (t : Fin N) :
    (v.enqueueAll l).place t = if t ∈ l then .ready else v.place t := by
  induction l generalizing v with
  | nil => simp
  | cons s l ih =>
      rw [enqueueAll_cons, ih, enqueue_place]
      by_cases ht : t ∈ l <;> by_cases hs : t = s <;> simp [ht, hs]

end View

variable {N : ℕ}

/-- A slot with the generation of the task in it. -/
def Scheduler.taskIn (c : Scheduler N) (s : Fin N) : Fin N × UInt32 := (s, (c.slots s).generation)

/-! ## The lists -/

/-- The scheduler and the wait queues of the events store the view. -/
structure Threaded (c : Scheduler N) (ev : ℕ → WaitQueue N) (v : View N) : Prop where
  state : ∀ s, (c.slots s).state = (v.place s).state
  ready : Fifo c.next c.readyHead c.readyTail v.ready
  count : c.readyCount = v.ready.length
  mem_ready : ∀ s, s ∈ v.ready ↔ v.place s = .ready
  waiters : ∀ e, Fifo c.next (ev e).head (ev e).tail (v.waiters e)
  mem_waiters : ∀ e s, s ∈ v.waiters e ↔ v.place s = .parked (.event e)
  /-- Tasks are resumed in the order in which they were enqueued. -/
  history : enqueuedTasks c.trace = resumedTasks c.trace ++ v.ready.map c.taskIn

namespace Threaded

variable {c c' : Scheduler N} {ev : ℕ → WaitQueue N} {v : View N} {s : Fin N}

theorem congr (h : Threaded c ev v) (hslots : c'.slots = c.slots)
    (hhead : c'.readyHead = c.readyHead) (htail : c'.readyTail = c.readyTail)
    (hcount : c'.readyCount = c.readyCount)
    (henqueued : enqueuedTasks c'.trace = enqueuedTasks c.trace)
    (hresumed : resumedTasks c'.trace = resumedTasks c.trace) : Threaded c' ev v := by
  have hnext : c'.next = c.next := by
    funext s
    simp [Scheduler.next, hslots]
  have htask : c'.taskIn = c.taskIn := by
    funext s
    simp [Scheduler.taskIn, hslots]
  exact {
    state := fun s => by rw [hslots]; exact h.state s
    ready := by rw [hnext, hhead, htail]; exact h.ready
    count := hcount.trans h.count
    mem_ready := h.mem_ready
    waiters := fun e => by rw [hnext]; exact h.waiters e
    mem_waiters := h.mem_waiters
    history := by rw [henqueued, hresumed, htask]; exact h.history }

theorem nodup_ready (h : Threaded c ev v) : v.ready.Nodup := h.ready.linked.nodup

theorem not_mem_ready (h : Threaded c ev v) (hs : (v.place s).Unlinked) : s ∉ v.ready :=
  fun hmem => hs.1 ((h.mem_ready s).mp hmem)

theorem not_mem_waiters (h : Threaded c ev v) (hs : (v.place s).Unlinked) (e : ℕ) :
    s ∉ v.waiters e :=
  fun hmem => hs.2 e ((h.mem_waiters e s).mp hmem)

/-- The ready tail is on no wait queue. -/
theorem readyTail_not_mem_waiters (h : Threaded c ev v) (e : ℕ) {t : Fin N}
    (ht : c.readyTail = some t) : t ∉ v.waiters e := by
  intro hmem
  have hready := (h.mem_ready t).mp (h.ready.tail_mem ht)
  have hparked := (h.mem_waiters e t).mp hmem
  rw [hready] at hparked
  cases hparked

/-- A slot outside the lists moves to another place outside the lists. -/
theorem move (h : Threaded c ev v) {f : Slot N → Slot N} {p : Place N}
    (hs : (v.place s).Unlinked) (hp : p.Unlinked) (hf : (f (c.slots s)).state = p.state) :
    Threaded (c.modify s f) ev (v.move s p) where
  state t := by
    by_cases ht : t = s
    · subst ht
      simpa using hf
    · simpa [ht] using h.state t
  ready := by
    rw [Scheduler.next_modify]
    refine h.ready.congr fun t ht => Function.update_of_ne ?_ ..
    rintro rfl
    exact h.not_mem_ready hs ht
  count := h.count
  mem_ready t := by
    by_cases ht : t = s
    · subst ht
      simpa [h.mem_ready, hs.1] using hp.1
    · simp [h.mem_ready, ht]
  waiters e := by
    rw [Scheduler.next_modify]
    refine (h.waiters e).congr fun t ht => Function.update_of_ne ?_ ..
    rintro rfl
    exact h.not_mem_waiters hs e ht
  mem_waiters e t := by
    by_cases ht : t = s
    · subst ht
      simpa [h.mem_waiters, hs.2] using hp.2 e
    · simp [h.mem_waiters, ht]
  history := by
    have hmap : v.ready.map (c.modify s f).taskIn = v.ready.map c.taskIn := by
      refine List.map_congr_left fun t ht => ?_
      have : t ≠ s := fun hts => h.not_mem_ready hs (hts ▸ ht)
      simp [Scheduler.taskIn, this]
    rw [View.move_ready, hmap]
    exact h.history

/-- A slot outside the lists is linked into the ready FIFO. -/
theorem enqueue (h : Threaded c ev v) {f : Slot N → Slot N} (hs : (v.place s).Unlinked)
    (hf : (f (c.slots s)).state = .ready) :
    Threaded ((c.modify s f).readyPush s) ev (v.enqueue s) where
  state t := by
    by_cases ht : t = s
    · subst ht
      simpa using hf
    · simpa [ht] using h.state t
  ready := by
    have hmem := h.not_mem_ready hs
    have hkept : Fifo (c.modify s f).next c.readyHead c.readyTail v.ready := by
      rw [Scheduler.next_modify]
      refine h.ready.congr fun t ht => Function.update_of_ne ?_ ..
      rintro rfl
      exact hmem ht
    simpa using hkept.push hmem
  count := by simp [h.count]
  mem_ready t := by
    by_cases ht : t = s <;> simp [h.mem_ready, ht]
  waiters e := by
    have hmem := h.not_mem_waiters hs e
    have hkept : Fifo (c.modify s f).next (ev e).head (ev e).tail (v.waiters e) := by
      rw [Scheduler.next_modify]
      refine (h.waiters e).congr fun t ht => Function.update_of_ne ?_ ..
      rintro rfl
      exact hmem ht
    simpa using hkept.push_frame hmem fun t ht => h.readyTail_not_mem_waiters e ht
  mem_waiters e t := by
    by_cases ht : t = s
    · subst ht
      simpa [h.mem_waiters] using hs.2 e
    · simp [h.mem_waiters, ht]
  history := by
    have hmap : v.ready.map ((c.modify s f).readyPush s).taskIn = v.ready.map c.taskIn := by
      refine List.map_congr_left fun t ht => ?_
      have : t ≠ s := fun hts => h.not_mem_ready hs (hts ▸ ht)
      simp [Scheduler.taskIn, this]
    simp [hmap, h.history, Scheduler.taskIn]

/-- The head of the ready FIFO is popped and starts to run. -/
theorem run (h : Threaded c ev v) {rest : List (Fin N)} (hv : v.ready = s :: rest) :
    c.passPop = .resume s ((c.unlinkFront s).enter s) ∧
      Threaded ((c.unlinkFront s).enter s) ev (v.run s rest) := by
  have hfifo : Fifo c.next c.readyHead c.readyTail (s :: rest) := hv ▸ h.ready
  have hhead : c.readyHead = some s := hfifo.linked.1
  have hplace : v.place s = .ready := (h.mem_ready s).mp (by simp [hv])
  have hstate : (c.slots s).state = .ready := by rw [h.state, hplace, Place.state_ready]
  have hnodup : s ∉ rest := (List.nodup_cons.mp hfifo.linked.nodup).1
  have hlinks : ∀ t ≠ s, ((c.unlinkFront s).enter s).next t = c.next t := by
    intro t ht
    rw [Scheduler.enter_next, Scheduler.unlinkFront_next _ ht]
  refine ⟨by simp [Scheduler.passPop, Scheduler.readyPop, hhead, hstate], ?_⟩
  exact {
    state := by
      intro t
      by_cases ht : t = s
      · subst ht
        simp
      · simpa [ht] using h.state t
    ready := by simpa using hfifo.pop hlinks
    count := by simp [h.count, hv]
    mem_ready := by
      intro t
      by_cases ht : t = s
      · subst ht
        simpa using hnodup
      · simpa [hv, ht] using h.mem_ready t
    waiters := by
      intro e
      refine (h.waiters e).congr fun t ht => hlinks t ?_
      rintro rfl
      simpa [hplace] using (h.mem_waiters e t).mp ht
    mem_waiters := by
      intro e t
      by_cases ht : t = s
      · subst ht
        simp [h.mem_waiters, hplace]
      · simp [h.mem_waiters, ht]
    history := by
      have hmap : rest.map ((c.unlinkFront s).enter s).taskIn = rest.map c.taskIn := by
        simp [Scheduler.taskIn]
      simp [hmap, h.history, hv, Scheduler.taskIn] }

/-- The running slot is appended to the wait queue of event `e`. -/
theorem park (h : Threaded c ev v) {e : ℕ} (hs : (v.place s).Unlinked) :
    Threaded ((c.setState s .waitingLocal).waitPush (ev e) s).1
      (Function.update ev e ((c.setState s .waitingLocal).waitPush (ev e) s).2) (v.park s e) := by
  have hmem := h.not_mem_waiters hs
  have hnext : ((c.setState s .waitingLocal).waitPush (ev e) s).1.next =
      pushNext c.next (ev e).tail s := by
    rw [Scheduler.waitPush_eq]
    funext t
    rw [Scheduler.next, Scheduler.setState_next]
  exact {
    state := by
      intro t
      rw [Scheduler.waitPush_eq]
      by_cases ht : t = s
      · subst ht
        simp
      · simpa [ht] using h.state t
    ready := by
      rw [hnext, Scheduler.waitPush_eq]
      refine h.ready.push_frame (h.not_mem_ready hs) fun t ht hready => ?_
      have hparked := (h.mem_waiters e t).mp ((h.waiters e).tail_mem ht)
      rw [(h.mem_ready t).mp hready] at hparked
      cases hparked
    count := by
      rw [Scheduler.waitPush_eq]
      exact h.count
    mem_ready := by
      intro t
      by_cases ht : t = s
      · subst ht
        simpa [h.mem_ready] using hs.1
      · simp [h.mem_ready, ht]
    waiters := by
      intro k
      rw [hnext, Scheduler.waitPush_eq]
      by_cases hk : k = e
      · subst hk
        simpa [View.park] using (h.waiters k).push (hmem k)
      · simp only [View.park, Function.update_of_ne hk]
        refine (h.waiters k).push_frame (hmem k) fun t ht hother => ?_
        have hparked := (h.mem_waiters e t).mp ((h.waiters e).tail_mem ht)
        rw [(h.mem_waiters k t).mp hother] at hparked
        cases hparked
        exact hk rfl
    mem_waiters := by
      intro k t
      by_cases ht : t = s
      · subst ht
        by_cases hk : k = e
        · subst hk
          simp [View.park]
        · simp [View.park, hk, hmem k, Ne.symm hk]
      · by_cases hk : k = e
        · subst hk
          simp [View.park, ht, h.mem_waiters]
        · simp [View.park, hk, ht, h.mem_waiters]
    history := by
      rw [Scheduler.waitPush_eq]
      have hmap : v.ready.map (Scheduler.taskIn { c.setState s .waitingLocal with slots := fun t =>
            { (c.setState s .waitingLocal).slots t with
              next := pushNext (c.setState s .waitingLocal).next (ev e).tail s t } }) =
          v.ready.map c.taskIn := by
        simp [Scheduler.taskIn]
      rw [View.park_ready, hmap]
      exact h.history }

/-- `pop_front` takes the first waiter of event `e` off its list.  Until it is linked
elsewhere the slot counts as being in some place `p` off the lists. -/
theorem unpark (h : Threaded c ev v) {e : ℕ} {rest : List (Fin N)} {p : Place N}
    (hv : v.waiters e = s :: rest) (hp : p.Unlinked) (hstate : p.state = .waitingLocal) :
    ∃ q, c.waitPop (ev e) = (some s, c.modify s (fun slot => { slot with next := none }), q) ∧
      Threaded (c.modify s fun slot => { slot with next := none }) (Function.update ev e q)
        ((v.setWaiters e rest).move s p) := by
  have hfifo : Fifo c.next (ev e).head (ev e).tail (s :: rest) := hv ▸ h.waiters e
  have hhead : (ev e).head = some s := hfifo.linked.1
  have hplace : v.place s = .parked (.event e) := (h.mem_waiters e s).mp (by simp [hv])
  have hnodup : s ∉ rest := (List.nodup_cons.mp hfifo.linked.nodup).1
  have hlinks : ∀ t ≠ s, (c.modify s fun slot => { slot with next := none }).next t = c.next t := by
    intro t ht
    rw [Scheduler.next_modify, Function.update_of_ne ht]
  have htail : (if (c.slots s).next = none then none else (ev e).tail) =
      popTail (c.next s) (ev e).tail := by
    cases hnext : (c.slots s).next <;> simp [Scheduler.next, hnext, popTail]
  refine ⟨⟨c.next s, popTail (c.next s) (ev e).tail⟩, ?_, ?_⟩
  · simp only [Scheduler.waitPop, hhead, htail]
    rfl
  exact {
    state := by
      intro t
      by_cases ht : t = s
      · subst ht
        simp [View.setWaiters, h.state, hplace, hstate]
      · simpa [View.setWaiters, ht] using h.state t
    ready := by
      refine h.ready.congr fun t ht => hlinks t ?_
      rintro rfl
      simpa [hplace] using (h.mem_ready t).mp ht
    count := h.count
    mem_ready := by
      intro t
      by_cases ht : t = s
      · subst ht
        simpa [View.setWaiters, h.mem_ready, hplace] using hp.1
      · simp [View.setWaiters, h.mem_ready, ht]
    waiters := by
      intro k
      by_cases hk : k = e
      · subst hk
        simpa [View.setWaiters] using hfifo.pop hlinks
      · simp only [View.move_waiters, View.setWaiters, Function.update_of_ne hk]
        refine (h.waiters k).congr fun t ht => hlinks t ?_
        rintro rfl
        have hparked := (h.mem_waiters k t).mp ht
        rw [hplace] at hparked
        cases hparked
        exact hk rfl
    mem_waiters := by
      intro k t
      by_cases ht : t = s
      · subst ht
        by_cases hk : k = e
        · subst hk
          simpa [View.setWaiters, hnodup] using hp.2 k
        · have : t ∉ v.waiters k := by
            rw [h.mem_waiters, hplace]
            intro heq
            cases heq
            exact hk rfl
          simpa [View.setWaiters, hk, this] using hp.2 k
      · by_cases hk : k = e
        · subst hk
          have := h.mem_waiters k t
          rw [hv, List.mem_cons] at this
          simpa [View.setWaiters, ht] using this
        · simpa [View.setWaiters, hk, ht] using h.mem_waiters k t
    history := by
      have hmap : v.ready.map (c.modify s fun slot => { slot with next := none }).taskIn =
          v.ready.map c.taskIn := by
        refine List.map_congr_left fun t _ => ?_
        by_cases ht : t = s <;> simp [Scheduler.taskIn, ht]
      simp only [View.move_ready, View.setWaiters, hmap]
      exact h.history }

theorem waitPop_of_nil (h : Threaded c ev v) {e : ℕ} (hv : v.waiters e = []) :
    c.waitPop (ev e) = (none, c, ev e) := by
  have hhead : (ev e).head = none := (h.waiters e).head_eq_none.mpr hv
  simp [Scheduler.waitPop, hhead]

theorem length_waiters_le (h : Threaded c ev v) (e : ℕ) : (v.waiters e).length ≤ N := by
  have := (h.waiters e).linked.nodup.length_le_card
  simpa using this

end Threaded

end SimpleAwait
