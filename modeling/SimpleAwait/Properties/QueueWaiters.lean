import SimpleAwait.Exchange.Embedding

/-!
# Nobody waits in vain

A task waits on a queue only while its operation could not complete, and each park ends once:
by the operation that completes it, which enqueues the task once, or by the destruction of the
awaiter or of the queue.  An operation enqueues nobody but the waiter whose own it completes, and
the passes of the scheduler enqueue none.
-/

namespace SimpleAwait

open Intrusive Turns

variable {N : ℕ} {T : Type} {cap a : ℕ} {x x' y u v : Exchange N T} {snd rcv snd' rcv' : List ℕ}
  {action : ExchangeAction N T} {t : Fin N × UInt32}

namespace Exchange

/-- The awaiter is in one of the lists of waiters. -/
def Parked (x : Exchange N T) (a : ℕ) : Prop :=
  (x.queue.senders a).linked = true ∨ (x.queue.receivers a).linked = true

instance (x : Exchange N T) (a : ℕ) : Decidable (x.Parked a) := inferInstanceAs (Decidable (_ ∨ _))

/-- In `y` the task `t` is parked in `a`, and since `x` it has not been enqueued. -/
structure Stays (x y : Exchange N T) (a : ℕ) (t : Fin N × UInt32) : Prop where
  parked : y.Parked a
  task : y.task a = some t
  quiet : (enqueuedTasks y.sched.trace).count t = (enqueuedTasks x.sched.trace).count t

/-- The step from `u` to `v` ends the park of the task `t` in `a`. -/
inductive Ends (u : Exchange N T) (a : ℕ) (t : Fin N × UInt32) (action : ExchangeAction N T)
    (v : Exchange N T) : Prop
  /-- A value is asked for, and the first sender gets a cell and is enqueued. -/
  | admitted {target : Option ℕ} (hhead : u.queue.sendHead = some a) (hasks : u.Asks target action)
      (henqueued : enqueuedTasks v.sched.trace = enqueuedTasks u.sched.trace ++ [t])
  /-- A value is offered, and the first receiver gets it and is enqueued. -/
  | handed {source : Option ℕ} {value : Option T} (hhead : u.queue.recvHead = some a)
      (hoffers : u.Offers source value action)
      (hresult : (v.queue.receivers a).hasResult = true ∧ (v.queue.receivers a).resultStorage = value)
      (henqueued : enqueuedTasks v.sched.trace = enqueuedTasks u.sched.trace ++ [t])
  /-- The awaiter or the queue is destroyed. -/
  | left (haction : action = .destroyAwaiter a ∨ action = .destroyQueue)
      (henqueued : enqueuedTasks v.sched.trace = enqueuedTasks u.sched.trace)

/-- The step from `x` to `y` enqueues the tasks of the waiters in `woken`, and no other task. -/
def Wakes (x y : Exchange N T) (woken : List ℕ) : Prop :=
  ∃ tasks, woken.map x.task = tasks.map some ∧
    enqueuedTasks y.sched.trace = enqueuedTasks x.sched.trace ++ tasks

theorem Inv.parked_iff (h : Inv cap x snd rcv) : x.Parked a ↔ a ∈ snd ∨ a ∈ rcv :=
  or_congr (h.sendLinked a) (h.recvLinked a)

theorem Stays.refl (hparked : x.Parked a) (htask : x.task a = some t) : x.Stays x a t :=
  ⟨hparked, htask, rfl⟩

/-- The awaiter is still in a list, and the step enqueued nothing. -/
theorem Inv.stays (h : Inv cap x' snd' rcv') (ha : a ∈ snd' ∨ a ∈ rcv')
    (htask : x'.task a = some t)
    (hquiet : enqueuedTasks x'.sched.trace = enqueuedTasks x.sched.trace) : x.Stays x' a t :=
  ⟨h.parked_iff.mpr ha, htask, by rw [hquiet]⟩

/-- A wake of the slot of a parked awaiter enqueues its task. -/
theorem Fair.wakeSlot_self (hfair : Fair x snd rcv) {slot : Option (Fin N)}
    (ha : (a, slot) ∈ x.queue.parks snd rcv) (htask : x.task a = some t) :
    enqueuedTasks (x.sched.wakeSlot slot).trace = enqueuedTasks x.sched.trace ++ [t] := by
  obtain ⟨s, hslot, htask', -⟩ := hfair.tenants.task _ ha
  obtain rfl : slot = some s := hslot
  obtain rfl : x.sched.taskIn s = t := Option.some.inj (htask'.symm.trans htask)
  simp [x.sched.wakeSlot_trace, Scheduler.taskIn]

/-- It enqueues no other task that is parked. -/
theorem Fair.wakeSlot_other (hfair : Fair x snd rcv) {b : ℕ} {slot slot' : Option (Fin N)}
    (hb : (b, slot) ∈ x.queue.parks snd rcv) (ha : (a, slot') ∈ x.queue.parks snd rcv)
    (hab : a ≠ b) (htask : x.task a = some t) :
    (enqueuedTasks (x.sched.wakeSlot slot).trace).count t = (enqueuedTasks x.sched.trace).count t := by
  have hne : slot' ≠ slot := fun he =>
    hab (congrArg Prod.fst (List.inj_on_of_nodup_map hfair.tenants.nodup ha hb he))
  obtain ⟨s, hslot, -, -⟩ := hfair.tenants.task _ hb
  obtain rfl : slot = some s := hslot
  obtain ⟨s', hslot', htask', -⟩ := hfair.tenants.task _ ha
  obtain rfl : slot' = some s' := hslot'
  obtain rfl : x.sched.taskIn s' = t := Option.some.inj (htask'.symm.trans htask)
  have hother : s ≠ s' := fun he => hne (he ▸ rfl)
  simp [x.sched.wakeSlot_trace, Scheduler.taskIn, hother]

/-- A step leaves a parked task alone or ends its park. -/
theorem Fair.park_change (hfair : Fair x snd rcv) (h : Inv cap x snd rcv)
    (hchange : Change cap x snd rcv action x' snd' rcv') (ha : a ∈ snd ∨ a ∈ rcv)
    (htask : x.task a = some t) : x.Stays x' a t ∨ x.Ends a t action x' := by
  have hinv' := h.change hchange
  cases hchange with
  | send v halive => exact Or.inl (hinv'.stays ha htask rfl)
  | receive halive => exact Or.inl (hinv'.stays ha htask rfl)
  | @hand _ _ r _ value _ halive hoffers =>
      -- a receiver is parked, so no sender is; the first receiver is served and the others stay
      have hsnd : snd = [] := (h.waiting halive).one_sided.resolve_right (by simp)
      subst hsnd
      have hmem : a ∈ r :: rcv' := by simpa using ha
      have hpark : (a, (x.queue.receivers a).slot) ∈ x.queue.parks [] (r :: rcv') :=
        Queue.mem_parks.mpr (Or.inr ⟨hmem, rfl⟩)
      by_cases har : a = r
      · subst har
        refine Or.inr (.handed (h.waiting halive).recv.linked.1 hoffers ?_
          (hfair.wakeSlot_self hpark htask))
        simp [Queue.constructResult, Queue.modifyReceiver]
      · have hfirst : (r, (x.queue.receivers r).slot) ∈ x.queue.parks [] (r :: rcv') :=
          Queue.mem_parks.mpr (Or.inr ⟨by simp, rfl⟩)
        have hmem' : a ∈ rcv' := (List.mem_cons.mp hmem).resolve_left har
        exact Or.inl ⟨hinv'.parked_iff.mpr (Or.inr hmem'), htask,
          hfair.wakeSlot_other hfirst hpark har htask⟩
  | store halive hoffers hcount => simp at ha
  | refuse v halive hcount => exact Or.inl (hinv'.stays ha htask rfl)
  | @parkSender _ b s _ halive hstage hcount hcurrent hrunning =>
      -- the awaiter that parks now is not one that is parked already
      have hab : a ≠ b := by
        rintro rfl
        exact h.not_mem_senders (a := a) (by simp [hstage]) (by simpa using ha)
      refine Or.inl (hinv'.stays (Or.inl ?_) ?_ (congrArg _ (x.sched.parked_eq s).2.2))
      · exact List.mem_append_left _ (by simpa using ha)
      · exact (Function.update_of_ne hab ..).trans htask
  | strangeSender halive hstage hcount hrunning =>
      refine Or.inl (hinv'.stays ha htask ?_)
      simp [Scheduler.report]
  | take halive hasks hcount => simp at ha
  | @admitOldest _ s target _ halive hasks hcount =>
      have hmem : a ∈ s :: snd' := by simpa using ha
      have hpark : (a, (x.queue.senders a).slot) ∈ x.queue.parks (s :: snd') [] :=
        Queue.mem_parks.mpr (Or.inl ⟨hmem, rfl⟩)
      by_cases has : a = s
      · subst has
        exact Or.inr (.admitted (h.waiting halive).send.linked.1 hasks
          (hfair.wakeSlot_self hpark htask))
      · have hfirst : (s, (x.queue.senders s).slot) ∈ x.queue.parks (s :: snd') [] :=
          Queue.mem_parks.mpr (Or.inl ⟨by simp, rfl⟩)
        have hmem' : a ∈ snd' := (List.mem_cons.mp hmem).resolve_left has
        exact Or.inl ⟨hinv'.parked_iff.mpr (Or.inl hmem'), htask,
          hfair.wakeSlot_other hfirst hpark has htask⟩
  | nothing halive hcount => exact Or.inl (hinv'.stays ha htask rfl)
  | @parkReceiver _ b s _ halive hstage hcount hcurrent hrunning =>
      have hab : a ≠ b := by
        rintro rfl
        exact h.not_mem_receivers (a := a) (by simp [hstage]) (by simpa using ha)
      refine Or.inl (hinv'.stays (Or.inr ?_) ?_ (congrArg _ (x.sched.parked_eq s).2.2))
      · exact List.mem_append_left _ (by simpa using ha)
      · exact (Function.update_of_ne hab ..).trans htask
  | strangeReceiver halive hstage hcount hrunning =>
      refine Or.inl (hinv'.stays ha htask ?_)
      simp [Scheduler.report]
  | resumeSender hstage hlinked => exact Or.inl (hinv'.stays ha htask rfl)
  | resumeReceiver hstage hlinked => exact Or.inl (hinv'.stays ha htask rfl)
  | destroySender hstage hlinked => exact Or.inl (hinv'.stays ha htask rfl)
  | @unlinkSender pre post _ b halive =>
      by_cases hab : a = b
      · exact Or.inr (.left (Or.inl (by rw [hab])) rfl)
      · refine Or.inl (hinv'.stays (ha.imp_left fun hmem => ?_) htask rfl)
        simpa [hab] using hmem
  | destroyReceiver hstage hlinked => exact Or.inl (hinv'.stays ha htask rfl)
  | @unlinkReceiver _ pre post b halive =>
      by_cases hab : a = b
      · exact Or.inr (.left (Or.inl (by rw [hab])) rfl)
      · refine Or.inl (hinv'.stays (ha.imp_right fun hmem => ?_) htask rfl)
        simpa [hab] using hmem
  | destroyQueue halive =>
      refine Or.inr (.left (Or.inr rfl) ?_)
      obtain ⟨cells, head, history, hdestroy⟩ := (h.waiting halive).destroy_eq x.sched
      simp only [Exchange.destroyQueue, hdestroy]
      split_ifs <;> simp [Scheduler.report]
  | elsewhere change htrace hleaves =>
      -- nobody is parked on a queue that is gone
      have halive : x.alive = true := by
        by_contra hdead
        obtain ⟨rfl, rfl⟩ := h.gone (by simpa using hdead)
        simp at ha
      obtain ⟨slot, hpark⟩ := Queue.exists_park (q := x.queue) ha
      obtain ⟨s, hslot, htask', -⟩ := hfair.tenants.task _ hpark
      obtain rfl : x.sched.taskIn s = t := Option.some.inj (htask'.symm.trans htask)
      have hquiet := (hleaves halive s (h.mem_parkedSlots halive hpark hslot)).2.2
      obtain ⟨obs, hobs⟩ := htrace
      rw [← hobs, List.drop_left] at hquiet
      refine Or.inl ⟨hinv'.parked_iff.mpr ha, htask, ?_⟩
      show (enqueuedTasks (change x.sched).trace).count _ = _
      rw [← hobs, enqueuedTasks_append, List.count_append, List.count_eq_zero.mpr hquiet,
        Nat.add_zero]

/-- A step enqueues nothing. -/
theorem Wakes.none (hquiet : enqueuedTasks y.sched.trace = enqueuedTasks x.sched.trace) :
    x.Wakes y [] :=
  ⟨[], rfl, by rw [hquiet, List.append_nil]⟩

/-- The first waiter is woken. -/
theorem Fair.wakes_first (hfair : Fair x snd rcv) {slot : Option (Fin N)}
    (ha : (a, slot) ∈ x.queue.parks snd rcv) (hsched : y.sched = x.sched.wakeSlot slot) :
    x.Wakes y [a] := by
  obtain ⟨s, -, htask, -⟩ := hfair.tenants.task _ ha
  refine ⟨[x.sched.taskIn s], by simp [htask], ?_⟩
  rw [hsched, hfair.wakeSlot_self ha htask]

/-- A step of the queue or of its awaiters enqueues the waiter whose operation it completes, and no
other task. -/
theorem Fair.change_wakes (hfair : Fair x snd rcv) (h : Inv cap x snd rcv)
    (hchange : Change cap x snd rcv action x' snd' rcv') (haction : action.onQueue = true) :
    x.Wakes x' ((⟨x.queue.count, snd, rcv⟩ : PlainQueue).woken action) := by
  cases hchange with
  | @hand _ _ r _ _ _ halive hoffers =>
      -- a value that is offered wakes the first receiver
      rw [hoffers.woken_eq]
      exact hfair.wakes_first (Queue.mem_parks.mpr (Or.inr ⟨by simp, rfl⟩)) rfl
  | store halive hoffers hcount =>
      rw [hoffers.woken_eq]
      exact .none rfl
  | take halive hasks hcount =>
      rw [hasks.woken_eq]
      exact .none rfl
  | @admitOldest _ s _ _ halive hasks hcount =>
      -- the cell that a taken value leaves wakes the first sender
      rw [hasks.woken_eq]
      exact hfair.wakes_first (Queue.mem_parks.mpr (Or.inl ⟨by simp, rfl⟩)) rfl
  | @parkSender _ _ s => exact .none (congrArg _ (x.sched.parked_eq s).2.2)
  | @parkReceiver _ _ s => exact .none (congrArg _ (x.sched.parked_eq s).2.2)
  | strangeSender | strangeReceiver => exact .none (by simp [Scheduler.report])
  | destroyQueue halive =>
      obtain ⟨cells, head, history, hdestroy⟩ := (h.waiting halive).destroy_eq x.sched
      refine .none ?_
      simp only [Exchange.destroyQueue, hdestroy]
      split_ifs <;> simp [Scheduler.report]
  | elsewhere => cases haction
  | _ => exact .none rfl

/-- Along a run a parked task stays parked, or its park ends in one of the steps. -/
theorem Reachable.park_run (hcap : 0 < cap) (hx : x.Reachable cap)
    {actions : List (ExchangeAction N T)} (hrun : Transition.run (step cap) x actions = some y)
    (hparked : x.Parked a) (htask : x.task a = some t) :
    x.Stays y a t ∨ ∃ before action after u v, actions = before ++ action :: after ∧
      Transition.run (step cap) x before = some u ∧ x.Stays u a t ∧
      u.step cap action = some v ∧ u.Ends a t action v ∧
      Transition.run (step cap) v after = some y := by
  induction actions generalizing x with
  | nil =>
      cases hrun
      exact Or.inl (.refl hparked htask)
  | cons action actions ih =>
      obtain ⟨x', hstep, hrest⟩ := Transition.run_cons.mp hrun
      obtain ⟨snd, rcv, hinv, hfair⟩ := hx.fair hcap
      obtain ⟨snd', rcv', hchange⟩ := hinv.step_change hstep
      rcases hfair.park_change hinv hchange (hinv.parked_iff.mp hparked) htask with hstays | hends
      · rcases ih (hx.succ hstep) hrest hstays.parked hstays.task with
          hlater | ⟨before, last, after, u, v, rfl, hbefore, hlater, hlast, hends, hafter⟩
        · exact Or.inl ⟨hlater.parked, hlater.task, hlater.quiet.trans hstays.quiet⟩
        · refine Or.inr ⟨action :: before, last, after, u, v, rfl, ?_, ?_, hlast, hends, hafter⟩
          · exact Transition.run_cons.mpr ⟨x', hstep, hbefore⟩
          · exact ⟨hlater.parked, hlater.task, hlater.quiet.trans hstays.quiet⟩
      · exact Or.inr ⟨[], action, actions, x, x', rfl, rfl, .refl hparked htask, hstep, hends, hrest⟩

end Exchange

/-- Receivers wait only on an empty queue and senders only on a full one, each line is served in
order, and a park ends by the operation that completes it, which enqueues the task once, or
with the awaiter or the queue.  Nobody else is enqueued, and what the system does outside the queue is
what `elsewhere` allows. -/
theorem waiters_served_once (hcap : 0 < cap) (hx : x.Reachable cap) :
    (x.alive = true → ∃ p, x.queue.Stores p ∧ p.count ≤ cap ∧
        (p.receivers ≠ [] → p.count = 0) ∧ (p.senders ≠ [] → p.count = cap) ∧
        (p.senders = [] ∨ p.receivers = []) ∧
        InTurn x.queue.history.sendParked x.queue.history.sendServed x.sendLeft p.senders ∧
        InTurn x.queue.history.recvParked x.queue.history.recvServed x.recvLeft p.receivers ∧
        ∀ action x', x.step cap action = some x' → action.onQueue = true →
          x.Wakes x' (p.woken action)) ∧
      (x.alive = false → ∀ action x', x.step cap action = some x' → action.onQueue = true →
        x.Wakes x' []) ∧
      (∀ a, x.Parked a → ∃ s, x.task a = some (x.sched.taskIn s) ∧ x.sched.current ≠ some s ∧
        ∀ actions y, Transition.run (Exchange.step cap) x actions = some y →
          x.Stays y a (x.sched.taskIn s) ∨
          ∃ before action after u v, actions = before ++ action :: after ∧
            Transition.run (Exchange.step cap) x before = some u ∧ x.Stays u a (x.sched.taskIn s) ∧
            u.step cap action = some v ∧ u.Ends a (x.sched.taskIn s) action v ∧
            Transition.run (Exchange.step cap) v after = some y) ∧
      ∀ (cfg : Config N) (w : World N T) (q : ℕ), w.Reachable cfg →
        (∃ y, Exchange.Reachable (cfg.capacity q) y ∧ w.Shows q y) ∧
        ∀ y action w', Exchange.Reachable (cfg.capacity q) y → w.Shows q y →
          w.step cfg action = some w' → ∃ actions y', w.Seen w' q action actions ∧
            Transition.run (Exchange.step (cfg.capacity q)) y actions = some y' ∧ w'.Shows q y' := by
  obtain ⟨snd, rcv, hinv, hfair⟩ := hx.fair hcap
  refine ⟨fun halive => ?_, fun hdead action x' hstep haction => ?_, fun a hparked => ?_,
    fun cfg w q hw => ⟨hw.shows q, fun y action w' hy hshows hstep => hshows.step hw hy hstep⟩⟩
  · have hwaiting := hinv.waiting halive
    refine ⟨⟨x.queue.count, snd, rcv⟩, hwaiting.stores, hwaiting.count_le, hwaiting.empty,
      hwaiting.full, hwaiting.one_sided, hfair.senders halive, hfair.receivers halive, ?_⟩
    intro action x' hstep haction
    obtain ⟨snd', rcv', hchange⟩ := hinv.step_change hstep
    exact hfair.change_wakes hinv hchange haction
  · obtain ⟨rfl, rfl⟩ := hinv.gone hdead
    obtain ⟨snd', rcv', hchange⟩ := hinv.step_change hstep
    have hnobody : (⟨x.queue.count, [], []⟩ : PlainQueue).woken action = [] := by
      cases action <;> rfl
    rw [← hnobody]
    exact hfair.change_wakes hinv hchange haction
  · obtain ⟨slot, hpark⟩ := Queue.exists_park (q := x.queue) (hinv.parked_iff.mp hparked)
    obtain ⟨s, -, htask, hcurrent⟩ := hfair.tenants.task _ hpark
    exact ⟨s, htask, hcurrent, fun actions y hrun => hx.park_run hcap hrun hparked htask⟩

/-- A sender parks on a full queue and is admitted by a `tryReceive`. -/
theorem waiters_served_once_small :
    let x : Exchange 2 ℕ := .after 1 [.trySend 5, .send 7, .elsewhere (Scheduler.startNew 1),
      .awaitSend 0 (some 1)]
    x.queue.sendHead = some 0 ∧ x.queue.count = 1 ∧
      (∃ s, x.task 0 = some (x.sched.taskIn s) ∧ x.sched.current ≠ some s) ∧
      ((x.step 1 .tryReceive).map fun y =>
        (y.queue.sendHead, enqueuedTasks (y.sched.trace.drop x.sched.trace.length))) =
          some (none, [(0, 1)]) := by
  intro x
  have hx : x.Reachable 1 := .after (by decide)
  obtain ⟨s, htask, hcurrent, -⟩ := (waiters_served_once Nat.one_pos hx).2.2.1 0 (by decide)
  exact ⟨by decide, by decide, ⟨s, htask, hcurrent⟩, by decide⟩

end SimpleAwait
