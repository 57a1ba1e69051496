import SimpleAwait.Exchange.Waiters
import SimpleAwait.Library.Turns

/-!
# The waiters of an exchange are woken in turn

`Fair` follows the waiters into the scheduler.  Whoever parks joins a line, and leaves it when
another operation completes its own or when its frame is destroyed; until then its slot holds
the task that parked, which nothing resumes or enqueues.
-/

namespace SimpleAwait

open Intrusive Turns

variable {N : ℕ} {T : Type}

namespace Scheduler

variable (c : Scheduler N)

@[simp] theorem taskIn_wakeSlot (slot : Option (Fin N)) (s : Fin N) :
    (c.wakeSlot slot).taskIn s = c.taskIn s := by
  cases slot <;> simp [wakeSlot, taskIn]

@[simp] theorem current_wakeSlot (slot : Option (Fin N)) : (c.wakeSlot slot).current = c.current := by
  cases slot <;> simp [wakeSlot]

/-- `wake_slot` enqueues the task in the slot. -/
theorem wakeSlot_trace (s : Fin N) :
    (c.wakeSlot (some s)).trace = c.trace ++ [.enqueued s (c.slots s).generation] := by
  simp [wakeSlot]

/-- What remains of the task that parks. -/
theorem parked_eq {s : Fin N} : ∀ t,
    ((c.setState s .waitingLocal).afterSuspend s).taskIn t = c.taskIn t ∧
      ((c.setState s .waitingLocal).afterSuspend s).current = none ∧
      ((c.setState s .waitingLocal).afterSuspend s).trace = c.trace := by
  intro t
  simp [afterSuspend, taskIn]

end Scheduler

/-! ## The slots of the waiters -/

/-- The parked awaiters, with the slots that they wake. -/
def Queue.parks (q : Queue N T) (snd rcv : List ℕ) : List (ℕ × Option (Fin N)) :=
  snd.map (fun a => (a, (q.senders a).slot)) ++ rcv.map fun a => (a, (q.receivers a).slot)

theorem Queue.parks_congr {q q' : Queue N T} {snd rcv : List ℕ}
    (hsnd : ∀ a ∈ snd, (q'.senders a).slot = (q.senders a).slot)
    (hrcv : ∀ a ∈ rcv, (q'.receivers a).slot = (q.receivers a).slot) :
    q'.parks snd rcv = q.parks snd rcv := by
  unfold Queue.parks
  congr 1
  · exact List.map_congr_left fun a ha => by rw [hsnd a ha]
  · exact List.map_congr_left fun a ha => by rw [hrcv a ha]

theorem Queue.parks_sublist {q : Queue N T} {snd rcv snd' rcv' : List ℕ} (hsnd : snd'.Sublist snd)
    (hrcv : rcv'.Sublist rcv) : (q.parks snd' rcv').Sublist (q.parks snd rcv) :=
  (hsnd.map _).append (hrcv.map _)

theorem Queue.parks_destroyValue (q : Queue N T) (a : ℕ) (snd rcv : List ℕ) :
    (q.destroyValue a).parks snd rcv = q.parks snd rcv := by
  rw [destroyValue_eq]
  rfl

theorem Queue.parks_destroyResult (q : Queue N T) (a : ℕ) (snd rcv : List ℕ) :
    (q.destroyResult a).parks snd rcv = q.parks snd rcv := by
  rw [destroyResult_eq]
  rfl

theorem Queue.mem_parks {q : Queue N T} {snd rcv : List ℕ} {p : ℕ × Option (Fin N)} :
    p ∈ q.parks snd rcv ↔ p.1 ∈ snd ∧ (q.senders p.1).slot = p.2 ∨
      p.1 ∈ rcv ∧ (q.receivers p.1).slot = p.2 := by
  rcases p with ⟨a, slot⟩
  simp only [parks, List.mem_append, List.mem_map, Prod.mk.injEq]
  constructor
  · rintro (⟨b, hb, rfl, hslot⟩ | ⟨b, hb, rfl, hslot⟩)
    · exact Or.inl ⟨hb, hslot⟩
    · exact Or.inr ⟨hb, hslot⟩
  · rintro (⟨ha, hslot⟩ | ⟨ha, hslot⟩)
    · exact Or.inl ⟨a, ha, rfl, hslot⟩
    · exact Or.inr ⟨a, ha, rfl, hslot⟩

theorem Queue.exists_park {q : Queue N T} {snd rcv : List ℕ} {a : ℕ} (ha : a ∈ snd ∨ a ∈ rcv) :
    ∃ slot, (a, slot) ∈ q.parks snd rcv := by
  rcases ha with ha | ha
  · exact ⟨(q.senders a).slot, Queue.mem_parks.mpr (Or.inl ⟨ha, rfl⟩)⟩
  · exact ⟨(q.receivers a).slot, Queue.mem_parks.mpr (Or.inr ⟨ha, rfl⟩)⟩

/-- Each awaiter wakes a slot of its own, which holds the task that parked, suspended. -/
structure Tenants (c : Scheduler N) (task : ℕ → Option (Fin N × UInt32))
    (parks : List (ℕ × Option (Fin N))) : Prop where
  task : ∀ p ∈ parks, ∃ s, p.2 = some s ∧ task p.1 = some (c.taskIn s) ∧ c.current ≠ some s
  nodup : (parks.map Prod.snd).Nodup

namespace Tenants

variable {c c' : Scheduler N} {task task' : ℕ → Option (Fin N × UInt32)} {a : ℕ} {s : Fin N}
  {parks parks' : List (ℕ × Option (Fin N))}

theorem nil : Tenants c task [] := ⟨by simp, List.nodup_nil⟩

/-- Some of the tasks are still parked, and the scheduler has not touched them. -/
theorem sublist (h : Tenants c task parks) (hsub : parks'.Sublist parks)
    (hslots : ∀ p ∈ parks', ∀ s, p.2 = some s →
      c'.taskIn s = c.taskIn s ∧ (c.current ≠ some s → c'.current ≠ some s)) :
    Tenants c' task parks' where
  task p hp := by
    obtain ⟨s, hslot, htask, hcurrent⟩ := h.task p (hsub.subset hp)
    obtain ⟨hsame, hkept⟩ := hslots p hp s hslot
    exact ⟨s, hslot, hsame ▸ htask, hkept hcurrent⟩
  nodup := (hsub.map Prod.snd).nodup h.nodup

/-- Steps of the scheduler that replace no task and start none. -/
theorem calm (h : Tenants c task parks) (hsub : parks'.Sublist parks)
    (hsame : ∀ s, c'.taskIn s = c.taskIn s) (hcurrent : c'.current = c.current ∨ c'.current = none) :
    Tenants c' task parks' := by
  refine h.sublist hsub fun p _ s _ => ⟨hsame s, fun hne => ?_⟩
  rcases hcurrent with hcurrent | hcurrent
  · rwa [hcurrent]
  · simp [hcurrent]

/-- The task that runs parks. -/
theorem park (h : Tenants c task parks) (hnew : ∀ p ∈ parks, p.1 ≠ a) (hcurrent : c.current = some s)
    (hsame : ∀ s, c'.taskIn s = c.taskIn s) (hsuspended : c'.current = none) :
    Tenants c' (Function.update task a (some (c.taskIn s))) (parks ++ [(a, some s)]) where
  task p hp := by
    rcases List.mem_append.mp hp with hp | hp
    · obtain ⟨t, hslot, htask, -⟩ := h.task p hp
      refine ⟨t, hslot, ?_, by simp [hsuspended]⟩
      rw [Function.update_of_ne (hnew p hp), hsame, htask]
    · obtain rfl := List.mem_singleton.mp hp
      exact ⟨s, rfl, by rw [Function.update_self, hsame], by simp [hsuspended]⟩
  nodup := by
    rw [List.map_append, List.nodup_append]
    refine ⟨h.nodup, by simp, fun slot hslot slot' hslot' => ?_⟩
    obtain ⟨p, hp, rfl⟩ := List.mem_map.mp hslot
    obtain ⟨t, hpt, -, hne⟩ := h.task p hp
    simp only [List.map_cons, List.map_nil, List.mem_singleton] at hslot'
    rintro rfl
    rw [hpt] at hslot'
    exact hne (hcurrent.trans hslot'.symm)

end Tenants

/-! ## Fairness -/

namespace Exchange

/-- The lines of the senders and receivers, and the tasks that wait in them. -/
structure Fair (x : Exchange N T) (snd rcv : List ℕ) : Prop where
  senders : x.alive = true →
    InTurn x.queue.history.sendParked x.queue.history.sendServed x.sendLeft snd
  receivers : x.alive = true →
    InTurn x.queue.history.recvParked x.queue.history.recvServed x.recvLeft rcv
  tenants : Tenants x.sched x.task (x.queue.parks snd rcv)

variable {cap : ℕ} {x x' : Exchange N T} {snd rcv snd' rcv' : List ℕ} {action : ExchangeAction N T}

theorem Fair.initial : Fair (Exchange.initial : Exchange N T) [] [] :=
  ⟨fun _ => InTurn.nil, fun _ => InTurn.nil, Tenants.nil⟩

theorem Inv.receiveResume_eq (x : Exchange N T) (a : ℕ) : ∃ receivers returned uses,
    (x.queue.receiveResume a).2 = { x.queue with
      receivers := receivers
      history := { x.queue.history with returned := returned, uses := uses } } ∧
      ∀ b, (receivers b).slot = (x.queue.receivers b).slot := by
  unfold Queue.receiveResume
  dsimp only
  split_ifs with hresult
  · refine ⟨_, _, _, rfl, fun b => ?_⟩
    by_cases hb : b = a <;> simp [Queue.modifyReceiver, hb]
  · exact ⟨_, _, _, rfl, fun _ => rfl⟩

/-- Every outcome moves the lines of the senders and the receivers on. -/
theorem Fair.turns (hfair : Fair x snd rcv) (h : Inv cap x snd rcv)
    (hchange : Change cap x snd rcv action x' snd' rcv') (halive' : x'.alive = true) :
    InTurn x'.queue.history.sendParked x'.queue.history.sendServed x'.sendLeft snd' ∧
      InTurn x'.queue.history.recvParked x'.queue.history.recvServed x'.recvLeft rcv' := by
  cases hchange with
  | send v halive => exact ⟨hfair.senders halive, hfair.receivers halive⟩
  | receive halive => exact ⟨hfair.senders halive, hfair.receivers halive⟩
  | hand halive hoffers => exact ⟨hfair.senders halive, (hfair.receivers halive).serve⟩
  | store halive hoffers hcount => exact ⟨hfair.senders halive, hfair.receivers halive⟩
  | refuse v halive hcount => exact ⟨hfair.senders halive, hfair.receivers halive⟩
  | parkSender halive hstage hcount hcurrent hrunning =>
      rw [Queue.linkSender_eq]
      exact ⟨(hfair.senders halive).join _, hfair.receivers halive⟩
  | strangeSender halive hstage hcount hrunning =>
      exact ⟨hfair.senders halive, hfair.receivers halive⟩
  | @take target _ halive hasks hcount =>
      cases target <;> exact ⟨hfair.senders halive, hfair.receivers halive⟩
  | @admitOldest _ _ target _ halive hasks hcount =>
      cases target <;> exact ⟨(hfair.senders halive).serve, hfair.receivers halive⟩
  | nothing halive hcount => exact ⟨hfair.senders halive, hfair.receivers halive⟩
  | parkReceiver halive hstage hcount hcurrent hrunning =>
      rw [Queue.linkReceiver_eq]
      exact ⟨hfair.senders halive, (hfair.receivers halive).join _⟩
  | strangeReceiver halive hstage hcount hrunning =>
      exact ⟨hfair.senders halive, hfair.receivers halive⟩
  | resumeSender hstage hlinked => exact ⟨hfair.senders halive', hfair.receivers halive'⟩
  | @resumeReceiver _ _ a hstage hlinked =>
      obtain ⟨receivers, returned, uses, hresume, -⟩ := Inv.receiveResume_eq x a
      simp only [Exchange.resumeReceiver, hresume]
      exact ⟨hfair.senders halive', hfair.receivers halive'⟩
  | destroySender hstage hlinked => exact ⟨hfair.senders halive', hfair.receivers halive'⟩
  | unlinkSender halive =>
      rw [Queue.unlinkSender_eq (h.waiting halive).send (h.waiting halive).length_lt_fresh]
      exact ⟨(hfair.senders halive).leave, hfair.receivers halive⟩
  | destroyReceiver hstage hlinked =>
      rw [Queue.destroyResult_eq]
      exact ⟨hfair.senders halive', hfair.receivers halive'⟩
  | unlinkReceiver halive =>
      rw [Queue.destroyResult_eq,
        Queue.unlinkReceiver_eq (h.waiting halive).recv (h.waiting halive).length_lt_fresh']
      exact ⟨hfair.senders halive, (hfair.receivers halive).leave⟩
  | destroyQueue halive => cases halive'
  | elsewhere change htrace hleaves => exact ⟨hfair.senders halive', hfair.receivers halive'⟩

/-! ## What happens to the tasks -/

theorem slot_popReceiver (q : Queue N T) (r b : ℕ) (value : Option T) (source : Option Storage) :
    (((q.recvPopFront r).constructResult r value source).receivers b).slot =
      (q.receivers b).slot := by
  by_cases hb : b = r <;> simp [Queue.constructResult, Queue.recvPopFront, Queue.modifyReceiver, hb]

theorem slot_admitted (x : Exchange N T) (target : Option ℕ) (s b : ℕ) :
    ((x.admitted cap target s).senders b).slot = (x.queue.senders b).slot := by
  by_cases hb : b = s <;> cases target <;>
    simp [admitted, Queue.storeBack, Queue.sendPopFront, Queue.modifySender, Queue.popFrontStorage,
      handedOut, Queue.assignOut, Queue.constructResult, Queue.modifyReceiver, hb]

/-- The slots that `elsewhere` must not touch are those of the waiters. -/
theorem Inv.mem_parkedSlots (h : Inv cap x snd rcv) (halive : x.alive = true)
    {p : ℕ × Option (Fin N)} (hp : p ∈ x.queue.parks snd rcv) {s : Fin N} (hs : p.2 = some s) :
    s ∈ x.queue.parkedSlots := by
  have hwaiting := h.waiting halive
  have hsnd := hwaiting.send.linked.follow_eq
    (hwaiting.send.linked.length_le fun a ha => hwaiting.named a (Or.inl ha))
  have hrcv := hwaiting.recv.linked.follow_eq
    (hwaiting.recv.linked.length_le fun a ha => hwaiting.named a (Or.inr ha))
  simp only [Queue.parkedSlots, hsnd, hrcv, List.mem_append, List.mem_filterMap]
  rcases Queue.mem_parks.mp hp with ⟨ha, hslot⟩ | ⟨ha, hslot⟩
  · exact Or.inl ⟨p.1, ha, hslot.trans hs⟩
  · exact Or.inr ⟨p.1, ha, hslot.trans hs⟩

/-- Every outcome leaves the tasks that stay parked in their slots. -/
theorem Fair.tenants_change (hfair : Fair x snd rcv) (h : Inv cap x snd rcv)
    (hchange : Change cap x snd rcv action x' snd' rcv') :
    Tenants x'.sched x'.task (x'.queue.parks snd' rcv') := by
  have hsame := hfair.tenants
  cases hchange with
  | send v halive =>
      have hparks : (x.queue.newSender v).2.parks snd rcv = x.queue.parks snd rcv := by
        refine Queue.parks_congr (fun a ha => ?_) fun a _ => rfl
        have hne := ((h.waiting halive).named a (Or.inl ha)).ne
        simp [Queue.newSender, Queue.modifySender, hne]
      rwa [hparks]
  | receive halive =>
      have hparks : x.queue.newReceiver.2.parks snd rcv = x.queue.parks snd rcv := by
        refine Queue.parks_congr (fun a _ => rfl) fun a ha => ?_
        have hne := ((h.waiting halive).named a (Or.inr ha)).ne
        simp [Queue.newReceiver, Queue.modifyReceiver, hne]
      rwa [hparks]
  | @hand _ _ r source value _ halive hoffers =>
      have hparks : ((x.queue.recvPopFront r).constructResult r value
          (source.map .value)).parks snd rcv' = x.queue.parks snd rcv' :=
        Queue.parks_congr (fun a _ => rfl) fun a _ => slot_popReceiver x.queue r a value _
      rw [hparks]
      exact hsame.calm (Queue.parks_sublist (List.Sublist.refl _) (List.sublist_cons_self r rcv'))
        (by simp) (Or.inl (by simp))
  | store halive hoffers hcount => exact Tenants.nil
  | refuse v halive hcount => exact hsame
  | @parkSender _ a s _ halive hstage hcount hcurrent hrunning =>
      have ha : a ∉ snd := h.not_mem_senders (by simp [hstage])
      have hparks : (x.queue.linkSender a (some s)).parks (snd ++ [a]) [] =
          x.queue.parks snd [] ++ [(a, some s)] := by
        simp only [Queue.linkSender_eq, Queue.parks, List.map_append, List.map_nil, List.append_nil,
          List.map_cons, if_true]
        congr 1
        refine List.map_congr_left fun b hb => ?_
        have hba : b ≠ a := fun he => ha (he ▸ hb)
        simp [hba]
      rw [hparks]
      refine hsame.park (fun p hp => ?_) hcurrent (fun t => (x.sched.parked_eq t).1)
        (x.sched.parked_eq s).2.1
      rcases Queue.mem_parks.mp hp with ⟨hp, -⟩ | ⟨hp, -⟩
      · exact fun he => ha (he ▸ hp)
      · simp at hp
  | strangeSender halive hstage hcount hrunning =>
      exact hsame.calm (List.Sublist.refl _) (fun _ => rfl) (Or.inl rfl)
  | take halive hasks hcount => exact Tenants.nil
  | @admitOldest _ s target _ halive hasks hcount =>
      have hparks : (x.admitted cap target s).parks snd' [] = x.queue.parks snd' [] :=
        Queue.parks_congr (fun a _ => slot_admitted x target s a) (by simp)
      rw [hparks]
      exact hsame.calm (Queue.parks_sublist (List.sublist_cons_self s snd') (List.Sublist.refl _))
        (by simp) (Or.inl (by simp))
  | nothing halive hcount => exact hsame
  | @parkReceiver _ a s _ halive hstage hcount hcurrent hrunning =>
      have ha : a ∉ rcv := h.not_mem_receivers (by simp [hstage])
      have hparks : (x.queue.linkReceiver a (some s)).parks [] (rcv ++ [a]) =
          x.queue.parks [] rcv ++ [(a, some s)] := by
        simp only [Queue.linkReceiver_eq, Queue.parks, List.map_append, List.map_nil, List.nil_append,
          List.map_cons, if_true]
        congr 1
        refine List.map_congr_left fun b hb => ?_
        have hba : b ≠ a := fun he => ha (he ▸ hb)
        simp [hba]
      rw [hparks]
      refine hsame.park (fun p hp => ?_) hcurrent (fun t => (x.sched.parked_eq t).1)
        (x.sched.parked_eq s).2.1
      rcases Queue.mem_parks.mp hp with ⟨hp, -⟩ | ⟨hp, -⟩
      · simp at hp
      · exact fun he => ha (he ▸ hp)
  | strangeReceiver halive hstage hcount hrunning =>
      exact hsame.calm (List.Sublist.refl _) (fun _ => rfl) (Or.inl rfl)
  | resumeSender hstage hlinked => exact hsame
  | @resumeReceiver _ _ a hstage hlinked =>
      obtain ⟨receivers, returned, uses, hresume, hslots⟩ := Inv.receiveResume_eq x a
      have hparks : (x.queue.receiveResume a).2.parks snd rcv = x.queue.parks snd rcv := by
        rw [hresume]
        exact Queue.parks_congr (fun _ _ => rfl) fun b _ => hslots b
      show Tenants x.sched x.task ((x.queue.receiveResume a).2.parks snd rcv)
      rwa [hparks]
  | @destroySender _ _ a _ hstage hlinked =>
      show Tenants x.sched x.task ((x.queue.destroyValue a).parks snd rcv)
      rwa [Queue.parks_destroyValue]
  | @unlinkSender pre post _ a halive =>
      show Tenants x.sched x.task
        (((x.queue.unlinkSender a).destroyValue a).parks (pre ++ post) rcv)
      rw [Queue.parks_destroyValue, Queue.unlinkSender_eq (h.waiting halive).send
        (h.waiting halive).length_lt_fresh]
      exact hsame.calm (Queue.parks_sublist ((List.sublist_cons_self a post).append_left pre)
        (List.Sublist.refl _)) (fun _ => rfl) (Or.inl rfl)
  | @destroyReceiver _ _ a _ hstage hlinked =>
      show Tenants x.sched x.task ((x.queue.destroyResult a).parks snd rcv)
      rwa [Queue.parks_destroyResult]
  | @unlinkReceiver _ pre post a halive =>
      show Tenants x.sched x.task
        (((x.queue.unlinkReceiver a).destroyResult a).parks snd (pre ++ post))
      rw [Queue.parks_destroyResult, Queue.unlinkReceiver_eq (h.waiting halive).recv
        (h.waiting halive).length_lt_fresh']
      exact hsame.calm (Queue.parks_sublist (List.Sublist.refl _)
        ((List.sublist_cons_self a post).append_left pre)) (fun _ => rfl) (Or.inl rfl)
  | destroyQueue halive => exact Tenants.nil
  | elsewhere change htrace hleaves =>
      refine hsame.sublist (List.Sublist.refl _) fun p hp s hs => ?_
      by_cases halive : x.alive = true
      · have hleft := hleaves halive s (h.mem_parkedSlots halive hp hs)
        exact ⟨hleft.1, fun _ => hleft.2.1⟩
      · obtain ⟨rfl, rfl⟩ := h.gone (by simpa using halive)
        simp [Queue.parks] at hp

theorem Fair.change (hfair : Fair x snd rcv) (h : Inv cap x snd rcv)
    (hchange : Change cap x snd rcv action x' snd' rcv') : Fair x' snd' rcv' :=
  ⟨fun halive' => (hfair.turns h hchange halive').1, fun halive' => (hfair.turns h hchange halive').2,
    hfair.tenants_change h hchange⟩

/-- Every reachable exchange has its waiters in their lines. -/
theorem Reachable.fair (hcap : 0 < cap) (hx : x.Reachable cap) :
    ∃ snd rcv, Inv cap x snd rcv ∧ Fair x snd rcv := by
  refine Transition.Reachable.induction (P := fun y => ∃ snd rcv, Inv cap y snd rcv ∧ Fair y snd rcv)
    hx ⟨_, _, Inv.initial hcap, Fair.initial⟩ ?_
  rintro u action u' ⟨snd, rcv, hinv, hfair⟩ hstep
  obtain ⟨snd', rcv', hchange⟩ := hinv.step_change hstep
  exact ⟨_, _, hinv.change hchange, hfair.change hinv hchange⟩

end Exchange

end SimpleAwait
