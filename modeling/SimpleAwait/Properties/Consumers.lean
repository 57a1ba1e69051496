import SimpleAwait.Library.Logs
import SimpleAwait.Properties.Channels
import SimpleAwait.System.Deliveries
import SimpleAwait.System.Executing

/-!
# What consumers see of a queue

A value may wait on its way to a task: in the ring, with a parked sender, or in the awaiter of a
task that is not resumed yet.  A task still gets the values in the order in which they were sent.  A
task that is the only consumer of a queue gets all of them, up to those that are on their way.
-/

namespace SimpleAwait

open Transition

variable {N : ℕ} {T : Type} {cfg : Config N} {w w' : World N T} {L : Layout N} {a : Action T}
  {q : ℕ} {t : Fin N} {x : Fin N × UInt32} {l : List (Option T)}

/-- What task `x` gets out of queue `q` in a step: what `receive()` returns to it, and what it takes
by `tryReceive`. -/
def World.gets (q : ℕ) (x : Fin N × UInt32) (w : World N T) (_ : Action T) (w' : World N T) :
    List (Option T) :=
  if w'.executes x then
    ((w'.queue q).history.returned.drop (w.queue q).history.returned.length).map Prod.snd ++
      (((w'.queue q).history.handed.drop (w.queue q).history.handed.length).filter
        fun entry => entry.1.isNone).map Prod.snd
  else []

/-- What task `x` gets out of queue `q` in a run, in this order. -/
def World.received (cfg : Config N) (q : ℕ) (x : Fin N × UInt32) (actions : List (Action T)) :
    List (Option T) :=
  written (World.step cfg) (World.gets q x) World.initial actions

/-- The value that task `x` has been handed and not been resumed with. -/
def World.heldFor (w : World N T) (q : ℕ) (x : Fin N × UInt32) : List (Option T) :=
  if w.sched.taskIn x.1 = x then w.held q x.1 else []

theorem World.gets_eq (out : List (Option ℕ × Option T)) (back : List (ℕ × Option T))
    (hhanded : (w'.queue q).history.handed = (w.queue q).history.handed ++ out)
    (hreturned : (w'.queue q).history.returned = (w.queue q).history.returned ++ back) :
    w.gets q x a w' = if w'.executes x then
      back.map Prod.snd ++ (out.filter fun entry => entry.1.isNone).map Prod.snd else [] := by
  rw [World.gets, hhanded, hreturned, List.drop_left, List.drop_left]

/-! ## What slots hold -/

/-- A slot that is in a `receive()` is taken. -/
theorem Inv.taskIn_receiving (h : Inv cfg w L) (hstep : w.step cfg a = some w') {y : ℕ × ℕ}
    (ht : w.receiving t = some y) : w'.sched.taskIn t = w.sched.taskIn t := by
  apply h.taskIn_step hstep
  rcases h.core.receiving.held t y.1 y.2 ht with hplace | ⟨hplace, -⟩ <;> rw [hplace] <;>
    exact ⟨by simp [Place.state], by simp [Place.state]⟩

theorem World.exists_receiving (ht : w.held q t ≠ []) : ∃ b, w.receiving t = some (q, b) := by
  by_contra hnone
  push Not at hnone
  exact ht (World.held_eq_nil hnone)

/-- The slot of a body that executes holds nothing. -/
theorem Inv.heldFor_of_executes (h : Inv cfg w L) (hx : w.executes x = true) :
    w.heldFor q x = [] := by
  obtain ⟨left, hcontrol, -⟩ := World.body_of_executes hx
  have hplace : L.place x.1 = .running := (h.staged.running _).mpr (by rw [hcontrol]; rfl)
  have hnone : w.receiving x.1 = none := h.core.receiving.eq_none (by simp [hplace])
  rw [World.heldFor, World.held_of_receiving_none hnone, ite_self]

@[simp] theorem World.heldFor_taskIn : w.heldFor q (w.sched.taskIn t) = w.held q t := if_pos rfl

/-- The task that is resumed with `v` is the one that held it. -/
theorem Inv.heldFor_resumed (h : Inv cfg w L) (hstep : w.step cfg a = some w') {v : Option T}
    (hold : w.held q t = [v]) (hx : w'.sched.taskIn t = x) : w.heldFor q x = [v] := by
  obtain ⟨b, hb⟩ := World.exists_receiving (w := w) (q := q) (t := t) (by simp [hold])
  rw [← hx, h.taskIn_receiving hstep hb, World.heldFor_taskIn, hold]

/-- What a slot holds for its task changes only with what it holds. -/
theorem Inv.heldFor_congr (h : Inv cfg w L) (hstep : w.step cfg a = some w')
    (hheld : w'.held q x.1 = w.held q x.1) : w'.heldFor q x = w.heldFor q x := by
  rw [World.heldFor, World.heldFor, hheld]
  by_cases hempty : w.held q x.1 = []
  · rw [hempty, ite_self, ite_self]
  · obtain ⟨b, hb⟩ := World.exists_receiving hempty
    rw [h.taskIn_receiving hstep hb]

/-! ## In order -/

/-- What task `x` got, with what it has been handed, is a part of what the queue has handed out. -/
def World.Received (w : World N T) (q : ℕ) (x : Fin N × UInt32) (l : List (Option T)) : Prop :=
  (l ++ w.heldFor q x).Sublist (w.queue q).delivered

/-- The task that executes gets the value that is handed out; the others get nothing. -/
theorem Inv.step_received_now (h : Inv cfg w L) (hstep : w.step cfg a = some w')
    (hl : w.Received q x l) {v : Option T}
    (hdelivered : (w'.queue q).delivered = (w.queue q).delivered ++ [v])
    (hheld : w'.held q = w.held q) : w'.Received q x (l ++ if w'.executes x then [v] else []) := by
  obtain ⟨L', h'⟩ := h.step hstep
  have hsame := h.heldFor_congr hstep (congrFun hheld x.1)
  unfold World.Received at hl ⊢
  rw [hdelivered]
  split_ifs with hx
  · rw [h'.heldFor_of_executes hx] at hsame ⊢
    rw [← hsame, List.append_nil] at hl
    simpa using hl.append_right [v]
  · rw [hsame]
    simpa using hl.trans (List.sublist_append_left _ [v])

theorem Inv.step_received (h : Inv cfg w L) (hstep : w.step cfg a = some w')
    (hl : w.Received q x l) : w'.Received q x (l ++ w.gets q x a w') := by
  obtain ⟨L', h'⟩ := h.step hstep
  cases h.step_delivery hstep q with
  | still hhanded hreturned hheld =>
      rw [World.gets_eq [] [] (by rw [hhanded, List.append_nil])
        (by rw [hreturned, List.append_nil]), World.Received,
        h.heldFor_congr hstep (congrFun hheld _)]
      simpa [World.Received, Queue.delivered, hhanded] using hl
  | hand t b v hhanded hreturned hempty hheld =>
      rw [World.gets_eq _ [] hhanded (by rw [hreturned, List.append_nil])]
      unfold World.Received at hl ⊢
      have hdelivered : (w'.queue q).delivered = (w.queue q).delivered ++ [v] := by
        simp [Queue.delivered, hhanded]
      rw [hdelivered]
      by_cases ht : x.1 = t
      · subst ht
        have hbefore : w.heldFor q x = [] := by rw [World.heldFor, hempty, ite_self]
        have hafter : (w'.heldFor q x).Sublist [v] := by
          rw [World.heldFor, hheld, Function.update_self]
          split_ifs
          · exact List.Sublist.refl _
          · exact List.nil_sublist _
        rw [hbefore, List.append_nil] at hl
        simpa using hl.append hafter
      · have hsame : w'.heldFor q x = w.heldFor q x := by
          apply h.heldFor_congr hstep
          rw [hheld, Function.update_of_ne ht]
        rw [hsame]
        simpa using hl.trans (List.sublist_append_left _ [v])
  | out v hcontrol hhanded hreturned hheld =>
      rw [World.gets_eq _ [] hhanded (by rw [hreturned, List.append_nil])]
      exact h.step_received_now hstep hl (by simp [Queue.delivered, hhanded]) hheld
  | take s left b v hbefore hafter hhanded hreturned hempty hheld =>
      rw [World.gets_eq _ _ hhanded hreturned]
      exact h.step_received_now hstep hl (by simp [Queue.delivered, hhanded]) hheld
  | resume s left b v hafter hhanded hreturned hold hheld =>
      rw [World.gets_eq [] _ (by rw [hhanded, List.append_nil]) hreturned]
      unfold World.Received at hl ⊢
      have hdelivered : (w'.queue q).delivered = (w.queue q).delivered := by
        rw [Queue.delivered, hhanded, Queue.delivered]
      rw [hdelivered]
      split_ifs with hx
      · -- the value passes from the awaiter to the task
        have hfor := h.heldFor_resumed hstep hold ((World.executes_iff hafter).mp hx)
        rw [hfor] at hl
        rw [h'.heldFor_of_executes hx]
        simpa using hl
      · have hsub : (w'.heldFor q x).Sublist (w.heldFor q x) := by
          by_cases hs : x.1 = s
          · rw [World.heldFor, hheld, hs, Function.update_self, ite_self]
            exact List.nil_sublist _
          · rw [h.heldFor_congr hstep (by rw [hheld, Function.update_of_ne hs])]
        simpa using ((List.Sublist.refl l).append hsub).trans hl

/-- Each task gets values of a queue in the order in which they were sent, by `receive()` and by
`tryReceive`, however many other tasks consume them too; the value that it has been handed and not
been resumed with comes next. -/
theorem received_in_order {actions : List (Action T)}
    (hrun : run (World.step cfg) World.initial actions = some w) (q : ℕ) (x : Fin N × UInt32) :
    (World.received cfg q x actions ++ w.heldFor q x).Sublist ((w.sent q).map some) := by
  have hall : w.Reachable cfg ∧ w.Received q x (World.received cfg q x actions) := by
    have halong : Along (World.step cfg) (fun _ _ => True) World.initial actions :=
      .of_forall (fun _ _ => trivial) _ _
    refine Along.written_induction (P := fun u l => World.Reachable cfg u ∧ u.Received q x l) hrun
      halong ⟨.refl, ?_⟩ ?_
    · unfold World.Received
      rw [World.heldFor, World.held_of_receiving_none rfl, ite_self]
      exact List.nil_sublist _
    · intro u a u' l ⟨hu, hl⟩ _ hstep
      obtain ⟨L, hinv⟩ := hu.inv
      exact ⟨hu.succ hstep, hinv.step_received hstep hl⟩
  obtain ⟨hw, hreceived⟩ := hall
  obtain ⟨L, hinv⟩ := hw.inv
  rw [← (hinv.core.channel q).flow, List.append_assoc]
  exact hreceived.trans (List.sublist_append_left _ _)

/-- Three values are sent to two tasks in `receive()`: the first of them has got the first and the
last, and the second has been handed the one between. -/
theorem received_in_order_small :
    let actions : List (Action ℕ) := [.createTask (some 1), .createTask (some 2),
      .createTask (some 3), .poll false 0, .checkPending, .startPass, .passPop,
      .coAwait (.receive 0), .passPop, .coAwait (.receive 0), .passPop, .coAwait (.send 0 7),
      .coAwait (.send 0 8), .coAwait (.send 0 9), .coAwait .yield, .endPass 0, .poll false 0,
      .checkPending, .startPass, .passPop, .coAwait (.receive 0)]
    World.received .small 0 ((0 : Fin 3), 1) actions = [some 7, some 9] ∧
      (World.after .small actions).heldFor 0 ((1 : Fin 3), 1) = [some 8] ∧
      (World.received .small 0 ((1 : Fin 3), 1) actions ++
        (World.after .small actions).heldFor 0 ((1 : Fin 3), 1)).Sublist
          [some 7, some 8, some 9] := by
  intro actions
  refine ⟨by decide, by decide, ?_⟩
  exact received_in_order (World.run_after .small [] actions (by decide)) 0 (1, 1)

/-! ## The only consumer -/

/-- Only task `x` is in a `receive()` of queue `q`. -/
def World.Sole (w : World N T) (q : ℕ) (x : Fin N × UInt32) : Prop :=
  ∀ t b, w.receiving t = some (q, b) → w.sched.taskIn t = x

/-- The action is a call that takes values out of queue `q`. -/
def Action.consumes (q : ℕ) : Action T → Bool
  | .coAwait (.receive k) => k = q
  | .tryReceive k => k = q
  | _ => false

theorem Inv.step_sole (h : Inv cfg w L) (hstep : w.step cfg a = some w') (hsole : w.Sole q x)
    (ha : a.consumes q = true → w.executes x = true) : w'.Sole q x := by
  intro t b ht
  rcases h.step_receiving hstep ht with hbefore | ⟨rfl, left, hcontrol⟩
  · rw [h.taskIn_receiving hstep hbefore]
    exact hsole t b hbefore
  · rw [h.taskIn_control hstep hcontrol]
    exact (World.executes_iff hcontrol).mp (ha (decide_eq_true rfl))

/-- The only consumer gets, or holds, what the queue has handed out. -/
def World.ReceivedAll (w : World N T) (q : ℕ) (x : Fin N × UInt32) (l : List (Option T)) : Prop :=
  (w.queue q).delivered = l ++ w.heldFor q x

/-- The only consumer, which executes, gets the value that is handed out. -/
theorem Inv.step_receivedAll_now (h : Inv cfg w L) (hstep : w.step cfg a = some w')
    (hx : w.executes x = true) (hcontrol : w'.control = w.control) (hl : w.ReceivedAll q x l)
    {v : Option T} (hdelivered : (w'.queue q).delivered = (w.queue q).delivered ++ [v]) :
    w'.ReceivedAll q x (l ++ if w'.executes x then [v] else []) := by
  obtain ⟨L', h'⟩ := h.step hstep
  have hx' := h.executes_step hstep hcontrol hx
  unfold World.ReceivedAll at hl ⊢
  rw [h.heldFor_of_executes hx, List.append_nil] at hl
  rw [if_pos hx', h'.heldFor_of_executes hx', hdelivered, hl, List.append_nil]

theorem Inv.step_receivedAll (h : Inv cfg w L) (hstep : w.step cfg a = some w')
    (hsole : w.Sole q x) (ha : a.consumes q = true → w.executes x = true)
    (hl : w.ReceivedAll q x l) : w'.ReceivedAll q x (l ++ w.gets q x a w') := by
  obtain ⟨L', h'⟩ := h.step hstep
  have hsole' := h.step_sole hstep hsole ha
  cases h.step_delivery hstep q with
  | still hhanded hreturned hheld =>
      unfold World.ReceivedAll at hl ⊢
      rw [World.gets_eq [] [] (by rw [hhanded, List.append_nil])
        (by rw [hreturned, List.append_nil]), h.heldFor_congr hstep (congrFun hheld _)]
      simpa [Queue.delivered, hhanded] using hl
  | hand t b v hhanded hreturned hempty hheld =>
      unfold World.ReceivedAll at hl ⊢
      rw [World.gets_eq _ [] hhanded (by rw [hreturned, List.append_nil])]
      -- the value goes to a `receive()`, and so to the only consumer
      have hafter : w'.held q t = [v] := by rw [hheld, Function.update_self]
      obtain ⟨b', hb'⟩ := World.exists_receiving (w := w') (q := q) (t := t) (by simp [hafter])
      have htask := hsole' t b' hb'
      subst htask
      have hbefore : w.heldFor q (w'.sched.taskIn t) = [] := by
        rw [World.heldFor]
        split_ifs
        · exact hempty
        · rfl
      rw [hbefore, List.append_nil] at hl
      rw [World.heldFor_taskIn, hafter, ← hl]
      simp [Queue.delivered, hhanded]
  | out v hcontrol hhanded hreturned hheld =>
      rw [World.gets_eq _ [] hhanded (by rw [hreturned, List.append_nil])]
      exact h.step_receivedAll_now hstep (ha (decide_eq_true rfl)) hcontrol hl
        (by simp [Queue.delivered, hhanded])
  | take s left b v hbefore hafter hhanded hreturned hempty hheld =>
      rw [World.gets_eq _ _ hhanded hreturned]
      exact h.step_receivedAll_now hstep (ha (decide_eq_true rfl)) (hafter.trans hbefore.symm) hl
        (by simp [Queue.delivered, hhanded])
  | resume s left b v hafter hhanded hreturned hold hheld =>
      unfold World.ReceivedAll at hl ⊢
      rw [World.gets_eq [] _ (by rw [hhanded, List.append_nil]) hreturned]
      obtain ⟨b', hb'⟩ := World.exists_receiving (w := w) (q := q) (t := s) (by simp [hold])
      have htask : w'.sched.taskIn s = x := (h.taskIn_receiving hstep hb').trans (hsole s b' hb')
      have hx : w'.executes x = true := (World.executes_iff hafter).mpr htask
      rw [h.heldFor_resumed hstep hold htask] at hl
      rw [if_pos hx, h'.heldFor_of_executes hx, Queue.delivered, hhanded, ← Queue.delivered, hl]
      simp

/-- Each sender that is parked, and the value that a task holds, take a slot. -/
theorem Inv.parked_le (h : Inv cfg w L) (q : ℕ) (x : Fin N × UInt32) :
    (L.senders q).length + (w.heldFor q x).length ≤ N := by
  have hparked := h.core.senders q
  set slotOf := fun b => ((w.queue q).senders b).slot
  have hnodup : ((L.senders q).map slotOf).Nodup := by
    apply (h.core.channel q).send.linked.nodup.map_on
    intro b hb b' hb' hslot
    obtain ⟨s, hs⟩ := hparked.slot b hb
    have hplace := (hparked.place b s).mp ⟨hb, hs⟩
    rw [(hparked.place b' s).mp ⟨hb', hslot.symm.trans hs⟩] at hplace
    cases hplace
    rfl
  have hnone : none ∉ (L.senders q).map slotOf := by
    intro hmem
    obtain ⟨b, hb, hslot⟩ := List.mem_map.mp hmem
    obtain ⟨s, hs⟩ := hparked.slot b hb
    cases hslot.symm.trans hs
  by_cases hheld : w.held q x.1 = []
  · have hle := (List.nodup_cons.mpr ⟨hnone, hnodup⟩).length_le_card
    rw [List.length_cons, List.length_map, Fintype.card_option, Fintype.card_fin] at hle
    rw [World.heldFor, hheld, ite_self, List.length_nil]
    omega
  · -- the slot that holds the value is parked on no send
    obtain ⟨b, hb⟩ := World.exists_receiving hheld
    have hself : some x.1 ∉ none :: (L.senders q).map slotOf := by
      intro hmem
      obtain ⟨b', hb', hslot⟩ := List.mem_map.mp ((List.mem_cons.mp hmem).resolve_left nofun)
      have hplace := (hparked.place b' x.1).mp ⟨hb', hslot⟩
      rcases h.core.receiving.held x.1 q b hb with hreceiver | ⟨hready, -⟩
      · cases hreceiver.symm.trans hplace
      · cases hready.symm.trans hplace
    have hle := (List.nodup_cons.mpr ⟨hself, List.nodup_cons.mpr ⟨hnone, hnodup⟩⟩).length_le_card
    rw [List.length_cons, List.length_cons, List.length_map, Fintype.card_option,
      Fintype.card_fin] at hle
    have hone : (w.heldFor q x).length ≤ 1 := by
      rw [World.heldFor, World.held_of_receiving hb]
      split_ifs
      · exact Option.length_toList_le
      · exact Nat.zero_le _
    omega

/-- A task that is the only one to take values out of a queue gets exactly what was sent, up to the
value that it has been handed, those in the ring and those of the parked senders; so the producers
are never more than the capacity and the number of tasks ahead of it. -/
theorem sole_consumer_exact {actions : List (Action T)}
    (hrun : run (World.step cfg) World.initial actions = some w)
    (hsole : Along (World.step cfg) (fun u a => a.consumes q = true → u.executes x = true)
      World.initial actions) :
    ∃ senders,
      Intrusive.Fifo (w.queue q).sendNext (w.queue q).sendHead (w.queue q).sendTail senders ∧
      (w.sent q).map some = World.received cfg q x actions ++ w.heldFor q x ++
        (w.queue q).buffered (cfg.capacity q) ++ (w.queue q).heldBy senders ∧
      (w.sent q).length ≤ (World.received cfg q x actions).length + cfg.capacity q + N := by
  have hall : w.Reachable cfg ∧ w.Sole q x ∧
      w.ReceivedAll q x (World.received cfg q x actions) := by
    refine Along.written_induction (P := fun u l => World.Reachable cfg u ∧ u.Sole q x ∧
      u.ReceivedAll q x l) hrun hsole ⟨.refl, ?_, ?_⟩ ?_
    · intro t b ht
      cases ht
    · rw [World.ReceivedAll, World.heldFor, World.held_of_receiving_none rfl, ite_self]
      rfl
    · intro u a u' l ⟨hu, hsole, hl⟩ ha hstep
      obtain ⟨L, hinv⟩ := hu.inv
      exact ⟨hu.succ hstep, hinv.step_sole hstep hsole ha,
        hinv.step_receivedAll hstep hsole ha hl⟩
  obtain ⟨hw, -, hreceived⟩ := hall
  obtain ⟨L, hinv⟩ := hw.inv
  have hchannel := hinv.core.channel q
  have hflow : (w.sent q).map some = World.received cfg q x actions ++ w.heldFor q x ++
      (w.queue q).buffered (cfg.capacity q) ++ (w.queue q).heldBy (L.senders q) := by
    rw [← hreceived]
    exact hchannel.flow.symm
  refine ⟨L.senders q, hchannel.send, hflow, ?_⟩
  have hlength := congrArg List.length hflow
  have hparked := hinv.parked_le q x
  have hcount := hchannel.count_le
  simp only [List.length_map, List.length_append, Queue.heldBy, Queue.buffered,
    Ring.length_contents] at hlength
  omega

/-- A task is resumed with the first of three values and takes the second; the third is in the ring,
in the place of which its sender waited. -/
theorem sole_consumer_exact_small :
    let actions : List (Action ℕ) := [.createTask (some 1), .createTask (some 2), .poll false 0,
      .checkPending, .startPass, .passPop, .coAwait (.receive 0), .passPop, .coAwait (.send 0 7),
      .coAwait (.send 0 8), .coAwait (.send 0 9), .endPass 0, .poll false 0, .checkPending,
      .startPass, .passPop, .tryReceive 0]
    let w : World 3 ℕ := World.after .small actions
    World.received .small 0 ((0 : Fin 3), 1) actions = [some 7, some 8] ∧
      ∃ senders,
        Intrusive.Fifo (w.queue 0).sendNext (w.queue 0).sendHead (w.queue 0).sendTail senders ∧
        (w.sent 0).map some = World.received .small 0 ((0 : Fin 3), 1) actions ++
          w.heldFor 0 ((0 : Fin 3), 1) ++ (w.queue 0).buffered 1 ++ (w.queue 0).heldBy senders ∧
        (w.sent 0).length ≤ (World.received .small 0 ((0 : Fin 3), 1) actions).length + 1 + 3 := by
  intro actions w
  refine ⟨by decide, ?_⟩
  exact sole_consumer_exact (World.run_after .small [] actions (by decide)) (by decide)

end SimpleAwait
