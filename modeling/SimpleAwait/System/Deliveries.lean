import SimpleAwait.System.Preservation

/-!
# The way of a value out of a queue

A value that leaves a queue goes to the awaiter of a `receive()` first, and its coroutine gets it
from `await_resume`: at once where it did not suspend, and otherwise when it is resumed.  In between a
slot holds the value.  `Delivery` lists what a step can do to the values of one queue on this way.
-/

namespace SimpleAwait

open Intrusive

variable {N : ℕ} {T : Type} {cfg : Config N} {w w' : World N T} {L : Layout N} {a : Action T}
  {k : ℕ} {s t : Fin N}

namespace Queue

variable {q q' q'' : Queue N T} {b r : ℕ} {v : Option T}

/-- The value in an awaiter's result storage. -/
def result (q : Queue N T) (b : ℕ) : Option (Option T) :=
  if (q.receivers b).hasResult then some (q.receivers b).resultStorage else none

/-- From `q` to `q'` the values `out` are handed out and those of `back` returned, and then the
awaiters have the results `result`. -/
structure Passes (q q' : Queue N T) (out : List (Option ℕ × Option T)) (back : List (ℕ × Option T))
    (result : ℕ → Option (Option T)) : Prop where
  handed : q'.history.handed = q.history.handed ++ out
  returned : q'.history.returned = q.history.returned ++ back
  result : q'.result = result

/-- Nothing passes. -/
abbrev Rests (q q' : Queue N T) : Prop := Passes q q' [] [] q.result

namespace Passes

variable {out out' : List (Option ℕ × Option T)} {back back' : List (ℕ × Option T)}
  {result result' : ℕ → Option (Option T)}

theorem trans (h : q.Passes q' out back result) (h' : q'.Passes q'' out' back' result') :
    q.Passes q'' (out ++ out') (back ++ back') result' where
  handed := by rw [h'.handed, h.handed, List.append_assoc]
  returned := by rw [h'.returned, h.returned, List.append_assoc]
  result := h'.result

theorem rests (h : q.Passes q' out back result) (h' : q'.Rests q'') :
    q.Passes q'' out back result := by
  have hboth := h.trans h'
  rwa [List.append_nil, List.append_nil, h.result] at hboth

end Passes

theorem Rests.passes {out : List (Option ℕ × Option T)} {back : List (ℕ × Option T)}
    {result : ℕ → Option (Option T)} (h : q.Rests q') (h' : q'.Passes q'' out back result) :
    q.Passes q'' out back result := by
  have hboth := h.trans h'
  rwa [List.nil_append, List.nil_append] at hboth

/-- The receive awaiters and what passed before are as they were. -/
theorem Rests.of_eq (hhanded : q'.history.handed = q.history.handed)
    (hreturned : q'.history.returned = q.history.returned)
    (hreceivers : q'.receivers = q.receivers) : q.Rests q' where
  handed := by rw [hhanded, List.append_nil]
  returned := by rw [hreturned, List.append_nil]
  result := by
    funext b
    rw [result, result, hreceivers]

/-! ## The pieces -/

theorem rests_popFrontStorage (q : Queue N T) (cap : ℕ) : q.Rests (q.popFrontStorage cap) :=
  .of_eq rfl rfl rfl

theorem rests_admitOldestSender (q : Queue N T) (cap : ℕ) (c : Scheduler N) :
    q.Rests (q.admitOldestSender cap c).2 := by
  unfold admitOldestSender
  split
  · exact .of_eq rfl rfl rfl
  · exact .of_eq rfl rfl rfl

theorem rests_parkSender (q : Queue N T) (c : Scheduler N) (awaiting : Handle) :
    q.Rests (q.parkSender b c awaiting).2.2 := by
  unfold parkSender
  split
  · exact .of_eq rfl rfl rfl
  · dsimp only
    rw [linkSender_eq]
    exact .of_eq rfl rfl rfl

theorem rests_parkReceiver (q : Queue N T) (c : Scheduler N) (awaiting : Handle) :
    q.Rests (q.parkReceiver b c awaiting).2.2 := by
  unfold parkReceiver
  split
  · exact .of_eq rfl rfl rfl
  · dsimp only
    rw [linkReceiver_eq]
    exact ⟨(List.append_nil _).symm, (List.append_nil _).symm, rfl⟩

/-- A new receive awaiter has no result. -/
theorem rests_newReceiver (hfresh : q.result q.fresh = none) : q.Rests q.newReceiver.2 where
  handed := (List.append_nil _).symm
  returned := (List.append_nil _).symm
  result := by
    funext b
    by_cases hb : b = q.fresh
    · subst hb
      rw [hfresh]
      simp [result, newReceiver, modifyReceiver]
    · simp [result, newReceiver, modifyReceiver, hb]

/-- The awaiter `b` is handed a value. -/
theorem passes_constructResult (q : Queue N T) (b : ℕ) (v : Option T) (source : Option Storage) :
    q.Passes (q.constructResult b v source) [(some b, v)] [] (Function.update q.result b (some v)) where
  handed := rfl
  returned := (List.append_nil _).symm
  result := by
    funext i
    by_cases hi : i = b
    · subst hi
      simp [result, constructResult, modifyReceiver]
    · simp [result, constructResult, modifyReceiver, hi]

theorem rests_recvPopFront (q : Queue N T) (b : ℕ) : q.Rests (q.recvPopFront b) where
  handed := (List.append_nil _).symm
  returned := (List.append_nil _).symm
  result := by
    funext i
    by_cases hi : i = b
    · subst hi
      simp [result, recvPopFront, modifyReceiver]
    · simp [result, recvPopFront, modifyReceiver, hi]

/-- `await_resume` of a receiver that has a result. -/
theorem passes_receiveResume (h : q.result b = some v) :
    q.Passes (q.receiveResume b).2 [] [(b, v)] (Function.update q.result b none) := by
  have hresult : (q.receivers b).hasResult = true := by
    by_contra hnone
    simp [result, hnone] at h
  have hstorage : (q.receivers b).resultStorage = v := by
    simpa [result, hresult] using h
  refine ⟨?_, ?_, ?_⟩
  · simp [receiveResume, hresult, modifyReceiver]
  · simp [receiveResume, hresult, modifyReceiver, hstorage]
  · funext i
    by_cases hi : i = b
    · subst hi
      simp [result, receiveResume, hresult, modifyReceiver]
    · simp [result, receiveResume, hresult, modifyReceiver, hi]

/-! ## Sending and taking -/

/-- A value that is offered goes to the first parked receiver, if there is one. -/
theorem doSend_passes (q : Queue N T) (cap : ℕ) (c : Scheduler N) (v : Option T)
    (source : Option Storage) :
    (∃ r, q.recvHead = some r ∧ q.Passes (q.doSend cap c v source).2.2 [(some r, v)] []
        (Function.update q.result r (some v))) ∨
      q.Rests (q.doSend cap c v source).2.2 := by
  unfold doSend
  split
  · rename_i r hhead
    have hpop := q.rests_recvPopFront r
    have hhand := (q.recvPopFront r).passes_constructResult r v source
    rw [hpop.result] at hhand
    exact Or.inl ⟨r, hhead, hpop.passes hhand⟩
  · right
    split
    · exact .of_eq rfl rfl rfl
    · exact .of_eq rfl rfl rfl

/-- `await_ready` of the receive awaiter `b`. -/
theorem receiveReady_passes (q : Queue N T) (cap : ℕ) (c : Scheduler N) (b : ℕ) :
    q.receiveReady cap b c = (false, c, q) ∨
      ∃ c' q' v, q.receiveReady cap b c = (true, c', q') ∧
        q.Passes q' [(some b, v)] [] (Function.update q.result b (some v)) := by
  unfold receiveReady
  split
  · exact Or.inl rfl
  · right
    have hhand := q.passes_constructResult b (q.cells q.head) (some (.cell q.head))
    have hpop := rests_popFrontStorage (q.constructResult b (q.cells q.head) (some (.cell q.head))) cap
    have hadmission := rests_admitOldestSender
      ((q.constructResult b (q.cells q.head) (some (.cell q.head))).popFrontStorage cap) cap c
    exact ⟨_, _, _, rfl, (hhand.rests hpop).rests hadmission⟩

end Queue

/-! ## What a step does -/

/-- The value of queue `q` that the coroutine of slot `t` has been handed and not resumed with. -/
def World.held (w : World N T) (q : ℕ) (t : Fin N) : List (Option T) :=
  match w.receiving t with
  | none => []
  | some (k, b) => if k = q then ((w.queue q).result b).toList else []

/-- What a step does to the values that queue `q` has handed out, those that `receive()` has
returned and those that are held. -/
inductive Delivery (q : ℕ) (w : World N T) : Action T → World N T → Prop
  | still {a : Action T} {w' : World N T}
      (hhanded : (w'.queue q).history.handed = (w.queue q).history.handed)
      (hreturned : (w'.queue q).history.returned = (w.queue q).history.returned)
      (hheld : w'.held q = w.held q) : Delivery q w a w'
  /-- A value goes to the coroutine of slot `t`, which is parked. -/
  | hand {a : Action T} {w' : World N T} (t : Fin N) (b : ℕ) (v : Option T)
      (hhanded : (w'.queue q).history.handed = (w.queue q).history.handed ++ [(some b, v)])
      (hreturned : (w'.queue q).history.returned = (w.queue q).history.returned)
      (hempty : w.held q t = []) (hheld : w'.held q = Function.update (w.held q) t [v]) :
      Delivery q w a w'
  /-- `tryReceive` takes a value. -/
  | out {w' : World N T} (v : Option T) (hcontrol : w'.control = w.control)
      (hhanded : (w'.queue q).history.handed = (w.queue q).history.handed ++ [(none, v)])
      (hreturned : (w'.queue q).history.returned = (w.queue q).history.returned)
      (hheld : w'.held q = w.held q) : Delivery q w (.tryReceive q) w'
  /-- The running task gets a value without suspension. -/
  | take {w' : World N T} (s : Fin N) (left b : ℕ) (v : Option T)
      (hbefore : w.control = .body s left) (hafter : w'.control = .body s left)
      (hhanded : (w'.queue q).history.handed = (w.queue q).history.handed ++ [(some b, v)])
      (hreturned : (w'.queue q).history.returned = (w.queue q).history.returned ++ [(b, v)])
      (hempty : w.held q s = []) (hheld : w'.held q = w.held q) :
      Delivery q w (.coAwait (.receive q)) w'
  /-- The task in slot `s` is resumed with the value that it was handed. -/
  | resume {w' : World N T} (s : Fin N) (left b : ℕ) (v : Option T)
      (hafter : w'.control = .body s left)
      (hhanded : (w'.queue q).history.handed = (w.queue q).history.handed)
      (hreturned : (w'.queue q).history.returned = (w.queue q).history.returned ++ [(b, v)])
      (hold : w.held q s = [v]) (hheld : w'.held q = Function.update (w.held q) s []) :
      Delivery q w .passPop w'

variable {q : ℕ} {b : ℕ}

theorem World.held_of_receiving (h : w.receiving t = some (q, b)) :
    w.held q t = ((w.queue q).result b).toList := by
  rw [World.held, h]
  exact if_pos rfl

theorem World.held_of_receiving_none (h : w.receiving t = none) : w.held q t = [] := by
  rw [World.held, h]

theorem World.held_eq_nil (h : ∀ b, w.receiving t ≠ some (q, b)) : w.held q t = [] := by
  rw [World.held]
  split
  · rfl
  · rename_i k b hreceiving
    split_ifs with hk
    · subst hk
      exact absurd hreceiving (h b)
    · rfl

/-- What is held depends on what the slots receive and on the results. -/
theorem World.held_congr (hresult : (w'.queue q).result = (w.queue q).result)
    (hreceiving : w'.receiving = w.receiving) : w'.held q = w.held q := by
  funext t
  rw [World.held, World.held, hreceiving, hresult]

namespace Delivery

theorem of_rests (hrests : (w.queue q).Rests (w'.queue q))
    (hreceiving : w'.receiving = w.receiving) : Delivery q w a w' := by
  refine .still ?_ ?_ (World.held_congr hrests.result hreceiving)
  · rw [hrests.handed, List.append_nil]
  · rw [hrests.returned, List.append_nil]

theorem of_eq (hqueue : w'.queue q = w.queue q) (hreceiving : w'.receiving = w.receiving) :
    Delivery q w a w' :=
  .of_rests (by rw [hqueue]; exact .of_eq rfl rfl rfl) hreceiving

end Delivery

/-- A receiver that is parked is in the `receive()` of a slot, and has no result. -/
theorem Core.exists_receiving (h : Core cfg w L) {r : ℕ} (hhead : (w.queue q).recvHead = some r) :
    ∃ t, w.receiving t = some (q, r) ∧ (w.queue q).result r = none := by
  have hmem : r ∈ L.receivers q := (h.channel q).recv.head_mem hhead
  obtain ⟨t, ht⟩ := (h.receivers q).slot r hmem
  have hplace := ((h.receivers q).place r t).mp ⟨hmem, ht⟩
  refine ⟨t, h.receiving.parked t q r hplace, ?_⟩
  rw [Queue.result, if_neg]
  rw [((h.channel q).results.parked r hmem).1]
  exact Bool.false_ne_true

/-- A value is handed to the receiver that slot `t` is in. -/
theorem Core.held_hand (h : Core cfg w L) {r : ℕ} {v : Option T} (ht : w.receiving t = some (q, r))
    (hresult : (w'.queue q).result = Function.update (w.queue q).result r (some v))
    (hreceiving : w'.receiving = w.receiving) :
    w'.held q = Function.update (w.held q) t [v] := by
  funext u
  by_cases hu : u = t
  · subst hu
    rw [Function.update_self, World.held_of_receiving (by rw [hreceiving]; exact ht), hresult,
      Function.update_self]
    rfl
  · rw [Function.update_of_ne hu, World.held, World.held, hreceiving]
    cases hb : w.receiving u with
    | none => rfl
    | some x =>
        obtain ⟨k, b⟩ := x
        by_cases hk : k = q
        · subst hk
          have hne : b ≠ r := by
            intro he
            subst he
            exact hu (h.receiving.injective u t _ hb ht)
          simp [hresult, hne]
        · simp [hk]

/-- A send, after which the receivers are as `do_send` leaves them. -/
theorem Core.delivery_doSend (h : Core cfg w L) (queue : Queue N T) (cap : ℕ) (c : Scheduler N)
    (v : Option T) (source : Option Storage) (hbefore : (w.queue q).Rests queue)
    (hhead : queue.recvHead = (w.queue q).recvHead)
    (hafter : (queue.doSend cap c v source).2.2.Rests (w'.queue q))
    (hreceiving : w'.receiving = w.receiving) : Delivery q w a w' := by
  rcases queue.doSend_passes cap c v source with ⟨r, hr, hpasses⟩ | hrests
  · have hall := (hbefore.passes hpasses).rests hafter
    rw [hbefore.result] at hall
    obtain ⟨t, ht, hnone⟩ := h.exists_receiving (hhead.symm.trans hr)
    refine .hand t r v hall.handed ?_ ?_ (h.held_hand ht hall.result hreceiving)
    · rw [hall.returned, List.append_nil]
    · rw [World.held_of_receiving ht, hnone]
      rfl
  · have hall := hbefore.passes (hrests.rests hafter)
    rw [hbefore.result] at hall
    exact .of_rests hall hreceiving

section

variable (w : World N T) (v : T) (r : Bool × World N T) (left : ℕ)

theorem World.afterSend_queue (r : Bool × Scheduler N × Queue N T) :
    (w.afterSend k v r).queue q = if q = k then r.2.2 else w.queue q := by
  unfold World.afterSend
  split <;> simp

theorem World.afterSend_receiving (r : Bool × Scheduler N × Queue N T) :
    (w.afterSend k v r).receiving = w.receiving := by
  unfold World.afterSend
  split <;> rfl

theorem World.afterAwait_queue : (World.afterAwait s left r).queue = r.2.queue := by
  unfold World.afterAwait
  split <;> rfl

theorem World.afterAwait_receiving : (World.afterAwait s left r).receiving = r.2.receiving := by
  unfold World.afterAwait
  split <;> rfl

end

theorem Core.delivery_trySend (h : Core cfg w L) (v : T) : Delivery q w a
    (w.afterSend k v ((w.queue k).trySend (cfg.capacity k) w.sched v)) := by
  by_cases hk : q = k
  · subst hk
    refine h.delivery_doSend (w.queue q) (cfg.capacity q) w.sched (some v) none (.of_eq rfl rfl rfl)
      rfl ?_ (w.afterSend_receiving v _)
    rw [World.afterSend_queue, if_pos rfl]
    exact .of_eq rfl rfl rfl
  · refine .of_eq ?_ (w.afterSend_receiving v _)
    rw [World.afterSend_queue, if_neg hk]

theorem World.delivery_tryReceive (w : World N T) : Delivery q w (.tryReceive k)
    (w.withQueue k ((w.queue k).tryReceive (cfg.capacity k) w.sched).2.1
      ((w.queue k).tryReceive (cfg.capacity k) w.sched).2.2) := by
  by_cases hk : q = k
  · subst hk
    unfold Queue.tryReceive
    split
    · refine .of_eq ?_ rfl
      rw [World.withQueue_queue, if_pos rfl]
    · set v := (w.queue q).cells (w.queue q).head
      set out : Queue N T := (w.queue q).assignOut
      have hadmission := (out.rests_popFrontStorage (cfg.capacity q)).passes
        (Queue.rests_admitOldestSender (out.popFrontStorage (cfg.capacity q)) (cfg.capacity q)
          w.sched)
      have hpasses : (w.queue q).Passes
          ((out.popFrontStorage (cfg.capacity q)).admitOldestSender (cfg.capacity q) w.sched).2
          [(none, v)] [] (w.queue q).result := by
        refine ⟨?_, ?_, ?_⟩
        · rw [hadmission.handed, List.append_nil]
          rfl
        · rw [hadmission.returned]
          rfl
        · exact hadmission.result
      refine .out v rfl ?_ ?_ (World.held_congr ?_ rfl)
      · rw [World.withQueue_queue, if_pos rfl]
        exact hpasses.handed
      · rw [World.withQueue_queue, if_pos rfl, hpasses.returned, List.append_nil]
      · rw [World.withQueue_queue, if_pos rfl]
        exact hpasses.result
  · refine .of_eq ?_ rfl
    rw [World.withQueue_queue, if_neg hk]

theorem World.awaitSend_receiving (w : World N T) (k : ℕ) (v : T) (awaiting : Handle) :
    (w.awaitSend cfg k v awaiting).2.receiving = w.receiving := by
  unfold World.awaitSend
  dsimp only
  split
  · rfl
  · split <;> rfl

/-- `co_await q.send(v)` changes no other queue. -/
theorem World.awaitSend_queue (hk : q ≠ k) (w : World N T) (v : T) (awaiting : Handle) :
    (w.awaitSend cfg k v awaiting).2.queue q = w.queue q := by
  unfold World.awaitSend
  dsimp only
  split
  · simp [hk]
  · split <;> simp [hk]

/-- `co_await q.send(v)`. -/
theorem Core.delivery_awaitSend (h : Core cfg w L) {left : ℕ} (v : T) (awaiting : Handle) :
    Delivery q w a (World.afterAwait s left (w.awaitSend cfg k v awaiting)) := by
  by_cases hk : q = k
  · subst hk
    have hnew : (w.queue q).Rests ((w.queue q).newSender v).2 := .of_eq rfl rfl rfl
    refine h.delivery_doSend ((w.queue q).newSender v).2 (cfg.capacity q) w.sched
      (((w.queue q).newSender v).2.senders ((w.queue q).newSender v).1).value
      (some (.value ((w.queue q).newSender v).1)) hnew rfl ?_ ?_
    · rw [World.afterAwait_queue]
      unfold World.awaitSend
      dsimp only
      split <;> rename_i hready
      · rw [Queue.sendReady] at hready
        rw [hready]
        simp only [World.recordSent_queue, World.withQueue_queue, if_true]
        exact .of_eq rfl rfl rfl
      · rw [Queue.sendReady] at hready
        rw [hready]
        have hpark := Queue.rests_parkSender (b := ((w.queue q).newSender v).1) ‹Queue N T›
          ‹Scheduler N› awaiting
        split <;> rename_i hparked <;> rw [hparked] at hpark
        · simpa using hpark
        · simpa using hpark
    · rw [World.afterAwait_receiving, World.awaitSend_receiving]
  · refine .of_eq ?_ (by rw [World.afterAwait_receiving, World.awaitSend_receiving])
    rw [World.afterAwait_queue, World.awaitSend_queue hk]

/-- `co_await q.receive()` by the running task. -/
theorem Core.delivery_awaitReceive (h : Core cfg w L) (hcurrent : w.sched.current = some s)
    (hs : L.place s = .running) {left : ℕ} (hcontrol : w.control = .body s left) :
    Delivery q w (.coAwait (.receive k))
      (World.afterAwait s left (w.awaitReceive cfg k (w.sched.slots s).handle)) := by
  have hrunning := h.sound.runningIs hcurrent hs
  have hnone : w.receiving s = none := h.receiving.eq_none (by simp [hs])
  have hempty : w.held q s = [] := World.held_eq_nil (by simp [hnone])
  have hfresh : (w.queue k).result (w.queue k).fresh = none := by
    rw [Queue.result, ((h.channel k).results.fresh _ le_rfl).1]
    exact if_neg Bool.false_ne_true
  have hnew := Queue.rests_newReceiver hfresh
  rcases (w.queue k).newReceiver.2.receiveReady_passes (cfg.capacity k) w.sched
    (w.queue k).newReceiver.1 with hready | ⟨c, queue, v, hready, hpasses⟩
  · -- the task parks, with no result yet
    have hpark := Queue.rests_parkReceiver (b := (w.queue k).newReceiver.1)
      (w.queue k).newReceiver.2 w.sched (w.sched.slots s).handle
    have hawait : w.awaitReceive cfg k (w.sched.slots s).handle =
        (true, { w.withQueue k ((w.queue k).newReceiver.2.parkReceiver (w.queue k).newReceiver.1
              w.sched (w.sched.slots s).handle).2.1
            ((w.queue k).newReceiver.2.parkReceiver (w.queue k).newReceiver.1 w.sched
              (w.sched.slots s).handle).2.2 with
          receiving := Function.update w.receiving s (some (k, (w.queue k).newReceiver.1)) }) := by
      simp only [World.awaitReceive, hready, Queue.parkReceiver, hrunning, hcurrent]
    have hall := hnew.passes hpark
    rw [hnew.result] at hall
    have hrests : (w.queue q).Rests
        ((World.afterAwait s left (w.awaitReceive cfg k (w.sched.slots s).handle)).queue q) := by
      rw [World.afterAwait_queue, hawait]
      by_cases hk : q = k
      · subst hk
        simpa using hall
      · simpa [hk] using Queue.Rests.of_eq (q := w.queue q) rfl rfl rfl
    refine .still (by rw [hrests.handed, List.append_nil])
      (by rw [hrests.returned, List.append_nil]) ?_
    funext t
    have hreceiving : (World.afterAwait s left
        (w.awaitReceive cfg k (w.sched.slots s).handle)).receiving =
          Function.update w.receiving s (some (k, (w.queue k).newReceiver.1)) := by
      rw [World.afterAwait_receiving, hawait]
    by_cases ht : t = s
    · subst ht
      rw [hempty, World.held, hreceiving, Function.update_self]
      dsimp only
      split_ifs with hk
      · subst hk
        rw [hrests.result]
        exact congrArg _ hfresh
      · rfl
    · rw [World.held, World.held, hreceiving, Function.update_of_ne ht, hrests.result]
  · -- a value is there, and `await_resume` returns it
    have hresult : queue.result (w.queue k).newReceiver.1 = some v := by
      rw [hpasses.result, Function.update_self]
    have hresume := Queue.passes_receiveResume hresult
    have hall := (hnew.passes hpasses).trans hresume
    have hback : Function.update queue.result (w.queue k).newReceiver.1 none =
        (w.queue k).result := by
      rw [hpasses.result, Function.update_idem, hnew.result]
      exact Function.update_eq_self_iff.mpr hfresh.symm
    rw [hback] at hall
    have hawait : w.awaitReceive cfg k (w.sched.slots s).handle =
        (false, w.withQueue k c (queue.receiveResume (w.queue k).newReceiver.1).2) := by
      simp only [World.awaitReceive, hready]
    rw [hawait]
    by_cases hk : q = k
    · subst hk
      have hqueue : (World.afterAwait s left (false, w.withQueue q c
          (queue.receiveResume (w.queue q).newReceiver.1).2)).queue q =
            (queue.receiveResume (w.queue q).newReceiver.1).2 := by
        rw [World.afterAwait_queue, World.withQueue_queue, if_pos rfl]
      refine .take s left (w.queue q).newReceiver.1 v hcontrol rfl ?_ ?_ hempty
        (World.held_congr ?_ ?_)
      · rw [hqueue, hall.handed]
        rfl
      · rw [hqueue, hall.returned]
        rfl
      · rw [hqueue]
        exact hall.result
      · rw [World.afterAwait_receiving]
        rfl
    · refine .of_eq ?_ (by rw [World.afterAwait_receiving]; rfl)
      rw [World.afterAwait_queue, World.withQueue_queue, if_neg hk]

/-- `resume()` of a task that was parked in a `receive()` runs its `await_resume`. -/
theorem World.resume_of_receiving (hreceiving : w.receiving s = some (k, b)) (c : Scheduler N)
    (left : ℕ) : w.resume s c left =
      { ({ w with sched := c, control := .body s left } : World N T).setQueue k
          ((w.queue k).receiveResume b).2 with
        receiving := Function.update w.receiving s none } := by
  simp only [World.resume, hreceiving]

/-- It has been handed a result. -/
theorem Core.result_of_ready (h : Core cfg w L) (hs : L.place s = .ready)
    (hreceiving : w.receiving s = some (k, b)) : ((w.queue k).receivers b).hasResult = true := by
  rcases h.receiving.held s k b hreceiving with hplace | hready
  · rw [hs] at hplace
    cases hplace
  · exact hready.2

/-- `resume()` of a task that is ready. -/
theorem Core.delivery_resume (h : Core cfg w L) (hs : L.place s = .ready) (c : Scheduler N)
    (left : ℕ) : Delivery q w .passPop (w.resume s c left) := by
  cases hreceiving : w.receiving s with
  | none =>
      refine .of_eq ?_ ?_
      · simp only [World.resume, hreceiving]
      · simp only [World.resume, hreceiving]
  | some x =>
      obtain ⟨k, b⟩ := x
      have hhas := h.result_of_ready hs hreceiving
      have hresult : (w.queue k).result b = some ((w.queue k).receivers b).resultStorage := by
        rw [Queue.result, if_pos hhas]
      have hpasses := Queue.passes_receiveResume hresult
      have hworld := World.resume_of_receiving hreceiving c left
      by_cases hk : q = k
      · subst hk
        have hqueue : (w.resume s c left).queue q = ((w.queue q).receiveResume b).2 := by
          rw [hworld]
          simp [World.setQueue]
        refine .resume s left b ((w.queue q).receivers b).resultStorage (w.resume_control ..)
          ?_ ?_ ?_ ?_
        · rw [hqueue, hpasses.handed, List.append_nil]
        · rw [hqueue, hpasses.returned]
        · rw [World.held_of_receiving hreceiving, hresult]
          rfl
        · funext t
          have hother : (w.resume s c left).receiving = Function.update w.receiving s none := by
            rw [hworld]
          by_cases ht : t = s
          · subst ht
            rw [Function.update_self]
            exact World.held_of_receiving_none (by rw [hother, Function.update_self])
          · rw [Function.update_of_ne ht, World.held, World.held, hother, Function.update_of_ne ht,
              hqueue, hpasses.result]
            cases hb : w.receiving t with
            | none => rfl
            | some x =>
                obtain ⟨k, b'⟩ := x
                by_cases hk : k = q
                · subst hk
                  have hne : b' ≠ b := by
                    intro he
                    subst he
                    exact ht (h.receiving.injective t s _ hb hreceiving)
                  simp [hne]
                · simp [hk]
      · refine .still ?_ ?_ ?_
        · rw [hworld]
          simp [World.setQueue, hk]
        · rw [hworld]
          simp [World.setQueue, hk]
        · funext t
          have hqueue : (w.resume s c left).queue q = w.queue q := by
            rw [hworld]
            simp [World.setQueue, hk]
          have hother : (w.resume s c left).receiving = Function.update w.receiving s none := by
            rw [hworld]
          by_cases ht : t = s
          · subst ht
            have hbefore : w.held q t = [] := by
              apply World.held_eq_nil
              intro b' hb
              rw [hreceiving] at hb
              exact hk (Prod.mk.inj (Option.some.inj hb)).1.symm
            rw [hbefore]
            exact World.held_of_receiving_none (by rw [hother, Function.update_self])
          · rw [World.held, World.held, hother, Function.update_of_ne ht, hqueue]

/-- Awaiting a child leaves the queues alone. -/
theorem World.coAwait_task_queue (w : World N T) (awaiting : Handle) (awaiter : TaskAwaiter) :
    (w.coAwait cfg awaiting (.task awaiter)).2.queue = w.queue := by
  simp only [World.coAwait, apply_ite Prod.snd, apply_ite World.queue, ite_self]

/-- Awaiting an event leaves the queues alone. -/
theorem World.coAwait_event_queue (w : World N T) (awaiting : Handle) (e : ℕ) :
    (w.coAwait cfg awaiting (.event e)).2.queue = w.queue := by
  simp only [World.coAwait, apply_ite Prod.snd, apply_ite World.queue, World.setEvent, ite_self]

/-- An await on something other than a queue leaves the queues alone. -/
theorem Delivery.of_afterAwait {left : ℕ} {r : Bool × World N T} (hqueue : r.2.queue = w.queue)
    (hreceiving : r.2.receiving = w.receiving) : Delivery q w a (World.afterAwait s left r) := by
  apply Delivery.of_eq
  · rw [World.afterAwait_queue, hqueue]
  · rw [World.afterAwait_receiving, hreceiving]

/-- A step does one of these things. -/
theorem Inv.step_delivery (h : Inv cfg w L) (hstep : w.step cfg a = some w') (q : ℕ) :
    Delivery q w a w' := by
  cases World.steps_of_step hstep with
  | poll _ andWait clock =>
      obtain ⟨wake, ⟨-, hpoll⟩ | ⟨-, -, hpoll⟩ | ⟨-, -, hpoll⟩⟩ := w.poll_cases andWait clock <;>
        rw [hpoll] <;> exact .of_eq rfl rfl
  | trySend _ k v => exact h.core.delivery_trySend v
  | tryReceive _ k => exact w.delivery_tryReceive
  | coAwait s left awaitable hcontrol hflag =>
      have hcurrent : w.sched.current = some s := by rw [h.staged.current, hcontrol]; rfl
      have hs : L.place s = .running := (h.staged.running s).mpr (by rw [hcontrol]; rfl)
      cases awaitable with
      | receive k => exact h.core.delivery_awaitReceive hcurrent hs hcontrol
      | send k v => exact h.core.delivery_awaitSend v _
      | yield | delay | unknown => exact .of_afterAwait rfl rfl
      | task awaiter =>
          apply Delivery.of_afterAwait
          · exact w.coAwait_task_queue _ awaiter
          · simp only [World.coAwait, apply_ite Prod.snd, apply_ite World.receiving, ite_self]
      | event e =>
          apply Delivery.of_afterAwait
          · exact w.coAwait_event_queue _ e
          · simp only [World.coAwait, apply_ite Prod.snd, apply_ite World.receiving,
              World.setEvent, ite_self]
      | flag f => exact absurd rfl (hflag f)
  | flagPark s f left => exact .of_afterAwait rfl rfl
  | passPop left w' hcontrol hpops =>
      obtain ⟨s, rest, hready, rfl, -⟩ := h.pops hcontrol hpops
      have hs : L.place s = .ready := by
        apply (h.core.sound.threaded.mem_ready s).mp
        rw [hready]
        exact List.mem_cons_self
      exact h.core.delivery_resume hs _ _
  | endPass _ clock =>
      rcases w.endPass_cases clock with hend | ⟨timeout, hend⟩ <;> rw [hend] <;>
        exact .of_eq rfl rfl
  | _ => exact .of_eq rfl rfl

/-- A slot comes to be in a `receive()` only by awaiting it. -/
theorem Inv.step_receiving (h : Inv cfg w L) (hstep : w.step cfg a = some w') {x : ℕ × ℕ}
    (hx : w'.receiving t = some x) : w.receiving t = some x ∨
      a = .coAwait (.receive x.1) ∧ ∃ left, w.control = .body t left := by
  cases World.steps_of_step hstep with
  | poll _ andWait clock =>
      left
      obtain ⟨wake, ⟨-, hpoll⟩ | ⟨-, -, hpoll⟩ | ⟨-, -, hpoll⟩⟩ := w.poll_cases andWait clock <;>
        rwa [hpoll] at hx
  | trySend _ k v =>
      rw [World.afterSend_receiving] at hx
      exact Or.inl hx
  | coAwait s left awaitable hcontrol hflag =>
      have hcurrent : w.sched.current = some s := by rw [h.staged.current, hcontrol]; rfl
      rw [World.afterAwait_receiving] at hx
      cases awaitable with
      | receive k =>
          change (w.awaitReceive cfg k (w.sched.slots s).handle).2.receiving t = some x at hx
          unfold World.awaitReceive at hx
          dsimp only at hx
          split at hx
          · exact Or.inl hx
          · split at hx
            · rw [hcurrent] at hx
              dsimp only at hx
              by_cases ht : t = s
              · subst ht
                rw [Function.update_self, Option.some.injEq] at hx
                subst hx
                exact Or.inr ⟨rfl, left, hcontrol⟩
              · rw [Function.update_of_ne ht] at hx
                exact Or.inl hx
            · exact Or.inl hx
      | send k v =>
          left
          rwa [World.coAwait, World.awaitSend_receiving] at hx
      | yield | delay | unknown => exact Or.inl hx
      | task awaiter =>
          left
          simpa only [World.coAwait, apply_ite Prod.snd, apply_ite World.receiving, ite_self]
            using hx
      | event e =>
          left
          simpa only [World.coAwait, apply_ite Prod.snd, apply_ite World.receiving, World.setEvent,
            ite_self] using hx
      | flag f => exact absurd rfl (hflag f)
  | flagPark s f left =>
      rw [World.afterAwait_receiving] at hx
      exact Or.inl hx
  | passPop left w' hcontrol hpops =>
      left
      obtain ⟨s, rest, -, rfl, -⟩ := h.pops hcontrol hpops
      unfold World.resume at hx
      dsimp only at hx
      split at hx
      · exact hx
      · dsimp only at hx
        by_cases ht : t = s
        · subst ht
          rw [Function.update_self] at hx
          cases hx
        · rwa [Function.update_of_ne ht] at hx
  | endPass _ clock =>
      left
      rcases w.endPass_cases clock with hend | ⟨timeout, hend⟩ <;> rwa [hend] at hx
  | _ => exact Or.inl hx

end SimpleAwait
