import SimpleAwait.System.Core

/-!
# Queue calls keep the core

The calls of `Queue` by user code and the awaits of the running task, as steps from one
layout to another.  `Quiet` says what every call has in common: it leaves the running slot
and the armed flags alone and only appends to the ready FIFO.
-/

namespace SimpleAwait

variable {N : ℕ} {T : Type} {cfg : Config N} {w : World N T} {L L' L'' : Layout N} {s t : Fin N}

namespace Layout

/-- A call that did not suspend the running task. -/
structure Quiet (L L' : Layout N) : Prop where
  running : ∀ t, L'.place t = .running ↔ L.place t = .running
  ready : L.ready.length ≤ L'.ready.length
  visited : L'.visited = L.visited
  unvisited : L'.unvisited = L.unvisited

/-- An await that suspended the task in slot `s`. -/
structure Suspends (s : Fin N) (L L' : Layout N) : Prop where
  running : ∀ t, L'.place t = .running ↔ L.place t = .running ∧ t ≠ s
  ready : L.ready.length ≤ L'.ready.length
  visited : L'.visited = L.visited
  unvisited : L'.unvisited = L.unvisited

theorem Quiet.refl (L : Layout N) : L.Quiet L := ⟨fun _ => Iff.rfl, le_rfl, rfl, rfl⟩

/-- A slot that was not running is enqueued. -/
theorem Quiet.enqueue (ht : L.place t ≠ .running) (hplace : L'.place = (L.toView.enqueue t).place)
    (hready : L'.ready = (L.toView.enqueue t).ready) (hvisited : L'.visited = L.visited)
    (hunvisited : L'.unvisited = L.unvisited) : L.Quiet L' where
  running u := by
    rw [hplace]
    by_cases hu : u = t
    · subst hu
      simp [ht]
    · simp [hu]
  ready := by simp [hready]
  visited := hvisited
  unvisited := hunvisited

/-- Slot `s` goes from running to another place. -/
theorem Suspends.of_update {p : Place N} (hp : p ≠ .running)
    (hplace : L'.place = Function.update L.place s p) (hready : L.ready.length ≤ L'.ready.length)
    (hvisited : L'.visited = L.visited) (hunvisited : L'.unvisited = L.unvisited) :
    Suspends s L L' where
  running u := by
    rw [hplace]
    by_cases hu : u = s
    · subst hu
      simp [hp]
    · simp [hu]
  ready := hready
  visited := hvisited
  unvisited := hunvisited

end Layout

/-- What a call leaves alone outside the core. -/
structure World.Calls (w w' : World N T) : Prop where
  control : w'.control = w.control
  andWait : w'.andWait = w.andWait
  wake : w'.wake = w.wake
  giving : w'.giving = w.giving
  flags : w'.flags = w.flags
  sched : w.sched.Calm w'.sched

/-- An await by the running task in slot `s`: it completes at once, or the task is suspended
with a wake source. -/
def Awaited (cfg : Config N) (s : Fin N) (w : World N T) (L : Layout N) (r : Bool × World N T) :
    Prop :=
  w.Calls r.2 ∧ ∃ L', Core cfg r.2 L' ∧
    (r.1 = false ∧ L.Quiet L' ∨ r.1 = true ∧ L.Suspends s L')

/-- The check of the awaiting handle succeeds for the running task. -/
theorem Sound.isRunning {c : Scheduler N} {ev : ℕ → WaitQueue N} {v : View N}
    (h : Sound c ev v) (hcurrent : c.current = some s) (hs : v.place s = .running) :
    c.isRunning (c.slots s).handle = true := by
  simp [Scheduler.isRunning, hcurrent, h.threaded.state, hs]

theorem Sound.runningIs {c : Scheduler N} {ev : ℕ → WaitQueue N} {v : View N}
    (h : Sound c ev v) (hcurrent : c.current = some s) (hs : v.place s = .running) :
    c.runningIs (c.slots s).handle = (true, c) := by
  simp [Scheduler.runningIs, h.isRunning hcurrent hs]

namespace Core

/-! ## Non-blocking calls -/

/-- `do_send` by `trySend` or by the `await_ready` of a sender. -/
theorem doSend (h : Core cfg w L) (k : ℕ) (v : T) (source : Option Storage) :
    (∃ c q', (w.queue k).doSend (cfg.capacity k) w.sched (some v) source = (true, c, q') ∧
        ∃ L', L.Quiet L' ∧ Core cfg ((w.withQueue k c q').recordSent k v) L') ∨
      ((w.queue k).doSend (cfg.capacity k) w.sched (some v) source = (false, w.sched, w.queue k) ∧
        (w.queue k).count = cfg.capacity k) := by
  rcases (h.channel k).doSend w.sched v source with
    ⟨a, rest, q', hrcv, hsend, hsenders, hslot, hself, hother, hchannel⟩ | ⟨hrcv, hsend, hchannel⟩ |
    ⟨-, hcount, hsend⟩
  · obtain ⟨t, hplace, hcore⟩ := h.hand hrcv hsenders hslot hself hother hchannel
    refine Or.inl ⟨_, _, hsend, _, ?_, hcore⟩
    exact Layout.Quiet.enqueue (t := t) (by simp [hplace]) rfl rfl rfl rfl
  · refine Or.inl ⟨_, _, hsend, L, Layout.Quiet.refl L, ?_⟩
    rw [← hrcv] at hchannel
    exact h.channelOnly _ _ rfl (fun _ _ => rfl) (fun _ _ => rfl) (fun _ _ _ hold => hold) hchannel
  · exact Or.inr ⟨hsend, hcount⟩

/-- The oldest buffered value is taken, and the oldest parked sender, if there is one, is
admitted; `q'` is the queue in which the value has been handed out already. -/
theorem take (h : Core cfg w L) {k : ℕ} (key : Option ℕ) (q' : Queue N T)
    (hcount : 0 < (w.queue k).count)
    (hq' : q' = { w.queue k with
      receivers := q'.receivers
      history := { (w.queue k).history with
        handed := (w.queue k).history.handed ++ [(key, (w.queue k).cells (w.queue k).head)]
        uses := q'.history.uses } })
    (hnext : q'.recvNext = (w.queue k).recvNext) (hresults : Results q' (L.receivers k))
    (hslot : ∀ b ∈ L.receivers k, (q'.receivers b).slot = ((w.queue k).receivers b).slot)
    (hresult : ∀ b, ((w.queue k).receivers b).hasResult = true →
      (q'.receivers b).hasResult = true) :
    ∃ c q'', (q'.popFrontStorage (cfg.capacity k)).admitOldestSender (cfg.capacity k) w.sched =
        (c, q'') ∧ q''.receivers = q'.receivers ∧
      ∃ L', L.Quiet L' ∧ L'.receivers = L.receivers ∧ Core cfg (w.withQueue k c q'') L' := by
  rcases (h.channel k).admitOldestSender hcount w.sched hq' hnext hresults with
    ⟨hsnd, hadmitted, hchannel⟩ | ⟨a, rest, q'', hsnd, hadmitted, hreceivers, hslots, hchannel⟩
  · refine ⟨_, _, hadmitted, rfl, L, Layout.Quiet.refl L, rfl, ?_⟩
    rw [← hsnd] at hchannel
    refine h.channelOnly (q'.popFrontStorage (cfg.capacity k)) (w.sent k) ?_
      (fun _ _ => ?_) hslot (fun _ b _ hold => hresult b hold) hchannel
    · simp [World.withQueue, World.setQueue]
    · rw [hq']
      rfl
  · obtain ⟨t, hplace, hcore⟩ := h.admitSender hsnd hslots
      (fun b hb => by rw [hreceivers]; exact hslot b hb)
      (fun _ b _ hold => by rw [hreceivers]; exact hresult b hold) hchannel
    refine ⟨_, _, hadmitted, hreceivers, _, ?_, ?_, hcore⟩
    on_goal 2 => rfl
    exact Layout.Quiet.enqueue (t := t) (by simp [hplace]) rfl rfl rfl rfl

theorem withQueue_self (w : World N T) (k : ℕ) : w.withQueue k w.sched (w.queue k) = w := by
  simp [World.withQueue, World.setQueue]

/-- `trySend`. -/
theorem trySend (h : Core cfg w L) (k : ℕ) (v : T) :
    ∃ sent c q', (w.queue k).trySend (cfg.capacity k) w.sched v = (sent, c, q') ∧
      ∃ L', L.Quiet L' ∧ Core cfg
        (if sent then (w.withQueue k c q').recordSent k v else w.withQueue k c q') L' := by
  rcases h.doSend k v none with ⟨c, q', hsend, L', hquiet, hcore⟩ | ⟨hsend, -⟩
  · exact ⟨true, c, q', hsend, L', hquiet, hcore⟩
  · refine ⟨false, w.sched, w.queue k, hsend, L, Layout.Quiet.refl L, ?_⟩
    simpa [withQueue_self] using h

/-- `tryReceive`. -/
theorem tryReceive (h : Core cfg w L) (k : ℕ) :
    ∃ out c q', (w.queue k).tryReceive (cfg.capacity k) w.sched = (out, c, q') ∧
      ∃ L', L.Quiet L' ∧ Core cfg (w.withQueue k c q') L' := by
  by_cases hcount : (w.queue k).count = 0
  · refine ⟨none, w.sched, w.queue k, by simp [Queue.tryReceive, hcount], L,
      Layout.Quiet.refl L, ?_⟩
    simpa [withQueue_self] using h
  · obtain ⟨c, q'', hadmitted, -, L', hquiet, -, hcore⟩ := h.take (k := k) none
      (w.queue k).assignOut (by omega) rfl rfl (by
        have hresults := (h.channel k).results
        have hHanded : ∀ a, (w.queue k).assignOut.Handed a ↔ (w.queue k).Handed a := by
          intro a
          simp [Queue.Handed, Queue.assignOut]
        exact {
          once := by simpa [Queue.assignOut] using hresults.once
          stored := fun a ha => List.mem_append_left _ (hresults.stored a ha)
          returned := fun a v ha => List.mem_append_left _ (hresults.returned a v ha)
          returned_once := hresults.returned_once
          not_returned := hresults.not_returned
          parked := fun a ha => by rw [hHanded]; exact hresults.parked a ha
          fresh := fun a ha => by rw [hHanded]; exact hresults.fresh a ha })
      (fun _ _ => rfl) fun _ hold => hold
    refine ⟨some ((w.queue k).cells (w.queue k).head), c, q'', ?_, L', hquiet, hcore⟩
    simp only [Queue.tryReceive, hcount, if_false, hadmitted]

/-! ## Parking the running task -/

/-- No `receive()` in progress has the name of the next awaiter. -/
theorem receiving_ne_fresh (h : Core cfg w L) (k : ℕ) (t : Fin N) :
    w.receiving t ≠ some (k, (w.queue k).fresh) := by
  intro ht
  rcases h.receiving.held t k _ ht with hplace | ⟨-, hresult⟩
  · have := (h.channel k).named _ (Or.inr (((h.receivers k).place _ t).mpr hplace).1)
    omega
  · simp [((h.channel k).results.fresh _ le_rfl).1] at hresult

theorem newSender (h : Core cfg w L) (k : ℕ) (v : T) :
    Core cfg (w.setQueue k ((w.queue k).newSender v).2) L := by
  refine h.channelOnly ((w.queue k).newSender v).2 (w.sent k) ?_ (fun b hb => ?_)
    (fun _ _ => rfl) (fun _ _ _ hold => hold) ((h.channel k).newSender v)
  · simp [World.setQueue]
  · have hne : b ≠ (w.queue k).fresh := ((h.channel k).named b (Or.inl hb)).ne
    simp [Queue.newSender, Queue.modifySender, hne]

theorem newReceiver (h : Core cfg w L) (k : ℕ) :
    Core cfg (w.setQueue k ((w.queue k).newReceiver).2) L := by
  refine h.channelOnly (w.queue k).newReceiver.2 (w.sent k) ?_ (fun _ _ => rfl)
    (fun b hb => ?_) (fun t b ht hold => ?_) (h.channel k).newReceiver
  · simp [World.setQueue]
  · have hne : b ≠ (w.queue k).fresh := ((h.channel k).named b (Or.inr hb)).ne
    simp [Queue.newReceiver, Queue.modifyReceiver, hne]
  · have hne : b ≠ (w.queue k).fresh := by
      rintro rfl
      exact h.receiving_ne_fresh k t ht
    simpa [Queue.newReceiver, Queue.modifyReceiver, hne] using hold

/-- `park_sender` by the running task. -/
theorem linkSender (h : Core cfg w L) {k a : ℕ} (hs : L.place s = .running) (ha : a ∉ L.senders k)
    (hnamed : a < (w.queue k).fresh) (hfull : (w.queue k).count = cfg.capacity k) {v : T}
    (hvalue : ((w.queue k).senders a).value = some v) :
    Core cfg ((w.withQueue k (w.sched.setState s .waitingLocal)
        ((w.queue k).linkSender a (some s))).recordSent k v)
      { L with
        toView := L.toView.move s (.parked (.sender k a))
        senders := Function.update L.senders k (L.senders k ++ [a]) } := by
  have hplain : (L.place s).Plain := hs ▸ Place.plain_running
  have hkeep : ∀ r, r ≠ .sender k a → ∀ u,
      Function.update L.place s (.parked (.sender k a)) u = .parked r ↔ L.place u = .parked r :=
    fun r hr u => update_parked_iff (by simp [hs]) (by simpa using Ne.symm hr)
  exact {
    sound := h.sound.move hplain (Place.plain_parked (r := .sender k a) (by simp))
    channel := fun q => by
      by_cases hq : q = k
      · subst hq
        simpa using (h.channel q).linkSender ha hnamed hfull hvalue (some s)
      · simpa [hq] using h.channel q
    senders := fun q => by
      by_cases hq : q = k
      · subst hq
        simp only [World.recordSent_queue, World.withQueue_queue, if_true, Function.update_self,
          Queue.linkSender_eq]
        exact (h.senders q).push ha (by simp [hs]) (sender_injective q) (by simp)
          fun b hb => by simp [hb]
      · simp only [World.recordSent_queue, World.withQueue_queue, hq, if_false, ne_eq,
          not_false_eq_true, Function.update_of_ne]
        exact (h.senders q).congr (fun _ _ => rfl) fun b u => hkeep _ (by simp [hq]) u
    receivers := fun q => by
      refine (h.receivers q).congr (fun b _ => ?_) fun b u => hkeep _ (by simp) u
      by_cases hq : q = k
      · subst hq
        simp [Queue.linkSender_eq]
      · simp [hq]
    receiving := by
      refine (h.receiving.congr fun u q b _ hold => ?_).update
        (h.receiving.eq_none (by simp [hs])) (by simp)
      by_cases hq : q = k
      · subst hq
        simpa [Queue.linkSender_eq] using hold
      · simpa [hq] using hold
    armed := h.armed.congr rfl (fun _ => rfl) (fun _ => rfl) fun u f => hkeep _ (by simp) u }

/-- `park_receiver` by the running task. -/
theorem linkReceiver (h : Core cfg w L) {k a : ℕ} (hs : L.place s = .running)
    (ha : a ∉ L.receivers k) (hnamed : a < (w.queue k).fresh) (hempty : (w.queue k).count = 0)
    (hidle : ((w.queue k).receivers a).hasResult = false ∧ ¬ (w.queue k).Handed a)
    (hnew : ∀ t, w.receiving t ≠ some (k, a)) :
    Core cfg { w.withQueue k (w.sched.setState s .waitingLocal)
        ((w.queue k).linkReceiver a (some s)) with
        receiving := Function.update w.receiving s (some (k, a)) }
      { L with
        toView := L.toView.move s (.parked (.receiver k a))
        receivers := Function.update L.receivers k (L.receivers k ++ [a]) } := by
  have hplain : (L.place s).Plain := hs ▸ Place.plain_running
  have hkeep : ∀ r, r ≠ .receiver k a → ∀ u,
      Function.update L.place s (.parked (.receiver k a)) u = .parked r ↔ L.place u = .parked r :=
    fun r hr u => update_parked_iff (by simp [hs]) (by simpa using Ne.symm hr)
  exact {
    sound := h.sound.move hplain (Place.plain_parked (r := .receiver k a) (by simp))
    channel := fun q => by
      by_cases hq : q = k
      · subst hq
        simpa using (h.channel q).linkReceiver ha hnamed hempty hidle (some s)
      · simpa [hq] using h.channel q
    senders := fun q => by
      refine (h.senders q).congr (fun b _ => ?_) fun b u => hkeep _ (by simp) u
      by_cases hq : q = k
      · subst hq
        simp [Queue.linkReceiver_eq]
      · simp [hq]
    receivers := fun q => by
      by_cases hq : q = k
      · subst hq
        simp only [World.withQueue_queue, if_true, Function.update_self, Queue.linkReceiver_eq]
        exact (h.receivers q).push ha (by simp [hs]) (receiver_injective q) (by simp)
          fun b hb => by simp [hb]
      · simp only [World.withQueue_queue, hq, if_false, ne_eq, not_false_eq_true,
          Function.update_of_ne]
        exact (h.receivers q).congr (fun _ _ => rfl) fun b u => hkeep _ (by simp [hq]) u
    receiving := by
      have hkept : Receiving (w.withQueue k (w.sched.setState s .waitingLocal)
          ((w.queue k).linkReceiver a (some s))).queue w.receiving L.place := by
        refine h.receiving.congr fun u q b _ hold => ?_
        by_cases hq : q = k
        · subst hq
          simpa [Queue.linkReceiver_eq] using hold
        · simpa [hq] using hold
      exact {
        parked := fun u q b hu => by
          by_cases hus : u = s
          · subst hus
            simp only [View.move, Function.update_self, Place.parked.injEq,
              Registration.receiver.injEq] at hu ⊢
            rw [hu.1, hu.2]
          · simp only [View.move, Function.update_of_ne hus] at hu ⊢
            exact hkept.parked u q b hu
        held := fun u q b hu => by
          by_cases hus : u = s
          · subst hus
            simp only [Function.update_self, Option.some.injEq, Prod.mk.injEq] at hu
            simp [View.move, hu.1, hu.2]
          · simp only [View.move, Function.update_of_ne hus] at hu ⊢
            exact hkept.held u q b hu
        injective := fun u u' x hu hu' => by
          by_cases hus : u = s <;> by_cases hus' : u' = s
          · rw [hus, hus']
          · subst hus
            simp only [Function.update_self, Option.some.injEq, Function.update_of_ne hus'] at hu hu'
            exact absurd (hu' ▸ hu ▸ rfl) (hnew u')
          · subst hus'
            simp only [Function.update_self, Option.some.injEq, Function.update_of_ne hus] at hu hu'
            exact absurd (hu ▸ hu' ▸ rfl) (hnew u)
          · simp only [Function.update_of_ne hus, Function.update_of_ne hus'] at hu hu'
            exact hkept.injective u u' x hu hu' }
    armed := h.armed.congr rfl (fun _ => rfl) (fun _ => rfl) fun u f => hkeep _ (by simp) u }

end Core

/-! ## Awaits of the running task -/

theorem Scheduler.Calm.doSend (c : Scheduler N) (q : Queue N T) (cap : ℕ) (v : Option T)
    (source : Option Storage) : c.Calm (q.doSend cap c v source).2.1 := by
  unfold Queue.doSend
  split
  · exact Scheduler.Calm.wakeSlot c _
  · split <;> exact Scheduler.Calm.refl c

theorem Scheduler.Calm.admitOldestSender (c : Scheduler N) (q : Queue N T) (cap : ℕ) :
    c.Calm (q.admitOldestSender cap c).1 := by
  unfold Queue.admitOldestSender
  split
  · exact Scheduler.Calm.refl c
  · exact Scheduler.Calm.wakeSlot c _

namespace Core

variable (h : Core cfg w L) (hcurrent : w.sched.current = some s) (hs : L.place s = .running)

include h hcurrent hs

/-- `co_await q.send(v)`. -/
theorem awaitSend (k : ℕ) (v : T) :
    Awaited cfg s w L (w.awaitSend cfg k v (w.sched.slots s).handle) := by
  have hnew := h.newSender k v
  set q := (w.queue k).newSender v with hq
  have hname : q.1 = (w.queue k).fresh := rfl
  have hvalue : (q.2.senders q.1).value = some v := by simp [hq, Queue.newSender, Queue.modifySender]
  have hcalm := Scheduler.Calm.doSend w.sched q.2 (cfg.capacity k) (some v) (some (.value q.1))
  have hrunning := h.sound.runningIs hcurrent hs
  rcases hnew.doSend k v (some (.value q.1)) with ⟨c, q', hsend, L', hquiet, hcore⟩ | ⟨hsend, hcount⟩ <;>
    simp only [World.setQueue_queue, World.setQueue_sched, if_true] at hsend
  · rw [hsend] at hcalm
    have hawait : w.awaitSend cfg k v (w.sched.slots s).handle =
        (false, (w.withQueue k c q').recordSent k v) := by
      simp only [World.awaitSend, ← hq, Queue.sendReady, hvalue, hsend]
    rw [World.setQueue_withQueue] at hcore
    rw [hawait]
    exact ⟨⟨rfl, rfl, rfl, rfl, rfl, hcalm⟩, L', hcore, Or.inl ⟨rfl, hquiet⟩⟩
  · have hawait : w.awaitSend cfg k v (w.sched.slots s).handle =
        (true, (w.withQueue k (w.sched.setState s .waitingLocal)
          (q.2.linkSender q.1 (some s))).recordSent k v) := by
      simp only [World.awaitSend, ← hq, Queue.sendReady, hvalue, hsend, Queue.parkSender, hrunning,
        Scheduler.parkRunning, hcurrent]
    have hnot : q.1 ∉ L.senders k := fun hmem =>
      absurd ((h.channel k).named _ (Or.inl hmem)) (by rw [hname]; exact lt_irrefl _)
    simp only [World.setQueue_queue, if_true] at hcount
    have hcore := hnew.linkSender (k := k) (a := q.1) (v := v) hs hnot
      (by simp [hq, Queue.newSender]) (by simpa using hcount) (by simpa using hvalue)
    simp only [World.setQueue_queue, World.setQueue_sched, World.setQueue_withQueue, if_true]
      at hcore
    rw [hawait]
    refine ⟨⟨rfl, rfl, rfl, rfl, rfl, Scheduler.Calm.park _ _⟩, _, hcore, Or.inr ⟨rfl, ?_⟩⟩
    exact Layout.Suspends.of_update (p := .parked (.sender k q.1)) (by simp) rfl le_rfl rfl rfl

/-- `co_await q.receive()`. -/
theorem awaitReceive (k : ℕ) :
    Awaited cfg s w L (w.awaitReceive cfg k (w.sched.slots s).handle) := by
  have hnew := h.newReceiver k
  set q := (w.queue k).newReceiver with hq
  have hname : q.1 = (w.queue k).fresh := rfl
  have hfresh : q.2.fresh = q.1 + 1 := rfl
  have hrunning := h.sound.runningIs hcurrent hs
  have hchannel : Channel (cfg.capacity k) q.2 (L.senders k) (L.receivers k) (w.sent k) :=
    (h.channel k).newReceiver
  have hnot : q.1 ∉ L.receivers k := fun hmem =>
    absurd ((h.channel k).named _ (Or.inr hmem)) (by rw [hname]; exact lt_irrefl _)
  have hidle : (q.2.receivers q.1).hasResult = false ∧ ¬ q.2.Handed q.1 := by
    refine ⟨by simp [hq, Queue.newReceiver, Queue.modifyReceiver], ?_⟩
    exact ((h.channel k).results.fresh _ le_rfl).2
  have hother : ∀ t, w.receiving t ≠ some (k, q.1) := h.receiving_ne_fresh k
  by_cases hcount : q.2.count = 0
  · have hawait : w.awaitReceive cfg k (w.sched.slots s).handle =
        (true, { w.withQueue k (w.sched.setState s .waitingLocal)
          (q.2.linkReceiver q.1 (some s)) with
          receiving := Function.update w.receiving s (some (k, q.1)) }) := by
      simp only [World.awaitReceive, ← hq, Queue.receiveReady, hcount, if_true, Queue.parkReceiver,
        hrunning, Scheduler.parkRunning, hcurrent]
    have hcore := hnew.linkReceiver (k := k) (a := q.1) hs hnot (by simp [hfresh])
      (by simpa using hcount) (by simpa using hidle) hother
    simp only [World.setQueue_queue, World.setQueue_sched, World.setQueue_withQueue, if_true]
      at hcore
    rw [hawait]
    refine ⟨⟨rfl, rfl, rfl, rfl, rfl, Scheduler.Calm.park _ _⟩, _, hcore, Or.inr ⟨rfl, ?_⟩⟩
    exact Layout.Suspends.of_update (p := .parked (.receiver k q.1)) (by simp) rfl le_rfl rfl rfl
  · have hreceivers : ∀ b ≠ q.1,
        (q.2.constructResult q.1 (q.2.cells q.2.head) (some (.cell q.2.head))).receivers b =
          q.2.receivers b := by
      intro b hb
      simp [Queue.constructResult, Queue.modifyReceiver, hb]
    have hne : ∀ b ∈ L.receivers k, b ≠ q.1 := fun b hb he => hnot (he ▸ hb)
    obtain ⟨c, q', hadmitted, hsame, L', hquiet, hreceiversL, hcore⟩ := hnew.take (k := k)
      (some q.1) (q.2.constructResult q.1 (q.2.cells q.2.head) (some (.cell q.2.head)))
      (by simp; omega) (by simp [Queue.constructResult, Queue.modifyReceiver])
      (by
        funext b
        by_cases hb : b = q.1
        · simp [Queue.recvNext, Queue.constructResult, Queue.modifyReceiver, hb]
        · simp [Queue.recvNext, hreceivers b hb])
      (hchannel.results.constructResult _ _ hnot (by omega) hidle.1 hidle.2)
      (fun b hb => by simp [hreceivers b (hne b hb)])
      (fun b hb => by
        by_cases hba : b = q.1
        · simp [Queue.constructResult, Queue.modifyReceiver, hba]
        · simpa [hreceivers b hba] using hb)
    simp only [World.setQueue_sched] at hadmitted
    simp only [World.setQueue_withQueue] at hcore
    have hcalm := Scheduler.Calm.admitOldestSender w.sched
      ((q.2.constructResult q.1 (q.2.cells q.2.head) (some (.cell q.2.head))).popFrontStorage
        (cfg.capacity k)) (cfg.capacity k)
    rw [hadmitted] at hcalm
    have hawait : w.awaitReceive cfg k (w.sched.slots s).handle =
        (false, w.withQueue k c (q'.receiveResume q.1).2) := by
      simp only [World.awaitReceive, ← hq, Queue.receiveReady, hcount, if_false, hadmitted]
    have hresult : (q'.receivers q.1).hasResult = true := by
      rw [hsame]
      simp [Queue.constructResult, Queue.modifyReceiver]
    have hresumed : ∀ b ≠ q.1, (q'.receiveResume q.1).2.receivers b = q'.receivers b := by
      intro b hb
      simp [Queue.receiveResume, hresult, Queue.modifyReceiver, hb]
    have hfinal : Core cfg (w.withQueue k c (q'.receiveResume q.1).2) L' := by
      refine hcore.channelOnly (k := k) (q'.receiveResume q.1).2 (w.sent k) ?_
        (fun b _ => ?_) (fun b hb => ?_) (fun t b ht hold => ?_) ?_
      · simp [World.withQueue, World.setQueue]
      · simp [Queue.receiveResume, hresult, Queue.modifyReceiver]
      · rw [hreceiversL] at hb
        simp [hresumed b (hne b hb)]
      · have hb : b ≠ q.1 := fun he => hother t (he ▸ ht)
        simpa [hresumed b hb] using hold
      · have := hcore.channel k
        simp only [World.withQueue_queue, if_true] at this
        exact this.receiveResume hresult
    rw [hawait]
    exact ⟨⟨rfl, rfl, rfl, rfl, rfl, hcalm⟩, L', hfinal, Or.inl ⟨rfl, hquiet⟩⟩

end Core

end SimpleAwait
