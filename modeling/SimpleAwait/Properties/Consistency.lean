import SimpleAwait.System.Preservation

/-!
# One place for every slot

The invariant speaks of places and layouts.  Here it is read back as a statement about the
pointers and states alone: in every reachable world each slot is linked where its state says
and nowhere else, and the counters count.
-/

namespace SimpleAwait

open Intrusive

variable {N : ℕ} {T : Type} {cfg : Config N} {w : World N T} {L : Layout N}

namespace World

/-- Slot `s` is a waiter of the event, awaiter or flag `r`. -/
def Registered (w : World N T) (s : Fin N) : Registration → Prop
  | .event e => ∃ l, Linked w.sched.next (w.event e).waiters.head l ∧ s ∈ l
  | .sender q a => ∃ l, Linked (w.queue q).sendNext (w.queue q).sendHead l ∧ a ∈ l ∧
      ((w.queue q).senders a).slot = some s
  | .receiver q a => ∃ l, Linked (w.queue q).recvNext (w.queue q).recvHead l ∧ a ∈ l ∧
      ((w.queue q).receivers a).slot = some s
  | .flag f => ∃ l, Linked w.flags.armedNext w.flags.armedHead l ∧ f ∈ l ∧
      (w.flags.flag f).waiter = some s

/-- The slot holds a task that has not completed. -/
def Active (w : World N T) (s : Fin N) : Prop :=
  (w.sched.slots s).state ≠ .free ∧ (w.sched.slots s).state ≠ .completed

instance (w : World N T) : DecidablePred w.Active := fun _ => inferInstanceAs (Decidable (_ ∧ _))

/-- The pointers, states and counters agree. -/
structure Consistent (w : World N T) : Prop where
  /-- The ready FIFO holds every ready slot once and no other. -/
  ready : ∃ l, Linked w.sched.next w.sched.readyHead l ∧ l.Nodup ∧
    w.sched.readyTail = l.getLast? ∧ w.sched.readyCount = l.length ∧
    ∀ s, l.count s = if (w.sched.slots s).state = .ready then 1 else 0
  /-- Every list of waiters ends at its tail and holds no waiter twice. -/
  events : ∀ e, ∃ l, Fifo w.sched.next (w.event e).waiters.head (w.event e).waiters.tail l ∧ l.Nodup
  senders : ∀ q, ∃ l, Fifo (w.queue q).sendNext (w.queue q).sendHead (w.queue q).sendTail l ∧ l.Nodup
  receivers : ∀ q, ∃ l,
    Fifo (w.queue q).recvNext (w.queue q).recvHead (w.queue q).recvTail l ∧ l.Nodup
  flags : ∃ l, Linked w.flags.armedNext w.flags.armedHead l ∧ l.Nodup
  registered : ∀ s, (w.sched.slots s).state = .waitingLocal → ∃! r, w.Registered s r
  unregistered : ∀ s, (w.sched.slots s).state ≠ .waitingLocal → ∀ r, ¬ w.Registered s r
  /-- A parent waits for a child exactly while one active slot names it as parent. -/
  child : ∀ p, (w.sched.slots p).state = .waitingChild ↔
    ∃! s, w.Active s ∧ (w.sched.slots s).parent = some p
  active : w.sched.activeCount = (Finset.univ.filter w.Active).card

end World

/-- A slot is registered where its place says. -/
theorem Core.registered_iff (h : Core cfg w L) (s : Fin N) (r : Registration) :
    w.Registered s r ↔ L.place s = .parked r := by
  cases r with
  | event e =>
      have hwaiters := (h.sound.threaded.waiters e).linked
      rw [← h.sound.threaded.mem_waiters]
      exact ⟨fun ⟨l, hl, hs⟩ => hl.unique hwaiters ▸ hs, fun hs => ⟨_, hwaiters, hs⟩⟩
  | sender q a =>
      have hsend := (h.channel q).send.linked
      rw [← (h.senders q).place]
      exact ⟨fun ⟨l, hl, hs⟩ => hl.unique hsend ▸ hs, fun hs => ⟨_, hsend, hs⟩⟩
  | receiver q a =>
      have hrecv := (h.channel q).recv.linked
      rw [← (h.receivers q).place]
      exact ⟨fun ⟨l, hl, hs⟩ => hl.unique hrecv ▸ hs, fun hs => ⟨_, hrecv, hs⟩⟩
  | flag f =>
      rw [← h.armed.waiter]
      refine ⟨fun ⟨l, hl, hs⟩ => hs.2, fun hs => ⟨_, h.armed.linked, ?_, hs⟩⟩
      exact (h.armed.mem f).mpr (by simp [hs])

theorem Core.active_iff (h : Core cfg w L) (s : Fin N) : w.Active s ↔ (L.place s).Active := by
  rw [World.Active, h.sound.threaded.state, Place.active_iff_state]

/-- A slot waits for a child exactly if one active slot names it as parent. -/
theorem Core.waitingChild_iff (h : Core cfg w L) (p : Fin N) :
    (w.sched.slots p).state = .waitingChild ↔
      ∃! s, w.Active s ∧ (w.sched.slots s).parent = some p := by
  rw [h.sound.threaded.state]
  constructor
  · intro hp
    obtain ⟨s, hs⟩ := Place.eq_child_of_state hp
    refine ⟨s, ⟨(h.active_iff s).mpr (h.sound.kin.alive s p hs), (h.sound.kin.parent s p).mpr hs⟩, ?_⟩
    rintro t ⟨-, ht⟩
    have := (h.sound.kin.parent t p).mp ht
    rw [hs] at this
    exact (Place.child.inj this).symm
  · rintro ⟨s, ⟨-, hs⟩, -⟩
    rw [(h.sound.kin.parent s p).mp hs, Place.state_child]

theorem Core.consistent (h : Core cfg w L) : w.Consistent where
  ready := by
    have hready := h.sound.threaded.ready
    refine ⟨L.ready, hready.linked, hready.linked.nodup, hready.tail_eq, h.sound.threaded.count,
      fun s => ?_⟩
    have hstate : (w.sched.slots s).state = .ready ↔ s ∈ L.ready := by
      rw [h.sound.threaded.mem_ready, h.sound.threaded.state]
      exact ⟨Place.eq_ready_of_state, fun hs => by rw [hs, Place.state_ready]⟩
    split_ifs with hs
    · exact List.count_eq_one_of_mem hready.linked.nodup (hstate.mp hs)
    · exact List.count_eq_zero.mpr fun hmem => hs (hstate.mpr hmem)
  events e := ⟨_, h.sound.threaded.waiters e, (h.sound.threaded.waiters e).linked.nodup⟩
  senders q := ⟨_, (h.channel q).send, (h.channel q).send.linked.nodup⟩
  receivers q := ⟨_, (h.channel q).recv, (h.channel q).recv.linked.nodup⟩
  flags := ⟨_, h.armed.linked, h.armed.linked.nodup⟩
  registered s hs := by
    rw [h.sound.threaded.state] at hs
    obtain ⟨r, hr⟩ := Place.eq_parked_of_state hs
    refine ⟨r, (h.registered_iff s r).mpr hr, fun r' hr' => ?_⟩
    have := (h.registered_iff s r').mp hr'
    rw [hr] at this
    exact (Place.parked.inj this).symm
  unregistered s hs r hr := by
    refine hs ?_
    rw [h.sound.threaded.state, (h.registered_iff s r).mp hr, Place.state_parked]
  child := h.waitingChild_iff
  active := by
    rw [h.sound.kin.active, numActive]
    congr 1
    ext s
    simp [h.active_iff]

/-- In every reachable world each slot is linked exactly where its state says. -/
theorem reachable_consistent (h : World.Reachable cfg w) : w.Consistent := by
  obtain ⟨L, hinv⟩ := h.inv
  exact hinv.core.consistent

/-- Three slots, and queues of one value. -/
def Config.small : Config 3 := ⟨fun _ => 1, fun _ => Nat.one_pos, by decide, 1000⟩

/-- One task waits for an event and another for its child, which is ready. -/
theorem reachable_consistent_small :
    let w : World 3 ℕ := World.after .small [.createTask (some 1), .createTask (some 2),
      .poll false 0, .checkPending, .startPass, .passPop, .coAwait (.event 0), .passPop,
      .coAwait (.task (.ofTask (some 3)))]
    w.Consistent ∧ (w.sched.slots 0).state = .waitingLocal ∧
      (w.sched.slots 1).state = .waitingChild ∧ (w.sched.slots 2).state = .ready :=
  ⟨reachable_consistent (.after _ (by decide)), by decide⟩

end SimpleAwait
