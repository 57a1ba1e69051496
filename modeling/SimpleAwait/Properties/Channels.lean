import SimpleAwait.Properties.Consistency

/-!
# A queue is an unbounded FIFO channel

The values in flight are those in the ring and those of the parked senders.  What has been
handed out, followed by what is in flight, is what was sent: a sender that had to park is no
different from one whose value went into the ring.
-/

namespace SimpleAwait

open Intrusive

variable {N : ℕ} {T : Type} {cfg : Config N} {w : World N T}

namespace Queue

/-- The values handed out so far, to receivers and to `tryReceive`. -/
def delivered (q : Queue N T) : List (Option T) := q.history.handed.map Prod.snd

/-- The values of the awaiters in `senders`. -/
def heldBy (q : Queue N T) (senders : List ℕ) : List (Option T) :=
  senders.map fun a => (q.senders a).value

/-- The queue stands for the channel into which `sent` was written. -/
structure RefinesChannel (cap : ℕ) (q : Queue N T) (sent : List T) (senders receivers : List ℕ) :
    Prop where
  /-- `senders` and `receivers` are the parked awaiters. -/
  sendList : Fifo q.sendNext q.sendHead q.sendTail senders
  recvList : Fifo q.recvNext q.recvHead q.recvTail receivers
  /-- No value is lost, duplicated or overtaken. -/
  flow : q.delivered ++ q.buffered cap ++ q.heldBy senders = sent.map some
  /-- Awaiters are served in parking order. -/
  sendOrder : q.history.sendParked = q.history.sendServed ++ senders
  recvOrder : q.history.recvParked = q.history.recvServed ++ receivers
  /-- No `receive()` is handed two values, or completes twice. -/
  once : (q.history.handed.filterMap Prod.fst).Nodup
  returnedOnce : (q.history.returned.map Prod.fst).Nodup
  /-- A completed `receive()` returns the value that it was handed, which was sent. -/
  returned : ∀ a r, (a, r) ∈ q.history.returned →
    (some a, r) ∈ q.history.handed ∧ ∃ v ∈ sent, r = some v

end Queue

theorem Channel.refinesChannel {cap : ℕ} {q : Queue N T} {snd rcv : List ℕ} {sent : List T}
    (h : Channel cap q snd rcv sent) : q.RefinesChannel cap sent snd rcv where
  sendList := h.send
  recvList := h.recv
  flow := h.flow
  sendOrder := h.send_order
  recvOrder := h.recv_order
  once := h.results.once
  returnedOnce := h.results.returned_once
  returned a r har := by
    have hhanded := h.results.returned a r har
    refine ⟨hhanded, ?_⟩
    have hmem : r ∈ sent.map some := by
      rw [← h.flow]
      exact List.mem_append_left _
        (List.mem_append_left _ (List.mem_map_of_mem (f := Prod.snd) hhanded))
    obtain ⟨v, hv, rfl⟩ := List.mem_map.mp hmem
    exact ⟨v, hv, rfl⟩

/-- In every reachable world every queue, of whatever capacity, stands for the unbounded channel
of the values whose sends were accepted or parked. -/
theorem queue_refines_channel (hw : w.Reachable cfg) (q : ℕ) :
    ∃ senders receivers,
      (w.queue q).RefinesChannel (cfg.capacity q) (w.sent q) senders receivers := by
  obtain ⟨L, hinv⟩ := hw.inv
  exact ⟨_, _, (hinv.core.channel q).refinesChannel⟩

/-- A receiver parks; of three values sent to it through a queue of one the first is handed to
it, the second is stored and the third waits with its sender. -/
theorem queue_refines_channel_small :
    let w : World 3 ℕ := World.after .small [.createTask (some 1), .createTask (some 2),
      .poll false 0, .checkPending, .startPass, .passPop, .coAwait (.receive 0), .passPop,
      .coAwait (.send 0 7), .coAwait (.send 0 8), .coAwait (.send 0 9), .endPass 0,
      .poll false 0, .checkPending, .startPass, .passPop]
    w.sent 0 = [7, 8, 9] ∧ (w.queue 0).delivered = [some 7] ∧
      (w.queue 0).history.returned = [(0, some 7)] ∧
      ∃ senders receivers, (w.queue 0).RefinesChannel 1 [7, 8, 9] senders receivers := by
  intro w
  have hw : w.Reachable .small := .after _ (by decide)
  have hsent : w.sent 0 = [7, 8, 9] := by decide
  refine ⟨hsent, by decide, by decide, ?_⟩
  rw [← hsent]
  exact queue_refines_channel hw 0

end SimpleAwait
