import SimpleAwait.Exchange.Payloads

/-!
# Every payload object is destroyed once

Cells, awaiters and result storage are constructed and destroyed by hand.  Over the whole life
of a queue, with frames and the queue itself destroyed in any order, no object is constructed
over another, none is used before it is constructed, and each is destroyed once.
-/

namespace SimpleAwait

open Lifetimes

variable {N : ℕ} {T : Type} {cap : ℕ} {x x' : Exchange N T} {snd rcv : List ℕ}

namespace Exchange

/-- The payload objects of a queue: the buffered values, the values of the send awaiters, and
the results that receive awaiters hold. -/
def Owns (cap : ℕ) (x : Exchange N T) : Storage → Prop
  | .cell i => x.alive = true ∧ ∃ k < x.queue.count, (x.queue.head + k) % cap = i
  | .value a => ∃ awaited, x.stage a = .sender awaited
  | .result a => (∃ awaited, x.stage a = .receiver awaited) ∧ (x.queue.receivers a).hasResult = true

theorem Inv.owns_iff (h : Inv cap x snd rcv) (p : Storage) : x.owns cap p = true ↔ x.Owns cap p := by
  cases p with
  | cell i =>
      simp only [owns, Queue.owns, Owns, Bool.and_eq_true]
      refine and_congr_right fun halive => ?_
      rw [decide_eq_true_iff]
      refine exists_congr fun k => and_congr_right fun hk => ?_
      have hle := (h.waiting halive).count_le
      rw [Ring.index_eq_mod (h.waiting halive).head_lt (by omega)]
  | value a => cases hstage : x.stage a <;> simp [owns, Queue.owns, Owns, hstage]
  | result a => cases hstage : x.stage a <;> simp [owns, Queue.owns, Owns, hstage]

/-- The uses of payload objects so far are lawful and leave the objects that are owned, and these
are constructed in the storage. -/
theorem Reachable.takes (hcap : 0 < cap) (hx : x.Reachable cap) :
    ∃ snd rcv, Inv cap x snd rcv ∧ x.queue.holds = x.owns cap ∧
      Takes (fun _ => false) x.queue.history.uses (x.owns cap) := by
  refine Transition.Reachable.induction (P := fun y => ∃ snd rcv, Inv cap y snd rcv ∧
    y.queue.holds = y.owns cap ∧ Takes (fun _ => false) y.queue.history.uses (y.owns cap)) hx ?_ ?_
  · have hempty : (fun _ => false) = (Exchange.initial : Exchange N T).owns cap := by
      refine Queue.storage_ext (fun i => ?_) (fun a => rfl) fun a => rfl
      simp [owns, Queue.owns, Exchange.initial, Ring.not_occupied_zero]
    refine ⟨[], [], Inv.initial hcap, ?_, takes_nil hempty⟩
    rw [← hempty]
    exact Queue.storage_ext (fun i => rfl) (fun a => rfl) fun a => rfl
  · rintro u action u' ⟨snd, rcv, hinv, hheld, htakes⟩ hstep
    obtain ⟨snd', rcv', hchange⟩ := hinv.step_change hstep
    obtain ⟨uses, hbooks, hmore⟩ := hinv.change_takes hheld hchange
    refine ⟨_, _, hinv.change hchange, ?_, ?_⟩
    · rw [hbooks.stored, hheld, hmore.live]
    · rw [hbooks.listed]
      exact htakes.append hmore

end Exchange

/-- At every moment the live payload objects are those that the queue and its awaiters own, in the
uses of the operations and in the storage itself, and every other object that was constructed has
been destroyed, once. -/
theorem payloads_destroyed_once (hcap : 0 < cap) (hx : x.Reachable cap) :
    Lawful (fun _ => false) x.queue.history.uses ∧
      (∀ p, live (fun _ => false) x.queue.history.uses p = true ↔ x.Owns cap p) ∧
      (∀ p, x.queue.holds p = true ↔ x.Owns cap p) ∧
      (∀ p, x.Owns cap p →
        x.queue.history.uses.count (.construct p) = x.queue.history.uses.count (.destroy p) + 1) ∧
      ∀ p, ¬ x.Owns cap p →
        x.queue.history.uses.count (.construct p) = x.queue.history.uses.count (.destroy p) := by
  obtain ⟨snd, rcv, hinv, hheld, htakes⟩ := hx.takes hcap
  have hlive : ∀ p, live (fun _ => false) x.queue.history.uses p = true ↔ x.Owns cap p := by
    intro p
    rw [htakes.live]
    exact hinv.owns_iff p
  refine ⟨htakes.lawful, hlive, fun p => ?_, fun p hp => ?_, fun p hp => ?_⟩
  · rw [hheld]
    exact hinv.owns_iff p
  · have hcount := constructed_eq htakes.lawful p
    rw [(hlive p).mpr hp] at hcount
    simpa using hcount
  · have hcount := constructed_eq htakes.lawful p
    have hdead : live (fun _ => false) x.queue.history.uses p = false := by
      rw [← Bool.not_eq_true, hlive]
      exact hp
    rw [hdead] at hcount
    simpa using hcount

/-- A sender parks on a full queue of one value and is admitted; the value that it left behind
is handed to a receiver whose frame is destroyed before it is resumed.  Another value is still
buffered when the queue is destroyed. -/
theorem payloads_destroyed_once_small :
    let x : Exchange 2 ℕ := .after 1 [.trySend 5, .send 7, .elsewhere (Scheduler.startNew 1),
      .awaitSend 0 (some 1), .tryReceive, .receive, .awaitReceive 1 (some 1), .destroyAwaiter 1,
      .destroyAwaiter 0, .trySend 9, .destroyQueue]
    x.queue.history.uses = [.construct (.cell 0), .construct (.value 0), .read (.cell 0),
        .destroy (.cell 0), .read (.value 0), .construct (.cell 0), .read (.cell 0),
        .construct (.result 1), .destroy (.cell 0), .destroy (.result 1), .destroy (.value 0),
        .construct (.cell 0), .destroy (.cell 0)] ∧
      Lawful (fun _ => false) x.queue.history.uses ∧ x.queue.holds (.cell 0) = false := by
  intro x
  have hx : x.Reachable 1 := .after (by decide)
  exact ⟨by decide, (payloads_destroyed_once Nat.one_pos hx).1, by decide⟩

end SimpleAwait
