import SimpleAwait.Exchange.Waiters

/-!
# Awaiters leave a queue as elements leave a list

The nodes of a queue's lists live in coroutine frames, which are destroyed before or after the
queue.  In every run the lists are those that `PlainQueue` keeps; a destroyed awaiter is
erased, and once the queue is destroyed no destructor calls it.
-/

namespace SimpleAwait

open Intrusive

variable {N : ℕ} {T : Type} {cap : ℕ} {x x' : Exchange N T} {snd rcv : List ℕ}
  {action : ExchangeAction N T}

namespace Exchange

/-- No outcome makes a destructor call a queue that is gone. -/
theorem Change.stray {snd' rcv' : List ℕ} (h : Change cap x snd rcv action x' snd' rcv') : x'.stray = x.stray := by
  cases h <;> rfl

theorem Reachable.stray (hcap : 0 < cap) (hx : x.Reachable cap) : x.stray = [] := by
  have hall : (∃ snd rcv, Inv cap x snd rcv) ∧ x.stray = [] := by
    refine Transition.Reachable.induction
      (P := fun y => (∃ snd rcv, Inv cap y snd rcv) ∧ y.stray = []) hx
      ⟨⟨_, _, Inv.initial hcap⟩, rfl⟩ ?_
    rintro u action u' ⟨⟨snd, rcv, hinv⟩, hstray⟩ hstep
    obtain ⟨snd', rcv', hchange⟩ := hinv.step_change hstep
    exact ⟨⟨_, _, hinv.change hchange⟩, hchange.stray.trans hstray⟩
  exact hall.2

end Exchange

/-- While the queue lives, its lists are plain lists, and every step does to them what it does
to plain ones; when it is destroyed, it reports the waiters that are left, if there are any.
Afterwards nobody is linked, and no destructor of an awaiter has called it. -/
theorem awaiters_unlink_exactly (hcap : 0 < cap) (hx : x.Reachable cap) :
    (x.alive = true → ∃ p, x.queue.Stores p ∧
        (∀ action x', x.step cap action = some x' → x'.alive = true →
          x'.queue.Stores (p.step cap x.sched.isRunning action)) ∧
        ∀ x', x.step cap .destroyQueue = some x' → x'.alive = false ∧
          x'.sched = if p.senders ≠ [] ∨ p.receivers ≠ [] then
            x.sched.report .objectDestroyedWithWaiters else x.sched) ∧
      (x.alive = false →
        ∀ a, (x.queue.senders a).linked = false ∧ (x.queue.receivers a).linked = false) ∧
      x.stray = [] := by
  obtain ⟨snd, rcv, hinv⟩ := hx.inv hcap
  refine ⟨fun halive => ?_, fun hdead a => ?_, hx.stray hcap⟩
  · have hwaiting := hinv.waiting halive
    refine ⟨⟨x.queue.count, snd, rcv⟩, hwaiting.stores, fun action x' hstep halive' => ?_,
      fun x' hstep => ?_⟩
    · obtain ⟨snd', rcv', hchange⟩ := hinv.step_change hstep
      have hplain := hinv.change_plain hchange
      simp only [Exchange.Inv.plain] at hplain
      rw [hplain]
      exact ((hinv.change hchange).waiting halive').stores
    · simp only [Exchange.step, halive, if_true, Option.some.injEq] at hstep
      obtain ⟨cells, head, history, hdestroy⟩ := hwaiting.destroy_eq x.sched
      subst hstep
      refine ⟨rfl, ?_⟩
      show (x.queue.destroy cap x.sched).1 = _
      rw [hdestroy]
  · obtain ⟨rfl, rfl⟩ := hinv.gone hdead
    refine ⟨?_, ?_⟩
    · simpa using hinv.sendLinked a
    · simpa using hinv.recvLinked a

/-- Two receivers park on an empty queue; the frame of the first is destroyed before the queue,
that of the other one after it. -/
theorem awaiters_unlink_exactly_small :
    let x : Exchange 2 ℕ := .after 1 [.elsewhere (Scheduler.startNew 1), .receive,
      .awaitReceive 0 (some 1), .elsewhere (Scheduler.startNew 2), .receive,
      .awaitReceive 1 (some 2), .destroyAwaiter 0]
    x.queue.recvHead = some 1 ∧ x.queue.recvTail = some 1 ∧
      (∀ x', x.step 1 .destroyQueue = some x' →
        x'.sched = x.sched.report .objectDestroyedWithWaiters) ∧
      (((x.step 1 .destroyQueue).bind fun x' => x'.step 1 (.destroyAwaiter 1)).map
        fun x' => x'.stray) = some [] := by
  intro x
  have hx : x.Reachable 1 := .after (by decide)
  have halive : x.alive = true := by decide
  obtain ⟨p, hstores, -, hdestroy⟩ := (awaiters_unlink_exactly Nat.one_pos hx).1 halive
  have hhead : x.queue.recvHead = some 1 := by decide
  have hreceivers : p.receivers ≠ [] := by
    intro hnil
    have hlinked := hstores.receivers.linked
    rw [hnil] at hlinked
    exact absurd (hhead.symm.trans hlinked) (by decide)
  refine ⟨hhead, by decide, fun x' hstep => ?_, by decide⟩
  have hsched := (hdestroy x' hstep).2
  rwa [if_pos (Or.inr hreceivers)] at hsched

end SimpleAwait
