import SimpleAwait.System.Step

/-!
# The scheduler after an await

An await on a queue or a flag goes on at once, with what its `await_ready` did to the scheduler, or
it checks the awaiting handle and parks the running slot.  What holds of these calls holds of the
await.
-/

namespace SimpleAwait

variable {N : ℕ} {T : Type} {cfg : Config N}

/-- `running_is` rejected the awaiting handle, or `park_running` suspended the running slot. -/
def Scheduler.Suspended (awaiting : Handle) (c c' : Scheduler N) : Prop :=
  c' = (c.runningIs awaiting).2 ∨ c' = c.parkRunning.2

/-- `running_is` changes nothing when it accepts. -/
theorem Scheduler.runningIs_true {c c' : Scheduler N} {awaiting : Handle}
    (h : c.runningIs awaiting = (true, c')) : c' = c := by
  unfold Scheduler.runningIs at h
  split at h <;> cases h
  rfl

theorem Queue.parkSender_sched (q : Queue N T) (a : ℕ) (c : Scheduler N) (awaiting : Handle) :
    c.Suspended awaiting (q.parkSender a c awaiting).2.1 := by
  unfold Queue.parkSender
  split <;> rename_i hcheck
  · exact Or.inl (by rw [hcheck])
  · cases Scheduler.runningIs_true hcheck
    exact Or.inr rfl

theorem Queue.parkReceiver_sched (q : Queue N T) (a : ℕ) (c : Scheduler N) (awaiting : Handle) :
    c.Suspended awaiting (q.parkReceiver a c awaiting).2.1 := by
  unfold Queue.parkReceiver
  split <;> rename_i hcheck
  · exact Or.inl (by rw [hcheck])
  · cases Scheduler.runningIs_true hcheck
    exact Or.inr rfl

/-- A second waiter of a flag is reported. -/
theorem Flags.park_sched (F : Flags N) (f : ℕ) (c : Scheduler N) (awaiting : Handle) :
    c.Suspended awaiting (F.park f c awaiting).2.1 ∨
      (F.park f c awaiting).2.1 = c.report .multipleFlagWaiters := by
  unfold Flags.park
  split <;> rename_i hcheck
  · exact Or.inl (Or.inl (by rw [hcheck]))
  · cases Scheduler.runningIs_true hcheck
    split
    · exact Or.inr rfl
    · exact Or.inl (Or.inr rfl)

/-- A send that is not accepted has changed nothing. -/
theorem Queue.doSend_false {q q' : Queue N T} {cap : ℕ} {c c' : Scheduler N} {v : Option T}
    {source : Option Storage} (h : q.doSend cap c v source = (false, c', q')) : c' = c := by
  unfold Queue.doSend at h
  split at h
  · simp at h
  · split at h <;> simp at h
    exact h.1.symm

theorem Queue.receiveReady_false {q q' : Queue N T} {cap a : ℕ} {c c' : Scheduler N}
    (h : q.receiveReady cap a c = (false, c', q')) : c' = c := by
  unfold Queue.receiveReady at h
  split at h <;> simp at h
  exact h.1.symm

namespace World

variable (w : World N T)

theorem awaitSend_sched (k : ℕ) (v : T) (awaiting : Handle) :
    (w.awaitSend cfg k v awaiting).2.sched =
        (((w.queue k).newSender v).2.sendReady (cfg.capacity k) ((w.queue k).newSender v).1
          w.sched).2.1 ∨
      w.sched.Suspended awaiting (w.awaitSend cfg k v awaiting).2.sched := by
  unfold World.awaitSend
  dsimp only
  split <;> rename_i hready
  · exact Or.inl (by rw [hready]; rfl)
  · cases Queue.doSend_false hready
    refine Or.inr ?_
    have hpark := Queue.parkSender_sched ‹Queue N T› ((w.queue k).newSender v).1 w.sched awaiting
    split <;> rename_i hparked <;> rw [hparked] at hpark <;> exact hpark

theorem awaitReceive_sched (k : ℕ) (awaiting : Handle) :
    (w.awaitReceive cfg k awaiting).2.sched =
        ((w.queue k).newReceiver.2.receiveReady (cfg.capacity k) (w.queue k).newReceiver.1
          w.sched).2.1 ∨
      w.sched.Suspended awaiting (w.awaitReceive cfg k awaiting).2.sched := by
  unfold World.awaitReceive
  dsimp only
  split <;> rename_i hready
  · exact Or.inl (by rw [hready]; rfl)
  · cases Queue.receiveReady_false hready
    refine Or.inr ?_
    have hpark := Queue.parkReceiver_sched ‹Queue N T› (w.queue k).newReceiver.1 w.sched awaiting
    split <;> rename_i hparked <;> rw [hparked] at hpark
    · split <;> exact hpark
    · exact hpark

end World

end SimpleAwait
