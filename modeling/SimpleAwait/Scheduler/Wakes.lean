import SimpleAwait.Primitives.Queue
import SimpleAwait.Primitives.Event
import SimpleAwait.Scheduler.Calm

/-!
# Calls that only wake

`Wakes c c'` says that `c'` comes from `c` by reports and wakes: some slots have become ready and
are linked at the end of the ready FIFO, and nothing else has happened to any slot.  The
functions of events and queues that do not suspend do no more than this, also where the
pointers that they follow lead to slots that hold no task.
-/

namespace SimpleAwait

variable {N : ℕ} {T : Type}

/-- An entry of the trace that a report or a wake leaves. -/
def Obs.Harmless : Obs N → Prop
  | .error _ | .enqueued .. => True
  | _ => False

namespace Scheduler

/-- `c'` comes from `c` by reports and wakes. -/
structure Wakes (c c' : Scheduler N) : Prop where
  handle : ∀ s, (c'.slots s).handle = (c.slots s).handle
  state : ∀ s, (c'.slots s).state = (c.slots s).state ∨ (c'.slots s).state = .ready
  shuttingDown : c'.shuttingDown = c.shuttingDown
  inPoll : c'.inPoll = c.inPoll
  trace : ∃ obs, c'.trace = c.trace ++ obs ∧ ∀ o ∈ obs, o.Harmless

namespace Wakes

variable {c c' c'' : Scheduler N}

theorem refl (c : Scheduler N) : Wakes c c :=
  ⟨fun _ => rfl, fun _ => Or.inl rfl, rfl, rfl, [], by simp, by simp⟩

theorem trans (h : Wakes c c') (h' : Wakes c' c'') : Wakes c c'' where
  handle s := (h'.handle s).trans (h.handle s)
  state s := by
    rcases h'.state s with hsame | hready
    · rw [hsame]
      exact h.state s
    · exact Or.inr hready
  shuttingDown := h'.shuttingDown.trans h.shuttingDown
  inPoll := h'.inPoll.trans h.inPoll
  trace := by
    obtain ⟨obs, htrace, hobs⟩ := h.trace
    obtain ⟨obs', htrace', hobs'⟩ := h'.trace
    refine ⟨obs ++ obs', by rw [htrace', htrace, List.append_assoc], fun o ho => ?_⟩
    rcases List.mem_append.mp ho with ho | ho
    · exact hobs o ho
    · exact hobs' o ho

variable (c) (s : Fin N)

theorem report (e : Error) : Wakes c (c.report e) :=
  ⟨fun _ => rfl, fun _ => Or.inl rfl, rfl, rfl, [.error e], rfl, by simp [Obs.Harmless]⟩

/-- The slot is made ready. -/
theorem enqueue : Wakes c ((c.setState s .ready).readyPush s) where
  handle t := by simp
  state t := by
    by_cases ht : t = s
    · exact Or.inr (by simp [ht])
    · exact Or.inl (by simp [ht])
  shuttingDown := by simp
  inPoll := by simp
  trace := ⟨[.enqueued s (c.slots s).generation], by simp, by simp [Obs.Harmless]⟩

theorem wakeSlot (s : Option (Fin N)) : Wakes c (c.wakeSlot s) := by
  cases s with
  | none => exact refl c
  | some s => exact enqueue c s

theorem waitPop (q : WaitQueue N) : Wakes c (c.waitPop q).2.1 := by
  unfold Scheduler.waitPop
  split
  · exact refl c
  · rename_i s _
    refine ⟨fun t => ?_, fun t => Or.inl ?_, rfl, rfl, [], by simp, by simp⟩
    · by_cases ht : t = s <;> simp [ht]
    · by_cases ht : t = s <;> simp [ht]

theorem wakeAllLoop (fuel : ℕ) (c : Scheduler N) (q : WaitQueue N) :
    Wakes c (Scheduler.wakeAllLoop fuel c q).1 := by
  induction fuel generalizing c q with
  | zero => exact refl c
  | succ fuel ih =>
      have hpop := waitPop c q
      unfold Scheduler.wakeAllLoop
      split
      · rename_i hnone
        rwa [hnone] at hpop
      · rename_i hsome
        rw [hsome] at hpop
        exact (hpop.trans (enqueue _ _)).trans (ih _ _)

theorem wakeAll (q : WaitQueue N) : Wakes c (c.wakeAll q).1 := wakeAllLoop N c q

theorem runningIs (awaiting : Handle) : Wakes c (c.runningIs awaiting).2 := by
  unfold Scheduler.runningIs
  split
  · exact refl c
  · exact report c _

/-- The running slot goes to the end of the ready FIFO. -/
theorem yieldCurrent : Wakes c c.yieldCurrent := by
  unfold Scheduler.yieldCurrent
  split
  · exact refl c
  · exact enqueue c _

theorem dueTimersLoop (fuel : ℕ) (c : Scheduler N) : Wakes c (Scheduler.dueTimersLoop fuel c) := by
  induction fuel generalizing c with
  | zero => exact refl c
  | succ fuel ih =>
      unfold Scheduler.dueTimersLoop
      split
      · exact refl c
      · exact (enqueue c _).trans (ih _)

theorem timed (deadline : Tick) : Wakes c { c with nearestDeadline := deadline } :=
  ⟨fun _ => rfl, fun _ => Or.inl rfl, rfl, rfl, [], by simp, by simp⟩

theorem processDueTimers : Wakes c c.processDueTimers := by
  unfold Scheduler.processDueTimers
  split
  · exact refl c
  · exact (dueTimersLoop N c).trans (timed _ _)

theorem doSend (q : Queue N T) (cap : ℕ) (v : Option T) (source : Option Storage) :
    Wakes c (q.doSend cap c v source).2.1 := by
  unfold Queue.doSend
  split
  · exact wakeSlot c _
  · split <;> exact refl c

theorem admitOldestSender (q : Queue N T) (cap : ℕ) : Wakes c (q.admitOldestSender cap c).1 := by
  unfold Queue.admitOldestSender
  split
  · exact refl c
  · exact wakeSlot c _

theorem tryReceive (q : Queue N T) (cap : ℕ) : Wakes c (q.tryReceive cap c).2.1 := by
  unfold Queue.tryReceive
  split
  · exact refl c
  · exact admitOldestSender c _ cap

theorem receiveReady (q : Queue N T) (cap a : ℕ) : Wakes c (q.receiveReady cap a c).2.1 := by
  unfold Queue.receiveReady
  split
  · exact refl c
  · exact admitOldestSender c _ cap

end Wakes

end Scheduler

end SimpleAwait
