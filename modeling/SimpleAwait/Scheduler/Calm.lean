import SimpleAwait.Scheduler.Operations

/-!
# What a call leaves alone

Only the pass itself resumes tasks, and only it sets `current_`, `in_poll_` and `now_`.
`Calm c c'` says that `c'` comes from `c` without that: these fields are the same, and the
trace has grown by entries that resume nothing.  Every function that user code calls is calm.
-/

namespace SimpleAwait

variable {N : ℕ}

/-- The tasks linked into the ready FIFO, in order. -/
def enqueuedTasks (trace : List (Obs N)) : List (Fin N × UInt32) :=
  trace.filterMap fun | .enqueued s g => some (s, g) | _ => none

/-- The tasks resumed, in order. -/
def resumedTasks (trace : List (Obs N)) : List (Fin N × UInt32) :=
  trace.filterMap fun | .resumed s g => some (s, g) | _ => none

@[simp] theorem enqueuedTasks_append (t u : List (Obs N)) :
    enqueuedTasks (t ++ u) = enqueuedTasks t ++ enqueuedTasks u := List.filterMap_append ..

@[simp] theorem resumedTasks_append (t u : List (Obs N)) :
    resumedTasks (t ++ u) = resumedTasks t ++ resumedTasks u := List.filterMap_append ..

@[simp] theorem enqueuedTasks_nil : enqueuedTasks ([] : List (Obs N)) = [] := rfl
@[simp] theorem resumedTasks_nil : resumedTasks ([] : List (Obs N)) = [] := rfl

@[simp] theorem enqueuedTasks_cons (o : Obs N) (t : List (Obs N)) : enqueuedTasks (o :: t) =
    match o with | .enqueued s g => (s, g) :: enqueuedTasks t | _ => enqueuedTasks t := by
  cases o <;> rfl

@[simp] theorem resumedTasks_cons (o : Obs N) (t : List (Obs N)) : resumedTasks (o :: t) =
    match o with | .resumed s g => (s, g) :: resumedTasks t | _ => resumedTasks t := by
  cases o <;> rfl

namespace Scheduler

/-- The slot holds a task that has not completed. -/
def Occupied (c : Scheduler N) (s : Fin N) : Prop :=
  (c.slots s).state ≠ .free ∧ (c.slots s).state ≠ .completed

/-- `c'` comes from `c` by calls that resume nothing. -/
structure Calm (c c' : Scheduler N) : Prop where
  current : c'.current = c.current
  inPoll : c'.inPoll = c.inPoll
  shuttingDown : c'.shuttingDown = c.shuttingDown
  now : c'.now = c.now
  trace : ∃ obs, c'.trace = c.trace ++ obs ∧ resumedTasks obs = []
  /-- No task ends, and none is replaced. -/
  tenant : ∀ s, c.Occupied s →
    c'.Occupied s ∧ (c'.slots s).generation = (c.slots s).generation

namespace Calm

variable {c c' c'' : Scheduler N}

theorem refl (c : Scheduler N) : Calm c c :=
  ⟨rfl, rfl, rfl, rfl, ⟨[], by simp, rfl⟩, fun _ hs => ⟨hs, rfl⟩⟩

theorem trans (h : Calm c c') (h' : Calm c' c'') : Calm c c'' where
  current := h'.current.trans h.current
  inPoll := h'.inPoll.trans h.inPoll
  shuttingDown := h'.shuttingDown.trans h.shuttingDown
  now := h'.now.trans h.now
  trace := by
    obtain ⟨obs, htrace, hobs⟩ := h.trace
    obtain ⟨obs', htrace', hobs'⟩ := h'.trace
    exact ⟨obs ++ obs', by rw [htrace', htrace, List.append_assoc], by simp [hobs, hobs']⟩
  tenant s hs := by
    obtain ⟨hs', hgeneration⟩ := h.tenant s hs
    obtain ⟨hs'', hgeneration'⟩ := h'.tenant s hs'
    exact ⟨hs'', hgeneration'.trans hgeneration⟩

variable (c) (s : Fin N)

/-- Writes that record nothing, and that keep every task in its slot. -/
theorem of_eq (hcurrent : c'.current = c.current) (hinPoll : c'.inPoll = c.inPoll)
    (hshuttingDown : c'.shuttingDown = c.shuttingDown) (hnow : c'.now = c.now)
    (htrace : c'.trace = c.trace)
    (htenant : ∀ s, c.Occupied s →
      c'.Occupied s ∧ (c'.slots s).generation = (c.slots s).generation) : Calm c c' :=
  ⟨hcurrent, hinPoll, hshuttingDown, hnow, ⟨[], by simp [htrace], rfl⟩, htenant⟩

theorem modify {f : Slot N → Slot N}
    (hf : c.Occupied s → ((f (c.slots s)).state ≠ .free ∧ (f (c.slots s)).state ≠ .completed) ∧
      (f (c.slots s)).generation = (c.slots s).generation) : Calm c (c.modify s f) :=
  of_eq c rfl rfl rfl rfl rfl fun t ht => by
    rw [Occupied, modify_slots]
    split_ifs with hts
    · exact hts ▸ hf (hts ▸ ht)
    · exact ⟨ht, rfl⟩

theorem setState {state : State} (hstate : state ≠ .free ∧ state ≠ .completed) :
    Calm c (c.setState s state) := modify c s fun _ => ⟨hstate, rfl⟩

theorem park : Calm c (c.setState s .waitingLocal) := setState c s ⟨by simp, by simp⟩

theorem record {o : Obs N} (ho : resumedTasks [o] = []) : Calm c (c.record o) :=
  ⟨rfl, rfl, rfl, rfl, ⟨[o], rfl, ho⟩, fun _ hs => ⟨hs, rfl⟩⟩

theorem report (e : Error) : Calm c (c.report e) := record c rfl

theorem readyPush : Calm c (c.readyPush s) :=
  ⟨by simp, by simp, by simp, by simp, ⟨_, readyPush_trace c s, rfl⟩,
    fun t ht => by simpa [Occupied] using ht⟩

/-- The slot is made ready. -/
theorem enqueue : Calm c ((c.setState s .ready).readyPush s) :=
  (setState c s ⟨by simp, by simp⟩).trans (readyPush _ s)

theorem wakeSlot (s : Option (Fin N)) : Calm c (c.wakeSlot s) := by
  cases s with
  | none => exact refl c
  | some s => exact enqueue c s

theorem count (n : ℕ) : Calm c { c with activeCount := n } :=
  of_eq c rfl rfl rfl rfl rfl fun _ ht => ⟨ht, rfl⟩

theorem timed (deadline : Tick) : Calm c { c with nearestDeadline := deadline } :=
  of_eq c rfl rfl rfl rfl rfl fun _ ht => ⟨ht, rfl⟩

theorem adopt (frame : Handle) (parent : Option (Fin N)) : Calm c (c.adopt s frame parent) :=
  ((modify c s fun _ => ⟨⟨by simp, by simp⟩, rfl⟩).trans (readyPush _ s)).trans (count _ _)

theorem acquireSlot {s : Fin N} (h : c.acquireSlot = some (s, c')) : Calm c c' := by
  obtain ⟨rfl, hstate, -⟩ := acquireSlot_spec h
  refine (modify c s fun hs => ?_).trans (record _ rfl)
  exact (hstate.elim hs.1 hs.2).elim

theorem schedule (task : Handle) : Calm c (c.schedule task).sched := by
  unfold Scheduler.schedule
  split
  · exact refl c
  cases task with
  | none => exact report c _
  | some frame =>
      dsimp only
      split
      · exact report c _
      · rename_i hacquire
        exact (acquireSlot c hacquire).trans (adopt _ _ _ _)

theorem waitPop (q : WaitQueue N) : Calm c (c.waitPop q).2.1 := by
  unfold Scheduler.waitPop
  split
  · exact refl c
  · rename_i s _
    have hcleared : Calm c (c.modify s fun slot => { slot with next := none }) :=
      modify c s fun hs => ⟨hs, rfl⟩
    exact hcleared

theorem waitPush (q : WaitQueue N) : Calm c (c.waitPush q s).1 := by
  rw [waitPush_eq]
  exact of_eq c rfl rfl rfl rfl rfl fun _ ht => ⟨ht, rfl⟩

theorem wakeAllLoop (fuel : ℕ) (c : Scheduler N) (q : WaitQueue N) :
    Calm c (Scheduler.wakeAllLoop fuel c q).1 := by
  induction fuel generalizing c q with
  | zero => exact refl c
  | succ fuel ih =>
      have hpop := waitPop c q
      unfold Scheduler.wakeAllLoop
      split
      · rename_i hnone
        rwa [hnone] at hpop
      · rename_i hsome
        rw [hsome] at hpop
        exact (hpop.trans (enqueue _ _)).trans (ih _ _)

theorem wakeAll (q : WaitQueue N) : Calm c (c.wakeAll q).1 := wakeAllLoop N c q

theorem runningIs (awaiting : Handle) : Calm c (c.runningIs awaiting).2 := by
  unfold Scheduler.runningIs
  split
  · exact refl c
  · exact report c _

theorem parkRunning : Calm c c.parkRunning.2 := by
  unfold Scheduler.parkRunning
  split
  · exact refl c
  · exact park c _

theorem yieldCurrent : Calm c c.yieldCurrent := by
  unfold Scheduler.yieldCurrent
  split
  · exact refl c
  · exact enqueue c _

theorem armTimer (deadline : Tick) : Calm c (c.armTimer s deadline) := by
  rw [armTimer_eq]
  refine (modify c s ?_).trans (timed _ _)
  exact fun _ => ⟨⟨by simp, by simp⟩, rfl⟩

theorem armCurrentTimer (duration : Tick) : Calm c (c.armCurrentTimer duration) := by
  unfold Scheduler.armCurrentTimer
  split
  · exact refl c
  · split_ifs
    · exact yieldCurrent c
    · split
      · exact (report c _).trans (yieldCurrent _)
      · exact armTimer c _ _

theorem startChildAwait (child awaiting : Handle) :
    Calm c (c.startChildAwait child awaiting).sched := by
  have hreport : Calm c ((c.record (.destroyed child)).report .invalidTask) :=
    (record c rfl).trans (report _ _)
  unfold Scheduler.startChildAwait
  split
  · exact hreport
  · split
    · split
      · exact ((record c rfl).trans (enqueue _ _)).trans (report _ _)
      · rename_i hacquire
        exact ((acquireSlot c hacquire).trans (adopt _ _ _ _)).trans
          (setState _ _ ⟨by simp, by simp⟩)
    · exact hreport

theorem dueTimersLoop (fuel : ℕ) (c : Scheduler N) : Calm c (Scheduler.dueTimersLoop fuel c) := by
  induction fuel generalizing c with
  | zero => exact refl c
  | succ fuel ih =>
      unfold Scheduler.dueTimersLoop
      split
      · exact refl c
      · exact (enqueue c _).trans (ih _)

theorem processDueTimers : Calm c c.processDueTimers := by
  unfold Scheduler.processDueTimers
  split
  · exact refl c
  · exact (dueTimersLoop N c).trans (timed _ _)

end Calm

end Scheduler

end SimpleAwait
