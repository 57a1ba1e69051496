import SimpleAwait.Scheduler.Wakes

/-!
# Calls that move no frame

`Keeps c c'` says that no frame changes hands from `c` to `c'`, that no task ends and that no slot
is acquired.  All functions of the scheduler do no more than this, besides those that adopt a frame
or destroy one.
-/

namespace SimpleAwait

namespace Scheduler

variable {N : ℕ}

/-- From `c` to `c'` no slot is acquired, or only `acquired`. -/
def Acquires (c c' : Scheduler N) (acquired : Option (Fin N)) : Prop :=
  ∃ obs, c'.trace = c.trace ++ obs ∧ ∀ s g, Obs.acquired s g ∈ obs → acquired = some s

namespace Acquires

variable {c c' c'' : Scheduler N} {acquired : Option (Fin N)}

theorem of_eq (h : c'.trace = c.trace) (acquired : Option (Fin N)) : Acquires c c' acquired :=
  ⟨[], by rw [h, List.append_nil], by simp⟩

theorem one {o : Obs N} (h : c'.trace = c.trace ++ [o])
    (ho : ∀ s g, o = .acquired s g → acquired = some s) : Acquires c c' acquired :=
  ⟨[o], h, fun s g hs => ho s g (List.mem_singleton.mp hs).symm⟩

theorem trans (h : Acquires c c' acquired) (h' : Acquires c' c'' none) : Acquires c c'' acquired := by
  obtain ⟨obs, htrace, hobs⟩ := h
  obtain ⟨obs', htrace', hobs'⟩ := h'
  refine ⟨obs ++ obs', by rw [htrace', htrace, List.append_assoc], fun s g hs => ?_⟩
  rcases List.mem_append.mp hs with hs | hs
  · exact hobs s g hs
  · cases hobs' s g hs

end Acquires

/-- Every slot keeps its frame and its task. -/
structure Keeps (c c' : Scheduler N) : Prop where
  trace : Acquires c c' none
  handle : ∀ s, (c'.slots s).handle = (c.slots s).handle
  occupied : ∀ s, c.Occupied s → c'.Occupied s
  inPoll : c'.inPoll = c.inPoll
  shuttingDown : c'.shuttingDown = c.shuttingDown

namespace Keeps

variable {c c' c'' : Scheduler N}

theorem of_slots (hslots : c'.slots = c.slots) (htrace : Acquires c c' none)
    (hinPoll : c'.inPoll = c.inPoll) (hshuttingDown : c'.shuttingDown = c.shuttingDown) :
    Keeps c c' where
  trace := htrace
  handle s := by rw [hslots]
  occupied s hs := by rwa [Occupied, hslots]
  inPoll := hinPoll
  shuttingDown := hshuttingDown

theorem refl (c : Scheduler N) : Keeps c c := of_slots rfl (.of_eq rfl none) rfl rfl

theorem trans (h : Keeps c c') (h' : Keeps c' c'') : Keeps c c'' where
  trace := h.trace.trans h'.trace
  handle s := (h'.handle s).trans (h.handle s)
  occupied s hs := h'.occupied s (h.occupied s hs)
  inPoll := h'.inPoll.trans h.inPoll
  shuttingDown := h'.shuttingDown.trans h.shuttingDown

theorem of_wakes (h : c.Wakes c') : Keeps c c' where
  trace := by
    obtain ⟨obs, htrace, hobs⟩ := h.trace
    exact ⟨obs, htrace, fun s g hs => (hobs _ hs).elim⟩
  handle := h.handle
  occupied s hs := by
    rcases h.state s with hsame | hready
    · rwa [Occupied, hsame]
    · simp [Occupied, hready]
  inPoll := h.inPoll
  shuttingDown := h.shuttingDown

variable (c) (s : Fin N)

/-- A slot is written whose task stays. -/
theorem modify {f : Slot N → Slot N} (hhandle : (f (c.slots s)).handle = (c.slots s).handle)
    (hstate : (f (c.slots s)).state ≠ .free ∧ (f (c.slots s)).state ≠ .completed) :
    Keeps c (c.modify s f) where
  trace := .of_eq rfl none
  handle t := by
    rw [modify_slots]
    split_ifs with hts
    · rw [hts, hhandle]
    · rfl
  occupied t ht := by
    rw [Occupied, modify_slots]
    split_ifs with hts
    · rwa [hts]
    · exact ht
  inPoll := rfl
  shuttingDown := rfl

theorem setState {state : State} (hstate : state ≠ .free ∧ state ≠ .completed) :
    Keeps c (c.setState s state) := modify c s rfl hstate

theorem record {o : Obs N} (ho : ∀ t g, o ≠ .acquired t g) : Keeps c (c.record o) :=
  of_slots rfl (.one rfl fun t g he => absurd he (ho t g)) rfl rfl

theorem report (e : Error) : Keeps c (c.report e) := record c (by simp)

theorem waitPush (q : WaitQueue N) : Keeps c (c.waitPush q s).1 := by
  rw [waitPush_eq]
  exact ⟨.of_eq rfl none, fun _ => rfl, fun _ ht => ht, rfl, rfl⟩

theorem waitOn (q : WaitQueue N) (awaiting : Handle) : Keeps c (c.waitOn q awaiting).2.1 := by
  unfold Scheduler.waitOn
  split
  · exact report c _
  · split
    · exact (setState c _ ⟨by simp, by simp⟩).trans (waitPush _ _ q)
    · exact report c _

theorem runningIs (awaiting : Handle) : Keeps c (c.runningIs awaiting).2 :=
  of_wakes (.runningIs c awaiting)

theorem parkRunning : Keeps c c.parkRunning.2 := by
  unfold Scheduler.parkRunning
  split
  · exact refl c
  · exact setState c _ ⟨by simp, by simp⟩

theorem armCurrentTimer (duration : Tick) : Keeps c (c.armCurrentTimer duration) := by
  unfold Scheduler.armCurrentTimer
  split
  · exact refl c
  · split_ifs
    · exact of_wakes (.yieldCurrent c)
    · split
      · exact of_wakes ((Wakes.report c _).trans (.yieldCurrent _))
      · rename_i s _ _ _ deadline _
        have harmed : Keeps c (c.modify s fun slot =>
            { slot with deadline := deadline, state := .waitingTimer }) :=
          modify c s rfl ⟨by simp, by simp⟩
        rw [armTimer_eq]
        exact harmed.trans (of_slots rfl (.of_eq rfl none) rfl rfl)

theorem afterSuspend : Keeps c (c.afterSuspend s) := by
  have hreturned : Keeps c { c with current := none } := of_slots rfl (.of_eq rfl none) rfl rfl
  unfold Scheduler.afterSuspend
  dsimp only
  split
  · exact hreturned.trans (setState _ s ⟨by simp, by simp⟩)
  · exact hreturned

theorem afterFinish : Keeps c (c.afterFinish s) :=
  of_slots rfl (.one rfl (by simp)) rfl rfl

theorem unlinkFront : Keeps c (c.unlinkFront s) where
  trace := .of_eq rfl none
  handle t := by simp
  occupied t ht := by simpa [Occupied] using ht
  inPoll := by simp
  shuttingDown := by simp

theorem enter : Keeps c (c.enter s) :=
  (setState c s ⟨by simp, by simp⟩).trans
    (of_slots rfl (.one rfl (by simp)) rfl rfl)

/-- What an iteration of `run_pass` leaves, up to `resume()`. -/
theorem passPop : match c.passPop with
    | .exhausted => True
    | .skipped c' | .resume _ c' => Keeps c c' := by
  unfold Scheduler.passPop Scheduler.readyPop
  cases c.readyHead with
  | none => trivial
  | some s =>
      dsimp only
      split <;> rename_i hpop
      · trivial
      · split at hpop <;> cases hpop
        exact unlinkFront c s
      · split at hpop <;> cases hpop
        exact (unlinkFront c s).trans (enter _ s)

end Keeps

end Scheduler

end SimpleAwait
