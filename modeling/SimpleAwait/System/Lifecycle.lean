import SimpleAwait.System.Moves

/-!
# Scheduling, adoption and completion

How a slot gets a task and how it loses it: `acquire_slot`, `schedule`,
`start_child_await` and the completion branch of `run_pass` keep `Sound`.
-/

namespace SimpleAwait

variable {N : ℕ} {c c' : Scheduler N} {ev : ℕ → WaitQueue N} {v : View N} {s : Fin N}

theorem Place.not_active_iff {p : Place N} : ¬ p.Active ↔ p = .free ∨ p = .completed := by
  simp only [Place.Active]
  tauto

/-- A slot that holds no task is off the lists. -/
theorem Place.unlinked_of_not_active {p : Place N} (hp : ¬ p.Active) : p.Unlinked := by
  rcases Place.not_active_iff.mp hp with rfl | rfl <;> simp [Place.Unlinked]

/-! ## `acquire_slot` -/

theorem Threaded.not_active_of_acquireSlot (h : Threaded c ev v)
    (hacquire : c.acquireSlot = some (s, c')) : ¬ (v.place s).Active := by
  obtain ⟨-, hstate, -⟩ := Scheduler.acquireSlot_spec hacquire
  rw [Place.active_iff_state, ← h.state]
  rcases hstate with hstate | hstate <;> simp [hstate]

/-- `acquire_slot` found slot `s`. -/
theorem Threaded.claim (h : Threaded c ev v) (hs : (v.place s).Unlinked) :
    Threaded (c.claim s) ev v := by
  have hview : v.move s (v.place s) = v := by simp [View.move]
  have hthreaded := h.move (f := fun slot => { slot with generation := slot.generation + 1 })
    (p := v.place s) hs hs (h.state s)
  rw [hview] at hthreaded
  exact hthreaded.congr rfl rfl rfl rfl (by simp [Scheduler.claim]) (by simp [Scheduler.claim])

/-- Slot `s` after `acquire_slot` returned it and it was filled. -/
theorem Scheduler.adopted_slots (c : Scheduler N) (s t : Fin N) (frame : Handle)
    (parent : Option (Fin N)) :
    (((c.claim s).adopt s frame parent).slots t).state =
        (if t = s then .ready else (c.slots t).state) ∧
      (((c.claim s).adopt s frame parent).slots t).parent =
        (if t = s then parent else (c.slots t).parent) ∧
      (((c.claim s).adopt s frame parent).slots t).deadline = (c.slots t).deadline ∧
      (((c.claim s).adopt s frame parent).slots t).generation =
        (if t = s then (c.slots t).generation + 1 else (c.slots t).generation) := by
  by_cases ht : t = s <;> simp [Scheduler.claim, Scheduler.adopt, ht]

namespace Sound

section Adopt

variable (h : Sound c ev v) (hs : ¬ (v.place s).Active) (frame : Handle)
  (parent : Option (Fin N))

include h hs

theorem adopt_threaded : Threaded ((c.claim s).adopt s frame parent) ev (v.enqueue s) := by
  have hunlinked := Place.unlinked_of_not_active hs
  exact ((h.threaded.claim hunlinked).enqueue (f := fun slot =>
      { slot with handle := frame, state := .ready, next := none, parent := parent })
    hunlinked rfl).congr rfl rfl rfl rfl rfl rfl

theorem adopt_timers : Timers ((c.claim s).adopt s frame parent) := by
  refine h.timers.congr (by simp [Scheduler.claim, Scheduler.adopt]) (fun t => ?_) fun t =>
    (c.adopted_slots s t frame parent).2.2.1
  rw [(c.adopted_slots s t frame parent).1]
  by_cases ht : t = s
  · subst ht
    have : v.place t ≠ .timer := fun he => hs (by rw [he]; simp [Place.Active])
    simp [h.state_eq_timer, this]
  · simp [ht]

theorem adopt_chronicle (hgeneration : (c.slots s).generation ≠ maxGeneration) :
    Chronicle ((c.claim s).adopt s frame parent) := by
  have hstate : (c.slots s).state = .free ∨ (c.slots s).state = .completed := by
    rw [h.threaded.state]
    rcases Place.not_active_iff.mp hs with hfree | hcompleted
    · simp [hfree]
    · simp [hcompleted]
  refine h.chronicle.acquire hstate hgeneration (fun t ht => ?_) ?_ ?_ ?_
  · obtain ⟨hstate, -, -, hgeneration⟩ := c.adopted_slots s t frame parent
    simp [hstate, hgeneration, ht]
  · simp [(c.adopted_slots s s frame parent).2.2.2]
  · simp [(c.adopted_slots s s frame parent).1]
  · simp [Scheduler.claim, Scheduler.adopt]

/-- A slot without a task is filled with a task that nobody waits for. -/
theorem adopt (hgeneration : (c.slots s).generation ≠ maxGeneration) :
    Sound ((c.claim s).adopt s frame none) ev (v.enqueue s) where
  threaded := h.adopt_threaded hs frame none
  kin := h.kin.adopt hs (fun t => (c.adopted_slots s t frame none).2.1) rfl
  timers := h.adopt_timers hs frame none
  chronicle := h.adopt_chronicle hs frame none hgeneration

/-- A slot without a task is filled with a child that the running slot `p` waits for. -/
theorem adoptChild {p : Fin N} (hp : v.place p = .running)
    (hgeneration : (c.slots s).generation ≠ maxGeneration) :
    Sound (((c.claim s).adopt s frame (some p)).setState p .waitingChild) ev
      ((v.enqueue s).move p (.child s)) := by
  have hne : p ≠ s := by
    rintro rfl
    exact hs (by simp [hp, Place.Active])
  have hrunning : (((c.claim s).adopt s frame (some p)).slots p).state = .running := by
    rw [(c.adopted_slots s p frame (some p)).1, if_neg hne, h.threaded.state, hp,
      Place.state_running]
  exact {
    threaded := (h.adopt_threaded hs frame (some p)).move (by simp [hne, hp, Place.Unlinked])
      (by simp [Place.Unlinked]) rfl
    kin := by
      refine h.kin.adoptChild hs hp (fun t => ?_) rfl
      rw [Scheduler.setState_parent, (c.adopted_slots s t frame (some p)).2.1]
    timers := by
      refine (h.adopt_timers hs frame (some p)).congr rfl (fun t => ?_) (by simp)
      by_cases ht : t = p
      · subst ht
        simp [hrunning]
      · simp [ht]
    chronicle := (h.adopt_chronicle hs frame (some p) hgeneration).move (s := p)
      .waitingChild (by simp [hrunning]) (by simp) (by simp) (by simp) (by simp) }

end Adopt

/-- `schedule` changes nothing that the view shows, or links a new task. -/
theorem schedule (h : Sound c ev v) (task : Handle) :
    Sound (c.schedule task).sched ev v ∨
      ∃ s, ¬ (v.place s).Active ∧ Sound (c.schedule task).sched ev (v.enqueue s) := by
  unfold Scheduler.schedule
  split
  · exact Or.inl h
  cases task with
  | none => exact Or.inl (h.report .invalidTask)
  | some frame =>
      dsimp only
      split
      · exact Or.inl (h.report .taskLimit)
      · rename_i s claimed hacquire
        have hs := h.threaded.not_active_of_acquireSlot hacquire
        obtain ⟨rfl, -, hgeneration⟩ := Scheduler.acquireSlot_spec hacquire
        exact Or.inr ⟨s, hs, h.adopt hs (some frame) hgeneration⟩

/-- `start_child_await` by the running task in slot `p`: without a slot the task is
requeued, and otherwise it waits for the child. -/
theorem startChildAwait (h : Sound c ev v) {p : Fin N} (child : Handle)
    (hcurrent : c.current = some p) (hp : v.place p = .running) :
    (c.startChildAwait child (c.slots p).handle).suspend = true ∧
      (Sound (c.startChildAwait child (c.slots p).handle).sched ev (v.enqueue p) ∨
        ∃ s, ¬ (v.place s).Active ∧
          Sound (c.startChildAwait child (c.slots p).handle).sched ev
            ((v.enqueue s).move p (.child s))) := by
  have hrunning : c.isRunning (c.slots p).handle = true := by
    simp [Scheduler.isRunning, hcurrent, h.threaded.state, hp]
  simp only [Scheduler.startChildAwait, hcurrent, hrunning, if_true]
  split
  · refine ⟨rfl, Or.inl ?_⟩
    exact ((h.destroyed child).enqueue (hp ▸ Place.plain_running)).report .taskLimit
  · rename_i s claimed hacquire
    have hs := h.threaded.not_active_of_acquireSlot hacquire
    obtain ⟨rfl, -, hgeneration⟩ := Scheduler.acquireSlot_spec hacquire
    exact ⟨rfl, Or.inr ⟨s, hs, h.adoptChild hs child hp hgeneration⟩⟩

/-! ## Completion -/

/-- The write to the slot of a completed task. -/
theorem cleared_slots (c : Scheduler N) (s t : Fin N) :
    ((c.modify s fun slot =>
      { slot with handle := none, parent := none, state := .completed }).slots t) =
      if t = s then { c.slots t with handle := none, parent := none, state := .completed }
      else c.slots t := c.modify_slots ..

/-- The slot of a task that ran to its end is completed, and its parent, if it has one,
becomes ready. -/
theorem afterDestroy (h : Sound c ev v) (hs : v.place s = .running) :
    ((∀ p, v.place p ≠ .child s) ∧ Sound (c.afterDestroy s) ev (v.move s .completed)) ∨
      ∃ p, v.place p = .child s ∧
        Sound (c.afterDestroy s) ev ((v.move s .completed).enqueue p) := by
  have hrunning : (c.slots s).state = .running := by rw [h.threaded.state, hs, Place.state_running]
  have hmoved := h.threaded.move (s := s) (p := .completed)
    (f := fun slot => { slot with handle := none, parent := none, state := .completed })
    (hs ▸ Place.plain_running.unlinked) (by simp [Place.Unlinked]) rfl
  have htimers : ∀ {c' : Scheduler N}, c'.nearestDeadline = c.nearestDeadline →
      (∀ t, (c'.slots t).state = .waitingTimer ↔
        t ≠ s ∧ (c.slots t).state = .waitingTimer) →
      (∀ t, (c'.slots t).deadline = (c.slots t).deadline) → Timers c' := by
    intro c' hnearest hstate hdeadline
    refine h.timers.congr hnearest (fun t => ?_) hdeadline
    rw [hstate]
    constructor
    · exact fun ht => ht.2
    · intro ht
      refine ⟨?_, ht⟩
      rintro rfl
      simp [hrunning] at ht
  have hchronicle : ∀ {c' : Scheduler N},
      (∀ t, (c'.slots t).generation = (c.slots t).generation) →
      (∀ t, (c'.slots t).state = if t = s then .completed else (c.slots t).state) →
      lifecycle c'.trace = lifecycle c.trace ++ [.completed s (c.slots s).generation] →
      Chronicle c' := by
    intro c' hgeneration hstate htrace
    refine h.chronicle.complete (by simp [hrunning]) hgeneration (fun t ht => ?_) ?_ htrace
    · simp [hstate, ht]
    · simp [hstate]
  cases hparent : (c.slots s).parent with
  | none =>
      have hnone : ∀ p, v.place p ≠ .child s := by
        intro p hp
        have := (h.kin.parent s p).mpr hp
        simp [hparent] at this
      refine Or.inl ⟨hnone, ?_, ?_, ?_, ?_⟩ <;> simp only [Scheduler.afterDestroy, hparent]
      · exact hmoved.congr rfl rfl rfl rfl (by simp) (by simp)
      · refine h.kin.complete hs hparent (fun t => ?_) rfl
        simp only [Scheduler.record_slots, cleared_slots]
        split <;> rfl
      · refine htimers rfl (fun t => ?_) fun t => ?_ <;>
        · simp only [Scheduler.record_slots, cleared_slots]
          by_cases ht : t = s <;> simp [ht]
      · refine hchronicle (fun t => ?_) (fun t => ?_) (by simp) <;>
        · simp only [Scheduler.record_slots, cleared_slots]
          by_cases ht : t = s <;> simp [ht]
  | some p =>
      have hp : v.place p = .child s := (h.kin.parent s p).mp hparent
      have hne : p ≠ s := by
        rintro rfl
        simp [hs] at hp
      have hwaiting : (c.slots p).state = .waitingChild := by
        rw [h.threaded.state, hp, Place.state_child]
      refine Or.inr ⟨p, hp, ?_, ?_, ?_, ?_⟩ <;>
        simp only [Scheduler.afterDestroy, hparent, Scheduler.record_slots, cleared_slots, hne,
          if_false, hwaiting, if_true]
      · have hcounted : Threaded { (c.modify s fun slot =>
            { slot with handle := none, parent := none, state := .completed }).record
              (.completed s (c.slots s).generation) with activeCount := c.activeCount - 1 }
            ev (v.move s .completed) :=
          hmoved.congr rfl rfl rfl rfl (by simp) (by simp)
        exact hcounted.enqueue (by simp [hne, hp, Place.Unlinked]) rfl
      · refine h.kin.completeChild hs hp (fun t => ?_) (by simp)
        simp only [Scheduler.readyPush_slots, Scheduler.setState_parent, cleared_slots]
        split <;> rfl
      · refine htimers (by simp) (fun t => ?_) fun t => ?_
        · by_cases htp : t = p
          · subst htp
            simp [hwaiting]
          · by_cases ht : t = s
            · subst ht
              simp [htp]
            · simp [htp, ht]
        · by_cases ht : t = s <;> simp [ht]
      · have hcompleted : Chronicle ((c.modify s fun slot =>
            { slot with handle := none, parent := none, state := .completed }).record
              (.completed s (c.slots s).generation)) := by
          refine hchronicle (fun t => ?_) (fun t => ?_) (by simp)
          · by_cases ht : t = s <;> simp [ht]
          · by_cases ht : t = s <;> simp [ht]
        exact hcompleted.move (s := p) .ready (by simp [hne, hwaiting]) (by simp)
          (fun t => by simp) (fun t => by simp) (by simp)

end Sound

end SimpleAwait
