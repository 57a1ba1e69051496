import SimpleAwait.System.Invariant

/-!
# The stages of a pass keep the invariant

The check of `s_pending_`, the walk of the armed list, the due timers, the loop of `run_pass`
with the completion of tasks, and the end of the pass.
-/

namespace SimpleAwait

variable {N : ℕ} {T : Type} {cfg : Config N} {w w' : World N T} {L L' : Layout N} {s : Fin N}
  {left : ℕ}

namespace Inv

/-- The first critical section of `poll_external_signals`. -/
theorem checkPending (h : Inv cfg w L) (hcontrol : w.control = .checkPending) :
    ∃ L', Inv cfg (match w.flags.takePending with
      | (true, flags) => { w with flags := flags }.walkTo none flags.armedHead
      | (false, flags) => { w with flags := flags, control := .dueTimers }) L' := by
  have hposition : L.unvisited = [] := by
    have := h.position
    rwa [hcontrol] at this
  have hcurrent := h.staged.current
  have hrunning := h.staged.running
  have hinPoll := h.staged.inPoll
  have hasleep := h.staged.asleep
  rw [hcontrol] at hcurrent hinPoll
  simp only [hcontrol, Control.running] at hrunning
  have hstaged : ∀ (flags : Flags N) (control : Control N), control.current = none →
      control.running = none → control.inPoll = true → control.left = 0 →
      (∀ now timeout, control ≠ .take now timeout) →
      Staged cfg { w with flags := flags, control := control } L.toView := by
    intro flags control hcurrent' hrunning' hinPoll' hleft hawake
    refine ⟨hcurrent.trans hcurrent'.symm, fun t => ?_, hinPoll.trans hinPoll'.symm,
      h.staged.shuttingDown, by simp [hleft], fun now timeout he => absurd he (hawake now timeout)⟩
    rw [hrunning, hrunning']
  by_cases hpending : w.flags.pending = true
  · rw [Flags.takePending, if_pos hpending]
    refine ⟨{ L with visited := [], unvisited := L.visited }, ?_⟩
    have harmed : Armed { w.flags with pending := false } L.place ([] ++ L.visited) := by
      have := h.core.armed
      rw [hposition, List.append_nil] at this
      exact this.congr rfl (fun _ => rfl) (fun _ => rfl) fun _ _ => Iff.rfl
    have hcore : Core cfg ({ w with flags := { w.flags with pending := false } }.walkTo none
        w.flags.armedHead) { L with visited := [], unvisited := L.visited } :=
      ⟨h.core.sound, h.core.channel, h.core.senders, h.core.receivers, h.core.receiving, harmed⟩
    have hhead : w.flags.armedHead = L.visited.head? := harmed.linked.head?_eq.symm
    refine ⟨hcore, ?_, ?_, ?_⟩
    · refine hstaged _ (if w.flags.armedHead = none then .dueTimers else .walk none w.flags.armedHead)
        ?_ ?_ ?_ ?_ fun now timeout => ?_ <;> split <;> simp [Control.current, Control.running,
          Control.inPoll, Control.left]
    · unfold World.walkTo
      dsimp only
      split
      · rename_i hnone
        rw [hhead, List.head?_eq_none_iff] at hnone
        exact hnone
      · exact ⟨rfl, hhead⟩
    · have hnone : ∀ f, ¬ (f ∈ ([] : List ℕ) ∨ ({ w with flags := { w.flags with
          pending := false } }.walkTo none w.flags.armedHead).control.suspendingOn = some f) := by
        intro f hf
        unfold World.walkTo at hf
        dsimp only at hf
        split at hf <;> simp [Control.suspendingOn] at hf
      exact ⟨fun f hf => absurd hf (hnone f), fun _ _ f hf => absurd hf (hnone f),
        fun hand _ => h.signals.wake hand (by simp [hcontrol])⟩
  · rw [Flags.takePending, if_neg hpending]
    refine ⟨L, h.core.congr rfl rfl rfl rfl rfl rfl, hstaged _ .dueTimers rfl rfl rfl rfl (by simp),
      hposition, ?_⟩
    -- nothing that is armed is signaled, or `s_pending_` would be set
    have hquiet : ∀ f ∈ L.visited, (w.flags.flag f).signaled ≠ true := fun f hf hsig =>
      hpending (h.signals.heard f (Or.inl hf) hsig)
    refine ⟨fun f hf hsig => ?_, fun _ _ f hf hsig => ?_,
      fun hand _ => h.signals.wake hand (by simp [hcontrol])⟩ <;>
    · simp only [Control.suspendingOn, reduceCtorEq, or_false] at hf
      exact absurd hsig (hquiet f hf)

/-- The walk goes on to the next flag or ends. -/
theorem walkTo_control (w : World N T) (prev f : Option ℕ) :
    (w.walkTo prev f).control = .dueTimers ∨ ∃ k, (w.walkTo prev f).control = .walk prev (some k) := by
  cases f <;> simp [World.walkTo]

/-- The walk moves on after it has seen the flag in front of it. -/
theorem walkTo (h : Inv cfg w L) (L' : Layout N) {prev prev' f : Option ℕ}
    (hcontrol : w.control = .walk prev f)
    {sched : Scheduler N} {flags : Flags N} (hcalm : w.sched.Calm sched)
    (hcore : Core cfg ({ w with sched := sched, flags := flags }.walkTo prev' L'.unvisited.head?) L')
    (hquiet : (∀ t, L'.place t = .running ↔ L.place t = .running))
    (hprev : prev' = L'.visited.getLast?)
    (hsignals : ∀ k ∈ L'.visited, (flags.flag k).signaled = true →
      k ∈ L.visited ∧ (w.flags.flag k).signaled = true)
    (hpending : flags.pending = w.flags.pending) :
    Inv cfg ({ w with sched := sched, flags := flags }.walkTo prev' L'.unvisited.head?) L' := by
  set w' := ({ w with sched := sched, flags := flags }).walkTo prev' L'.unvisited.head? with hw'
  have hctl : w'.control = .dueTimers ∨ ∃ k, w'.control = .walk prev' (some k) :=
    walkTo_control _ _ _
  have hstaged := h.staged
  refine ⟨hcore, ⟨?_, fun t => ?_, ?_, ?_, ?_, ?_⟩, ?_, ?_⟩
  · have := hcalm.current.trans hstaged.current
    rw [hcontrol] at this
    rcases hctl with hctl | ⟨k, hctl⟩ <;> rw [hctl] <;> exact this
  · rw [hquiet, hstaged.running, hcontrol]
    rcases hctl with hctl | ⟨k, hctl⟩ <;> rw [hctl] <;> rfl
  · have := hcalm.inPoll.trans hstaged.inPoll
    rw [hcontrol] at this
    rcases hctl with hctl | ⟨k, hctl⟩ <;> rw [hctl] <;> exact this
  · exact hcalm.shuttingDown.trans hstaged.shuttingDown
  · rcases hctl with hctl | ⟨k, hctl⟩ <;> rw [hctl] <;> exact Nat.zero_le _
  · intro now timeout he
    rcases hctl with hctl | ⟨k, hctl⟩ <;> simp [hctl] at he
  · simp only [hw', World.walkTo]
    split
    · rename_i hnone
      exact List.head?_eq_none_iff.mp hnone
    · exact ⟨hprev, rfl⟩
  · have hnot : ∀ k, w'.control.suspendingOn ≠ some k := by
      intro k
      rcases hctl with hctl | ⟨j, hctl⟩ <;> simp [hctl, Control.suspendingOn]
    have hpolled : w.control.polled = true := by rw [hcontrol]; rfl
    refine ⟨fun k hk hsig => ?_, fun hand _ k hk hsig => ?_, fun hand _ =>
      h.signals.wake hand (by simp [hcontrol])⟩
    · obtain ⟨hmem, hold⟩ := hsignals k (hk.resolve_right (hnot k)) hsig
      exact hpending.trans (h.signals.heard k (Or.inl hmem) hold)
    · obtain ⟨hmem, hold⟩ := hsignals k (hk.resolve_right (hnot k)) hsig
      exact h.signals.told hand hpolled k (Or.inl hmem) hold

/-- One iteration of the walk of `poll_external_signals`: a signaled flag gives its waiter to
the ready FIFO, and any other is left armed. -/
theorem walkStep (h : Inv cfg w L) {prev : Option ℕ} {f : ℕ}
    (hcontrol : w.control = .walk prev (some f)) :
    ∃ rest, L.unvisited = f :: rest ∧
      (((w.flags.flag f).signaled = false ∧
          Inv cfg ({ w with
            sched := (w.flags.walkStep w.sched prev f).2.2.1
            flags := (w.flags.walkStep w.sched prev f).2.2.2 }.walkTo
              (w.flags.walkStep w.sched prev f).1 (w.flags.walkStep w.sched prev f).2.1)
            { L with visited := L.visited ++ [f], unvisited := rest }) ∨
        ∃ t, (w.flags.flag f).signaled = true ∧ (w.flags.flag f).waiter = some t ∧
          Inv cfg ({ w with
            sched := (w.flags.walkStep w.sched prev f).2.2.1
            flags := (w.flags.walkStep w.sched prev f).2.2.2 }.walkTo
              (w.flags.walkStep w.sched prev f).1 (w.flags.walkStep w.sched prev f).2.1)
            { L with toView := L.toView.enqueue t, unvisited := rest }) := by
  have hposition := h.position
  rw [hcontrol] at hposition
  obtain ⟨hprev, hhead⟩ := hposition
  obtain ⟨rest, hrest⟩ : ∃ rest, L.unvisited = f :: rest := by
    cases hunvisited : L.unvisited with
    | nil => simp [hunvisited] at hhead
    | cons g rest =>
        simp only [hunvisited, List.head?_cons, Option.some.injEq] at hhead
        exact ⟨rest, by rw [hhead]⟩
  have harmed := h.core.armed
  rw [hrest] at harmed
  have hwaiter : (w.flags.flag f).waiter ≠ none := (harmed.mem f).mp (by simp)
  obtain ⟨t, ht⟩ := Option.ne_none_iff_exists'.mp hwaiter
  refine ⟨rest, hrest, ?_⟩
  cases hsig : (w.flags.flag f).signaled with
  | false =>
      refine Or.inl ⟨rfl, ?_⟩
      rw [harmed.walkStep_skip w.sched prev hsig]
      refine h.walkTo { L with visited := L.visited ++ [f], unvisited := rest } hcontrol
        (Scheduler.Calm.refl _) ?_ (fun t => Iff.rfl) (by simp) (fun k hk hk' => ?_) rfl
      · refine ⟨h.core.sound, h.core.channel, h.core.senders, h.core.receivers, h.core.receiving, ?_⟩
        show Armed w.flags L.place (L.visited ++ [f] ++ rest)
        simpa using harmed
      · simp only [List.mem_append, List.mem_singleton] at hk
        rcases hk with hk | rfl
        · exact ⟨hk, hk'⟩
        · simp [hsig] at hk'
  | true =>
      have hplace : L.place t = .parked (.flag f) := (harmed.waiter f t).mp ht
      have hkeep : ∀ r, r ≠ .flag f → ∀ u, (L.toView.enqueue t).place u = .parked r ↔
          L.place u = .parked r :=
        fun r hr u => update_parked_iff (by simp [hplace, Ne.symm hr]) (by simp)
      obtain ⟨-, hpending, hfields⟩ := Armed.disarm_spec (f := f) w.flags L.visited.getLast? (by
        intro hlast
        have hnodup := harmed.linked.nodup
        exact (List.nodup_append.mp hnodup).2.2 f (List.mem_of_getLast? hlast) f (by simp) rfl)
      refine Or.inr ⟨t, rfl, ht, ?_⟩
      rw [harmed.walkStep_wake w.sched prev hsig ht, hprev]
      dsimp only
      refine h.walkTo { L with toView := L.toView.enqueue t, unvisited := rest } hcontrol
        (Scheduler.Calm.wakeSlot _ _) ?_ (fun u => ?_) rfl (fun k hk hk' => ?_) hpending
      · exact {
          sound := h.core.sound.wakeSlot (hplace ▸ Place.plain_parked (by simp))
          channel := h.core.channel
          senders := fun q => (h.core.senders q).congr (fun _ _ => rfl) fun a => hkeep _ (by simp)
          receivers := fun q =>
            (h.core.receivers q).congr (fun _ _ => rfl) fun a => hkeep _ (by simp)
          receiving := h.core.receiving.update (h.core.receiving.eq_none (by simp [hplace])) (by simp)
          armed := harmed.disarm ht }
      · rw [View.enqueue_place]
        by_cases hu : u = t
        · simp [hu, hplace]
        · simp [hu]
      · rw [(hfields k).2.2] at hk'
        split_ifs at hk'
        exact ⟨hk, hk'⟩

/-- `process_due_timers` and the snapshot of the budget. -/
theorem startPass (h : Inv cfg w L) (hcontrol : w.control = .dueTimers) :
    ∃ due : List (Fin N), (∀ s ∈ due, L.place s = .timer) ∧
      Inv cfg w.startPass { L with toView := L.toView.enqueueAll due } := by
  obtain ⟨due, hdue, hsound⟩ := h.core.sound.processDueTimers
  have hcalm := Scheduler.Calm.processDueTimers w.sched
  have hkeeps : Keeps L.place (L.toView.enqueueAll due).place := by
    refine ⟨fun t ht => ?_, fun t r hr => ?_⟩ <;> simp only [View.enqueueAll_place]
    · split_ifs
      · rfl
      · exact ht
    · split_ifs with hmem
      · simp [hdue t hmem]
      · rfl
  have hcurrent := h.staged.current
  have hrunning := h.staged.running
  have hinPoll := h.staged.inPoll
  have hposition := h.position
  rw [hcontrol] at hcurrent hinPoll hposition
  simp only [hcontrol, Control.running] at hrunning
  refine ⟨due, hdue, ?_⟩
  exact {
    core := h.core.keeps hsound hkeeps rfl rfl rfl rfl
    staged := {
      current := hcalm.current.trans hcurrent
      running := fun t => by
        simp only [World.startPass, Control.running, View.enqueueAll_place]
        split_ifs
        · simp
        · simpa using hrunning t
      inPoll := hcalm.inPoll.trans hinPoll
      shuttingDown := hcalm.shuttingDown.trans h.staged.shuttingDown
      budget := hsound.threaded.count.le
      asleep := by simp [World.startPass] }
    position := hposition
    signals := h.signals.mono (fun _ hf => hf) rfl rfl rfl rfl
      (fun f hf _ => by simpa [World.startPass, hcontrol, Control.suspendingOn] using hf)
      (by simp [hcontrol, Control.polled]) (by simp [hcontrol]) }

/-- An iteration of the loop of `run_pass` resumes the head of the ready FIFO. -/
theorem passPop (h : Inv cfg w L) (hcontrol : w.control = .pass (left + 1)) :
    ∃ s rest, L.ready = s :: rest ∧
      w.sched.passPop = .resume s ((w.sched.unlinkFront s).enter s) ∧
      Inv cfg (w.resume s ((w.sched.unlinkFront s).enter s) left)
        { L with toView := L.toView.run s rest } := by
  have hbudget := h.staged.budget
  simp only [hcontrol, Control.left] at hbudget
  obtain ⟨s, rest, hready⟩ : ∃ s rest, L.ready = s :: rest := by
    cases hr : L.ready with
    | nil => simp [hr] at hbudget
    | cons s rest => exact ⟨s, rest, rfl⟩
  have hplace : L.place s = .ready := (h.core.sound.threaded.mem_ready s).mp (by simp [hready])
  have hsound := h.core.sound.run hready
  have hposition := h.position
  have hinPoll := h.staged.inPoll
  have hrunning := h.staged.running
  rw [hcontrol] at hposition hinPoll
  simp only [hcontrol, Control.running, reduceCtorEq, iff_false] at hrunning
  have hkeep : ∀ r u, (L.toView.run s rest).place u = .parked r ↔ L.place u = .parked r :=
    fun r u => update_parked_iff (by simp [hplace]) (by simp)
  -- the result of the `receive()` that the task was suspended in is returned first
  have hcore : Core cfg (w.resume s ((w.sched.unlinkFront s).enter s) left)
      { L with toView := L.toView.run s rest } := by
    cases hreceiving : w.receiving s with
    | none =>
        have hresume : w.resume s ((w.sched.unlinkFront s).enter s) left =
            { w with sched := (w.sched.unlinkFront s).enter s, control := .body s left } := by
          simp [World.resume, hreceiving]
        rw [hresume]
        exact {
          sound := hsound
          channel := h.core.channel
          senders := fun q => (h.core.senders q).congr (fun _ _ => rfl) fun a => hkeep _
          receivers := fun q => (h.core.receivers q).congr (fun _ _ => rfl) fun a => hkeep _
          receiving := h.core.receiving.update hreceiving (by simp)
          armed := h.core.armed.congr rfl (fun _ => rfl) (fun _ => rfl) fun u f => hkeep _ u }
    | some x =>
        obtain ⟨k, a⟩ := x
        have hheld := (h.core.receiving.held s k a hreceiving).resolve_left (by simp [hplace])
        have hresume : w.resume s ((w.sched.unlinkFront s).enter s) left =
            { w.withQueue k ((w.sched.unlinkFront s).enter s) ((w.queue k).receiveResume a).2 with
              control := .body s left
              receiving := Function.update w.receiving s none } := by
          simp [World.resume, hreceiving, World.withQueue, World.setQueue]
        have hother : ∀ b ≠ a, ((w.queue k).receiveResume a).2.receivers b =
            (w.queue k).receivers b := by
          intro b hb
          simp [Queue.receiveResume, hheld.2, Queue.modifyReceiver, hb]
        have hslots : ∀ q b, (((w.resume s ((w.sched.unlinkFront s).enter s) left).queue q).receivers
            b).slot = ((w.queue q).receivers b).slot := by
          intro q b
          rw [hresume]
          by_cases hq : q = k
          · subst hq
            by_cases hb : b = a
            · simp [hb, Queue.receiveResume, hheld.2, Queue.modifyReceiver]
            · simp [hother b hb]
          · simp [hq]
        exact {
          sound := by rw [hresume]; exact hsound
          channel := fun q => by
            rw [hresume]
            by_cases hq : q = k
            · subst hq
              simpa using (h.core.channel q).receiveResume hheld.2
            · simpa [hq] using h.core.channel q
          senders := fun q => by
            refine (h.core.senders q).congr (fun b _ => ?_) fun a => hkeep _
            rw [hresume]
            by_cases hq : q = k
            · subst hq
              simp [Queue.receiveResume, hheld.2, Queue.modifyReceiver]
            · simp [hq]
          receivers := fun q =>
            (h.core.receivers q).congr (fun b _ => hslots q b) fun a => hkeep _
          receiving := by
            rw [hresume]
            refine ⟨fun u q b hu => ?_, fun u q b hu => ?_, fun u u' x hu hu' => ?_⟩ <;>
              dsimp only at hu ⊢
            · rw [hkeep] at hu
              have hus : u ≠ s := by
                rintro rfl
                simp [hplace] at hu
              rw [Function.update_of_ne hus]
              exact h.core.receiving.parked u q b hu
            · have hus : u ≠ s := by
                rintro rfl
                simp at hu
              rw [Function.update_of_ne hus] at hu
              rw [View.run_place, if_neg hus]
              refine (h.core.receiving.held u q b hu).imp_right fun hready => ⟨hready.1, ?_⟩
              by_cases hq : q = k
              · subst hq
                have hb : b ≠ a := by
                  rintro rfl
                  exact hus (h.core.receiving.injective u s _ hu hreceiving)
                simpa [hother b hb] using hready.2
              · simpa [hq] using hready.2
            · dsimp only at hu'
              have hus : u ≠ s := by
                rintro rfl
                simp at hu
              have hus' : u' ≠ s := by
                rintro rfl
                simp at hu'
              rw [Function.update_of_ne hus] at hu
              rw [Function.update_of_ne hus'] at hu'
              exact h.core.receiving.injective u u' x hu hu'
          armed := by
            rw [hresume]
            exact h.core.armed.congr rfl (fun _ => rfl) (fun _ => rfl) fun u f => hkeep _ u }
  have hworld : ∀ c, (w.resume s c left).sched = c ∧
      (w.resume s c left).control = .body s left ∧ (w.resume s c left).flags = w.flags ∧
      (w.resume s c left).giving = w.giving ∧ (w.resume s c left).wake = w.wake ∧
      (w.resume s c left).andWait = w.andWait := by
    intro c
    unfold World.resume
    dsimp only
    split <;> exact ⟨rfl, rfl, rfl, rfl, rfl, rfl⟩
  obtain ⟨hsched, hctl, hflags, hgiving, hwake, handWait⟩ :=
    hworld ((w.sched.unlinkFront s).enter s)
  refine ⟨s, rest, hready, (h.core.sound.threaded.run hready).1, hcore, ?_, ?_, ?_⟩
  · refine ⟨?_, fun t => ?_, ?_, ?_, ?_, ?_⟩ <;> simp only [hsched, hctl]
    · rfl
    · simp only [View.run_place, Control.running, Option.some.injEq]
      by_cases ht : t = s
      · simp [ht]
      · simp [ht, hrunning, Ne.symm ht]
    · exact hinPoll
    · exact h.staged.shuttingDown
    · rw [hready, List.length_cons] at hbudget
      exact Nat.le_of_succ_le_succ hbudget
    · simp
  · rw [hctl]
    exact hposition
  · exact h.signals.mono (fun f hf => by rwa [hflags] at hf) (by rw [hflags]) hgiving hwake handWait
      (fun f hf _ => by simpa [hctl, hcontrol, Control.suspendingOn] using hf)
      (by simp [hcontrol, Control.polled]) (by simp [hcontrol])

/-- The running task runs to its end. -/
theorem finish (h : Inv cfg w L) (hcontrol : w.control = .body s left) :
    Inv cfg { w with sched := w.sched.afterFinish s, control := .release s left } L := by
  have hrunning := h.staged.running
  have hinPoll := h.staged.inPoll
  have hbudget := h.staged.budget
  have hposition := h.position
  rw [hcontrol] at hinPoll hbudget hposition
  simp only [hcontrol] at hrunning
  have hsound : Sound (w.sched.afterFinish s) (fun e => (w.event e).waiters) L.toView :=
    h.core.sound.congr rfl rfl rfl rfl rfl rfl (by simp [Scheduler.afterFinish])
      (by simp [Scheduler.afterFinish]) (by simp [Scheduler.afterFinish])
  exact {
    core := h.core.keeps hsound (Keeps.refl _) rfl rfl rfl rfl
    staged := ⟨rfl, hrunning, hinPoll, h.staged.shuttingDown, hbudget, by simp⟩
    position := hposition
    signals := h.signals.mono (fun _ hf => hf) rfl rfl rfl rfl
      (fun f hf _ => by simpa [hcontrol, Control.suspendingOn] using hf)
      (by simp [hcontrol, Control.polled]) (by simp [hcontrol]) }

/-- The completed frame is destroyed. -/
theorem destroyed (h : Inv cfg w L) (hcontrol : w.control = .release s left) :
    ∃ L', Inv cfg { w with sched := w.sched.afterDestroy s, control := .pass left } L' := by
  have hs : L.place s = .running := (h.staged.running s).mpr (by rw [hcontrol]; rfl)
  have hframe := w.sched.afterDestroy_frame s
  have hcurrent := hframe.1.trans h.staged.current
  have hrunning := h.staged.running
  have hinPoll := hframe.2.1.trans h.staged.inPoll
  have hbudget := h.staged.budget
  have hposition := h.position
  rw [hcontrol] at hcurrent hinPoll hbudget hposition
  simp only [hcontrol, Control.running, Option.some.injEq] at hrunning
  have hkeeps : Keeps L.place (L.toView.move s .completed).place := Keeps.running hs _ (by simp)
  -- whatever the parent does, only the completed slot was running
  have key : ∀ v : View N, Sound (w.sched.afterDestroy s) (fun e => (w.event e).waiters) v →
      Keeps L.place v.place → (∀ t, v.place t ≠ .running) → L.ready.length ≤ v.ready.length →
      Inv cfg { w with sched := w.sched.afterDestroy s, control := .pass left }
        { L with toView := v } := by
    intro v hsound hkeeps hnone hready
    exact {
      core := h.core.keeps hsound hkeeps rfl rfl rfl rfl
      staged := ⟨hcurrent, fun t => by simpa [Control.running] using hnone t, hinPoll,
        hframe.2.2.trans h.staged.shuttingDown, hbudget.trans hready, by simp⟩
      position := hposition
      signals := h.signals.mono (fun _ hf => hf) rfl rfl rfl rfl
        (fun f hf _ => by simpa [hcontrol, Control.suspendingOn] using hf)
        (by simp [hcontrol, Control.polled]) (by simp [hcontrol]) }
  rcases h.core.sound.afterDestroy hs with ⟨-, hsound⟩ | ⟨p, hp, hsound⟩
  · refine ⟨_, key _ hsound hkeeps (fun t => ?_) le_rfl⟩
    rw [View.move_place]
    by_cases ht : t = s
    · simp [ht]
    · simp [ht, hrunning, Ne.symm ht]
  · have hne : p ≠ s := by
      rintro rfl
      simp [hs] at hp
    refine ⟨_, key _ hsound (hkeeps.trans ?_) (fun t => ?_) (by simp)⟩
    · exact Keeps.update (by simp [hne, hp]) (by simp [hne, hp]) (by simp)
    · rw [View.enqueue_place, View.move_place]
      by_cases htp : t = p
      · simp [htp]
      · by_cases ht : t = s
        · simp [ht, Ne.symm hne]
        · simp [htp, ht, hrunning, Ne.symm ht]

/-- A pass that found nothing ready and has somewhere to wait goes to sleep. -/
theorem endPass (h : Inv cfg w L) (hcontrol : w.control = .pass 0) (clock : Tick) :
    Inv cfg (w.endPass cfg clock) L := by
  have hcurrent := h.staged.current
  have hrunning := h.staged.running
  have hposition := h.position
  rw [hcontrol] at hcurrent hposition
  simp only [hcontrol] at hrunning
  have hsound : Sound { w.sched with inPoll := false } (fun e => (w.event e).waiters) L.toView :=
    h.core.sound.congr rfl rfl rfl rfl rfl rfl rfl rfl rfl
  have hcore : ∀ control, Core cfg { w with
      sched := { w.sched with inPoll := false }, control := control } L :=
    fun control => h.core.keeps hsound (Keeps.refl _) rfl rfl rfl rfl
  have hsignals : ∀ control : Control N, control.suspendingOn = none →
      Signals { w with sched := { w.sched with inPoll := false }, control := control } L.visited :=
    fun control hnone => h.signals.mono (fun _ hf => hf) rfl rfl rfl rfl
      (fun f hf _ => Or.inl (by simpa [hnone] using hf)) (by simp [hcontrol, Control.polled])
      (by simp [hcontrol])
  have hreturns : Inv cfg { w with
      sched := { w.sched with inPoll := false }, control := .loop } L :=
    ⟨hcore _, ⟨hcurrent, hrunning, rfl, h.staged.shuttingDown, Nat.zero_le _, by simp⟩, hposition,
      hsignals _ rfl⟩
  unfold World.endPass
  dsimp only
  split_ifs with hidle
  · have hready : L.ready = [] := by
      have := hidle.2
      rw [h.core.sound.threaded.count] at this
      exact List.length_eq_zero_iff.mp this
    split
    · exact hreturns
    · rename_i timeout hwait
      refine ⟨hcore _, ⟨hcurrent, hrunning, rfl, h.staged.shuttingDown, Nat.zero_le _, ?_⟩,
        hposition, hsignals _ rfl⟩
      intro now t he
      cases he
      refine ⟨hidle.1, hready, ?_⟩
      unfold platformWaitUntil at hwait
      split at hwait
      · cases hwait
      · dsimp only at hwait
        split at hwait <;> cases hwait
        rfl
  · exact hreturns

end Inv

end SimpleAwait
