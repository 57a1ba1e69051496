import SimpleAwait.System.Invariant

/-!
# Awaits keep the invariant

The running task awaits: it goes on at once, or `resume()` returns with the task suspended on
a wake source, or, for an awaitable that the scheduler does not know, on none.
-/

namespace SimpleAwait

variable {N : ℕ} {T : Type} {cfg : Config N} {w w' : World N T} {L L' : Layout N} {s : Fin N}
  {left : ℕ}

namespace Core

section Await

variable (h : Core cfg w L) (hcurrent : w.sched.current = some s) (hs : L.place s = .running)

include h hcurrent hs

theorem awaitYield : Awaited cfg s w L (true, { w with sched := w.sched.yieldCurrent }) := by
  have hsound := h.sound.yieldCurrent hcurrent hs
  refine ⟨⟨rfl, rfl, rfl, rfl, rfl, Scheduler.Calm.yieldCurrent _⟩, _,
    h.keeps hsound (Keeps.running hs .ready (by simp)) rfl rfl rfl rfl,
    Or.inr ⟨rfl, ?_⟩⟩
  exact Layout.Suspends.of_update (p := .ready) (by simp) rfl (by simp) rfl rfl

theorem awaitDelay (duration : Tick) :
    Awaited cfg s w L (true, { w with sched := w.sched.armCurrentTimer duration }) := by
  have hcalls : w.Calls { w with sched := w.sched.armCurrentTimer duration } :=
    ⟨rfl, rfl, rfl, rfl, rfl, Scheduler.Calm.armCurrentTimer _ _⟩
  rcases h.sound.armCurrentTimer hcurrent hs duration with hsound | hsound
  · refine ⟨hcalls, _,
      h.keeps hsound (Keeps.running hs .ready (by simp)) rfl rfl rfl rfl,
      Or.inr ⟨rfl, ?_⟩⟩
    exact Layout.Suspends.of_update (p := .ready) (by simp) rfl (by simp) rfl rfl
  · refine ⟨hcalls, _,
      h.keeps hsound (Keeps.running hs .timer (by simp)) rfl rfl rfl rfl,
      Or.inr ⟨rfl, ?_⟩⟩
    exact Layout.Suspends.of_update (p := .timer) (by simp) rfl le_rfl rfl rfl

theorem awaitTask (child : Handle) : Awaited cfg s w L
    ((w.sched.startChildAwait child (w.sched.slots s).handle).suspend,
      { w with sched := (w.sched.startChildAwait child (w.sched.slots s).handle).sched }) := by
  have hcalls : w.Calls
      { w with sched := (w.sched.startChildAwait child (w.sched.slots s).handle).sched } :=
    ⟨rfl, rfl, rfl, rfl, rfl, Scheduler.Calm.startChildAwait _ _ _⟩
  obtain ⟨hsuspend, hsound | ⟨t, ht, hsound⟩⟩ := h.sound.startChildAwait child hcurrent hs
  · refine ⟨hcalls, _,
      h.keeps hsound (Keeps.running hs .ready (by simp)) rfl rfl rfl rfl,
      Or.inr ⟨hsuspend, ?_⟩⟩
    exact Layout.Suspends.of_update (p := .ready) (by simp) rfl (by simp) rfl rfl
  · have hne : s ≠ t := by
      rintro rfl
      exact ht (by simp [hs, Place.Active])
    have hplace : L.place t = .free ∨ L.place t = .completed := Place.not_active_iff.mp ht
    have hfirst : Keeps L.place (L.toView.enqueue t).place := by
      refine Keeps.update ?_ (fun r _ => ?_) (by simp) <;>
        rcases hplace with hplace | hplace <;> simp [hplace]
    have hsecond : Keeps (L.toView.enqueue t).place
        ((L.toView.enqueue t).move s (.child t)).place :=
      Keeps.update (by simp [hne, hs]) (by simp [hne, hs]) (by simp)
    refine ⟨hcalls, _, h.keeps hsound (hfirst.trans hsecond) rfl rfl rfl rfl, Or.inr ⟨hsuspend, ?_⟩⟩
    refine ⟨fun u => ?_, by simp, rfl, rfl⟩
    rw [View.move_place, View.enqueue_place]
    by_cases hus : u = s
    · simp [hus]
    · by_cases hut : u = t
      · rcases hplace with hplace | hplace <;> simp [hut, hplace, Ne.symm hne]
      · simp [hus, hut]

/-- `Event::park` appends the running slot to the wait queue. -/
theorem park_sound (e : ℕ) :
    (w.event e).park w.sched (w.sched.slots s).handle =
      (true, ((w.sched.setState s .waitingLocal).waitPush (w.event e).waiters s).1,
        { w.event e with
          waiters := ((w.sched.setState s .waitingLocal).waitPush (w.event e).waiters s).2 }) ∧
      Sound ((w.event e).park w.sched (w.sched.slots s).handle).2.1
        (fun k => ((w.setEvent e ((w.event e).park w.sched (w.sched.slots s).handle).2.2).event
          k).waiters) (L.toView.park s e) := by
  have hpark : (w.event e).park w.sched (w.sched.slots s).handle =
      (true, ((w.sched.setState s .waitingLocal).waitPush (w.event e).waiters s).1,
        { w.event e with
          waiters := ((w.sched.setState s .waitingLocal).waitPush (w.event e).waiters s).2 }) := by
    simp only [Event.park, Scheduler.waitOn, hcurrent, h.sound.isRunning hcurrent hs, if_true]
  have hsound := h.sound.park (e := e) (hs ▸ Place.plain_running)
  have hwaiters : Function.update (fun k => (w.event k).waiters) e
      ((w.sched.setState s .waitingLocal).waitPush (w.event e).waiters s).2 =
      fun k => ((w.setEvent e { w.event e with waiters :=
        ((w.sched.setState s .waitingLocal).waitPush (w.event e).waiters s).2 }).event k).waiters := by
    funext k
    by_cases hk : k = e
    · subst hk
      simp [World.setEvent]
    · simp [World.setEvent, hk]
  rw [hwaiters] at hsound
  refine ⟨hpark, ?_⟩
  rw [hpark]
  exact hsound

theorem awaitEvent (e : ℕ) : Awaited cfg s w L
    (((w.event e).park w.sched (w.sched.slots s).handle).1,
      { w.setEvent e ((w.event e).park w.sched (w.sched.slots s).handle).2.2 with
        sched := ((w.event e).park w.sched (w.sched.slots s).handle).2.1 }) := by
  obtain ⟨hpark, hsound⟩ := h.park_sound hcurrent hs e
  rw [hpark] at hsound ⊢
  have hcalm : w.sched.Calm ((w.sched.setState s .waitingLocal).waitPush (w.event e).waiters s).1 :=
    (Scheduler.Calm.park _ _).trans (Scheduler.Calm.waitPush _ _ _)
  refine ⟨⟨rfl, rfl, rfl, rfl, rfl, hcalm⟩, _,
    h.keeps hsound (Keeps.running hs (.parked (.event e)) fun r hr => ?_) rfl rfl rfl rfl,
    Or.inr ⟨rfl, ?_⟩⟩
  · simpa using (hr e).symm
  · exact Layout.Suspends.of_update (p := .parked (.event e)) (by simp) rfl le_rfl rfl rfl

/-- An await by the running task, other than on a flag and on an unknown awaitable. -/
theorem coAwait (awaitable : Awaitable T) (hflag : ∀ f, awaitable ≠ .flag f)
    (hknown : awaitable ≠ .unknown) :
    Awaited cfg s w L (w.coAwait cfg (w.sched.slots s).handle awaitable) := by
  cases awaitable with
  | yield => exact h.awaitYield hcurrent hs
  | delay duration => exact h.awaitDelay hcurrent hs duration
  | task awaiter =>
      unfold World.coAwait
      dsimp only
      split
      · exact ⟨⟨rfl, rfl, rfl, rfl, rfl, Scheduler.Calm.report _ _⟩, _,
          h.keeps (h.sound.report _) (Keeps.refl _) rfl rfl rfl rfl,
          Or.inl ⟨rfl, Layout.Quiet.refl L⟩⟩
      · exact h.awaitTask hcurrent hs awaiter.child
  | event e =>
      unfold World.coAwait
      dsimp only
      split
      · exact ⟨⟨rfl, rfl, rfl, rfl, rfl, Scheduler.Calm.refl _⟩, L, h,
          Or.inl ⟨rfl, Layout.Quiet.refl L⟩⟩
      · exact h.awaitEvent hcurrent hs e
  | send q v => exact h.awaitSend hcurrent hs q v
  | receive q => exact h.awaitReceive hcurrent hs q
  | flag f => exact absurd rfl (hflag f)
  | unknown => exact absurd rfl hknown

end Await

end Core

namespace Inv

/-- What follows an await of the running task. -/
theorem afterAwait (h : Inv cfg w L) (hcontrol : w.control = .body s left) {r : Bool × World N T}
    (hawaited : Awaited cfg s w L r) : ∃ L', Inv cfg (World.afterAwait s left r) L' := by
  obtain ⟨hcalls, L', hcore, ⟨hsuspend, hquiet⟩ | ⟨hsuspend, hsuspends⟩⟩ := hawaited
  · have hsame : World.afterAwait s left r = r.2 := by
      have hctl : r.2.control = .body s left := hcalls.control.trans hcontrol
      rw [World.afterAwait, hsuspend, if_neg (by simp), ← hctl]
    rw [hsame]
    exact ⟨L', h.quiet hcalls hcore hquiet (by simp [hcontrol])⟩
  · rw [World.afterAwait, hsuspend, if_pos rfl]
    exact ⟨L', h.suspend hcontrol hcalls hcore hsuspends⟩

/-- The running task suspends without telling the scheduler. -/
theorem awaitUnknown (h : Inv cfg w L) (hcontrol : w.control = .body s left) :
    Inv cfg (w.suspend s left) { L with toView := L.toView.move s .suspended } := by
  have hs : L.place s = .running := (h.staged.running s).mpr (by rw [hcontrol]; rfl)
  have hsuspends : L.Suspends s { L with toView := L.toView.move s .suspended } :=
    Layout.Suspends.of_update (p := .suspended) (by simp) rfl le_rfl rfl rfl
  have hkeeps : Keeps L.place (L.toView.move s .suspended).place :=
    Keeps.update (by simp [hs]) (by simp [hs]) (by simp)
  exact {
    core := h.core.keeps (h.core.sound.afterSuspend_running hs) hkeeps rfl rfl rfl rfl
    staged := h.staged.suspend (by rw [hcontrol]; exact ⟨rfl, rfl, rfl⟩) (Scheduler.Calm.refl _)
      hsuspends.running le_rfl
    position := by
      have := h.position
      rwa [hcontrol] at this
    signals := h.signals.mono (fun _ hf => hf) rfl rfl rfl rfl
      (fun f hf _ => by simpa [World.suspend, hcontrol, Control.suspendingOn] using hf)
      (by simp [hcontrol, Control.polled]) (by simp [hcontrol]) }

/-- `await_ready` of a flag wait: the signal is consumed, or `await_suspend` is next. -/
theorem flagReady (h : Inv cfg w L) (hcontrol : w.control = .body s left) (f : ℕ) :
    Inv cfg (match w.flagReady f with
      | (true, w) => w
      | (false, w) => { w with control := .flagSuspend s f left }) L := by
  by_cases hsig : (w.flags.flag f).signaled = true
  · simp only [World.flagReady, Flags.consume, hsig, if_true]
    exact {
      core := h.core.signal rfl rfl rfl rfl rfl rfl
        (fun k => by by_cases hk : k = f <;> simp [hk])
        fun k => by by_cases hk : k = f <;> simp [hk]
      staged := ⟨h.staged.current, h.staged.running, h.staged.inPoll, h.staged.shuttingDown,
        h.staged.budget, h.staged.asleep⟩
      position := h.position
      signals := h.signals.mono (fun k hk => by
          by_cases hkf : k = f
          · simp [hkf] at hk
          · simpa [hkf] using hk)
        rfl rfl rfl rfl (fun _ hk _ => hk) id id }
  · simp only [World.flagReady, Flags.consume, hsig, Bool.false_eq_true, if_false]
    have hcurrent := h.staged.current
    have hrunning := h.staged.running
    have hinPoll := h.staged.inPoll
    have hbudget := h.staged.budget
    have hposition := h.position
    rw [hcontrol] at hcurrent hinPoll hbudget hposition
    simp only [hcontrol] at hrunning
    exact {
      core := h.core.congr rfl rfl rfl rfl rfl rfl
      staged := ⟨hcurrent, hrunning, hinPoll, h.staged.shuttingDown, hbudget, by simp⟩
      position := hposition
      signals := h.signals.mono (fun _ hk => hk) rfl rfl rfl rfl
        (fun k hk hk' => by
          simp only [Control.suspendingOn, Option.some.injEq] at hk
          rcases hk with hk | rfl
          · exact Or.inl hk
          · exact absurd hk' hsig)
        (by simp [hcontrol, Control.polled]) (by simp [hcontrol]) }

/-- A flag without a waiter parks the running task; any other reports its second waiter. -/
theorem flagPark_eq (h : Inv cfg w L) {f : ℕ} (hcontrol : w.control = .flagSuspend s f left) :
    w.flagPark f (w.sched.slots s).handle =
      if (w.flags.flag f).waiter = none then
        (true, { w with
          sched := w.sched.setState s .waitingLocal
          flags := (w.flags.modify f fun flag => { flag with waiter := some s }).arm f })
      else (false, { w with sched := w.sched.report .multipleFlagWaiters }) := by
  have hcurrent : w.sched.current = some s := by
    rw [h.staged.current, hcontrol]
    rfl
  have hs : L.place s = .running := (h.staged.running s).mpr (by rw [hcontrol]; rfl)
  have hrunning := h.core.sound.runningIs hcurrent hs
  split_ifs with hwaiter <;>
    simp [World.flagPark, Flags.park, hrunning, hwaiter, Scheduler.parkRunning, hcurrent]

/-- `await_suspend` of a flag wait: the task is parked on the flag, or a second waiter is
rejected and goes on. -/
theorem flagPark (h : Inv cfg w L) {f : ℕ} (hcontrol : w.control = .flagSuspend s f left) :
    ∃ L', Inv cfg (World.afterAwait s left (w.flagPark f (w.sched.slots s).handle)) L' := by
  have hs : L.place s = .running := (h.staged.running s).mpr (by rw [hcontrol]; rfl)
  have hposition : L.unvisited = [] := by
    have := h.position
    rwa [hcontrol] at this
  rw [h.flagPark_eq hcontrol]
  split_ifs with hwaiter
  · set w' : World N T := { w with
      sched := w.sched.setState s .waitingLocal
      flags := (w.flags.modify f fun flag => { flag with waiter := some s }).arm f } with hw'
    set L' : Layout N := { L with
      toView := L.toView.move s (.parked (.flag f)), visited := f :: L.visited } with hL'
    have hkeep : ∀ r, r ≠ .flag f → ∀ u, L'.place u = .parked r ↔ L.place u = .parked r :=
      fun r hr u => update_parked_iff (by simp [hs]) (by simpa using Ne.symm hr)
    have hsignaled : ∀ k, (w'.flags.flag k).signaled = (w.flags.flag k).signaled := by
      intro k
      by_cases hk : k = f <;> simp [hw', Flags.arm, hk]
    have hcore : Core cfg w' L' := {
      sound := h.core.sound.move (hs ▸ Place.plain_running)
        (Place.plain_parked (r := .flag f) (by simp))
      channel := h.core.channel
      senders := fun q => (h.core.senders q).congr (fun _ _ => rfl) fun a => hkeep _ (by simp)
      receivers := fun q => (h.core.receivers q).congr (fun _ _ => rfl) fun a => hkeep _ (by simp)
      receiving := h.core.receiving.update (h.core.receiving.eq_none (by simp [hs])) (by simp)
      armed := h.core.armed.park (by simp [hs]) hwaiter }
    have hsuspended : ∀ t, L'.place t = .running ↔ L.place t = .running ∧ t ≠ s := by
      intro t
      rw [View.move_place]
      by_cases ht : t = s <;> simp [ht]
    refine ⟨L', ?_⟩
    rw [World.afterAwait, if_pos rfl]
    exact {
      core := hcore.suspend fun he => ((hsuspended s).mp he).2 rfl
      staged := h.staged.suspend (by rw [hcontrol]; exact ⟨rfl, rfl, rfl⟩)
        (Scheduler.Calm.park _ _) hsuspended le_rfl
      position := hposition
      signals := h.signals.mono (fun k hk => by rwa [← hsignaled]) rfl rfl rfl rfl
        (fun k hk _ => by
          simp only [World.suspend, Control.suspendingOn, reduceCtorEq, or_false, hL',
            List.mem_cons] at hk
          rcases hk with rfl | hk
          · exact Or.inr (by rw [hcontrol]; rfl)
          · exact Or.inl hk)
        (by simp [hcontrol, Control.polled]) (by simp [hcontrol]) }
  · rw [World.afterAwait, if_neg (by simp)]
    have hrunning' := h.staged.running
    have hcurrent' := h.staged.current
    have hinPoll := h.staged.inPoll
    have hbudget := h.staged.budget
    rw [hcontrol] at hinPoll hbudget hcurrent'
    simp only [hcontrol] at hrunning'
    refine ⟨L, h.core.keeps (v := L.toView) (h.core.sound.report _) (Keeps.refl _) rfl rfl rfl rfl,
      ⟨hcurrent', hrunning', hinPoll, h.staged.shuttingDown, hbudget, by simp⟩, hposition, ?_⟩
    exact h.signals.mono (fun _ hk => hk) rfl rfl rfl rfl
      (fun k hk _ => by
        simp only [Control.suspendingOn, reduceCtorEq, or_false] at hk
        exact Or.inl hk)
      (by simp [hcontrol, Control.polled]) (by simp [hcontrol])

end Inv

end SimpleAwait
