import SimpleAwait.System.QueueCalls

/-!
# The invariant of the system

`Core` with what the stage of execution adds: which slot runs, how far the walk of the armed
list has come, that the budget of a pass never exceeds the ready FIFO, and where a signal is
while its flag is armed.  A signal that arrives outside the walk leaves `s_pending_` set; one
that arrives in a pass of `poll_and_wait()` also leaves its `set()` about to give the
semaphore, or the token in it.
-/

namespace SimpleAwait

variable {N : ℕ} {T : Type}

namespace Control

/-- The slot that `current_` points to. -/
def current : Control N → Option (Fin N)
  | .body s _ | .flagSuspend s _ _ => some s
  | _ => none

/-- The slot in state `running`. -/
def running : Control N → Option (Fin N)
  | .body s _ | .flagSuspend s _ _ | .release s _ => some s
  | _ => none

/-- The value of `in_poll_`. -/
def inPoll : Control N → Bool
  | .loop | .take .. => false
  | _ => true

/-- The iterations that the loop of `run_pass` has left. -/
def left : Control N → ℕ
  | .pass n | .body _ n | .flagSuspend _ _ n | .release _ n => n
  | _ => 0

/-- The flag whose `await_suspend` is next. -/
def suspendingOn : Control N → Option ℕ
  | .flagSuspend _ f _ => some f
  | _ => none

/-- The pass in progress is past its check of `s_pending_`. -/
def polled : Control N → Bool
  | .loop | .checkPending => false
  | _ => true

/-- The walk is between the flags it has visited and those it has not; outside the walk all
are visited. -/
def Position (visited unvisited : List ℕ) : Control N → Prop
  | .walk prev f => prev = visited.getLast? ∧ f = unvisited.head?
  | _ => unvisited = []

end Control

/-- The stage of execution agrees with the scheduler. -/
structure Staged (cfg : Config N) (w : World N T) (v : View N) : Prop where
  current : w.sched.current = w.control.current
  running : ∀ s, v.place s = .running ↔ w.control.running = some s
  inPoll : w.sched.inPoll = w.control.inPoll
  shuttingDown : w.sched.shuttingDown = false
  budget : w.control.left ≤ v.ready.length
  asleep : ∀ now timeout, w.control = .take now timeout → w.andWait = true ∧ v.ready = [] ∧
    timeout = platformTicksUntil cfg.tickRateHz now w.sched.nearestDeadline

/-- No signal of a visited flag, or of one about to be armed, goes unnoticed. -/
structure Signals (w : World N T) (visited : List ℕ) : Prop where
  heard : ∀ f, f ∈ visited ∨ w.control.suspendingOn = some f →
    (w.flags.flag f).signaled = true → w.flags.pending = true
  told : w.andWait = true → w.control.polled = true →
    ∀ f, f ∈ visited ∨ w.control.suspendingOn = some f →
      (w.flags.flag f).signaled = true → f ∈ w.giving ∨ w.wake = some true
  wake : w.andWait = true → w.control ≠ .loop → w.wake ≠ none

/-- The invariant of the system. -/
structure Inv (cfg : Config N) (w : World N T) (L : Layout N) : Prop where
  core : Core cfg w L
  staged : Staged cfg w L.toView
  position : w.control.Position L.visited L.unvisited
  signals : Signals w L.visited

variable {cfg : Config N} {w w' : World N T} {L L' : Layout N} {s : Fin N} {left : ℕ}

theorem Inv.initial : Inv cfg (World.initial : World N T)
    { place := fun _ => .free, ready := [], waiters := fun _ => [], senders := fun _ => [],
      receivers := fun _ => [], visited := [], unvisited := [] } where
  core := Core.initial
  staged := ⟨rfl, by simp [World.initial, Control.running], rfl, rfl, le_rfl,
    by simp [World.initial]⟩
  position := rfl
  signals := ⟨by simp [World.initial], by simp [World.initial], by simp [World.initial]⟩

/-- Signals that are consumed, and stages that follow each other within a pass. -/
theorem Signals.mono {visited visited' : List ℕ} (h : Signals w visited)
    (hsignaled : ∀ f, (w'.flags.flag f).signaled = true → (w.flags.flag f).signaled = true)
    (hpending : w'.flags.pending = w.flags.pending) (hgiving : w'.giving = w.giving)
    (hwake : w'.wake = w.wake) (handWait : w'.andWait = w.andWait)
    (hvisited : ∀ f, f ∈ visited' ∨ w'.control.suspendingOn = some f →
      (w'.flags.flag f).signaled = true → f ∈ visited ∨ w.control.suspendingOn = some f)
    (hpolled : w'.control.polled = true → w.control.polled = true)
    (hloop : w'.control ≠ .loop → w.control ≠ .loop) : Signals w' visited' where
  heard f hf hsig := by
    rw [hpending]
    exact h.heard f (hvisited f hf hsig) (hsignaled f hsig)
  told hand hctl f hf hsig := by
    rw [hgiving, hwake]
    exact h.told (handWait ▸ hand) (hpolled hctl) f (hvisited f hf hsig) (hsignaled f hsig)
  wake hand hctl := by
    rw [hwake]
    exact h.wake (handWait ▸ hand) (hloop hctl)

/-- What follows a `resume()` that left the coroutine suspended on some wake source. -/
theorem Core.suspend (h : Core cfg w L) (hs : L.place s ≠ .running) :
    Core cfg (w.suspend s left) L :=
  h.keeps (v := L.toView) (h.sound.afterSuspend hs) (Keeps.refl _) rfl rfl rfl rfl

theorem Staged.suspend (h : Staged cfg w L.toView)
    (hcontrol : w.control.running = some s ∧ w.control.left = left ∧ w.control.inPoll = true)
    (hcalm : w.sched.Calm w'.sched)
    (hrunning : ∀ t, L'.place t = .running ↔ L.place t = .running ∧ t ≠ s)
    (hready : L.ready.length ≤ L'.ready.length) : Staged cfg (w'.suspend s left) L'.toView := by
  have hreturned : ∀ c : Scheduler N, (c.afterSuspend s).inPoll = c.inPoll ∧
      (c.afterSuspend s).shuttingDown = c.shuttingDown ∧ (c.afterSuspend s).current = none := by
    intro c
    unfold Scheduler.afterSuspend
    split <;> exact ⟨rfl, rfl, rfl⟩
  exact {
    current := (hreturned _).2.2
    running := fun t => by
      have hold := h.running t
      rw [hcontrol.1, Option.some.injEq] at hold
      simp only [World.suspend, Control.running, reduceCtorEq, iff_false]
      intro ht
      have hst := (hrunning t).mp ht
      exact hst.2 (hold.mp hst.1).symm
    inPoll := by
      simp only [World.suspend, hreturned, hcalm.inPoll, h.inPoll, hcontrol.2.2]
      rfl
    shuttingDown := by simp only [World.suspend, hreturned, hcalm.shuttingDown, h.shuttingDown]
    budget := by
      have := h.budget
      rw [hcontrol.2.1] at this
      exact this.trans hready
    asleep := by simp [World.suspend] }

namespace Inv

/-- A call that returns to the caller. -/
theorem quiet (h : Inv cfg w L) (hcalls : w.Calls w') (hcore : Core cfg w' L')
    (hquiet : L.Quiet L') (hawake : ∀ now timeout, w.control ≠ .take now timeout) :
    Inv cfg w' L' where
  core := hcore
  staged := {
    current := by rw [hcalls.sched.current, hcalls.control]; exact h.staged.current
    running := fun t => by rw [hquiet.running, hcalls.control]; exact h.staged.running t
    inPoll := by rw [hcalls.sched.inPoll, hcalls.control]; exact h.staged.inPoll
    shuttingDown := by rw [hcalls.sched.shuttingDown]; exact h.staged.shuttingDown
    budget := by rw [hcalls.control]; exact h.staged.budget.trans hquiet.ready
    asleep := fun now timeout ht => absurd (hcalls.control ▸ ht) (hawake now timeout) }
  position := by rw [hcalls.control, hquiet.visited, hquiet.unvisited]; exact h.position
  signals := h.signals.mono (fun f hf => by rwa [hcalls.flags] at hf) (by rw [hcalls.flags])
    hcalls.giving hcalls.wake hcalls.andWait
    (fun f hf _ => by rwa [hquiet.visited, hcalls.control] at hf) (by rw [hcalls.control]; exact id)
    (by rw [hcalls.control]; exact id)

theorem awake_of_isUser (hu : w.control.isUser = true) (now : Tick) (timeout : UInt32) :
    w.control ≠ .take now timeout := by
  intro he
  simp [he, Control.isUser] at hu

/-- `resume()` returns with the running task suspended on some wake source. -/
theorem suspend (h : Inv cfg w L) (hcontrol : w.control = .body s left) (hcalls : w.Calls w')
    (hcore : Core cfg w' L') (hsuspends : L.Suspends s L') :
    Inv cfg (w'.suspend s left) L' where
  core := hcore.suspend fun he => ((hsuspends.running s).mp he).2 rfl
  staged := h.staged.suspend (by rw [hcontrol]; exact ⟨rfl, rfl, rfl⟩) hcalls.sched
    hsuspends.running hsuspends.ready
  position := by
    have hposition := h.position
    rw [hcontrol] at hposition
    rw [World.suspend, hsuspends.visited, hsuspends.unvisited]
    exact hposition
  signals := h.signals.mono (fun f hf => by
      have hf' : (w'.flags.flag f).signaled = true := hf
      rwa [hcalls.flags] at hf') (by rw [← hcalls.flags]; rfl)
    hcalls.giving hcalls.wake hcalls.andWait
    (fun f hf _ => by
      rw [hsuspends.visited] at hf
      simpa [World.suspend, hcontrol, Control.suspendingOn] using hf)
    (by simp [hcontrol, Control.polled]) (by simp [hcontrol])

end Inv

end SimpleAwait
