import SimpleAwait.Library.Ownership
import SimpleAwait.Ownership.Accounts
import SimpleAwait.Ownership.Slots

/-!
# Every frame has one owner

`Custody.Inv` says that the frames that exist have exactly one owner each.  An operation keeps it by
the rules of `Library/Ownership.lean`: it gives a new frame to an object, moves a frame from one
owner to another, or takes it from its owner before it destroys it.
-/

namespace SimpleAwait

open Function Ownership

variable {N w : ℕ} {T : Type} {cfg : Config N} {P : PoolConfig w} {c c' : Custody N w T}
  {world : World N T} {frame : Frame} {handle : Handle} {home : Option Frame} {i k : ℕ}

namespace Lifetime

variable {l : Lifetime Handle} {previous : Handle}

theorem handle_of_value (h : l.value = some handle) : l.handle = handle := by
  rw [Lifetime.handle, h]
  rfl

theorem handle_write (h : l.value = some previous) : (l.write handle).handle = handle := by
  cases l with
  | live _ => rfl
  | ending _ => rfl
  | gone => cases h

theorem handle_write_none (l : Lifetime Handle) : (l.write none).handle = none := by
  cases l <;> rfl

theorem handle_finish (h : l.handle = none) : l.finish.handle = none := by
  cases l with
  | live _ => exact h
  | ending _ => rfl
  | gone => rfl

/-- What can be read and is not ending is live. -/
theorem live_of_value {l : Lifetime TaskAwaiter} {a : TaskAwaiter} (hending : l.isEnding = false)
    (h : l.value = some a) : l = .live a := by
  cases l with
  | live b =>
      cases h
      rfl
  | ending b => cases hending
  | gone => cases h

theorem child_write_movedFrom (l : Lifetime TaskAwaiter) (a : TaskAwaiter) :
    (l.write a.movedFrom).child = none := by
  cases l <;> rfl

theorem child_finish (l : Lifetime TaskAwaiter) : l.finish.child = l.child := by
  cases l <;> rfl

end Lifetime

namespace Custody

/-- Every frame that exists has exactly one owner, and every other one has been destroyed. -/
structure Inv (P : PoolConfig w) (c : Custody N w T) : Prop where
  accounts : Accounts P c.pool c.uses c.alive (c.dying.map Destruction.frame)
  owned : Owned c.held c.alive
  slots : Slots c.world c.left

namespace Inv

theorem start (P : PoolConfig w) (memory : FramePool w) :
    (Custody.start P memory : Custody N w T).Inv P where
  accounts := .start P memory
  owned := by
    refine .nothing (fun o => ?_) fun _ => rfl
    cases o <;> rfl
  slots := .initial

/-- A frame is taken from its owner and destroyed. -/
theorem drop {held : Owner N → Handle} {o : Owner N} {caller : Destroyer N}
    (haccounts : Accounts P c.pool c.uses c.alive (c.dying.map Destruction.frame))
    (howned : Owned held c.alive) (ho : held o = some frame) (hheld : c.held = update held o none)
    (hslots : Slots c.world c.left) : (c.destroy frame caller).Inv P where
  accounts := haccounts.destroy (howned.alive_of_held o frame ho)
  owned := by
    show Owned c.held (update c.alive frame false)
    rw [hheld]
    exact howned.drop ho
  slots := hslots

/-- No frame moves. -/
theorem keeps (h : c.Inv P) (hkeeps : c.world.Keeps world) : (c.withWorld world).Inv P := by
  obtain ⟨hslots, hframe⟩ := h.slots.keeps hkeeps
  refine ⟨h.accounts, ?_, hslots⟩
  rw [held_withWorld hframe]
  exact h.owned

/-- Nothing changes but the scheduler, which moves no frame. -/
theorem keeps_sched (h : c.Inv P) {sched : Scheduler N} (hkeeps : c.world.sched.Keeps sched) :
    (c.withSched sched).Inv P := h.keeps (.of_call hkeeps rfl)

/-! ## Tasks -/

theorem newTask (h : c.Inv P) (home : Option Frame) : (c.newTask home none).Inv P := by
  refine ⟨h.accounts, ?_, h.slots⟩
  rw [held_newTask, ← c.held_next_task, update_eq_self]
  exact h.owned

/-- A coroutine is created, whose frame goes to the `Task` that is returned. -/
theorem create (h : c.Inv P) {size : BitVec w} (halloc : c.frameAlloc P size = some (handle, c')) :
    (c'.newTask home handle).Inv P := by
  unfold frameAlloc at halloc
  split at halloc
  · cases halloc
  · rename_i pool hresult
    cases halloc
    have hexhausted : Inv P { c with pool := { c.pool with pool := pool } } :=
      ⟨h.accounts.exhausted hresult, h.owned, h.slots⟩
    exact (hexhausted.keeps_sched (.report _ _)).newTask home
  · rename_i p pool hresult
    cases halloc
    obtain ⟨hfresh, haccounts⟩ := h.accounts.allocate hresult
    refine ⟨haccounts, ?_, h.slots⟩
    rw [held_newTask]
    exact h.owned.give c.held_next_task hfresh

theorem moveTask (h : c.Inv P) (hvalue : (c.task i).value = some handle) :
    ((c.setTask i (.write none)).newTask home handle).Inv P := by
  have hlength : (c.setTask i (.write none)).tasks.length = c.tasks.length := by simp [setTask]
  refine ⟨h.accounts, ?_, h.slots⟩
  rw [held_newTask, held_setTask (by simp), hlength, Lifetime.handle_write_none]
  have hmoved := h.owned.move (o := .task i) c.held_next_task
  rwa [show c.held (.task i) = handle from Lifetime.handle_of_value hvalue] at hmoved

theorem assign (h : c.Inv P) {dst src : ℕ} (hne : dst ≠ src) {previous : Handle}
    (hdst : (c.task dst).value = some previous) (hsrc : (c.task src).value = some handle) :
    (((c.setTask dst (.write handle)).setTask src (.write none)).destroyIf previous .assign).Inv
      P := by
  have hheld : ((c.setTask dst (.write handle)).setTask src (.write none)).held =
      update (update c.held (.task dst) (c.held (.task src))) (.task src) none := by
    rw [held_setTask (by simp), held_setTask (by simp), Lifetime.handle_write_none,
      Lifetime.handle_write hdst, show c.held (.task src) = handle from Lifetime.handle_of_value hsrc]
  have howner : (.task src : Owner N) ≠ .task dst := by simpa using Ne.symm hne
  have hprevious : c.held (.task dst) = previous := Lifetime.handle_of_value hdst
  cases previous with
  | none =>
      refine ⟨h.accounts, ?_, h.slots⟩
      show Owned ((c.setTask dst (.write handle)).setTask src (.write none)).held c.alive
      rw [hheld, update_comm howner.symm]
      exact h.owned.move hprevious
  | some frame =>
      refine ⟨h.accounts.destroy (h.owned.alive_of_held _ _ hprevious), ?_, h.slots⟩
      show Owned ((c.setTask dst (.write handle)).setTask src (.write none)).held
        (update c.alive frame false)
      rw [hheld]
      exact h.owned.replace howner hprevious

theorem vanishTask (h : c.Inv P) (hnone : c.held (.task i) = none) : (c.setTask i .vanish).Inv P := by
  refine ⟨h.accounts, ?_, h.slots⟩
  rw [held_setTask (by simp)]
  have hsame : (c.task i).vanish.handle = c.held (.task i) := hnone.symm
  rw [hsame, update_eq_self]
  exact h.owned

theorem destroyTask (h : c.Inv P) (hlive : c.task i = .live (some frame)) :
    ((c.setTask i (.retire none)).destroy frame (.task i)).Inv P := by
  have ho : c.held (.task i) = some frame := by
    rw [Custody.held, hlive]
    rfl
  refine drop h.accounts h.owned ho ?_ h.slots
  rw [held_setTask (by simp), hlive]
  rfl

/-! ## Awaiters -/

theorem coAwait (h : c.Inv P) (hvalue : (c.task i).value = some handle) :
    ((c.setTask i (.write none)).newAwaiter home (.ofTask handle)).Inv P := by
  refine ⟨h.accounts, ?_, h.slots⟩
  rw [held_newAwaiter, held_setTask (by simp), Lifetime.handle_write_none]
  have hmoved := h.owned.move (o := .task i) c.held_next_awaiter
  rwa [show c.held (.task i) = handle from Lifetime.handle_of_value hvalue] at hmoved

theorem moveAwaiter (h : c.Inv P) {a : TaskAwaiter} (hlive : c.awaiter k = .live a) :
    ((c.setAwaiter k (.write a.movedFrom)).newAwaiter home a).Inv P := by
  have hlength : (c.setAwaiter k (.write a.movedFrom)).awaiters.length = c.awaiters.length := by
    simp [setAwaiter]
  refine ⟨h.accounts, ?_, h.slots⟩
  rw [held_newAwaiter, held_setAwaiter (by simp), hlength, Lifetime.child_write_movedFrom]
  have hmoved := h.owned.move (o := .awaiter k) c.held_next_awaiter
  have ho : c.held (.awaiter k) = a.child := by
    rw [Custody.held, hlive]
    rfl
  rwa [ho] at hmoved

theorem vanishAwaiter (h : c.Inv P) (hnone : c.held (.awaiter k) = none) :
    (c.setAwaiter k .vanish).Inv P := by
  refine ⟨h.accounts, ?_, h.slots⟩
  rw [held_setAwaiter (by simp)]
  have hsame : (c.awaiter k).vanish.child = c.held (.awaiter k) := hnone.symm
  rw [hsame, update_eq_self]
  exact h.owned

/-- A change that leaves a live `TaskAwaiter` without its frame, which is destroyed. -/
theorem dropAwaiter (h : c.Inv P) {a : TaskAwaiter} (hlive : c.awaiter k = .live a)
    (hchild : a.child = some frame) {f : Lifetime TaskAwaiter → Lifetime TaskAwaiter}
    (hgone : f .gone = .gone) (hnone : (f (.live a)).child = none) {caller : Destroyer N} :
    ((c.setAwaiter k f).destroy frame caller).Inv P := by
  have ho : c.held (.awaiter k) = some frame := by
    rw [Custody.held, hlive]
    exact hchild
  refine drop h.accounts h.owned ho ?_ h.slots
  rw [held_setAwaiter hgone, hlive, hnone]

/-! ## The scheduler -/

/-- A frame moves from an object to a slot, which adopts it. -/
theorem adopt (h : c.Inv P) {o : Owner N} {s : Fin N} (hslots : Slots world c.left)
    (hnone : c.world.slotFrame s = none)
    (hworld : world.slotFrame = update c.world.slotFrame s (c.held o))
    (haccounts : Accounts P c'.pool c'.uses c'.alive (c'.dying.map Destruction.frame))
    (hheld : c'.held = update c.held o none) (halive : c'.alive = c.alive)
    (hleft : c'.left = c.left) (hsame : c'.world = c.world) : (c'.withWorld world).Inv P := by
  refine ⟨haccounts, ?_, ?_⟩
  · show Owned (c'.withWorld world).held c'.alive
    rw [held_withWorld_update (s := s) (hsame ▸ hworld), hheld, halive]
    exact h.owned.move hnone
  · show Slots world c'.left
    rwa [hleft]

/-- `create_task` takes the frame of the passed `Task`, or leaves it there. -/
theorem createTask (h : c.Inv P) (hvalue : (c.task i).value = some handle) :
    ((c.setTask i (.write (c.world.sched.schedule handle).task)).withSched
      (c.world.sched.schedule handle).sched).Inv P := by
  have hheld : (c.setTask i (.write (c.world.sched.schedule handle).task)).held =
      update c.held (.task i) (c.world.sched.schedule handle).task := by
    rw [held_setTask (by simp), Lifetime.handle_write hvalue]
  have ho : c.held (.task i) = handle := Lifetime.handle_of_value hvalue
  rcases c.world.sched.schedule_cases handle with ⟨htask, hkeeps⟩ | ⟨htask, hdown, s, hadopts⟩
  · have hsame : (c.setTask i (.write (c.world.sched.schedule handle).task)).Inv P := by
      refine ⟨h.accounts, ?_, h.slots⟩
      rw [hheld, htask, ← ho, update_eq_self]
      exact h.owned
    exact hsame.keeps_sched hkeeps
  · obtain ⟨hslots, hnone, hworld⟩ := h.slots.adopts
      { c.world with sched := (c.world.sched.schedule handle).sched } hdown hadopts rfl rfl
    rw [htask] at hheld
    refine h.adopt (o := .task i) hslots hnone ?_ h.accounts ?_ rfl rfl rfl
    · rw [ho]
      exact hworld
    · rw [htask]
      exact hheld

/-- `start_child` hands the frame of a `TaskAwaiter` to a slot, or destroys it. -/
theorem startChild (h : c.Inv P) {a : TaskAwaiter} (hlive : c.awaiter k = .live a)
    {awaiting : Handle}
    (hstep : (c.setAwaiter k (.write a.movedFrom)).startChild a.child awaiting = some c') :
    c'.Inv P := by
  have hdropped : ∀ frame caller, a.child = some frame →
      (((c.setAwaiter k (.write a.movedFrom)).withSched
        (c.world.sched.record (.destroyed a.child))).destroy frame caller).Inv P := by
    intro frame caller hchild
    have hrecorded : (c.withSched (c.world.sched.record (.destroyed a.child))).Inv P :=
      h.keeps_sched (.record _ (by simp))
    exact hrecorded.dropAwaiter hlive hchild (by simp) (Lifetime.child_write_movedFrom _ _)
  unfold Custody.startChild at hstep
  split at hstep
  · cases hstep
  · rename_i hchild
    obtain ⟨-, rfl⟩ := user_eq_some.mp hstep
    exact hdropped _ _ hchild
  · rename_i hchild
    split at hstep
    · obtain ⟨-, rfl⟩ := user_eq_some.mp hstep
      exact hdropped _ _ hchild
    · cases hstep
  · rename_i hrejection
    split at hstep
    · rename_i s left hcontrol
      split at hstep
      · obtain ⟨-, rfl⟩ := user_eq_some.mp hstep
        have hcontrol' : c.world.control = .body s left := hcontrol
        obtain ⟨t, hadopts⟩ := Scheduler.startChildAwait_adopts (c := c.world.sched) hrejection
          a.child
        obtain ⟨hslots, hnone, hworld⟩ := h.slots.adopts
          (World.suspend { c.world with
            sched := (c.world.sched.startChildAwait a.child awaiting).sched } s left)
          (h.slots.running (by simp [hcontrol'])).1 (hadopts.keeps (.afterSuspend _ s))
          (by simp [hcontrol', World.suspend, Control.inPoll])
          (by simp [hcontrol', World.suspend, Control.releasing])
        have ho : c.held (.awaiter k) = a.child := by
          rw [Custody.held, hlive]
          rfl
        refine h.adopt (o := .awaiter k) hslots hnone ?_ h.accounts ?_ rfl rfl rfl
        · rw [ho]
          exact hworld
        · rw [held_setAwaiter (by simp), Lifetime.child_write_movedFrom]
      · cases hstep
    · cases hstep

/-- The running task has ended, and its frame is destroyed. -/
theorem finish (h : c.Inv P) {s : Fin N} {rest : ℕ} (hcontrol : c.world.control = .body s rest)
    (hframe : (c.world.sched.slots s).handle = some frame) {caller : Destroyer N} :
    ((c.withWorld { c.world with
      sched := c.world.sched.afterFinish s
      control := .release s rest }).destroy frame caller).Inv P := by
  obtain ⟨hslots, hslot, hworld⟩ := h.slots.finish hcontrol (by simp [hframe])
  exact drop (o := .slot s) h.accounts h.owned (hslot.trans hframe) (held_withWorld_update hworld)
    hslots

/-- The memory of the innermost frame is freed. -/
theorem frameDelete (h : c.Inv P) {d : Destruction N} {dying : List (Destruction N)}
    (hdying : c.dying = d :: dying) (hfree : c.frameDelete P d.frame = some c') :
    Inv P { c' with dying := dying } ∧ c'.world = c.world ∧ c'.tasks = c.tasks ∧
      c'.awaiters = c.awaiters := by
  obtain ⟨⟨bad, pool⟩, hresult, rfl⟩ := Option.map_eq_some_iff.mp hfree
  have haccounts := h.accounts
  rw [hdying, List.map_cons] at haccounts
  obtain ⟨rfl, haccounts'⟩ := haccounts.deallocate hresult
  exact ⟨⟨haccounts', h.owned, h.slots⟩, rfl, rfl, rfl⟩

/-- The caller of `destroy()` goes on.  A `Task` whose destructor returns owns nothing. -/
theorem resume (h : c.Inv P) {d : Destruction N}
    (hsound : ∀ i, d.caller = .task i → c.held (.task i) = none)
    (hstep : c.resume cfg d = some c') : c'.Inv P := by
  unfold Custody.resume at hstep
  split at hstep
  · cases hstep
    exact h
  · cases hstep
    exact h
  · rename_i i hcaller
    cases hstep
    have hnone := hsound i hcaller
    refine ⟨h.accounts, ?_, h.slots⟩
    rw [held_setTask (by simp), Lifetime.handle_finish hnone, ← hnone, update_eq_self]
    exact h.owned
  · rename_i k hcaller
    cases hstep
    refine ⟨h.accounts, ?_, h.slots⟩
    have hsame : (c.awaiter k).finish.child = c.held (.awaiter k) := Lifetime.child_finish _
    rw [held_setAwaiter (by simp), hsame, update_eq_self]
    exact h.owned
  · rename_i r hcaller
    have hkeeps := Scheduler.Keeps.afterReject c.world.sched r
    dsimp only at hstep
    split at hstep
    · rename_i parent s left hcontrol
      cases hstep
      refine h.keeps (.of_sched (hkeeps.trans (.afterSuspend _ s)) ?_ ?_ ?_)
      · simp [hcontrol, World.suspend, Control.inPoll]
      · simp [hcontrol, World.suspend, Control.releasing]
      · simp [hcontrol]
    · cases hstep
    · cases hstep
      exact h.keeps_sched hkeeps
  · obtain ⟨world, hworld, rfl⟩ := Option.map_eq_some_iff.mp hstep
    cases World.steps_of_step hworld with
    | destroyed s left hcontrol =>
        obtain ⟨hslots, hframe⟩ := h.slots.destroyed hcontrol
        refine ⟨h.accounts, ?_, hslots⟩
        rw [held_withWorld hframe]
        exact h.owned

/-! ## The steps -/

/-- Every step that is sound keeps the invariant. -/
theorem step (h : c.Inv P) {a : CustodyAction w T} (hsound : c.Sound a)
    (hstep : c.step cfg P a = some c') : c'.Inv P := by
  cases a with
  | create size home =>
      simp only [Custody.step] at hstep
      split at hstep
      · split at hstep
        · cases hstep
        · rename_i halloc
          obtain ⟨-, rfl⟩ := user_eq_some.mp hstep
          exact h.create halloc
      · cases hstep
  | newTask home =>
      simp only [Custody.step] at hstep
      split at hstep
      · obtain ⟨-, rfl⟩ := user_eq_some.mp hstep
        exact h.newTask home
      · cases hstep
  | moveTask src home =>
      simp only [Custody.step] at hstep
      split at hstep
      · cases hstep
      · rename_i hvalue
        split at hstep
        · obtain ⟨-, rfl⟩ := user_eq_some.mp hstep
          exact h.moveTask hvalue
        · cases hstep
  | assign dst src =>
      simp only [Custody.step] at hstep
      split at hstep
      · rename_i hdst hsrc
        split_ifs at hstep with hself
        · obtain ⟨-, rfl⟩ := user_eq_some.mp hstep
          exact h
        · obtain ⟨-, rfl⟩ := user_eq_some.mp hstep
          exact h.assign hself hdst hsrc
      · cases hstep
  | destroyTask i =>
      simp only [Custody.step] at hstep
      split at hstep
      · rename_i hlive
        obtain ⟨-, rfl⟩ := user_eq_some.mp hstep
        refine h.vanishTask ?_
        rw [Custody.held, hlive]
        rfl
      · rename_i hlive
        obtain ⟨-, rfl⟩ := user_eq_some.mp hstep
        exact h.destroyTask hlive
      · cases hstep
  | coAwait i home =>
      simp only [Custody.step] at hstep
      split at hstep
      · cases hstep
      · rename_i hvalue
        split at hstep
        · obtain ⟨-, rfl⟩ := user_eq_some.mp hstep
          exact h.coAwait hvalue
        · cases hstep
  | moveAwaiter k home =>
      simp only [Custody.step] at hstep
      split at hstep
      · cases hstep
      · rename_i a hvalue
        split at hstep
        · obtain ⟨-, rfl⟩ := user_eq_some.mp hstep
          exact h.moveAwaiter (Lifetime.live_of_value hsound hvalue)
        · cases hstep
  | destroyAwaiter k =>
      simp only [Custody.step] at hstep
      split at hstep
      · rename_i a hlive
        split at hstep <;> rename_i hchild <;> obtain ⟨-, rfl⟩ := user_eq_some.mp hstep
        · refine h.vanishAwaiter ?_
          rw [Custody.held, hlive]
          exact hchild
        · exact h.dropAwaiter hlive hchild (by simp) rfl
      · cases hstep
  | await k awaiting =>
      simp only [Custody.step] at hstep
      split at hstep
      · cases hstep
      · rename_i a hvalue
        split_ifs at hstep
        · obtain ⟨-, rfl⟩ := user_eq_some.mp hstep
          exact h.keeps_sched (.report _ _)
        · exact h.startChild (Lifetime.live_of_value hsound hvalue) hstep
  | createTask i =>
      simp only [Custody.step] at hstep
      split at hstep
      · cases hstep
      · rename_i hvalue
        obtain ⟨-, rfl⟩ := user_eq_some.mp hstep
        exact h.createTask hvalue
  | finish =>
      simp only [Custody.step] at hstep
      split at hstep
      · rename_i s left hcontrol
        split at hstep
        · rename_i hframe hworld
          simp only [World.step, hcontrol] at hworld
          cases hworld
          split at hstep <;> cases hstep
          exact h.finish hcontrol hframe
        · cases hstep
      · cases hstep
  | returned =>
      simp only [Custody.step] at hstep
      split at hstep
      · cases hstep
      · rename_i d dying hdying
        split at hstep
        · split at hstep
          · cases hstep
          · rename_i u hfree
            obtain ⟨hinv, hworld, htasks, hawaiters⟩ := h.frameDelete hdying hfree
            refine hinv.resume (fun i hcaller => ?_) hstep
            have hnone := hsound d (by simp [hdying]) i (by simp [hcaller, Destroyer.task?])
            rw [task, ← htasks] at hnone
            exact hnone
        · cases hstep
  | shutDown =>
      simp only [Custody.step] at hstep
      split at hstep <;> cases hstep
      rename_i hcall
      exact ⟨h.accounts, h.owned, h.slots.shutDown hcall.1⟩
  | next =>
      simp only [Custody.step] at hstep
      split at hstep
      · cases hstep
      · rename_i s left hleft
        have hslots := h.slots
        rw [hleft] at hslots
        split at hstep
        · split at hstep <;> cases hstep
          · rename_i hnone
            exact ⟨h.accounts, h.owned, hslots.skip hnone⟩
          · rename_i frame hframe
            obtain ⟨hnext, hslot, hworld⟩ := hslots.detach hframe
            exact drop (o := .slot s) h.accounts h.owned hslot (held_withWorld_update hworld) hnext
        · cases hstep
  | act a =>
      simp only [Custody.step] at hstep
      split at hstep
      · cases hstep
      · rename_i hallowed
        obtain ⟨world, hworld, rfl⟩ := Option.map_eq_some_iff.mp hstep
        exact h.keeps (World.step_keeps (by simpa using fun hmoves => hallowed (Or.inl hmoves)) hworld)

end Inv

end Custody

end SimpleAwait
