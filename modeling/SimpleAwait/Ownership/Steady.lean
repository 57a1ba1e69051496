import Mathlib.Logic.Relation
import SimpleAwait.Ownership.Step
import SimpleAwait.System.Filled

/-!
# The scheduler under the objects

Outside the teardown the operations on the objects drive the scheduler as the system of
`System/Step.lean` does, so its invariant holds; what they add to its trace are errors and
destructions.  A rejected child's parent is requeued when the destructors of the child have
returned.
-/

namespace SimpleAwait

variable {N w : ℕ} {T : Type} {cfg : Config N} {P : PoolConfig w} {L : Layout N} {s : Fin N}
  {left : ℕ}

/-! ## The system -/

section World

variable {world world' : World N T}

/-- An error or a destruction is recorded. -/
theorem Inv.noted (h : Inv cfg world L) {o : Obs N}
    (ho : (∃ e, o = .error e) ∨ ∃ frame, o = .destroyed frame) :
    Inv cfg { world with sched := world.sched.record o } L where
  core := by
    refine h.core.keeps ?_ (Keeps.refl _) rfl rfl rfl rfl
    rcases ho with ⟨e, rfl⟩ | ⟨frame, rfl⟩
    · exact h.core.sound.report e
    · exact h.core.sound.destroyed frame
  staged := ⟨h.staged.current, h.staged.running, h.staged.inPoll, h.staged.shuttingDown,
    h.staged.budget, h.staged.asleep⟩
  position := h.position
  signals := ⟨h.signals.heard, h.signals.told, h.signals.wake⟩

/-- The parent of a rejected child is requeued as if it had yielded. -/
theorem Inv.requeued (h : Inv cfg world L) (hcontrol : world.control = .body s left) :
    ∃ L', Inv cfg (World.suspend { world with
      sched := world.sched.afterReject (.noSlot s) } s left) L' := by
  have hcurrent : world.sched.current = some s := by rw [h.staged.current, hcontrol]; rfl
  have hyield : world.step cfg (.coAwait .yield) = some (World.suspend { world with
      sched := (world.sched.setState s .ready).readyPush s } s left) := by
    simp [World.step, hcontrol, World.coAwait, World.afterAwait, Scheduler.yieldCurrent, hcurrent]
  obtain ⟨L', h'⟩ := h.step hyield
  refine ⟨L', ?_⟩
  have hnoted := h'.noted (o := .error .taskLimit) (Or.inl ⟨_, rfl⟩)
  have hcommutes : ∀ c : Scheduler N, (c.report .taskLimit).afterSuspend s =
      (c.afterSuspend s).report .taskLimit := by
    intro c
    have hsame : ((c.report .taskLimit).slots s).state = (c.slots s).state := rfl
    unfold Scheduler.afterSuspend
    rw [hsame]
    split_ifs <;> rfl
  unfold World.suspend at hnoted ⊢
  rw [Scheduler.afterReject, hcommutes]
  exact hnoted

/-- The running task awaits a child that is adopted. -/
theorem Inv.adoptsChild (h : Inv cfg world L) (hcontrol : world.control = .body s left)
    {child awaiting : Handle} (hrejection : world.sched.rejection awaiting = none) :
    world.step cfg (.coAwait (.task ⟨child, false⟩)) = some (World.suspend { world with
      sched := (world.sched.startChildAwait child awaiting).sched } s left) := by
  have hcurrent : world.sched.current = some s := by rw [h.staged.current, hcontrol]; rfl
  have hawaiting : (world.sched.slots s).handle = awaiting ∧
      (world.sched.startChildAwait child awaiting).suspend = true := by
    unfold Scheduler.rejection at hrejection
    unfold Scheduler.startChildAwait
    rw [hcurrent] at hrejection ⊢
    dsimp only at hrejection ⊢
    split_ifs at hrejection ⊢ with hrunning
    simp only [Scheduler.isRunning, hcurrent, Bool.and_eq_true, decide_eq_true_eq] at hrunning
    refine ⟨hrunning.2, ?_⟩
    split <;> rfl
  simp [World.step, hcontrol, World.coAwait, World.afterAwait, hawaiting.1, hawaiting.2]

end World

namespace Custody

variable {c c' : Custody N w T}

/-! ## What a step does to the scheduler -/

/-- A piece of a step. -/
inductive Effect (cfg : Config N) : Custody N w T → Custody N w T → Prop
  /-- Only objects change. -/
  | objects {c c' : Custody N w T} (hworld : c'.world = c.world) (hdying : c'.dying = c.dying)
      (hleft : c'.left = c.left) : Effect cfg c c'
  /-- An error or a destruction is recorded. -/
  | noted {c : Custody N w T} {o : Obs N}
      (ho : (∃ e, o = .error e) ∨ ∃ frame, o = .destroyed frame) :
      Effect cfg c (c.withSched (c.world.sched.record o))
  /-- A destruction begins. -/
  | destroy {c : Custody N w T} (frame : Frame) {caller : Destroyer N}
      (hcaller : ∀ p, caller = .reject (.noSlot p) → c.world.sched.current = some p) :
      Effect cfg c (c.destroy frame caller)
  /-- The system takes a step. -/
  | act {c : Custody N w T} {a : Action T} {world : World N T}
      (hstep : c.world.step cfg a = some world)
      (hchild : ∀ awaiter, a ≠ .coAwait (.task awaiter)) : Effect cfg c (c.withWorld world)
  /-- The running task awaits a child that is adopted. -/
  | adopted {c : Custody N w T} {s : Fin N} {left : ℕ} {child awaiting : Handle}
      (hcontrol : c.world.control = .body s left)
      (hrejection : c.world.sched.rejection awaiting = none) (hchild : child ≠ none) :
      Effect cfg c (c.withWorld (World.suspend { c.world with
        sched := (c.world.sched.startChildAwait child awaiting).sched } s left))
  /-- The innermost destruction ends. -/
  | ended {c : Custody N w T} {d : Destruction N} {dying : List (Destruction N)}
      (hdying : c.dying = d :: dying) : Effect cfg c { c with dying := dying }
  /-- The innermost destruction ends, that of a rejected child, and its parent is requeued. -/
  | requeued {c : Custody N w T} {d : Destruction N} {dying : List (Destruction N)} {p s : Fin N}
      {left : ℕ} (hdying : c.dying = d :: dying) (hcaller : d.caller = .reject (.noSlot p))
      (hcontrol : d.control = c.world.control) (hbody : c.world.control = .body s left) :
      Effect cfg c (Custody.withWorld { c with dying := dying } (World.suspend { c.world with
        sched := c.world.sched.afterReject (.noSlot p) } s left))
  /-- `~Scheduler` begins. -/
  | begun {c c' : Custody N w T} (hdown : c'.world.sched.shuttingDown = true) : Effect cfg c c'
  /-- `~Scheduler` visits a slot. -/
  | torn {c c' : Custody N w T} (hleft : c.left ≠ [])
      (hdown : c'.world.sched.shuttingDown = c.world.sched.shuttingDown) : Effect cfg c c'

/-- Once `~Scheduler` has begun, it has begun. -/
theorem Effect.down (h : Effect cfg c c') (hdown : c.world.sched.shuttingDown = true) :
    c'.world.sched.shuttingDown = true := by
  cases h with
  | objects hworld => rwa [hworld]
  | noted => exact hdown
  | destroy => exact hdown
  | act hstep => exact (World.step_shuttingDown hstep).trans hdown
  | @adopted s _ child _ _ hrejection =>
      obtain ⟨t, hadopts⟩ := Scheduler.startChildAwait_adopts hrejection child
      exact (hadopts.keeps (.afterSuspend _ s)).shuttingDown.trans hdown
  | ended => exact hdown
  | @requeued _ _ p s =>
      have hkeeps := (Scheduler.Keeps.afterReject c.world.sched (.noSlot p)).trans
        (.afterSuspend _ s)
      exact hkeeps.shuttingDown.trans hdown
  | begun hdown' => exact hdown'
  | torn _ hkept => exact hkept.trans hdown

/-- The scheduler meets its invariant, every task has a frame, and a child that is being rejected is
one of the task that awaits it. -/
structure Settled (cfg : Config N) (c : Custody N w T) : Prop where
  inv : ∃ L, SimpleAwait.Inv cfg c.world L
  filled : c.world.Filled
  parents : ∀ d ∈ c.dying, ∀ p s left, d.caller = .reject (.noSlot p) →
    d.control = .body s left → p = s
  left : c.left = []

theorem Settled.start (memory : FramePool w) :
    (Custody.start P memory : Custody N w T).Settled cfg where
  inv := ⟨_, Inv.initial⟩
  filled s hs := absurd rfl hs.1
  parents := by simp [Custody.start]
  left := rfl

/-- Each piece of a step keeps the scheduler settled, unless `~Scheduler` begins. -/
theorem Settled.effect (h : c.Settled cfg) (heffect : Effect cfg c c') :
    c'.world.sched.shuttingDown = true ∨ c'.Settled cfg := by
  obtain ⟨L, hinv⟩ := h.inv
  cases heffect with
  | objects hworld hdying hleft =>
      exact Or.inr ⟨hworld ▸ h.inv, hworld ▸ h.filled, hdying ▸ h.parents, hleft ▸ h.left⟩
  | noted ho => exact Or.inr ⟨⟨L, hinv.noted ho⟩, h.filled, h.parents, h.left⟩
  | destroy frame hcaller =>
      refine Or.inr ⟨h.inv, h.filled, fun d hd p s left he hcontrol => ?_, h.left⟩
      rcases List.mem_cons.mp hd with rfl | hd
      · have hparent := hcaller p he
        have hcontrol' : c.world.control = .body s left := hcontrol
        rw [hinv.staged.current, hcontrol'] at hparent
        exact (Option.some.inj hparent).symm
      · exact h.parents d hd p s left he hcontrol
  | act hstep hchild =>
      exact Or.inr ⟨hinv.step hstep, hinv.step_filled h.filled
        (fun awaiter he => absurd he (hchild awaiter)) hstep, h.parents, h.left⟩
  | @adopted _ _ child _ hcontrol hrejection hchild =>
      have hstep : c.world.step cfg (.coAwait (.task ⟨child, false⟩)) = _ :=
        hinv.adoptsChild hcontrol hrejection
      refine Or.inr ⟨hinv.step hstep, hinv.step_filled h.filled ?_ hstep, h.parents, h.left⟩
      rintro awaiter he
      cases he
      exact Or.inr hchild
  | ended hdying =>
      rename_i d dying
      exact Or.inr ⟨h.inv, h.filled,
        fun e he => h.parents e (hdying ▸ List.mem_cons_of_mem d he), h.left⟩
  | requeued hdying hcaller hcontrol hbody =>
      rename_i d dying p s left
      obtain rfl := h.parents d (by simp [hdying]) p s left hcaller (hcontrol.trans hbody)
      obtain ⟨L', hinv'⟩ := hinv.requeued hbody
      have hkeeps : c.world.sched.Keeps
          ((c.world.sched.afterReject (.noSlot p)).afterSuspend p) :=
        (Scheduler.Keeps.afterReject _ _).trans (.afterSuspend _ p)
      exact Or.inr ⟨⟨L', hinv'⟩, hinv.filled_keeps hinv' h.filled hkeeps,
        fun e he => h.parents e (hdying ▸ List.mem_cons_of_mem d he), h.left⟩
  | begun hdown => exact Or.inl hdown
  | torn hleft => exact absurd h.left hleft

/-! ## The pieces of every step -/

/-- One piece after another. -/
abbrev Effects (cfg : Config N) : Custody N w T → Custody N w T → Prop :=
  Relation.ReflTransGen (Effect cfg)

theorem Effect.one (h : Effect cfg c c') : Effects cfg c c' := .single h

theorem Effects.unchanged (hworld : c'.world = c.world) (hdying : c'.dying = c.dying)
    (hleft : c'.left = c.left) : Effects cfg c c' := (Effect.objects hworld hdying hleft).one

theorem Effects.frameAlloc {size : BitVec w} {handle : Handle}
    (halloc : c.frameAlloc P size = some (handle, c')) : Effects cfg c c' := by
  unfold Custody.frameAlloc at halloc
  split at halloc <;> cases halloc
  · rename_i pool _
    have hpool : Effects cfg c { c with pool := { c.pool with pool := pool } } :=
      .unchanged rfl rfl rfl
    exact hpool.tail (.noted (Or.inl ⟨.framePoolExhausted, rfl⟩))
  · exact .unchanged rfl rfl rfl

theorem Effects.frameDelete {frame : Frame} (hfree : c.frameDelete P frame = some c') :
    Effects cfg c c' ∧ c'.dying = c.dying ∧ c'.world.control = c.world.control := by
  obtain ⟨⟨bad, pool⟩, -, rfl⟩ := Option.map_eq_some_iff.mp hfree
  have hpool : Effects cfg c { c with
      pool := ⟨pool, c.pool.live.filter fun a => a.ptr ≠ BitVec.ofNat w frame⟩ } :=
    .unchanged rfl rfl rfl
  cases bad with
  | false => exact ⟨hpool, rfl, rfl⟩
  | true => exact ⟨hpool.tail (.noted (Or.inl ⟨.internalError, rfl⟩)), rfl, rfl⟩

/-- `start_child` by any coroutine, of a child with a frame. -/
theorem Effects.startChild {child awaiting : Handle} (hchild : child ≠ none)
    (hstep : c.startChild child awaiting = some c') : Effects cfg c c' := by
  have hrecorded : Effects cfg c (c.withSched (c.world.sched.record (.destroyed child))) :=
    (Effect.noted (Or.inr ⟨child, rfl⟩)).one
  unfold Custody.startChild at hstep
  split at hstep
  · cases hstep
  · obtain ⟨-, rfl⟩ := user_eq_some.mp hstep
    exact hrecorded.tail (.destroy _ fun p he => by cases he)
  · rename_i parent frame hrejection
    split at hstep
    · obtain ⟨-, rfl⟩ := user_eq_some.mp hstep
      refine hrecorded.tail (.destroy _ fun p he => ?_)
      cases he
      show c.world.sched.current = _
      exact Scheduler.current_of_rejection hrejection
    · cases hstep
  · rename_i hrejection
    split at hstep
    · rename_i hcontrol
      split at hstep
      · obtain ⟨-, rfl⟩ := user_eq_some.mp hstep
        exact (Effect.adopted hcontrol hrejection hchild).one
      · cases hstep
    · cases hstep

/-- The innermost destruction ends, and the caller of `destroy()` goes on. -/
theorem Effects.resume {d : Destruction N} {dying : List (Destruction N)}
    (hdying : c.dying = d :: dying) (hcontrol : d.control = c.world.control)
    (hstep : Custody.resume cfg { c with dying := dying } d = some c') : Effects cfg c c' := by
  have hended : Effects cfg c { c with dying := dying } := (Effect.ended hdying).one
  unfold Custody.resume at hstep
  split at hstep
  · cases hstep
    exact hended
  · cases hstep
    exact hended
  · cases hstep
    exact hended.tail (.objects rfl rfl rfl)
  · cases hstep
    exact hended.tail (.objects rfl rfl rfl)
  · rename_i r hcaller
    dsimp only at hstep
    split at hstep
    · rename_i hbody
      cases hstep
      exact (Effect.requeued hdying hcaller hcontrol hbody).one
    · cases hstep
    · cases hstep
      exact hended.tail (.noted (Or.inl ⟨_, rfl⟩))
  · obtain ⟨world, hworld, rfl⟩ := Option.map_eq_some_iff.mp hstep
    exact hended.tail (.act hworld (by simp))

/-- Every step, where a fresh awaiter is awaited. -/
theorem step_effects {a : CustodyAction w T} (hfresh : c.Fresh a)
    (hstep : c.step cfg P a = some c') : Effects cfg c c' := by
  cases a with
  | create size home =>
      simp only [Custody.step] at hstep
      split at hstep
      · split at hstep
        · cases hstep
        · rename_i halloc
          obtain ⟨-, rfl⟩ := user_eq_some.mp hstep
          exact (Effects.frameAlloc halloc).tail (.objects rfl rfl rfl)
      · cases hstep
  | newTask home =>
      simp only [Custody.step] at hstep
      split at hstep
      · obtain ⟨-, rfl⟩ := user_eq_some.mp hstep
        exact .unchanged rfl rfl rfl
      · cases hstep
  | moveTask src home =>
      simp only [Custody.step] at hstep
      split at hstep
      · cases hstep
      · split at hstep
        · obtain ⟨-, rfl⟩ := user_eq_some.mp hstep
          exact .unchanged rfl rfl rfl
        · cases hstep
  | assign dst src =>
      simp only [Custody.step] at hstep
      split at hstep
      · rename_i previous handle _ _
        split_ifs at hstep
        · obtain ⟨-, rfl⟩ := user_eq_some.mp hstep
          exact .refl
        · obtain ⟨-, rfl⟩ := user_eq_some.mp hstep
          have hassigned : Effects cfg c ((c.setTask dst (.write handle)).setTask src (.write none)) :=
            .unchanged rfl rfl rfl
          cases previous with
          | none => exact hassigned
          | some frame => exact hassigned.tail (.destroy frame fun p he => by cases he)
      · cases hstep
  | destroyTask i =>
      simp only [Custody.step] at hstep
      split at hstep
      · obtain ⟨-, rfl⟩ := user_eq_some.mp hstep
        exact .unchanged rfl rfl rfl
      · rename_i frame _
        obtain ⟨-, rfl⟩ := user_eq_some.mp hstep
        have hretired : Effects cfg c (c.setTask i (.retire none)) := .unchanged rfl rfl rfl
        exact hretired.tail (.destroy frame fun p he => by cases he)
      · cases hstep
  | coAwait i home =>
      simp only [Custody.step] at hstep
      split at hstep
      · cases hstep
      · split at hstep
        · obtain ⟨-, rfl⟩ := user_eq_some.mp hstep
          exact .unchanged rfl rfl rfl
        · cases hstep
  | moveAwaiter src home =>
      simp only [Custody.step] at hstep
      split at hstep
      · cases hstep
      · split at hstep
        · obtain ⟨-, rfl⟩ := user_eq_some.mp hstep
          exact .unchanged rfl rfl rfl
        · cases hstep
  | destroyAwaiter k =>
      simp only [Custody.step] at hstep
      split at hstep
      · rename_i a _
        split at hstep
        · obtain ⟨-, rfl⟩ := user_eq_some.mp hstep
          exact .unchanged rfl rfl rfl
        · rename_i frame _
          obtain ⟨-, rfl⟩ := user_eq_some.mp hstep
          have hretired : Effects cfg c (c.setAwaiter k (.retire a)) := .unchanged rfl rfl rfl
          exact hretired.tail (.destroy frame fun p he => by cases he)
      · cases hstep
  | await k awaiting =>
      simp only [Custody.step] at hstep
      split at hstep
      · cases hstep
      · rename_i a hvalue
        split_ifs at hstep with hempty
        · obtain ⟨-, rfl⟩ := user_eq_some.mp hstep
          exact (Effect.noted (Or.inl ⟨.taskAwaitedTwice, rfl⟩)).one
        · have hchild : a.child ≠ none := by
            simp only [Fresh, hvalue, Option.all_some, Bool.or_eq_true] at hfresh
            exact Option.isSome_iff_ne_none.mp (hfresh.resolve_left hempty)
          have hemptied : Effects cfg c (c.setAwaiter k (.write a.movedFrom)) :=
            .unchanged rfl rfl rfl
          exact hemptied.trans (Effects.startChild hchild hstep)
  | createTask i =>
      simp only [Custody.step] at hstep
      split at hstep
      · cases hstep
      · rename_i handle _
        obtain ⟨⟨huser, -⟩, rfl⟩ := user_eq_some.mp hstep
        have hcall : c.world.step cfg (.createTask handle) =
            some { c.world with sched := (c.world.sched.schedule handle).sched } :=
          World.user_eq_some.mpr ⟨huser, rfl⟩
        have hemptied : Effects cfg c
            (c.setTask i (.write (c.world.sched.schedule handle).task)) := .unchanged rfl rfl rfl
        exact hemptied.tail (.act hcall (by simp))
  | finish =>
      simp only [Custody.step] at hstep
      split at hstep
      · split at hstep
        · rename_i frame world _ hworld
          split_ifs at hstep
          cases hstep
          have hfinished : Effects cfg c (c.withWorld world) :=
            (Effect.act hworld (by simp)).one
          exact hfinished.tail (.destroy frame fun p he => by cases he)
        · cases hstep
      · cases hstep
  | returned =>
      simp only [Custody.step] at hstep
      split at hstep
      · cases hstep
      · rename_i d dying hdying
        split at hstep
        · rename_i hreturns
          split at hstep
          · cases hstep
          · rename_i hfree
            obtain ⟨heffects, hsame, hcontrol⟩ :
                Effects cfg _ _ ∧ _ := Effects.frameDelete hfree
            exact heffects.trans
              (Effects.resume (hsame.trans hdying) (hreturns.1.trans hcontrol.symm) hstep)
        · cases hstep
  | shutDown =>
      simp only [Custody.step] at hstep
      split_ifs at hstep
      cases hstep
      exact (Effect.begun rfl).one
  | next =>
      simp only [Custody.step] at hstep
      split at hstep
      · cases hstep
      · rename_i hcons
        have hleft : c.left ≠ [] := by simp [hcons]
        split at hstep
        · split at hstep <;> cases hstep
          · refine Effect.one (.torn hleft ?_)
            rfl
          · refine Effect.one (.torn hleft ?_)
            rfl
        · cases hstep
  | act a =>
      simp only [Custody.step] at hstep
      split_ifs at hstep with hallowed
      obtain ⟨world, hworld, rfl⟩ := Option.map_eq_some_iff.mp hstep
      refine (Effect.act hworld fun awaiter he => ?_).one
      exact hallowed (Or.inl (by rw [he]; rfl))

/-! ## Along a run -/

/-- The scheduler is settled, or `~Scheduler` has begun. -/
def Steady (cfg : Config N) (c : Custody N w T) : Prop :=
  c.world.sched.shuttingDown = true ∨ c.Settled cfg

theorem Steady.effects (h : c.Steady cfg) (heffects : Effects cfg c c') : c'.Steady cfg := by
  induction heffects with
  | refl => exact h
  | tail _ heffect ih =>
      rcases ih with hdown | hsettled
      · exact Or.inl (heffect.down hdown)
      · exact hsettled.effect heffect

theorem Steady.step (h : c.Steady cfg) {a : CustodyAction w T} (hfresh : c.Fresh a)
    (hstep : c.step cfg P a = some c') : c'.Steady cfg := h.effects (step_effects hfresh hstep)

end Custody

end SimpleAwait
