import SimpleAwait.Ownership.Invariant
import SimpleAwait.Properties.Consistency

/-!
# Every frame has exactly one owner

In every run whose steps are sound, a coroutine frame that exists is owned by one `Task`,
`TaskAwaiter` or slot, and is destroyed once.  A `Task` to which the destructors of its own frame
assign another one while it is being destroyed leaks that one.
-/

namespace SimpleAwait

open Transition

variable {N w : ℕ} {T : Type} {cfg : Config N} {P : PoolConfig w} {memory : FramePool w}
  {c : Custody N w T} {actions : List (CustodyAction w T)}

namespace Custody

/-- An object that is gone owns nothing. -/
theorem held_of_gone (htasks : ∀ o ∈ c.tasks, o.state = .gone)
    (hawaiters : ∀ o ∈ c.awaiters, o.state = .gone) (i : ℕ) :
    c.held (.task i) = none ∧ c.held (.awaiter i) = none := by
  constructor
  · show (Object.lookup c.tasks i).handle = none
    unfold Object.lookup
    cases hobject : c.tasks[i]? with
    | none => rfl
    | some o =>
        rw [Option.elim_some, htasks o (List.mem_of_getElem? hobject)]
        rfl
  · show (Object.lookup c.awaiters i).child = none
    unfold Object.lookup
    cases hobject : c.awaiters[i]? with
    | none => rfl
    | some o =>
        rw [Option.elim_some, hawaiters o (List.mem_of_getElem? hobject)]
        rfl

/-- The invariant holds after every run whose steps are sound. -/
theorem run_inv (hrun : run (step cfg P) (start P memory) actions = some c)
    (hsound : Along (step cfg P) Sound (start P memory) actions) : c.Inv P :=
  Along.induction hrun hsound (Inv.start P memory) fun _ _ _ _ h hsound hstep => h.step hsound hstep

/-- Without an object, a task or a destruction in progress, no frame is left. -/
theorem Inv.released (h : c.Inv P) (hdying : c.dying = [])
    (htasks : ∀ o ∈ c.tasks, o.state = .gone) (hawaiters : ∀ o ∈ c.awaiters, o.state = .gone)
    (hslots : (∀ s, ¬ c.world.sched.Occupied s) ∨
      c.world.sched.shuttingDown = true ∧ c.left = []) : c.pool.pool.bytesUsed = 0#w := by
  have hempty : ∀ s, (c.world.sched.slots s).handle = none := by
    rcases hslots with hvacant | ⟨hdown, hleft⟩
    · exact fun s => h.slots.vacant s (hvacant s)
    · exact fun s => h.slots.emptied hdown s (by simp [hleft])
  have hheld : ∀ o, c.held o = none := by
    intro o
    cases o with
    | task i => exact (held_of_gone htasks hawaiters i).1
    | awaiter k => exact (held_of_gone htasks hawaiters k).2
    | slot s =>
        show c.world.slotFrame s = none
        unfold World.slotFrame
        split
        · rfl
        · exact hempty s
  have haccounts := h.accounts
  rw [hdying] at haccounts
  refine haccounts.bytesUsed fun frame => ?_
  by_contra halive
  obtain ⟨o, ho⟩ := h.owned.held_of_alive frame (Bool.eq_true_of_not_eq_false halive)
  rw [hheld o] at ho
  cases ho

end Custody

/-- Each frame that exists has exactly one owner, and an owner owns a frame that exists; each frame
is created and destroyed in turn, and one without an owner has been destroyed as often as it was
created.  Once no object, no task and no destruction is left, no byte of the pool is in use. -/
theorem frames_owned_once (hrun : run (Custody.step cfg P) (.start P memory) actions = some c)
    (hsound : Along (Custody.step cfg P) Custody.Sound (.start P memory) actions) :
    (∀ frame, c.alive frame = true → ∃! o, c.held o = some frame) ∧
      (∀ o frame, c.held o = some frame → c.alive frame = true) ∧
      Lifetimes.Lawful (fun _ => false) c.uses ∧
      Lifetimes.live (fun _ => false) c.uses = c.alive ∧
      (∀ frame, (∀ o, c.held o ≠ some frame) →
        c.uses.count (.construct frame) = c.uses.count (.destroy frame)) ∧
      (c.dying = [] → (∀ o ∈ c.tasks, o.state = .gone) → (∀ o ∈ c.awaiters, o.state = .gone) →
        (∀ s, ¬ c.world.sched.Occupied s) ∨ c.world.sched.shuttingDown = true ∧ c.left = [] →
        c.pool.pool.bytesUsed = 0#w) := by
  have h := Custody.run_inv hrun hsound
  have huses := h.accounts.uses
  refine ⟨fun frame hframe => h.owned.existsUnique hframe, h.owned.alive_of_held, huses.lawful,
    huses.live, fun frame hfree => ?_, h.released⟩
  have hcount := Lifetimes.constructed_eq huses.lawful frame
  have hdead : c.alive frame = false := by
    by_contra halive
    obtain ⟨o, ho⟩ := h.owned.held_of_alive frame (Bool.eq_true_of_not_eq_false halive)
    exact hfree o ho
  rw [huses.live, hdead] at hcount
  simpa using hcount

/-- A `Task` lies in the frame of another one, to which it is assigned.  The frame that it owned is
then scheduled and runs to its end. -/
theorem frames_owned_once_small :
    let actions : List (CustodyAction 32 ℕ) := [.create 16 none, .create 16 none,
      .moveTask 0 (some 4144), .assign 1 2, .destroyTask 2, .returned, .createTask 1,
      .destroyTask 1, .destroyTask 0, .act (.poll false 0), .act .checkPending, .act .startPass,
      .act .passPop, .finish, .returned, .act (.endPass 0)]
    let ended := run (Custody.step .small .small) (.start .small (.zeroed 32)) actions
    (ended.map fun c => c.uses) =
        some [.construct 4112, .construct 4144, .destroy 4144, .destroy 4112] ∧
      ∀ c, ended = some c → c.pool.pool.bytesUsed = 0#32 := by
  intro actions ended
  refine ⟨by decide +kernel, fun c hc => ?_⟩
  obtain ⟨-, -, -, -, -, hbytes⟩ := frames_owned_once hc (by decide +kernel)
  have hquiet : (ended.map fun c => decide (c.dying = [] ∧ (∀ o ∈ c.tasks, o.state = .gone) ∧
      (∀ o ∈ c.awaiters, o.state = .gone) ∧
      ∀ s, (c.world.sched.slots s).state = .free ∨ (c.world.sched.slots s).state = .completed)) =
        some true := by decide +kernel
  rw [hc, Option.map_some, Option.some_inj, decide_eq_true_iff] at hquiet
  obtain ⟨hdying, htasks, hawaiters, hstates⟩ := hquiet
  refine hbytes hdying htasks hawaiters (Or.inl fun s hoccupied => ?_)
  exact (hstates s).elim hoccupied.1 hoccupied.2

/-- A parameter of a coroutine holds a `Task`, and its destructor assigns it to the `Task` that
owned the coroutine, of which the destructor runs.  The assigned frame is left without an owner. -/
theorem reassigned_task_leaks :
    let actions : List (CustodyAction 32 ℕ) := [.create 16 none, .create 16 none,
      .moveTask 0 (some 4144), .destroyTask 0, .destroyTask 1, .assign 1 2, .destroyTask 2,
      .returned]
    ∃ c : Custody 3 32 ℕ,
      run (Custody.step .small .small) (.start .small (.zeroed 32)) actions = some c ∧
        c.dying = [] ∧ (∀ o ∈ c.tasks, o.state = .gone) ∧ (∀ o ∈ c.awaiters, o.state = .gone) ∧
        (∀ s, ¬ c.world.sched.Occupied s) ∧ c.pool.pool.bytesUsed ≠ 0#32 ∧
        c.alive 4112 = true ∧ ∀ o, c.held o ≠ some 4112 := by
  intro actions
  have hended : ((run (Custody.step .small .small) (.start .small (.zeroed 32)) actions).map
      fun c : Custody 3 32 ℕ => decide (c.dying = [] ∧ (∀ o ∈ c.tasks, o.state = .gone) ∧
        (∀ o ∈ c.awaiters, o.state = .gone) ∧ (∀ s, (c.world.sched.slots s).state = .free) ∧
        (∀ s, c.world.slotFrame s = none) ∧ c.pool.pool.bytesUsed ≠ 0#32 ∧
        c.alive 4112 = true)) = some true := by decide +kernel
  obtain ⟨c, hrun, hc⟩ := Option.map_eq_some_iff.mp hended
  obtain ⟨hdying, htasks, hawaiters, hstates, hslots, hbytes, halive⟩ := decide_eq_true_iff.mp hc
  refine ⟨c, hrun, hdying, htasks, hawaiters, fun s hs => hs.1 (hstates s), hbytes, halive,
    fun o ho => ?_⟩
  have hnone : c.held o = none := by
    cases o with
    | task i => exact (Custody.held_of_gone htasks hawaiters i).1
    | awaiter k => exact (Custody.held_of_gone htasks hawaiters k).2
    | slot s => exact hslots s
  rw [hnone] at ho
  cases ho

end SimpleAwait
