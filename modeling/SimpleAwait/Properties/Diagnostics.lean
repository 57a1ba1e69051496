import SimpleAwait.Library.HighWater
import SimpleAwait.Properties.Consistency
import SimpleAwait.Properties.FrameMemory
import SimpleAwait.System.Diagnostics

/-!
# The snapshot of the counters

`stats()` reads counters that the scheduler and the frame pool keep up to date call by call.  At every
point of a run they are what the slots and the blocks come to, and the two peaks are the largest of
the values that the run has passed through.
-/

namespace SimpleAwait

open Transition

variable {N w : ℕ} {T : Type} {cfg : Config N} {x x' : Diagnosed N T} {a : Action T}
  {actions : List (Action T)} {P : PoolConfig w} {memory : FramePool w} {s : PoolState w}
  {calls : List (PoolAction w)}

/-! ## Counting slots -/

/-- The slots in a state. -/
def World.slotsIn (world : World N T) (state : State) : Finset (Fin N) :=
  Finset.univ.filter fun s => (world.sched.slots s).state = state

/-- A loop that counts the slots with a property counts each once. -/
theorem foldl_count (p : Fin N → Prop) [DecidablePred p] (n : ℕ) (l : List (Fin N)) :
    l.foldl (fun n s => if p s then n + 1 else n) n = n + (l.filter fun s => p s).length := by
  induction l generalizing n with
  | nil => rfl
  | cons s l ih =>
      rw [List.foldl_cons, ih]
      by_cases hs : p s
      · rw [if_pos hs, List.filter_cons_of_pos (by simpa using hs), List.length_cons]
        omega
      · rw [if_neg hs, List.filter_cons_of_neg (by simpa using hs)]

theorem foldl_finRange (p : Fin N → Prop) [DecidablePred p] :
    (List.finRange N).foldl (fun n s => if p s then n + 1 else n) 0 =
      (Finset.univ.filter p).card := by
  have hnodup : ((List.finRange N).filter fun s => p s).Nodup := (List.nodup_finRange N).filter _
  rw [foldl_count, Nat.zero_add, ← List.toFinset_card_of_nodup hnodup]
  congr 1
  ext s
  simp

/-- `ready_count_` is the number of ready slots. -/
theorem World.Consistent.readyCount_eq {world : World N T} (h : world.Consistent) :
    world.sched.readyCount = (world.slotsIn .ready).card := by
  obtain ⟨l, -, hnodup, -, hlength, hcount⟩ := h.ready
  rw [hlength, ← List.toFinset_card_of_nodup hnodup]
  congr 1
  ext s
  rw [List.mem_toFinset, World.slotsIn, Finset.mem_filter, ← List.count_pos_iff, hcount]
  by_cases hs : (world.sched.slots s).state = .ready <;> simp [hs]

/-! ## The scheduler's counters -/

namespace Diagnosed

/-- The counter does not change what the system does. -/
theorem world_step (hstep : x.step cfg a = some x') : x.world.step cfg a = some x'.world := by
  obtain ⟨world, hworld, rfl⟩ := Option.map_eq_some_iff.mp hstep
  exact hworld

theorem world_run (hrun : run (step cfg) x actions = some x') :
    run (World.step cfg) x.world actions = some x'.world := by
  induction actions generalizing x with
  | nil =>
      cases hrun
      rfl
  | cons a actions ih =>
      obtain ⟨y, hstep, hrest⟩ := run_cons.mp hrun
      exact run_cons.mpr ⟨y.world, world_step hstep, ih hrest⟩

/-- Each run of the system is one with the counter. -/
theorem exists_run {world world' : World N T} (hrun : run (World.step cfg) world actions = some world')
    (hx : x.world = world) : ∃ x', run (step cfg) x actions = some x' ∧ x'.world = world' := by
  induction actions generalizing world x with
  | nil =>
      cases hrun
      exact ⟨x, rfl, hx⟩
  | cons a actions ih =>
      obtain ⟨between, hstep, hrest⟩ := run_cons.mp hrun
      have hnext : x.step cfg a = some ⟨between, x.raise between.sched⟩ := by
        rw [step, hx, hstep]
        rfl
      obtain ⟨x', hx', hworld⟩ := ih hrest (x := ⟨between, x.raise between.sched⟩) rfl
      exact ⟨x', run_cons.mpr ⟨_, hnext, hx'⟩, hworld⟩

/-- A step that starts no task leaves a peak that is at least the count as it is; one that does
raises it to the new count. -/
theorem raise_eq (hle : x.world.sched.activeCount ≤ x.peakCount) (c : Scheduler N) :
    x.raise c = max x.peakCount c.activeCount := by
  rw [raise]
  split_ifs with hc <;> omega

/-- The peak is the largest number of tasks that were active at once. -/
theorem peakCount_isGreatest (hrun : run (step cfg) ({} : Diagnosed N T) actions = some x) :
    IsGreatest (levels (step cfg) (fun x => (Finset.univ.filter x.world.Active).card)
      ({} : Diagnosed N T) actions) x.peakCount := by
  have hcount : ∀ world : World N T, World.Reachable cfg world →
      world.sched.activeCount = (Finset.univ.filter world.Active).card := fun world hworld => by
    obtain ⟨L, hinv⟩ := hworld.inv
    exact hinv.core.consistent.active
  have hinitial : World.Reachable cfg (World.initial : World N T) := .refl
  refine isGreatest_levels (I := fun y =>
    World.Reachable cfg y.world ∧ y.world.sched.activeCount ≤ y.peakCount)
    ⟨hinitial, le_rfl⟩ ?_ (hcount _ hinitial) ?_ hrun
  · intro y b y' hy hstep
    refine ⟨hy.1.succ (world_step hstep), ?_⟩
    obtain ⟨world, -, rfl⟩ := Option.map_eq_some_iff.mp hstep
    exact (raise_eq hy.2 world.sched).symm ▸ le_max_right ..
  · intro y b y' hy hstep
    have hreached := hy.1.succ (world_step hstep)
    rw [← hcount _ hreached]
    obtain ⟨world, -, rfl⟩ := Option.map_eq_some_iff.mp hstep
    exact raise_eq hy.2 world.sched

end Diagnosed

/-! ## The pool's counters -/

/-- The call asks for memory and gets none. -/
def PoolState.refuses (P : PoolConfig w) (s : PoolState w) : PoolAction w → PoolState w → Bool
  | .allocate size align, _ => (s.pool.allocate P size align).any fun result => result.1.isNone
  | .deallocate _, _ => false

/-- The counter of failures grows by one with every request that is refused. -/
theorem Allotted.step_failures {tiles : List (Tiling.Tile (Allocation w))} (h : Allotted P s tiles)
    {s' : PoolState w} {call : PoolAction w} (hstep : s.step P call = some s') :
    s'.pool.allocationFailures = s.pool.allocationFailures +
      BitVec.ofNat w (if PoolState.refuses P s call s' then 1 else 0) := by
  cases call with
  | allocate size align =>
      rcases h.allocate size align with
        ⟨-, hresult, -⟩ | ⟨pre, t, post, p, pool', -, -, hresult, -, -, hfailures⟩
      · rw [PoolState.step, hresult] at hstep
        obtain rfl := Option.some.inj hstep
        simp [PoolState.refuses, hresult, FramePool.fail]
      · rw [PoolState.step, hresult] at hstep
        obtain rfl := Option.some.inj hstep
        simp [PoolState.refuses, hresult, hfailures]
  | deallocate p =>
      rw [PoolState.step] at hstep
      split_ifs at hstep with hlive
      obtain ⟨a, ha, rfl⟩ := hlive
      obtain ⟨pre, t, post, pool', -, -, hresult, -, -, hfailures⟩ := h.deallocate ha
      rw [hresult] at hstep
      obtain rfl := Option.some.inj hstep
      simp [PoolState.refuses, hfailures]

theorem PoolState.Reachable.failures (hs : s.Reachable P) {s' : PoolState w}
    (hrun : run (PoolState.step P) s calls = some s') :
    s'.pool.allocationFailures = s.pool.allocationFailures +
      BitVec.ofNat w (tally (PoolState.step P) (PoolState.refuses P) s calls) := by
  induction calls generalizing s with
  | nil =>
      cases hrun
      simp [tally]
  | cons call calls ih =>
      obtain ⟨u, hstep, hrest⟩ := run_cons.mp hrun
      obtain ⟨tiles, htiles⟩ := hs.allotted
      obtain ⟨memory, hreach⟩ := hs
      rw [tally_cons hstep, ih ⟨memory, hreach.succ hstep⟩ hrest, htiles.step_failures hstep,
        BitVec.ofNat_add, BitVec.add_assoc]

/-! ## The snapshot -/

/-- What a snapshot says is so. -/
structure Stats.Exact (stats : Stats w) (cfg : Config N) (actions : List (Action T))
    (x : Diagnosed N T) (P : PoolConfig w) (memory : FramePool w) (calls : List (PoolAction w))
    (s : PoolState w) : Prop where
  activeTasks : stats.activeTasks = (Finset.univ.filter x.world.Active).card
  peakTasks : IsGreatest (levels (Diagnosed.step cfg)
    (fun x => (Finset.univ.filter x.world.Active).card) {} actions) stats.peakTasks
  readyTasks : stats.readyTasks = (x.world.slotsIn .ready).card
  waitingTimers : stats.waitingTimers = (x.world.slotsIn .waitingTimer).card
  frameBytesUsed : stats.frameBytesUsed.toNat =
    ((s.pool.allocatedBlocks P).map fun b => b.2.size.toNat).sum
  peakFrameBytesUsed : IsGreatest (usedAlong P memory calls) stats.peakFrameBytesUsed.toNat
  frameBytesFree : stats.frameBytesUsed.toNat + stats.frameBytesFree.toNat = P.kUsable.toNat
  allocationFailures : stats.allocationFailures =
    BitVec.ofNat w (tally (PoolState.step P) (PoolState.refuses P) (.fresh P memory) calls)

/-- At every point of a run the snapshot is exact: the tasks and the frame bytes are those that there
are, the two halves of the arena add up, the peaks were reached and never exceeded, and the failures
are the requests refused, modulo the word size.  Keeping the counter changes nothing else. -/
theorem stats_exact {world : World N T}
    (hrun : run (World.step cfg) World.initial actions = some world)
    (hcalls : run (PoolState.step P) (PoolState.fresh P memory) calls = some s) :
    ∃ x, run (Diagnosed.step cfg) {} actions = some x ∧ x.world = world ∧
      (x.stats P s.pool).Exact cfg actions x P memory calls s := by
  obtain ⟨x, hx, hworld⟩ := Diagnosed.exists_run (x := {}) hrun rfl
  have hreached : World.Reachable cfg x.world := ⟨actions, Diagnosed.world_run hx⟩
  obtain ⟨L, hinv⟩ := hreached.inv
  have hconsistent := hinv.core.consistent
  have hpool : s.Reachable P := ⟨memory, calls, hcalls⟩
  obtain ⟨tiles, htiles⟩ := hpool.allotted
  refine ⟨x, hx, hworld, ?_⟩
  exact {
    activeTasks := hconsistent.active
    peakTasks := Diagnosed.peakCount_isGreatest hx
    readyTasks := hconsistent.readyCount_eq
    waitingTimers := foldl_finRange _
    frameBytesUsed := htiles.bytesUsed_eq
    peakFrameBytesUsed := peak_isGreatest hcalls
    frameBytesFree := by
      have hle := htiles.arena.bytesUsed_le
      dsimp only [Diagnosed.stats]
      rw [FramePool.bytesFree, BitVec.toNat_sub_of_le (BitVec.le_def.mpr hle)]
      omega
    allocationFailures := by
      have hfresh : (PoolState.fresh P memory).Reachable P := ⟨memory, .refl⟩
      have hfailures := hfresh.failures hcalls
      rwa [show (PoolState.fresh P memory).pool.allocationFailures = 0#w from rfl,
        BitVec.zero_add] at hfailures }

/-- One of three tasks has completed and one sleeps; one of three frames did not fit. -/
theorem stats_exact_small :
    let actions : List (Action ℕ) := [.createTask (some 1), .createTask (some 2),
      .createTask (some 3), .poll false 0, .checkPending, .startPass, .passPop, .finish, .destroyed,
      .passPop, .coAwait (.delay 5)]
    let calls := [.allocate 100 8, .allocate 100 8, .allocate 100 8, .deallocate 4112]
    let x := (run (Diagnosed.step .small) {} actions).getD {}
    let s := PoolState.after .small (.zeroed 32) calls
    let stats := x.stats .small s.pool
    stats.Exact .small actions x .small (.zeroed 32) calls s ∧ stats = ⟨2, 3, 1, 1, 136, 256, 120, 1⟩ := by
  intro actions calls x s stats
  have hcalls : run (PoolState.step .small) (.fresh .small (.zeroed 32)) calls = some s :=
    PoolState.run_after (by decide +kernel)
  have hrun := World.run_after .small [] actions (by decide)
  obtain ⟨y, hy, -, hexact⟩ := stats_exact hrun hcalls
  have hx : x = y := by
    dsimp only [x]
    rw [hy, Option.getD_some]
  rw [← hx] at hexact
  exact ⟨hexact, by decide +kernel⟩

end SimpleAwait
