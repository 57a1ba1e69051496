import SimpleAwait.FramePool.Basic
import SimpleAwait.System.Step

/-!
# Diagnostics

What `diagnostics.h` adds under `SIMPLEAWAIT_ENABLE_DIAGNOSTICS`: the scheduler keeps a high-water mark
of its active tasks, and `stats()` reads its counters and those of the frame pool.
-/

namespace SimpleAwait

/-- The system with `peak_count_`. -/
structure Diagnosed (N : ℕ) (T : Type) where
  world : World N T := {}
  peakCount : ℕ := 0

/-- `SchedulerCounters`. -/
structure SchedulerCounters where
  activeTasks : ℕ
  peakTasks : ℕ
  readyTasks : ℕ
  waitingTimers : ℕ
  deriving DecidableEq, Repr

/-- `Stats`. -/
structure Stats (w : ℕ) where
  activeTasks : ℕ
  peakTasks : ℕ
  readyTasks : ℕ
  waitingTimers : ℕ
  frameBytesUsed : BitVec w
  peakFrameBytesUsed : BitVec w
  frameBytesFree : BitVec w
  allocationFailures : BitVec w
  deriving DecidableEq, Repr

namespace Diagnosed

variable {N w : ℕ} {T : Type} (cfg : Config N) (x : Diagnosed N T)

/-- `if (active_count_ > peak_count_) peak_count_ = active_count_`, where a step has incremented
`active_count_`. -/
def raise (c : Scheduler N) : ℕ :=
  if x.world.sched.activeCount < c.activeCount ∧ c.activeCount > x.peakCount then c.activeCount
  else x.peakCount

/-- The steps of the system. -/
def step (a : Action T) : Option (Diagnosed N T) :=
  (x.world.step cfg a).map fun world => ⟨world, x.raise world.sched⟩

/-- `detail::scheduler_counters`. -/
def schedulerCounters : SchedulerCounters where
  activeTasks := x.world.sched.activeCount
  peakTasks := x.peakCount
  readyTasks := x.world.sched.readyCount
  waitingTimers := (List.finRange N).foldl (fun n s =>
    if (x.world.sched.slots s).state = .waitingTimer then n + 1 else n) 0

/-- `stats`. -/
def stats (P : PoolConfig w) (pool : FramePool w) : Stats w :=
  let counters := x.schedulerCounters
  { activeTasks := counters.activeTasks
    peakTasks := counters.peakTasks
    readyTasks := counters.readyTasks
    waitingTimers := counters.waitingTimers
    frameBytesUsed := pool.bytesUsed
    peakFrameBytesUsed := pool.peakBytesUsed
    frameBytesFree := pool.bytesFree P
    allocationFailures := pool.allocationFailures }

end Diagnosed

end SimpleAwait
