import SimpleAwait.Scheduler.Operations

/-!
# `ThreadSafeFlag`

A single-waiter, auto-reset signal that may be set from an interrupt or another core
(`threadsafeflag.h`).  The static members `s_armed_head_` and `s_pending_` belong to
all flags at once, so the operations act on `Flags`, the collection of all flag
objects.  Each critical section is one function here.
-/

namespace SimpleAwait

/-- `ThreadSafeFlag`, the non-static members. -/
structure ThreadSafeFlag (N : ℕ) where
  signaled : Bool := false
  waiter : Option (Fin N) := none
  armedNext : Option ℕ := none

/-- All flags, with `s_armed_head_` and `s_pending_`. -/
structure Flags (N : ℕ) where
  flag : ℕ → ThreadSafeFlag N := fun _ => {}
  armedHead : Option ℕ := none
  pending : Bool := false

namespace Flags

variable {N : ℕ} (F : Flags N)

/-- Write to one flag. -/
def modify (f : ℕ) (g : ThreadSafeFlag N → ThreadSafeFlag N) : Flags N :=
  { F with flag := Function.update F.flag f (g (F.flag f)) }

@[simp] theorem modify_flag (f k : ℕ) (g : ThreadSafeFlag N → ThreadSafeFlag N) :
    (F.modify f g).flag k = if k = f then g (F.flag k) else F.flag k := by
  by_cases h : k = f
  · subst h
    simp [modify]
  · simp [modify, h]

@[simp] theorem modify_armedHead (f g) : (F.modify f g).armedHead = F.armedHead := rfl
@[simp] theorem modify_pending (f g) : (F.modify f g).pending = F.pending := rfl

/-- The links of the armed list. -/
def armedNext (f : ℕ) : Option ℕ := (F.flag f).armedNext

/-- The critical section of `ThreadSafeFlag::set`; whether the flag is newly signaled. -/
def set (f : ℕ) : Bool × Flags N :=
  let newlySignaled := !(F.flag f).signaled
  (newlySignaled, { F.modify f fun flag => { flag with signaled := true } with pending := true })

/-- `ThreadSafeFlag::clear`. -/
def clear (f : ℕ) : Flags N := F.modify f fun flag => { flag with signaled := false }

/-- `ThreadSafeFlag::consume`. -/
def consume (f : ℕ) : Bool × Flags N :=
  if (F.flag f).signaled then (true, F.modify f fun flag => { flag with signaled := false })
  else (false, F)

/-- `ThreadSafeFlag::arm`. -/
def arm (f : ℕ) : Flags N :=
  { F.modify f fun flag => { flag with armedNext := F.armedHead } with armedHead := some f }

/-- `ThreadSafeFlag::park`. -/
def park (f : ℕ) (c : Scheduler N) (awaiting : Handle) : Bool × Scheduler N × Flags N :=
  match c.runningIs awaiting with
  | (false, c) => (false, c, F)
  | (true, c) =>
      if (F.flag f).waiter ≠ none then (false, c.report .multipleFlagWaiters, F)
      else
        let (waiter, c) := c.parkRunning
        (true, c, (F.modify f fun flag => { flag with waiter := waiter }).arm f)

/-- `detail::has_external_waiters`. -/
def hasExternalWaiters : Bool := F.armedHead.isSome

/-- The first critical section of `poll_external_signals`; whether the walk follows. -/
def takePending : Bool × Flags N :=
  if F.pending then (true, { F with pending := false }) else (false, F)

/-- What the walk of `poll_external_signals` writes when it wakes the waiter of `f`, with
`prev` the last flag it left armed. -/
def disarm (prev : Option ℕ) (f : ℕ) : Flags N :=
  let next := (F.flag f).armedNext
  let cleared := F.modify f fun flag =>
    { flag with signaled := false, waiter := none, armedNext := none }
  match prev with
  | none => { cleared with armedHead := next }
  | some p => cleared.modify p fun flag => { flag with armedNext := next }

/-- One iteration of the walk at flag `f`; the new `prev` and the next flag come first in
the result. -/
def walkStep (c : Scheduler N) (prev : Option ℕ) (f : ℕ) :
    Option ℕ × Option ℕ × Scheduler N × Flags N :=
  let next := (F.flag f).armedNext
  if (F.flag f).signaled ∧ (F.flag f).waiter ≠ none then
    (prev, next, c.wakeSlot (F.flag f).waiter, F.disarm prev f)
  else (some f, next, c, F)

end Flags

end SimpleAwait
