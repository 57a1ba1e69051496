import SimpleAwait.Primitives.Event
import SimpleAwait.Primitives.QueueDestruction
import SimpleAwait.Primitives.ThreadSafeFlag

/-!
# Destroying events and flags

The destructors of `event.h` and `threadsafeflag.h`.  Both report a waiter that is left; only a
flag has links that point to it, and takes itself out of them first.
-/

namespace SimpleAwait

open Intrusive

variable {N : ℕ}

/-- `Event::~Event`. -/
def Event.destroy (e : Event N) (c : Scheduler N) : Scheduler N :=
  if e.waiters.head ≠ none then c.report .objectDestroyedWithWaiters else c

namespace Flags

variable (F : Flags N) (f : ℕ)

/-- `ThreadSafeFlag::unarm`.  Every armed flag has a slot of its own as waiter, so a walk of `N`
nodes reaches the end of the list. -/
def unarm : Flags N :=
  let unlinked :=
    match before F.armedNext f N none F.armedHead with
    | none => F
    | some none => { F with armedHead := F.armedNext f }
    | some (some p) => F.modify p fun flag => { flag with armedNext := F.armedNext f }
  unlinked.modify f fun flag => { flag with armedNext := none, waiter := none }

/-- `ThreadSafeFlag::~ThreadSafeFlag`. -/
def destroy (c : Scheduler N) : Scheduler N × Flags N :=
  if (F.flag f).waiter ≠ none then (c.report .objectDestroyedWithWaiters, F.unarm f) else (c, F)

end Flags

end SimpleAwait
