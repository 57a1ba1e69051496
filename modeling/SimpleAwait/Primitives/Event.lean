import SimpleAwait.Scheduler.Operations

/-!
# `Event`

A manual-reset event with a FIFO of waiting slots (`event.h`).
-/

namespace SimpleAwait

/-- `Event`. -/
structure Event (N : ℕ) where
  set : Bool := false
  waiters : WaitQueue N := {}

namespace Event

variable {N : ℕ} (e : Event N) (c : Scheduler N)

/-- `Event::set`. -/
def signal : Scheduler N × Event N :=
  let (c, waiters) := c.wakeAll e.waiters
  (c, ⟨true, waiters⟩)

/-- `Event::clear`. -/
def clear : Event N := { e with set := false }

/-- `Event::park`. -/
def park (awaiting : Handle) : Bool × Scheduler N × Event N :=
  let (suspend, c, waiters) := c.waitOn e.waiters awaiting
  (suspend, c, { e with waiters := waiters })

end Event

end SimpleAwait
