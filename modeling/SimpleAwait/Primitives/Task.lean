import SimpleAwait.Scheduler.Basic

/-!
# `TaskAwaiter`

The awaiter that `co_await` makes of a `Task<void>` (`task.h`).
-/

namespace SimpleAwait

/-- `detail::TaskAwaiter`. -/
structure TaskAwaiter where
  child : Handle
  wasEmpty : Bool
  deriving DecidableEq

/-- `TaskAwaiter(std::coroutine_handle<>)`, as `Task<void>::operator co_await` calls it. -/
def TaskAwaiter.ofTask (child : Handle) : TaskAwaiter := ⟨child, child.isNone⟩

/-- What `TaskAwaiter(TaskAwaiter&&)` leaves in its source. -/
def TaskAwaiter.movedFrom (a : TaskAwaiter) : TaskAwaiter := { a with child := none }

end SimpleAwait
