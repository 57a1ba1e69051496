import SimpleAwait.Properties.ArmedList
import SimpleAwait.Properties.AwaitChains
import SimpleAwait.Properties.Blocking
import SimpleAwait.Properties.Channels
import SimpleAwait.Properties.ChildAwait
import SimpleAwait.Properties.ClockExtension
import SimpleAwait.Properties.Consistency
import SimpleAwait.Properties.ConsumedAwaits
import SimpleAwait.Properties.Consumers
import SimpleAwait.Properties.CriticalSections
import SimpleAwait.Properties.Delays
import SimpleAwait.Properties.Diagnostics
import SimpleAwait.Properties.Events
import SimpleAwait.Properties.Fairness
import SimpleAwait.Properties.ForeignAwaits
import SimpleAwait.Properties.FrameArithmetic
import SimpleAwait.Properties.FrameCapacity
import SimpleAwait.Properties.FrameLayout
import SimpleAwait.Properties.FrameMemory
import SimpleAwait.Properties.FrameOwners
import SimpleAwait.Properties.FrameRequests
import SimpleAwait.Properties.Identity
import SimpleAwait.Properties.IdleTimeout
import SimpleAwait.Properties.IdleWait
import SimpleAwait.Properties.PassOrder
import SimpleAwait.Properties.PassWork
import SimpleAwait.Properties.PlatformWait
import SimpleAwait.Properties.QueuePayloads
import SimpleAwait.Properties.QueueTeardown
import SimpleAwait.Properties.QueueWaiters
import SimpleAwait.Properties.Quiescence
import SimpleAwait.Properties.Rejections
import SimpleAwait.Properties.SecondWaiter
import SimpleAwait.Properties.Signals
import SimpleAwait.Properties.Sleeping
import SimpleAwait.Properties.SlotReuse
import SimpleAwait.Properties.StateDiagram
import SimpleAwait.Properties.Teardown
import SimpleAwait.Properties.ThrowingPayloads
import SimpleAwait.Properties.TimerOrder
import SimpleAwait.Properties.WaitUntil
import SimpleAwait.Properties.Yielders
