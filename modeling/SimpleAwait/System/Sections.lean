import SimpleAwait.Library.Sections
import SimpleAwait.System.Step

/-!
# The critical sections of the flags

`World.step` performs each critical section of `threadsafeflag.h` at once.  Here they are the
instructions that the source has inside its braces, run under `detail::CriticalSection`: while one
context is inside a section no other enters one, and everything else goes on.  The instructions
write `signaled_` and `s_pending_` only.  After the section of one iteration of its walk,
`poll_external_signals` wakes and unlinks the waiter with no protection, so that `set()` may come
in between; the rest of every other section is local to its context.

`CriticalSection` is taken to exclude the other contexts, as its platform backends promise.
-/

namespace SimpleAwait

/-- What the sections protect. -/
@[ext] structure SignalBits where
  /-- `signaled_` of every flag. -/
  signaled : ℕ → Bool
  /-- `s_pending_`. -/
  pending : Bool

variable {N : ℕ} {T : Type}

namespace Flags

variable (F : Flags N)

def signals : SignalBits := ⟨fun f => (F.flag f).signaled, F.pending⟩

def withSignals (p : SignalBits) : Flags N :=
  { F with flag := fun f => { F.flag f with signaled := p.signaled f }, pending := p.pending }

@[simp] theorem withSignals_waiter (p : SignalBits) (f : ℕ) :
    ((F.withSignals p).flag f).waiter = (F.flag f).waiter := rfl

@[simp] theorem withSignals_armedNext (p : SignalBits) (f : ℕ) :
    ((F.withSignals p).flag f).armedNext = (F.flag f).armedNext := rfl

@[simp] theorem withSignals_armedHead (p : SignalBits) :
    (F.withSignals p).armedHead = F.armedHead := rfl

@[simp] theorem signals_withSignals (p : SignalBits) : (F.withSignals p).signals = p := rfl

@[simp] theorem withSignals_signals : F.withSignals F.signals = F := rfl

@[simp] theorem withSignals_withSignals (p q : SignalBits) :
    (F.withSignals q).withSignals p = F.withSignals p := rfl

/-- What the walk writes outside of its section when it wakes the waiter of `f`. -/
def unlink (prev : Option ℕ) (f : ℕ) : Flags N :=
  let next := (F.flag f).armedNext
  let cleared := F.modify f fun flag => { flag with waiter := none, armedNext := none }
  match prev with
  | none => { cleared with armedHead := next }
  | some p => cleared.modify p fun flag => { flag with armedNext := next }

end Flags

/-- The execution contexts. -/
inductive Context
  | scheduler
  /-- An interrupt, a callback or another core. -/
  | external (i : ℕ)
  deriving DecidableEq

/-- The critical sections of `threadsafeflag.h`. -/
inductive CriticalSection
  /-- `ThreadSafeFlag::set`. -/
  | set (f : ℕ)
  /-- `ThreadSafeFlag::clear`. -/
  | clear (f : ℕ)
  /-- `ThreadSafeFlag::isSet`. -/
  | isSet (f : ℕ)
  /-- `ThreadSafeFlag::consume`. -/
  | consume (f : ℕ)
  /-- The fast exit of `poll_external_signals`. -/
  | takePending
  /-- One iteration of its walk. -/
  | visit (f : ℕ)

namespace World

variable (w : World N T)

def signals : SignalBits := w.flags.signals

def withSignals (p : SignalBits) : World N T := { w with flags := w.flags.withSignals p }

/-! ## Instructions -/

/-- Set the local variable. -/
def load (value : World N T → Bool → Bool) (w : World N T) (r : Bool) : SignalBits × Bool :=
  (w.signals, value w r)

/-- Write `signaled_` of `f`. -/
def storeSignaled (f : ℕ) (b : Bool) (w : World N T) (r : Bool) : SignalBits × Bool :=
  ({ w.signals with signaled := Function.update w.signals.signaled f b }, r)

/-- Write `s_pending_`. -/
def storePending (b : Bool) (w : World N T) (r : Bool) : SignalBits × Bool :=
  ({ w.signals with pending := b }, r)

/-- An instruction inside an `if` on the local variable. -/
def onlyIf (g : World N T → Bool → SignalBits × Bool) (w : World N T) (r : Bool) : SignalBits × Bool :=
  if r then g w r else (w.signals, r)

/-- The instructions of a section, in the source's order. -/
def sectionCode : CriticalSection → List (World N T → Bool → SignalBits × Bool)
  | .set f =>
      [load fun w _ => !(w.flags.flag f).signaled, storeSignaled f true, storePending true]
  | .clear f => [storeSignaled f false]
  | .isSet f => [load fun w _ => (w.flags.flag f).signaled]
  | .consume f => [load fun w _ => (w.flags.flag f).signaled, onlyIf (storeSignaled f false)]
  | .takePending => [load fun w _ => w.flags.pending, onlyIf (storePending false)]
  | .visit f =>
      [load fun w _ => (w.flags.flag f).signaled,
        onlyIf (load fun w _ => (w.flags.flag f).waiter.isSome), onlyIf (storeSignaled f false)]

/-- What follows a section, with the value that its local variable has at the end. -/
def sectionRest (k : CriticalSection) (r : Bool) : World N T :=
  match k with
  | .set f => if r then { w with giving := f :: w.giving } else w
  | .clear _ | .isSet _ => w
  | .consume f =>
      match w.control with
      | .body s left => if r then w else { w with control := .flagSuspend s f left }
      | _ => w
  | .takePending =>
      if r then w.walkTo none w.flags.armedHead else { w with control := .dueTimers }
  | .visit f =>
      match w.control with
      | .walk prev _ =>
          let next := (w.flags.flag f).armedNext
          if r then
            { w with
              sched := w.sched.wakeSlot (w.flags.flag f).waiter
              flags := w.flags.unlink prev f }.walkTo prev next
          else w.walkTo (some f) next
      | _ => w

/-- The section that an action is about to run. -/
def sectionEntry : Action T → Option CriticalSection
  | .setFlag f => some (.set f)
  | .flagClear f => if w.control.isUser then some (.clear f) else none
  | .flagIsSet f => if w.control.isUser then some (.isSet f) else none
  | .coAwait (.flag f) =>
      match w.control with
      | .body .. => some (.consume f)
      | _ => none
  | .checkPending =>
      match w.control with
      | .checkPending => some .takePending
      | _ => none
  | .walkStep =>
      match w.control with
      | .walk _ (some f) => some (.visit f)
      | _ => none
  | _ => none

end World

/-- The actions that run a section. -/
def Action.guarded : Action T → Bool
  | .setFlag _ | .flagClear _ | .flagIsSet _ | .coAwait (.flag _) | .checkPending | .walkStep => true
  | _ => false

/-- The actions of each context: external contexts only call `set()`. -/
def Context.may : Context → Action T → Bool
  | .scheduler, _ => true
  | .external _, .setFlag _ | .external _, .give _ => true
  | .external _, _ => false

/-- The rest of a section that scheduler context does with no protection. -/
def CriticalSection.deferred : CriticalSection → Bool
  | .visit _ => true
  | _ => false

/-- The system and its critical sections. -/
def World.sections (cfg : Config N) :
    Sections (World N T) SignalBits Bool (Action T) CriticalSection Context where
  step := World.step cfg
  get := World.signals
  put p w := w.withSignals p
  guarded := Action.guarded
  entry := World.sectionEntry
  code := World.sectionCode
  start := false
  rest k r w := w.sectionRest k r
  deferred := CriticalSection.deferred
  main := .scheduler
  may := Context.may

end SimpleAwait
