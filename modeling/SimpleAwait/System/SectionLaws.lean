import SimpleAwait.System.Inversion
import SimpleAwait.System.Sections

/-!
# The sections of the flags are atomic

Every action of the system that runs no critical section is blind to what the sections protect, and
what an external context does in between changes nothing that a section of scheduler context reads:
the laws of `Sections.Lawful`.
-/

namespace SimpleAwait

variable {N : ℕ} {T : Type}

namespace Flags

variable (F : Flags N) (p : SignalBits)

theorem modify_withSignals (f : ℕ) (g : ThreadSafeFlag N → ThreadSafeFlag N)
    (hg : ∀ flag b, g { flag with signaled := b } = { g flag with signaled := b }) :
    (F.withSignals p).modify f g = (F.modify f g).withSignals p := by
  have hflag : ((F.withSignals p).modify f g).flag = ((F.modify f g).withSignals p).flag := by
    funext k
    by_cases hk : k = f
    · subst hk
      calc ((F.withSignals p).modify k g).flag k
          = g { F.flag k with signaled := p.signaled k } := by simp only [modify_flag, if_true]; rfl
        _ = { g (F.flag k) with signaled := p.signaled k } := hg _ _
        _ = ((F.modify k g).withSignals p).flag k := by simp only [withSignals, modify_flag, if_true]
    · simp only [withSignals, modify_flag, if_neg hk]
  calc (F.withSignals p).modify f g
      = ⟨((F.withSignals p).modify f g).flag, F.armedHead, p.pending⟩ := rfl
    _ = ⟨((F.modify f g).withSignals p).flag, F.armedHead, p.pending⟩ := by rw [hflag]

theorem arm_withSignals (f : ℕ) : (F.withSignals p).arm f = (F.arm f).withSignals p := by
  unfold arm
  rw [modify_withSignals F p f _ fun _ _ => rfl]
  rfl

theorem park_withSignals (f : ℕ) (c : Scheduler N) (h : Handle) : (F.withSignals p).park f c h =
    ((F.park f c h).1, (F.park f c h).2.1, (F.park f c h).2.2.withSignals p) := by
  unfold park
  split
  · rfl
  · by_cases hwaiter : (F.flag f).waiter = none
    · have hpark : ∀ waiter, (F.withSignals p).modify f (fun flag => { flag with waiter := waiter }) =
          (F.modify f fun flag => { flag with waiter := waiter }).withSignals p :=
        fun _ => modify_withSignals F p f _ fun _ _ => rfl
      simp [hwaiter, hpark, arm_withSignals]
    · simp [hwaiter]

theorem unlink_withSignals (prev : Option ℕ) (f : ℕ) :
    (F.withSignals p).unlink prev f = (F.unlink prev f).withSignals p := by
  unfold unlink
  dsimp only
  rw [modify_withSignals F p f _ fun _ _ => rfl]
  cases prev with
  | none => rfl
  | some k => exact modify_withSignals _ p k _ fun _ _ => rfl

/-- Writing one `signaled_` bit. -/
theorem modify_signaled (f : ℕ) (b : Bool) : F.modify f (fun flag => { flag with signaled := b }) =
    F.withSignals { F.signals with signaled := Function.update F.signals.signaled f b } := by
  have hflag : (F.modify f fun flag => { flag with signaled := b }).flag =
      (F.withSignals
        { F.signals with signaled := Function.update F.signals.signaled f b }).flag := by
    funext k
    by_cases hk : k = f
    · subst hk
      simp [withSignals]
    · simp [withSignals, signals, hk]
  calc F.modify f (fun flag => { flag with signaled := b })
      = ⟨(F.modify f fun flag => { flag with signaled := b }).flag, F.armedHead, F.pending⟩ := rfl
    _ = _ := by rw [hflag]; rfl

/-- The walk disarms a flag by clearing its signal in the section, and unlinking it afterwards. -/
theorem disarm_eq (prev : Option ℕ) (f : ℕ) : F.disarm prev f =
    (F.modify f fun flag => { flag with signaled := false }).unlink prev f := by
  have hmodify : ∀ g g' : ThreadSafeFlag N → ThreadSafeFlag N,
      (F.modify f g).modify f g' = F.modify f fun flag => g' (g flag) := by
    intro g g'
    simp [modify]
  unfold disarm unlink
  rw [hmodify]
  cases prev with
  | none => simp
  | some k => simp

end Flags

namespace World

variable (cfg : Config N) (w u : World N T) (p : SignalBits)

/-! ## Free actions -/

theorem user_withSignals : (w.withSignals p).user (u.withSignals p) =
    (w.user u).map fun w => w.withSignals p := by
  have hcontrol : (w.withSignals p).control = w.control := rfl
  unfold user
  rw [hcontrol]
  split <;> rfl

theorem poll_withSignals (andWait : Bool) (clock : Tick) :
    (w.withSignals p).poll andWait clock = (w.poll andWait clock).withSignals p := by
  cases hdown : w.sched.shuttingDown <;> cases hin : w.sched.inPoll <;> cases andWait <;>
    simp [poll, withSignals, hdown, hin]

theorem afterSend_withSignals (q : ℕ) (v : T) (r : Bool × Scheduler N × Queue N T) :
    (w.withSignals p).afterSend q v r = (w.afterSend q v r).withSignals p := by
  unfold afterSend
  split <;> rfl

theorem awaitSend_withSignals (q : ℕ) (v : T) (h : Handle) :
    (w.withSignals p).awaitSend cfg q v h =
      (w.awaitSend cfg q v h).map id fun w => w.withSignals p := by
  unfold awaitSend
  dsimp only [withSignals]
  split
  · rfl
  · split <;> rfl

theorem awaitReceive_withSignals (q : ℕ) (h : Handle) :
    (w.withSignals p).awaitReceive cfg q h =
      (w.awaitReceive cfg q h).map id fun w => w.withSignals p := by
  unfold awaitReceive
  dsimp only [withSignals]
  split
  · rfl
  · split
    · split <;> rfl
    · rfl

theorem coAwait_withSignals (h : Handle) (awaitable : Awaitable T)
    (hflag : ∀ f, awaitable ≠ .flag f) : (w.withSignals p).coAwait cfg h awaitable =
      (w.coAwait cfg h awaitable).map id fun w => w.withSignals p := by
  cases awaitable with
  | yield => rfl
  | delay duration => rfl
  | task awaiter =>
      simp only [coAwait]
      split <;> rfl
  | event e =>
      have hevent : (w.withSignals p).event = w.event := rfl
      simp only [coAwait, hevent]
      split <;> rfl
  | send q v => exact awaitSend_withSignals cfg w p q v h
  | receive q => exact awaitReceive_withSignals cfg w p q h
  | flag f => exact absurd rfl (hflag f)
  | unknown => rfl

theorem afterAwait_withSignals (s : Fin N) (left : ℕ) (r : Bool × World N T) :
    afterAwait s left (r.map id fun w => w.withSignals p) = (afterAwait s left r).withSignals p := by
  obtain ⟨suspend, w⟩ := r
  cases suspend <;> rfl

theorem flagPark_withSignals (f : ℕ) (h : Handle) : (w.withSignals p).flagPark f h =
    (w.flagPark f h).map id fun w => w.withSignals p := by
  have hpark := w.flags.park_withSignals p f w.sched h
  simp only [flagPark, withSignals, hpark]
  rfl

theorem resume_withSignals (s : Fin N) (c : Scheduler N) (left : ℕ) :
    (w.withSignals p).resume s c left = (w.resume s c left).withSignals p := by
  simp only [resume, withSignals]
  split <;> rfl

theorem endPass_withSignals (clock : Tick) :
    (w.withSignals p).endPass cfg clock = (w.endPass cfg clock).withSignals p := by
  have hwaiters : (w.withSignals p).flags.hasExternalWaiters = w.flags.hasExternalWaiters := rfl
  have hsched : (w.withSignals p).sched = w.sched := rfl
  have hwait : (w.withSignals p).andWait = w.andWait := rfl
  have hwake : (w.withSignals p).wake = w.wake := rfl
  simp only [endPass, hwaiters, hsched, hwait, hwake]
  generalize (if w.andWait = true ∧ w.sched.readyCount = 0 then _ else PlatformWait.returns) = wait
  cases wait <;> rfl

theorem step_withSignals (b : Action T) (hb : b.guarded = false) :
    (w.withSignals p).step cfg b = (w.step cfg b).map fun w => w.withSignals p := by
  have hcontrol : (w.withSignals p).control = w.control := rfl
  have hsched : (w.withSignals p).sched = w.sched := rfl
  cases b with
  | createTask task =>
      exact user_withSignals w { w with sched := (w.sched.schedule task).sched } p
  | poll andWait clock =>
      simp only [step, poll_withSignals]
      exact user_withSignals w _ p
  | eventSet e =>
      exact user_withSignals w { w.setEvent e ((w.event e).signal w.sched).2 with
        sched := ((w.event e).signal w.sched).1 } p
  | eventClear e => exact user_withSignals w (w.setEvent e (w.event e).clear) p
  | trySend q v => 
      have := user_withSignals w (w.afterSend q v ((w.queue q).trySend (cfg.capacity q) w.sched v)) p
      rw [← afterSend_withSignals] at this
      exact this
  | tryReceive q =>
      exact user_withSignals w (w.withQueue q ((w.queue q).tryReceive (cfg.capacity q) w.sched).2.1
        ((w.queue q).tryReceive (cfg.capacity q) w.sched).2.2) p
  | flagClear f => cases hb
  | flagIsSet f => cases hb
  | coAwait awaitable =>
      simp only [step, hcontrol]
      split
      · cases awaitable with
        | flag f => cases hb
        | _ =>
          simp only [hsched]
          rw [coAwait_withSignals cfg w p _ _ (by simp), afterAwait_withSignals]
          rfl
      · rfl
  | flagPark =>
      simp only [step, hcontrol, hsched, flagPark_withSignals, afterAwait_withSignals]
      split <;> rfl
  | finish =>
      simp only [step, hcontrol]
      split <;> rfl
  | destroyed => 
      simp only [step, hcontrol]
      split <;> rfl
  | checkPending => cases hb
  | walkStep => cases hb
  | startPass =>
      simp only [step, hcontrol]
      split <;> rfl
  | passPop =>
      simp only [step, hcontrol, hsched, resume_withSignals]
      split
      · split
        · rfl
        · rfl
        · split <;> rfl
      · rfl
  | endPass clock =>
      simp only [step, hcontrol, endPass_withSignals]
      split <;> rfl
  | tokenTaken =>
      have hwake : (w.withSignals p).wake = w.wake := rfl
      simp only [step, hcontrol, hwake]
      split
      · split <;> rfl
      · rfl
  | timedOut =>
      simp only [step, hcontrol]
      split
      · split <;> rfl
      · rfl
  | setFlag f => cases hb
  | give f =>
      have hgiving : (w.withSignals p).giving = w.giving := rfl
      simp only [step, hgiving]
      split <;> rfl

/-- What a whole section leaves in the protected part and in its local variable. -/
def sectionOut : CriticalSection → SignalBits × Bool
  | .set f =>
      (⟨Function.update w.signals.signaled f true, true⟩, !(w.flags.flag f).signaled)
  | .clear f => ({ w.signals with signaled := Function.update w.signals.signaled f false }, false)
  | .isSet f => (w.signals, (w.flags.flag f).signaled)
  | .consume f =>
      if (w.flags.flag f).signaled then
        ({ w.signals with signaled := Function.update w.signals.signaled f false }, true)
      else (w.signals, false)
  | .takePending =>
      if w.flags.pending then ({ w.signals with pending := false }, true) else (w.signals, false)
  | .visit f =>
      if (w.flags.flag f).signaled ∧ (w.flags.flag f).waiter.isSome then
        ({ w.signals with signaled := Function.update w.signals.signaled f false }, true)
      else (w.signals, false)

section

variable (value : World N T → Bool → Bool) (g : World N T → Bool → SignalBits × Bool)
  (todo : List (World N T → Bool → SignalBits × Bool)) (r : Bool)

theorem exec_load : (sections cfg).exec (load value :: todo) w r =
    (sections cfg).exec todo w (value w r) := rfl

theorem exec_onlyIf : (sections cfg).exec (onlyIf g :: todo) w r =
    if r then (sections cfg).exec (g :: todo) w true else (sections cfg).exec todo w false := by
  cases r <;> rfl

end

theorem exec_sectionCode (k : CriticalSection) :
    (sections cfg).exec (sectionCode k) w false = w.sectionOut k := by
  cases k with
  | set f => rfl
  | clear f => rfl
  | isSet f => rfl
  | consume f =>
      simp only [sectionCode, exec_load, exec_onlyIf, sectionOut]
      rfl
  | takePending =>
      simp only [sectionCode, exec_load, exec_onlyIf, sectionOut]
      rfl
  | visit f =>
      simp only [sectionCode, exec_load, exec_onlyIf, sectionOut]
      cases (w.flags.flag f).signaled <;> cases (w.flags.flag f).waiter <;> rfl

theorem step_section {k : CriticalSection} {a : Action T} (hentry : w.sectionEntry a = some k) :
    w.step cfg a = some ((w.withSignals (w.sectionOut k).1).sectionRest k (w.sectionOut k).2) := by
  cases a with
  | setFlag f =>
      cases hentry
      have hset : w.flags.set f = (!(w.flags.flag f).signaled,
          w.flags.withSignals ⟨Function.update w.signals.signaled f true, true⟩) := by
        simp only [Flags.set, Flags.modify_signaled]
        rfl
      simp only [step, hset]
      cases hold : (w.flags.flag f).signaled
      · simp only [sectionRest, sectionOut, hold, Bool.not_false, if_true]
        rfl
      · simp only [sectionRest, sectionOut, hold, Bool.not_true, Bool.false_eq_true, if_false]
        rfl
  | flagClear f =>
      simp only [sectionEntry, Option.ite_none_right_eq_some, Option.some.injEq] at hentry
      obtain ⟨hcall, rfl⟩ := hentry
      simp only [step, user, if_pos hcall, Flags.clear, Flags.modify_signaled]
      rfl
  | flagIsSet f =>
      simp only [sectionEntry, Option.ite_none_right_eq_some, Option.some.injEq] at hentry
      obtain ⟨hcall, rfl⟩ := hentry
      simp only [step, user, if_pos hcall]
      rfl
  | coAwait awaitable =>
      cases awaitable with
      | flag f =>
          simp only [sectionEntry] at hentry
          split at hentry
          · rename_i s left hcontrol
            cases hentry
            simp only [step, hcontrol, flagReady_eq, Flags.modify_signaled]
            cases hold : (w.flags.flag f).signaled
            · simp only [sectionRest, sectionOut, hold, withSignals, hcontrol]
              rfl
            · simp only [sectionRest, sectionOut, hold, withSignals, hcontrol, if_true]
              rfl
          · cases hentry
      | _ => cases hentry
  | checkPending =>
      simp only [sectionEntry] at hentry
      split at hentry
      · rename_i hcontrol
        cases hentry
        simp only [step, hcontrol, Flags.takePending]
        cases hpending : w.flags.pending <;> simp only [sectionRest, sectionOut, hpending] <;> rfl
      · cases hentry
  | walkStep =>
      simp only [sectionEntry] at hentry
      split at hentry
      · rename_i prev f hcontrol
        cases hentry
        simp only [step, hcontrol, Flags.walkStep]
        by_cases hwake : (w.flags.flag f).signaled = true ∧ (w.flags.flag f).waiter ≠ none
        · have hsome : (w.flags.flag f).signaled = true ∧ (w.flags.flag f).waiter.isSome = true :=
            ⟨hwake.1, Option.isSome_iff_ne_none.mpr hwake.2⟩
          rw [if_pos hwake, Flags.disarm_eq, Flags.modify_signaled]
          simp only [sectionOut, if_pos hsome, sectionRest, withSignals, hcontrol, if_true]
          rfl
        · have hsome : ¬((w.flags.flag f).signaled = true ∧ (w.flags.flag f).waiter.isSome = true) :=
            fun h => hwake ⟨h.1, Option.isSome_iff_ne_none.mp h.2⟩
          rw [if_neg hwake]
          simp only [sectionOut, if_neg hsome, sectionRest, withSignals, hcontrol]
          rfl
      · cases hentry
  | _ => cases hentry

theorem step_eq_none_of_entry {a : Action T} (hguarded : a.guarded = true) (hentry : w.sectionEntry a = none) :
   w.step cfg a = none := by
  cases a with
  | setFlag f => cases hentry
  | flagClear f =>
      simp only [sectionEntry, ite_eq_right_iff, reduceCtorEq, imp_false] at hentry
      simp only [step, user, if_neg hentry]
  | flagIsSet f =>
      simp only [sectionEntry, ite_eq_right_iff, reduceCtorEq, imp_false] at hentry
      simp only [step, user, if_neg hentry]
  | coAwait awaitable =>
      cases awaitable with
      | flag f =>
         simp only [step]
         split
         · rename_i hcontrol
           simp only [sectionEntry, hcontrol] at hentry
           cases hentry
         · rfl
      | _ => cases hguarded
  | checkPending =>
         simp only [step]
         split
         · rename_i hcontrol
           simp only [sectionEntry, hcontrol] at hentry
           cases hentry
         · rfl
  | walkStep =>
         simp only [step]
         split
         · rename_i hcontrol
           simp only [sectionEntry, hcontrol] at hentry
           cases hentry
         · rfl
  | _ => cases hguarded

/-- What external contexts do outside of their sections: the give of the semaphore. -/
theorem external_step {i : ℕ} {b : Action T} {w' : World N T} (hmay : Context.may (.external i) b = true)
    (hfree : b.guarded = false) (hstep : w.step cfg b = some w') :
    ∃ wake giving, w' = { w with wake := wake, giving := giving } := by
  cases b with
  | give f =>
      simp only [step, Option.ite_none_right_eq_some, Option.some.injEq] at hstep
      exact ⟨_, _, hstep.2.symm⟩
  | setFlag f => cases hfree
  | _ => cases hmay

/-- A world that differs in what only external contexts look at is the same to every section. -/
theorem blind_of_external {w w' : World N T} (a : Action T) (hcontrol : w'.control = w.control)
    (hwaiter : ∀ f, (w'.flags.flag f).waiter = (w.flags.flag f).waiter) :
    (sections cfg).Blind a w w' where
  entry := by
    simp only [sections]
    unfold sectionEntry
    rw [hcontrol]
  code k _ g hg q r := by
    cases k <;> simp only [sections, sectionCode, List.mem_cons, List.not_mem_nil, or_false] at hg
    case set f => rcases hg with rfl | rfl | rfl <;> rfl
    case clear f =>
      subst hg
      rfl
    case isSet f =>
      subst hg
      rfl
    case consume f => rcases hg with rfl | rfl <;> rfl
    case takePending => rcases hg with rfl | rfl <;> rfl
    case visit f _ =>
      rcases hg with rfl | rfl | rfl
      · rfl
      · -- the one instruction that reads outside of the protected part
        have hread : ((w'.withSignals q).flags.flag f).waiter =
            ((w.withSignals q).flags.flag f).waiter := hwaiter f
        simp only [sections, onlyIf, load, hread]
        rfl
      · rfl

theorem may_external {i : ℕ} {a : Action T} (hmay : Context.may (.external i) a = true) :
    ∃ f, a = .setFlag f ∨ a = .give f := by
  cases a with
  | setFlag f => exact ⟨f, Or.inl rfl⟩
  | give f => exact ⟨f, Or.inr rfl⟩
  | _ => cases hmay

/-- The sections of external contexts read nothing outside of the protected part. -/
theorem blind_external {i : ℕ} {a : Action T} (hmay : Context.may (.external i) a = true)
    (w w' : World N T) : (sections cfg).Blind a w w' := by
  obtain ⟨f, rfl | rfl⟩ := may_external hmay
  · refine ⟨rfl, fun k hk g hg q r => ?_⟩
    cases hk
    simp only [sections, sectionCode, List.mem_cons, List.not_mem_nil, or_false] at hg
    rcases hg with rfl | rfl | rfl <;> rfl
  · exact ⟨rfl, fun k hk => by cases hk⟩

/-! ### What the walk does after its section -/

section

variable (f : ℕ) (r : Bool)

theorem visitRest_withSignals : (w.withSignals p).sectionRest (.visit f) r =
    (w.sectionRest (.visit f) r).withSignals p := by
  have hcontrol : (w.withSignals p).control = w.control := rfl
  have hunlink : ∀ prev, (w.withSignals p).flags.unlink prev f =
      (w.flags.unlink prev f).withSignals p := fun prev => w.flags.unlink_withSignals p prev f
  simp only [sectionRest, hcontrol, hunlink]
  split
  · cases r <;> rfl
  · rfl

/-- It leaves alone what external contexts change after theirs. -/
theorem visitRest_giving (wake : Semaphore) (giving : List ℕ) :
    { w with wake := wake, giving := giving }.sectionRest (.visit f) r =
      { w.sectionRest (.visit f) r with wake := wake, giving := giving } := by
  simp only [sectionRest]
  split
  · cases r <;> rfl
  · rfl

theorem visitRest_external : (w.sectionRest (.visit f) r).wake = w.wake ∧
    (w.sectionRest (.visit f) r).giving = w.giving := by
  have heq := visitRest_giving w f r w.wake w.giving
  exact ⟨by rw [heq], by rw [heq]⟩

end

/-- A section that leaves something to scheduler context visits a flag, from the walk. -/
theorem visit_of_deferred {k : CriticalSection} (hk : k.deferred = true) : ∃ f, k = .visit f := by
  cases k with
  | visit f => exact ⟨f, rfl⟩
  | _ => cases hk

/-- The source's critical sections make its actions atomic. -/
theorem sections_lawful : (sections cfg : Sections (World N T) _ _ _ _ _).Lawful where
  get_put p w := rfl
  put_get w := rfl
  put_put p q w := rfl
  step_guarded w a hguarded := by
    cases hentry : w.sectionEntry a with
    | none =>
        have hstep := step_eq_none_of_entry cfg w hguarded hentry
        simp only [sections] at hstep ⊢
        rw [hstep, hentry, Option.map_none]
    | some k =>
        have hstep := step_section cfg w hentry
        rw [← exec_sectionCode cfg] at hstep
        simp only [sections] at hstep ⊢
        rw [hstep, hentry, Option.map_some]
  step_put p w b hb := step_withSignals cfg w p b hb
  blind_step c d a b w w' hcd hc hd hb hstep := by
    cases d with
    | external i =>
        obtain ⟨wake, giving, rfl⟩ := external_step cfg w hd hb hstep
        exact blind_of_external cfg a rfl fun _ => rfl
    | scheduler =>
        cases c with
        | scheduler => exact absurd rfl hcd
        | external i => exact blind_external cfg hc w w'
  deferred_main c a w k hc hentry hk := by
    obtain ⟨f, rfl⟩ := visit_of_deferred hk
    cases c with
    | scheduler => rfl
    | external i =>
        obtain ⟨f', rfl | rfl⟩ := may_external hc <;> cases hentry
  rest_put k r p w hk := by
    obtain ⟨f, rfl⟩ := visit_of_deferred hk
    exact visitRest_withSignals w p f r
  blind_rest d b k r w hd hmay hk := by
    cases d with
    | scheduler => exact absurd rfl hd
    | external i => exact blind_external cfg hmay _ _
  step_rest d b k r w hd hmay hb hk := by
    obtain ⟨f, rfl⟩ := visit_of_deferred hk
    cases d with
    | scheduler => exact absurd rfl hd
    | external i =>
        obtain ⟨k, rfl | rfl⟩ := may_external hmay
        · cases hb
        · -- the give of the semaphore
          obtain ⟨hwake, hgiving⟩ := visitRest_external w f r
          simp only [sections, step, hgiving, hwake]
          split
          · exact congrArg some (visitRest_giving w f r _ _).symm
          · rfl
  rest_rest d b j q k r w u hd hmay hentry hk := by
    obtain ⟨f, rfl⟩ := visit_of_deferred hk
    cases d with
    | scheduler => exact absurd rfl hd
    | external i =>
        obtain ⟨k, rfl | rfl⟩ := may_external hmay
        · cases hentry
          obtain ⟨hwake, hgiving⟩ := visitRest_external u f r
          cases q
          · rfl
          · have hset : ∀ x : World N T, x.wake = u.wake → x.giving = u.giving →
                x.sectionRest (.set k) true =
                  { x with wake := u.wake, giving := k :: u.giving } := by
              intro x hw hg
              rw [← hw, ← hg]
              rfl
            calc (u.sectionRest (.visit f) r).sectionRest (.set k) true
                = { u.sectionRest (.visit f) r with wake := u.wake, giving := k :: u.giving } :=
                  hset _ hwake hgiving
              _ = { u with wake := u.wake, giving := k :: u.giving }.sectionRest (.visit f) r :=
                  (visitRest_giving u f r _ _).symm
              _ = (u.sectionRest (.set k) true).sectionRest (.visit f) r := by
                  rw [hset u rfl rfl]
        · cases hentry

end World

end SimpleAwait
