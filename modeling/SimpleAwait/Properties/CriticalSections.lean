import SimpleAwait.Properties.Signals
import SimpleAwait.System.SectionLaws

/-!
# What the critical sections are for

Between two instructions any context may go on, so a run may stop in the middle of `set()` or of
the walk.  Its states at rest are nevertheless those of the atomic actions, in the order in which
the sections were left.  And a scheduler that sleeps misses no signal, wherever the contexts stand:
where one has just been written, the context that wrote it has yet to leave its section, and knows
that it has to give the semaphore.
-/

namespace SimpleAwait

variable {N : ℕ} {T : Type}

/-- The world between two instructions. -/
abbrev FineWorld (N : ℕ) (T : Type) :=
  Sections.Fine (World N T) SignalBits Bool (Action T) CriticalSection Context

def FineWorld.initial : FineWorld N T := ⟨World.initial, none, none, []⟩

/-- With nothing in progress, what the instructions of the contexts have done in whatever order is
what their actions do one after another, in the order in which they left their sections; and every
run of the actions comes about so. -/
theorem sections_atomic (cfg : Config N) (actions : List (Action T)) (w : World N T) :
    (∃ moves x, Transition.run (World.sections cfg).move FineWorld.initial moves = some x ∧
      x.AtRest ∧ x.log = actions ∧ x.state = w) ↔
    Transition.run (World.step cfg) World.initial actions = some w := by
  constructor
  · intro ⟨moves, x, hrun, hrest, hlog, hstate⟩
    obtain ⟨t, ht, hagrees⟩ := Sections.run_linearises (World.sections_lawful cfg) hrun
    rw [← hlog, ← hstate, hagrees.state_eq hrest]
    exact ht
  · intro hrun
    have hmay : ∀ a ∈ actions, ∃ c, (World.sections cfg).may c a = true :=
      fun a _ => ⟨.scheduler, rfl⟩
    obtain ⟨moves, hmoves⟩ := Sections.exists_run (World.sections_lawful cfg) hmay hrun []
    exact ⟨moves, _, hmoves, ⟨rfl, rfl⟩, rfl, rfl⟩

namespace World

variable {cfg : Config N} {w : World N T} {f : ℕ}

/-- Instructions that do not set `signaled_` of `f` leave it reset. -/
theorem exec_reset (todo : List (World N T → Bool → SignalBits × Bool))
    (hquiet : ∀ i ∈ todo, ∀ (w : World N T) r, w.signals.signaled f = false →
      (i w r).1.signaled f = false) (w : World N T) (r : Bool)
    (hold : w.signals.signaled f = false) :
    ((sections cfg).exec todo w r).1.signaled f = false := by
  induction todo generalizing w r with
  | nil => exact hold
  | cons i todo ih =>
      exact ih (fun j hj => hquiet j (List.mem_cons_of_mem _ hj)) (w.withSignals (i w r).1) (i w r).2
        (hquiet i (List.mem_cons_self ..) w r hold)

/-- Instructions that do not write the local variable leave it. -/
theorem exec_local (todo : List (World N T → Bool → SignalBits × Bool))
    (hkeep : ∀ i ∈ todo, ∀ (w : World N T) r, (i w r).2 = r) (w : World N T) (r : Bool) :
    ((sections cfg).exec todo w r).2 = r := by
  induction todo generalizing w r with
  | nil => rfl
  | cons i todo ih =>
      calc ((sections cfg).exec (i :: todo) w r).2
          = (i w r).2 := ih (fun j hj => hkeep j (List.mem_cons_of_mem _ hj)) _ _
        _ = r := hkeep i (List.mem_cons_self ..) w r

theorem onlyIf_reset {g : World N T → Bool → SignalBits × Bool}
    (hg : ∀ (w : World N T) r, w.signals.signaled f = false → (g w r).1.signaled f = false)
    (w : World N T) (r : Bool) (hold : w.signals.signaled f = false) :
    (onlyIf g w r).1.signaled f = false := by
  cases r
  · exact hold
  · exact hg w true hold

theorem storeSignaled_false_reset (k : ℕ) (w : World N T) (r : Bool)
    (hold : w.signals.signaled f = false) : (storeSignaled k false w r).1.signaled f = false := by
  by_cases hk : f = k
  · subst hk
    simp [storeSignaled]
  · simpa [storeSignaled, hk] using hold

/-- Only its own `set()` sets a flag. -/
theorem sectionCode_reset {k : CriticalSection} (hk : k ≠ .set f) :
    ∀ i ∈ sectionCode (N := N) (T := T) k, ∀ w r, w.signals.signaled f = false →
      (i w r).1.signaled f = false := by
  intro i hi w r hold
  cases k <;> simp only [sectionCode, List.mem_cons, List.not_mem_nil, or_false] at hi
  case set g =>
    have hg : f ≠ g := fun he => hk (he ▸ rfl)
    rcases hi with rfl | rfl | rfl
    · exact hold
    · simpa [storeSignaled, hg] using hold
    · exact hold
  case clear g =>
    subst hi
    exact storeSignaled_false_reset g w r hold
  case isSet g =>
    subst hi
    exact hold
  case consume g =>
    rcases hi with rfl | rfl
    · exact hold
    · exact onlyIf_reset (storeSignaled_false_reset g) w r hold
  case takePending =>
    rcases hi with rfl | rfl
    · exact hold
    · exact onlyIf_reset (fun _ _ h => h) w r hold
  case visit g =>
    rcases hi with rfl | rfl | rfl
    · exact hold
    · exact onlyIf_reset (fun _ _ h => h) w r hold
    · exact onlyIf_reset (storeSignaled_false_reset g) w r hold

/-- In the middle of a section, a flag that has become signaled is one that the section sets, and
its context knows that it was not signaled before. -/
theorem set_of_signaled {k : CriticalSection} {done todo : List (World N T → Bool → SignalBits × Bool)}
    (hcode : sectionCode k = done ++ todo) (hold : w.signals.signaled f = false)
    (hnow : ((sections cfg).exec done w false).1.signaled f = true) :
    k = .set f ∧ ((sections cfg).exec done w false).2 = true := by
  have hdone : ∀ i ∈ done, i ∈ sectionCode k := by
    intro i hi
    rw [hcode]
    exact List.mem_append_left _ hi
  by_cases hk : k = .set f
  · subst hk
    refine ⟨rfl, ?_⟩
    cases done with
    | nil =>
        have hsame : w.signals.signaled f = true := hnow
        rw [hold] at hsame
        cases hsame
    | cons i rest =>
        obtain ⟨hi, hrest⟩ := List.cons.inj hcode
        -- `newly_signaled` is read first; neither store writes it
        have hkeep : ∀ j ∈ rest, ∀ (w : World N T) r, (j w r).2 = r := by
          intro j hj w r
          have hmem : j ∈ ([storeSignaled f true, storePending true] :
              List (World N T → Bool → SignalBits × Bool)) := by
            rw [hrest]
            exact List.mem_append_left _ hj
          simp only [List.mem_cons, List.not_mem_nil, or_false] at hmem
          rcases hmem with rfl | rfl <;> rfl
        rw [← hi, exec_load, exec_local rest hkeep]
        simpa [World.signals, Flags.signals] using hold
  · have hreset : ((sections cfg).exec done w false).1.signaled f = false :=
      exec_reset done (fun i hi => sectionCode_reset hk i (hdone i hi)) w false hold
    rw [hnow] at hreset
    cases hreset

end World

/-- The same between two actions. -/
theorem World.Reachable.giving_of_take {cfg : Config N} {w : World N T} {now : Tick}
    {timeout : UInt32} {f : ℕ} (hw : w.Reachable cfg) (htake : w.control = .take now timeout)
    (hwake : w.wake ≠ some true) (hwaiter : (w.flags.flag f).waiter ≠ none)
    (hsignaled : (w.flags.flag f).signaled = true) : f ∈ w.giving := by
  obtain ⟨L, hinv⟩ := hw.inv
  obtain ⟨hand, -, -⟩ := hinv.staged.asleep now timeout htake
  have hpolled : w.control.polled = true := by
    rw [htake]
    rfl
  have harmed := (hinv.core.armed.mem f).mpr hwaiter
  rw [Control.unvisited_eq_nil hinv.position (by rw [htake]; rfl), List.append_nil] at harmed
  exact (hinv.signals.told hand hpolled f (Or.inl harmed) hsignaled).resolve_right hwake

/-- While the scheduler sleeps with no token, each armed and signaled flag is one whose `set()` has
yet to give the semaphore, or has yet to leave its section and found the flag not signaled. -/
theorem sleeps_through_no_set {cfg : Config N} {moves : List (Sections.Move (Action T) Context)}
    {x : FineWorld N T} {now : Tick} {timeout : UInt32} {f : ℕ}
    (hrun : Transition.run (World.sections cfg).move FineWorld.initial moves = some x)
    (htake : x.state.control = .take now timeout) (hwake : x.state.wake ≠ some true)
    (hwaiter : (x.state.flags.flag f).waiter ≠ none)
    (hsignaled : (x.state.flags.flag f).signaled = true) :
    f ∈ x.state.giving ∨ ∃ g, x.holder = some g ∧ g.within = .set f ∧ g.reg = true := by
  obtain ⟨t, ht, hagrees⟩ := Sections.run_linearises (World.sections_lawful cfg) hrun
  obtain ⟨u, hu, hbase⟩ := hagrees.base
  -- the walk is over, so nothing is deferred
  have hsettled : u.control = .take now timeout → t = u := by
    intro hcontrol
    cases hafter : x.after with
    | none => rw [hu, hafter]; rfl
    | some out =>
        obtain ⟨k, r⟩ := out
        obtain ⟨g, rfl⟩ := World.visit_of_deferred (hagrees.deferred k r hafter)
        rw [hu, hafter]
        simp only [Sections.settle, World.sections, World.sectionRest, hcontrol]
  cases hholder : x.holder with
  | none =>
      rw [hholder] at hbase
      have hstate : x.state = u := hbase
      have hreach : World.Reachable cfg x.state := by
        rw [hstate, ← hsettled (hstate ▸ htake)]
        exact ⟨x.log, ht⟩
      exact Or.inl (hreach.giving_of_take htake hwake hwaiter hsignaled)
  | some g =>
      rw [hholder] at hbase
      have hinside : (World.sections cfg).Inside x.state g u := hbase
      have hstate : x.state = u.withSignals x.state.signals := hinside.state
      rw [hstate] at htake hwake hwaiter
      have hreach : World.Reachable cfg u := by
        rw [← hsettled htake]
        exact ⟨x.log, ht⟩
      by_cases hold : (u.flags.flag f).signaled = true
      · left
        rw [hstate]
        exact hreach.giving_of_take htake hwake hwaiter hold
      · obtain ⟨done, hcode, hexec⟩ := hinside.sofar
        have hnow : ((World.sections cfg).exec done u false).1.signaled f = true := by
          have hbits : (World.sections cfg).exec done u false = (x.state.signals, g.reg) := hexec
          rw [hbits]
          exact hsignaled
        have hreset : u.signals.signaled f = false := by
          cases hbit : u.signals.signaled f
          · rfl
          · exact absurd hbit hold
        obtain ⟨hset, hreg⟩ := World.set_of_signaled hcode hreset hnow
        have hreg' : ((World.sections cfg).exec done u false).2 = g.reg := congrArg Prod.snd hexec
        exact Or.inr ⟨g, rfl, hset, hreg' ▸ hreg⟩

/-- A task waits for flag 0 and the scheduler sleeps, when an interrupt has performed two of the
three instructions of `set()`. -/
theorem sleeps_through_no_set_small :
    let moves : List (Sections.Move (Action ℕ) Context) :=
      [.act .scheduler (.createTask (some 1)), .act .scheduler (.poll true 0),
        .enter .scheduler .checkPending, .instruction, .instruction, .leave,
        .act .scheduler .startPass, .act .scheduler .passPop,
        .enter .scheduler (.coAwait (.flag 0)), .instruction, .instruction, .leave,
        .act .scheduler .flagPark, .act .scheduler (.endPass 0),
        .enter (.external 0) (.setFlag 0), .instruction, .instruction]
    let x := (Transition.run (World.sections .small).move FineWorld.initial moves).getD
      FineWorld.initial
    x.state.control = .take 0 portMaxDelay ∧ x.state.giving = [] ∧
      ∃ g, x.holder = some g ∧ g.within = .set 0 ∧ g.reg = true := by
  intro moves x
  have hrun : Transition.run (World.sections .small).move FineWorld.initial moves = some x :=
    (Option.some_get (by decide)).symm
  have htake : x.state.control = .take 0 portMaxDelay := by decide
  have hgiving : x.state.giving = [] := by decide
  refine ⟨htake, hgiving, ?_⟩
  rcases sleeps_through_no_set (f := 0) hrun htake (by decide) (by decide) (by decide) with
    hmem | hholder
  · rw [hgiving] at hmem
    cases hmem
  · exact hholder

end SimpleAwait
