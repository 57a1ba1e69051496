import SimpleAwait.Library.Transition

/-!
# Critical sections

A system whose actions are atomic stands for a program whose contexts take turns at single
instructions.  `Sections` says what its actions are made of: an action that runs a critical section
performs the instructions of the section one by one, on the part of the state that the sections
protect, and then does the rest of its work; all other actions are free of the protected part.

`Sections.Fine` is the state at the grain of instructions, where one context at a time is inside a
section and the others go on.  `run_linearises` takes every run at that grain back to a run of the
atomic actions, in the order in which their sections were left; `exists_run` is the converse.
-/

/-- The atomic actions `A` of contexts `C` on states `S`, and the sections `K` that they run on the
protected part `P`, with the local variable `R`. -/
structure Sections (S P R A K C : Type) where
  step : S → A → Option S
  /-- The protected part of the state. -/
  get : S → P
  put : P → S → S
  /-- The actions that run a section. -/
  guarded : A → Bool
  /-- The section that an action is about to run; `none` where the action is not possible. -/
  entry : S → A → Option K
  /-- The instructions of a section: each may read everything, and writes the protected part and
  the local variable. -/
  code : K → List (S → R → P × R)
  start : R
  /-- What the context does once it has left the section. -/
  rest : K → R → S → S
  /-- The sections whose rest is a step of its own, which other contexts may precede. -/
  deferred : K → Bool
  main : C
  may : C → A → Bool

namespace Sections

variable {S P R A K C : Type} (M : Sections S P R A K C)

/-- Run instructions one after another. -/
def exec : List (S → R → P × R) → S → R → P × R
  | [], s, r => (M.get s, r)
  | g :: todo, s, r => exec todo (M.put (g s r).1 s) (g s r).2

/-- The section that an action runs is the same in two states, and cannot tell them apart. -/
structure Blind (a : A) (s s' : S) : Prop where
  entry : M.entry s' a = M.entry s a
  code : ∀ k, M.entry s a = some k → ∀ g ∈ M.code k, ∀ p r, g (M.put p s') r = g (M.put p s) r

/-- What makes sections atomic. -/
structure Lawful : Prop where
  get_put : ∀ p s, M.get (M.put p s) = p
  put_get : ∀ s, M.put (M.get s) s = s
  put_put : ∀ p q s, M.put p (M.put q s) = M.put p s
  /-- An action runs the whole of its section and then the rest. -/
  step_guarded : ∀ s a, M.guarded a = true → M.step s a = (M.entry s a).map fun k =>
    M.rest k (M.exec (M.code k) s M.start).2 (M.put (M.exec (M.code k) s M.start).1 s)
  /-- Free actions neither read nor write the protected part. -/
  step_put : ∀ p s b, M.guarded b = false → M.step (M.put p s) b = (M.step s b).map (M.put p)
  /-- What another context does in freedom is invisible to a section. -/
  blind_step : ∀ c d a b s s', c ≠ d → M.may c a = true → M.may d b = true →
    M.guarded b = false → M.step s b = some s' → M.Blind a s s'
  /-- Only the main context defers the rest of a section. -/
  deferred_main : ∀ c a s k, M.may c a = true → M.entry s a = some k → M.deferred k = true →
    c = M.main
  rest_put : ∀ k r p s, M.deferred k = true → M.rest k r (M.put p s) = M.put p (M.rest k r s)
  /-- What the main context defers is invisible to the others, and goes past their actions. -/
  blind_rest : ∀ d b k r s, d ≠ M.main → M.may d b = true → M.deferred k = true →
    M.Blind b s (M.rest k r s)
  step_rest : ∀ d b k r s, d ≠ M.main → M.may d b = true → M.guarded b = false →
    M.deferred k = true → M.step (M.rest k r s) b = (M.step s b).map (M.rest k r)
  rest_rest : ∀ d b j q k r s t, d ≠ M.main → M.may d b = true → M.entry s b = some j →
    M.deferred k = true → M.rest j q (M.rest k r t) = M.rest k r (M.rest j q t)

/-! ## The grain of instructions -/

/-- A context inside a section. -/
structure Holding (S P R A K C : Type) where
  context : C
  action : A
  within : K
  /-- The instructions it has yet to perform. -/
  todo : List (S → R → P × R)
  reg : R

/-- The state between two instructions. -/
structure Fine (S P R A K C : Type) where
  state : S
  holder : Option (Holding S P R A K C) := none
  /-- What the main context has yet to do after a section that it has left. -/
  after : Option (K × R) := none
  /-- History: the actions performed, each from when its section was left. -/
  log : List A := []

/-- What can happen next. -/
inductive Move (A C : Type)
  /-- A context performs a free action. -/
  | act (c : C) (a : A)
  /-- A context enters the section of an action. -/
  | enter (c : C) (a : A)
  /-- The context inside a section performs its next instruction. -/
  | instruction
  /-- It leaves the section. -/
  | leave
  /-- The main context does what it deferred. -/
  | resume

/-- No context is inside a section, and nothing is deferred. -/
def Fine.AtRest (x : Fine S P R A K C) : Prop := x.holder = none ∧ x.after = none

section

variable [DecidableEq C]

/-- The context `c` is at a section or at what it deferred. -/
def busy (x : Fine S P R A K C) (c : C) : Bool :=
  (match x.holder with
    | none => false
    | some h => decide (h.context = c)) || (decide (c = M.main) && x.after.isSome)

/-- One move; `none` where it is not possible. -/
def move (x : Fine S P R A K C) : Move A C → Option (Fine S P R A K C)
  | .act c a =>
      if M.may c a ∧ M.guarded a = false ∧ M.busy x c = false then
        (M.step x.state a).map fun s => { x with state := s, log := x.log ++ [a] }
      else none
  | .enter c a =>
      if M.may c a ∧ M.guarded a ∧ x.holder.isNone ∧ M.busy x c = false then
        (M.entry x.state a).map fun k => { x with holder := some ⟨c, a, k, M.code k, M.start⟩ }
      else none
  | .instruction =>
      match x.holder with
      | some ⟨c, a, k, g :: todo, r⟩ =>
          some { x with
            state := M.put (g x.state r).1 x.state
            holder := some ⟨c, a, k, todo, (g x.state r).2⟩ }
      | _ => none
  | .leave =>
      match x.holder with
      | some ⟨_, a, k, [], r⟩ =>
          if M.deferred k then
            some { x with holder := none, after := some (k, r), log := x.log ++ [a] }
          else some { x with state := M.rest k r x.state, holder := none, log := x.log ++ [a] }
      | _ => none
  | .resume =>
      match x.after with
      | some (k, r) => some { x with state := M.rest k r x.state, after := none }
      | none => none

end

/-! ## The protected part -/

namespace Lawful

variable {M} (h : M.Lawful) {a b : A} {s s' u : S} {k : K} {p : P} {r : R}

include h

theorem get_step (hb : M.guarded b = false) (hstep : M.step s b = some s') :
    M.get s' = M.get s := by
  have hput := h.step_put (M.get s) s b hb
  rw [h.put_get, hstep, Option.map_some, Option.some.injEq] at hput
  rw [hput, h.get_put]

theorem get_rest (hk : M.deferred k = true) : M.get (M.rest k r s) = M.get s := by
  have hput := h.rest_put k r (M.get s) s hk
  rw [h.put_get] at hput
  rw [hput, h.get_put]

/-- A free action is possible whatever the protected part is, and keeps it. -/
theorem step_put_some (hb : M.guarded b = false) (hstep : M.step (M.put p u) b = some s') :
    ∃ u', M.step u b = some u' ∧ s' = M.put p u' := by
  rw [h.step_put p u b hb, Option.map_eq_some_iff] at hstep
  obtain ⟨u', hu', rfl⟩ := hstep
  exact ⟨u', hu', rfl⟩

theorem exec_append (todo more : List (S → R → P × R)) (s : S) (r : R) :
    M.exec (todo ++ more) s r =
      M.exec more (M.put (M.exec todo s r).1 s) (M.exec todo s r).2 := by
  induction todo generalizing s r with
  | nil => simp only [List.nil_append, exec, h.put_get]
  | cons g todo ih => simp only [List.cons_append, exec, ih, h.put_put]

/-- Instructions that cannot tell two states apart do the same from both. -/
theorem exec_congr {todo : List (S → R → P × R)}
    (htodo : ∀ g ∈ todo, ∀ p r, g (M.put p s') r = g (M.put p s) r) (p : P) (r : R) :
    M.exec todo (M.put p s') r = M.exec todo (M.put p s) r := by
  induction todo generalizing p r with
  | nil => simp only [exec, h.get_put]
  | cons g todo ih =>
      simp only [exec, h.put_put, htodo g (List.mem_cons_self ..)]
      exact ih (fun g hg => htodo g (List.mem_cons_of_mem _ hg)) _ _

end Lawful

/-! ## Linearisation -/

/-- What is left of the state once the main context has done what it deferred. -/
def settle : Option (K × R) → S → S
  | none, u => u
  | some (k, r), u => M.rest k r u

/-- The state `s` is that of `g` inside its section: the instructions performed so far, on the state
`u` that the free actions of the other contexts have made of the one it was entered in. -/
structure Inside (s : S) (g : Holding S P R A K C) (u : S) : Prop where
  may : M.may g.context g.action = true
  guarded : M.guarded g.action = true
  entry : M.entry u g.action = some g.within
  state : s = M.put (M.get s) u
  sofar : ∃ done, M.code g.within = done ++ g.todo ∧ M.exec done u M.start = (M.get s, g.reg)

/-- `x` is the atomic state `t`, but for the section in progress and for what is deferred. -/
structure Agrees (x : Fine S P R A K C) (t : S) : Prop where
  deferred : ∀ k r, x.after = some (k, r) → M.deferred k = true
  main : ∀ g, x.holder = some g → g.context = M.main → x.after = none
  base : ∃ u, t = M.settle x.after u ∧
    match x.holder with
    | none => x.state = u
    | some g => M.Inside x.state g u

variable {M} {x y : Fine S P R A K C} {s s' t u : S} {a b : A} {c d : C} {k : K} {r : R}
  {g : Holding S P R A K C}

/-- Nothing is in progress at rest. -/
theorem Agrees.state_eq (hagrees : M.Agrees x t) (hrest : x.AtRest) : x.state = t := by
  obtain ⟨u, rfl, hstate⟩ := hagrees.base
  rw [hrest.1] at hstate
  rw [hrest.2]
  exact hstate

/-! ### What the others do during a section -/

namespace Inside

/-- A section goes on undisturbed from a state that it cannot tell from its own. -/
theorem blind (h : M.Lawful) (hinside : M.Inside s g u) {u' : S} (hblind : M.Blind g.action u u')
    (hget : M.get u' = M.get u) : M.Inside (M.put (M.get s) u') g u' where
  may := hinside.may
  guarded := hinside.guarded
  entry := by rw [hblind.entry]; exact hinside.entry
  state := by rw [h.get_put]
  sofar := by
    obtain ⟨done, hcode, hexec⟩ := hinside.sofar
    refine ⟨done, hcode, ?_⟩
    have hdone : ∀ i ∈ done, i ∈ M.code g.within := by
      intro i hi
      rw [hcode]
      exact List.mem_append_left _ hi
    have hsame := h.exec_congr (fun i hi => hblind.code _ hinside.entry i (hdone i hi)) (M.get u)
      M.start
    rw [← hget, h.put_get, hget, h.put_get, hexec] at hsame
    rw [hsame, h.get_put]

/-- A free action of another context. -/
theorem act (h : M.Lawful) (hinside : M.Inside s g u) (hd : g.context ≠ d)
    (hmay : M.may d b = true) (hb : M.guarded b = false) (hstep : M.step s b = some s') :
    ∃ u', M.step u b = some u' ∧ M.Inside s' g u' := by
  rw [hinside.state] at hstep
  obtain ⟨u', hu', rfl⟩ := h.step_put_some hb hstep
  have hblind := h.blind_step _ d g.action b u u' hd hinside.may hmay hb hu'
  exact ⟨u', hu', hinside.blind h hblind (h.get_step hb hu')⟩

/-- The main context does what it deferred. -/
theorem resume (h : M.Lawful) (hinside : M.Inside s g u) (hmain : g.context ≠ M.main)
    (hk : M.deferred k = true) : M.Inside (M.rest k r s) g (M.rest k r u) := by
  have hblind := h.blind_rest _ _ k r u hmain hinside.may hk
  have hrest : M.rest k r s = M.put (M.get s) (M.rest k r u) := by
    conv_lhs => rw [hinside.state]
    exact h.rest_put k r _ u hk
  rw [hrest]
  exact hinside.blind h hblind (h.get_rest hk)

/-- The section begins. -/
theorem enter (h : M.Lawful) (hmay : M.may c a = true) (hguarded : M.guarded a = true)
    (hentry : M.entry s a = some k) : M.Inside s ⟨c, a, k, M.code k, M.start⟩ s where
  may := hmay
  guarded := hguarded
  entry := hentry
  state := (h.put_get s).symm
  sofar := ⟨[], rfl, rfl⟩

/-- Its next instruction. -/
theorem instruction (h : M.Lawful) {i : S → R → P × R} {todo : List (S → R → P × R)}
    (hinside : M.Inside s ⟨c, a, k, i :: todo, r⟩ u) :
    M.Inside (M.put (i s r).1 s) ⟨c, a, k, todo, (i s r).2⟩ u where
  may := hinside.may
  guarded := hinside.guarded
  entry := hinside.entry
  state := by
    rw [h.get_put]
    calc M.put (i s r).1 s
        = M.put (i s r).1 (M.put (M.get s) u) := by rw [← hinside.state]
      _ = M.put (i s r).1 u := h.put_put _ _ u
  sofar := by
    obtain ⟨done, hcode, hexec⟩ := hinside.sofar
    refine ⟨done ++ [i], by rw [hcode]; simp, ?_⟩
    rw [h.exec_append, hexec, ← hinside.state, h.get_put]
    simp only [Sections.exec, h.get_put]

/-- At its end the action takes place, in the state the section was entered in. -/
theorem leave (h : M.Lawful) (hinside : M.Inside s ⟨c, a, k, [], r⟩ u) :
    M.step u a = some (M.rest k r s) := by
  obtain ⟨done, hcode, hexec⟩ := hinside.sofar
  rw [List.append_nil] at hcode
  rw [← hcode] at hexec
  have hentry := hinside.entry
  rw [h.step_guarded u a hinside.guarded, hentry, Option.map_some, hexec, ← hinside.state]

/-- The same where the main context has deferred something before. -/
theorem leave_after (h : M.Lawful) {j : K} {q : R} (hinside : M.Inside s ⟨c, a, j, [], q⟩ u)
    (hmain : c ≠ M.main) (hk : M.deferred k = true) :
    M.step (M.rest k r u) a = some (M.rest k r (M.rest j q s)) := by
  -- the rest is invisible to the section, so the section ends in the same way after it
  have hlater := (hinside.resume (k := k) (r := r) h hmain hk).leave h
  rw [hlater, h.rest_rest c a j q k r u s hmain hinside.may hinside.entry hk]

end Inside

/-! ### One move -/

variable [DecidableEq C]

theorem not_busy (hbusy : M.busy x c = false) :
    (∀ g, x.holder = some g → g.context ≠ c) ∧ (c = M.main → x.after = none) := by
  simp only [busy, Bool.or_eq_false_iff, Bool.and_eq_false_iff] at hbusy
  constructor
  · intro g hg
    rw [hg] at hbusy
    exact of_decide_eq_false hbusy.1
  · intro hc
    rcases hbusy.2 with hne | hnone
    · exact absurd hc (of_decide_eq_false hne)
    · simpa using hnone

/-- A free action goes past what the main context has deferred. -/
theorem step_settle (h : M.Lawful) (hdeferred : ∀ k r, x.after = some (k, r) → M.deferred k = true)
    (hbusy : M.busy x c = false) (hmay : M.may c b = true) (hb : M.guarded b = false)
    (hstep : M.step u b = some s') : M.step (M.settle x.after u) b = some (M.settle x.after s') := by
  cases hafter : x.after with
  | none => exact hstep
  | some out =>
      have hc : c ≠ M.main := by
        intro hc
        have hnone := (not_busy hbusy).2 hc
        rw [hafter] at hnone
        cases hnone
      simp only [settle]
      rw [h.step_rest c b out.1 out.2 u hc hmay hb (hdeferred _ _ hafter), hstep, Option.map_some]

/-- The atomic action of a move, if it performs one. -/
theorem Agrees.move (h : M.Lawful) (hagrees : M.Agrees x t) {m : Move A C}
    (hmove : M.move x m = some y) :
    (y.log = x.log ∧ M.Agrees y t) ∨
      ∃ a t', y.log = x.log ++ [a] ∧ M.step t a = some t' ∧ M.Agrees y t' := by
  obtain ⟨u, rfl, hbase⟩ := hagrees.base
  cases m with
  | act c b =>
      simp only [Sections.move] at hmove
      split at hmove
      · rename_i hcond
        obtain ⟨hmay, hb, hbusy⟩ := hcond
        obtain ⟨s', hs', rfl⟩ := Option.map_eq_some_iff.mp hmove
        right
        cases hholder : x.holder with
        | none =>
            rw [hholder] at hbase
            rw [hbase] at hs'
            exact ⟨b, _, rfl, step_settle h hagrees.deferred hbusy hmay hb hs', hagrees.deferred,
              fun g hg => hagrees.main g (hholder.trans hg), s', rfl, rfl⟩
        | some g =>
            rw [hholder] at hbase
            obtain ⟨u', hu', hinside⟩ := hbase.act h ((not_busy hbusy).1 g hholder) hmay hb hs'
            exact ⟨b, _, rfl, step_settle h hagrees.deferred hbusy hmay hb hu', hagrees.deferred,
              fun g hg => hagrees.main g (hholder.trans hg), u', rfl, hinside⟩
      · cases hmove
  | enter c a =>
      simp only [Sections.move] at hmove
      split at hmove
      · rename_i hcond
        obtain ⟨hmay, hguarded, hnone, hbusy⟩ := hcond
        obtain ⟨k, hk, rfl⟩ := Option.map_eq_some_iff.mp hmove
        rw [Option.isNone_iff_eq_none.mp hnone] at hbase
        left
        refine ⟨rfl, hagrees.deferred, ?_, u, rfl, ?_⟩
        · intro g hg hmain
          cases hg
          exact (not_busy hbusy).2 hmain
        · rw [← hbase]
          exact Inside.enter h hmay hguarded hk
      · cases hmove
  | instruction =>
      simp only [Sections.move] at hmove
      split at hmove
      · rename_i c a k i todo r hholder
        cases hmove
        rw [hholder] at hbase
        left
        refine ⟨rfl, hagrees.deferred, ?_, u, rfl, Inside.instruction h hbase⟩
        intro g hg hmain
        cases hg
        exact hagrees.main _ hholder hmain
      · cases hmove
  | leave =>
      simp only [Sections.move] at hmove
      split at hmove
      · rename_i c a k r hholder
        rw [hholder] at hbase
        right
        split at hmove
        · -- the section of the main context; nothing else is deferred
          rename_i hdeferred
          cases hmove
          have hc := h.deferred_main c a u k hbase.may hbase.entry hdeferred
          have hafter := hagrees.main _ hholder hc
          refine ⟨a, M.rest k r x.state, rfl, ?_, ?_, by simp, x.state, rfl, rfl⟩
          · rw [hafter]
            exact hbase.leave h
          · intro k' r' he
            cases he
            exact hdeferred
        · cases hmove
          refine ⟨a, M.settle x.after (M.rest k r x.state), rfl, ?_, hagrees.deferred, by simp,
            _, rfl, rfl⟩
          cases hafter : x.after with
          | none => exact hbase.leave h
          | some out =>
              have hc : c ≠ M.main := by
                intro hc
                have hnone := hagrees.main _ hholder hc
                rw [hafter] at hnone
                cases hnone
              exact hbase.leave_after h hc (hagrees.deferred _ _ hafter)
      · cases hmove
  | resume =>
      simp only [Sections.move] at hmove
      split at hmove
      · rename_i k r hafter
        cases hmove
        have hk := hagrees.deferred k r hafter
        rw [hafter]
        left
        refine ⟨rfl, by simp, by simp, M.rest k r u, rfl, ?_⟩
        cases hholder : x.holder with
        | none =>
            rw [hholder] at hbase
            simp only [hbase]
        | some g =>
            rw [hholder] at hbase
            have hmain : g.context ≠ M.main := by
              intro hc
              have hnone := hagrees.main g hholder hc
              rw [hafter] at hnone
              cases hnone
            exact hbase.resume h hmain hk
      · cases hmove

/-! ### Whole runs -/

omit [DecidableEq C] in
theorem agrees_start (s : S) : M.Agrees (⟨s, none, none, []⟩ : Fine S P R A K C) s :=
  ⟨by simp, by simp, s, rfl, rfl⟩

/-- Every run at the grain of instructions is a run of the atomic actions, in the order in which
their sections were left. -/
theorem run_linearises (h : M.Lawful) {moves : List (Move A C)}
    (hrun : Transition.run M.move ⟨s, none, none, []⟩ moves = some x) :
    ∃ t, Transition.run M.step s x.log = some t ∧ M.Agrees x t := by
  -- a move performs no action, or the one that it appends to the log
  refine Transition.run_induction
    (P := fun x => ∃ t, Transition.run M.step s x.log = some t ∧ M.Agrees x t) hrun
    ⟨s, rfl, agrees_start s⟩ ?_
  intro y m z _ ⟨t, ht, hagrees⟩ hmove
  rcases hagrees.move h hmove with ⟨hlog, hz⟩ | ⟨a, t', hlog, hstep, hz⟩
  · exact ⟨t, by rw [hlog]; exact ht, hz⟩
  · refine ⟨t', ?_, hz⟩
    rw [hlog]
    exact Transition.run_append.mpr ⟨t, ht, Transition.run_singleton.mpr hstep⟩

/-- The context inside a section gets through its instructions. -/
theorem run_instructions (c : C) (a : A) (k : K) (todo : List (S → R → P × R)) (s : S) (r : R)
    (log : List A) (h : M.Lawful) : ∃ moves : List (Move A C),
      Transition.run M.move ⟨s, some ⟨c, a, k, todo, r⟩, none, log⟩ moves =
        some ⟨M.put (M.exec todo s r).1 s, some ⟨c, a, k, [], (M.exec todo s r).2⟩, none, log⟩ := by
  induction todo generalizing s r with
  | nil => exact ⟨[], by simp [exec, h.put_get]⟩
  | cons g todo ih =>
      obtain ⟨moves, hmoves⟩ := ih (M.put (g s r).1 s) (g s r).2
      refine ⟨.instruction :: moves, Transition.run_cons.mpr ⟨_, rfl, ?_⟩⟩
      rw [hmoves, h.put_put]
      rfl

/-- An atomic action is performed at the grain of instructions. -/
theorem exists_run_step (h : M.Lawful) (hmay : M.may c a = true) (hstep : M.step s a = some s')
    (log : List A) : ∃ moves : List (Move A C),
      Transition.run M.move ⟨s, none, none, log⟩ moves = some ⟨s', none, none, log ++ [a]⟩ := by
  by_cases hguarded : M.guarded a = true
  · rw [h.step_guarded s a hguarded] at hstep
    obtain ⟨k, hk, rfl⟩ := Option.map_eq_some_iff.mp hstep
    obtain ⟨moves, hmoves⟩ := run_instructions c a k (M.code k) s M.start log h
    have henter : M.move ⟨s, none, none, log⟩ (.enter c a) =
        some ⟨s, some ⟨c, a, k, M.code k, M.start⟩, none, log⟩ := by
      simp [move, hmay, hguarded, busy, hk]
    by_cases hdeferred : M.deferred k = true
    · refine ⟨.enter c a :: (moves ++ [.leave, .resume]),
        Transition.run_cons.mpr ⟨_, henter, Transition.run_append.mpr ⟨_, hmoves, ?_⟩⟩⟩
      simp [Transition.run, move, hdeferred]
    · refine ⟨.enter c a :: (moves ++ [.leave]),
        Transition.run_cons.mpr ⟨_, henter, Transition.run_append.mpr ⟨_, hmoves, ?_⟩⟩⟩
      simp [Transition.run, move, hdeferred]
  · refine ⟨[.act c a], Transition.run_singleton.mpr ?_⟩
    simp [move, hmay, hguarded, busy, hstep]

/-- Every run of atomic actions is a run at the grain of instructions. -/
theorem exists_run (h : M.Lawful) {actions : List A} (hmay : ∀ a ∈ actions, ∃ c, M.may c a = true)
    (hrun : Transition.run M.step s actions = some t) (log : List A) :
    ∃ moves : List (Move A C),
      Transition.run M.move ⟨s, none, none, log⟩ moves = some ⟨t, none, none, log ++ actions⟩ := by
  induction actions generalizing s log with
  | nil =>
      cases hrun
      exact ⟨[], by simp⟩
  | cons a actions ih =>
      obtain ⟨s', hfirst, hrest⟩ := Transition.run_cons.mp hrun
      obtain ⟨c, hc⟩ := hmay a (List.mem_cons_self ..)
      obtain ⟨before, hbefore⟩ := exists_run_step h hc hfirst log
      obtain ⟨moves, hmoves⟩ := ih (fun b hb => hmay b (List.mem_cons_of_mem _ hb)) hrest (log ++ [a])
      refine ⟨before ++ moves, Transition.run_append.mpr ⟨_, hbefore, ?_⟩⟩
      rw [hmoves, List.append_assoc]
      rfl

end Sections
