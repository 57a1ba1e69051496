import Mathlib.Data.List.Range
import SimpleAwait.Scheduler.Operations

/-!
# The lives of a slot

A slot is acquired, completed, acquired again and so on, each time with the next
generation.  `Chronicle c` says that the trace of `c` tells this story and that it ends
where the slot is now: the acquisitions of a slot carry the generations `1, 2, …` up to
its own, and the completions those of all its lives that are over.
-/

namespace SimpleAwait

variable {N : ℕ} {c c' : Scheduler N} {s t : Fin N}

/-- The acquisitions and completions in a trace. -/
def lifecycle (trace : List (Obs N)) : List (Obs N) :=
  trace.filter fun | .acquired .. | .completed .. => true | _ => false

@[simp] theorem lifecycle_append (t u : List (Obs N)) :
    lifecycle (t ++ u) = lifecycle t ++ lifecycle u := List.filter_append ..

@[simp] theorem lifecycle_nil : lifecycle ([] : List (Obs N)) = [] := rfl

@[simp] theorem lifecycle_cons (o : Obs N) (t : List (Obs N)) : lifecycle (o :: t) =
    match o with | .acquired .. | .completed .. => o :: lifecycle t | _ => lifecycle t := by
  cases o <;> rfl

/-- The generations with which slot `s` was acquired. -/
def acquisitions (s : Fin N) (trace : List (Obs N)) : List ℕ :=
  (lifecycle trace).filterMap fun
    | .acquired t g => if t = s then some g.toNat else none
    | _ => none

@[simp] theorem acquisitions_append (s : Fin N) (t u : List (Obs N)) :
    acquisitions s (t ++ u) = acquisitions s t ++ acquisitions s u := by
  simp [acquisitions]

/-- The trace tells the lives of every slot up to the present one. -/
structure Chronicle (c : Scheduler N) : Prop where
  acquired : ∀ s, acquisitions s c.trace = List.range' 1 (c.slots s).generation.toNat
  completed : ∀ s g, Obs.completed s g ∈ lifecycle c.trace ↔ 0 < g.toNat ∧
    (g.toNat < (c.slots s).generation.toNat ∨
      g = (c.slots s).generation ∧ (c.slots s).state = .completed)
  /-- A slot is free exactly in the beginning. -/
  free : ∀ s, (c.slots s).state = .free ↔ (c.slots s).generation = 0

namespace Chronicle

/-- Nothing that begins or ends a life. -/
theorem congr (h : Chronicle c)
    (hgeneration : ∀ s, (c'.slots s).generation = (c.slots s).generation)
    (hfree : ∀ s, (c'.slots s).state = .free ↔ (c.slots s).state = .free)
    (hcompleted : ∀ s, (c'.slots s).state = .completed ↔ (c.slots s).state = .completed)
    (htrace : lifecycle c'.trace = lifecycle c.trace) : Chronicle c' where
  acquired t := by
    rw [hgeneration, ← h.acquired t, acquisitions, htrace]
    rfl
  completed t g := by
    rw [hgeneration, hcompleted, htrace]
    exact h.completed t g
  free t := by
    rw [hgeneration, hfree]
    exact h.free t

/-- A slot with a task goes from one state to another. -/
theorem move (h : Chronicle c) (state : State)
    (hs : (c.slots s).state ≠ .free ∧ (c.slots s).state ≠ .completed)
    (hstate : state ≠ .free ∧ state ≠ .completed)
    (hmoved : ∀ t, (c'.slots t).state = if t = s then state else (c.slots t).state)
    (hgeneration : ∀ t, (c'.slots t).generation = (c.slots t).generation)
    (htrace : lifecycle c'.trace = lifecycle c.trace) : Chronicle c' := by
  refine h.congr hgeneration (fun t => ?_) (fun t => ?_) htrace <;>
  · rw [hmoved]
    by_cases ht : t = s
    · subst ht
      simp [hs, hstate]
    · simp [ht]

theorem toNat_succ {g : UInt32} (hg : g ≠ maxGeneration) : (g + 1).toNat = g.toNat + 1 := by
  have hlt : g.toNat ≠ 0xFFFFFFFF := fun he => hg (UInt32.toNat_inj.mp he)
  have := g.toNat_lt
  rw [UInt32.toNat_add, UInt32.toNat_one]
  omega

/-- A slot without a task is acquired and filled. -/
theorem acquire (h : Chronicle c)
    (hstate : (c.slots s).state = .free ∨ (c.slots s).state = .completed)
    (hgeneration : (c.slots s).generation ≠ maxGeneration)
    (hsame : ∀ t ≠ s, (c'.slots t).generation = (c.slots t).generation ∧
      ((c'.slots t).state = .free ↔ (c.slots t).state = .free) ∧
      ((c'.slots t).state = .completed ↔ (c.slots t).state = .completed))
    (hnext : (c'.slots s).generation = (c.slots s).generation + 1)
    (hready : (c'.slots s).state ≠ .free ∧ (c'.slots s).state ≠ .completed)
    (htrace : lifecycle c'.trace =
      lifecycle c.trace ++ [.acquired s ((c.slots s).generation + 1)]) : Chronicle c' where
  acquired t := by
    have hacquired := h.acquired t
    simp only [acquisitions] at hacquired ⊢
    rw [htrace, List.filterMap_append, hacquired]
    by_cases ht : t = s
    · subst ht
      rw [hnext, toNat_succ hgeneration, List.range'_concat]
      simp [toNat_succ hgeneration, Nat.add_comm]
    · simp [Ne.symm ht, (hsame t ht).1]
  completed t g := by
    rw [htrace, List.mem_append, h.completed]
    by_cases ht : t = s
    · subst ht
      rw [hnext, toNat_succ hgeneration]
      have hover : (c.slots t).state = .completed ∨ (c.slots t).generation.toNat = 0 := by
        rcases hstate with hfree | hcompleted
        · exact Or.inr (by rw [(h.free t).mp hfree]; rfl)
        · exact Or.inl hcompleted
      have hlast : g = (c.slots t).generation ↔
          g.toNat = (c.slots t).generation.toNat := UInt32.toNat_inj.symm
      simp only [List.mem_singleton, reduceCtorEq, or_false, hready.2, and_false, hlast]
      rcases hover with hover | hover
      · simp only [hover, and_true]
        omega
      · omega
    · simp [(hsame t ht).1, (hsame t ht).2.2]
  free t := by
    by_cases ht : t = s
    · subst ht
      have hne : (c'.slots t).generation ≠ 0 := by
        rw [hnext]
        intro hzero
        have := congrArg UInt32.toNat hzero
        rw [toNat_succ hgeneration] at this
        simp at this
      simp [hready.1, hne]
    · rw [(hsame t ht).1, (hsame t ht).2.1]
      exact h.free t

/-- The task in slot `s` completes. -/
theorem complete (h : Chronicle c) (hactive : (c.slots s).state ≠ .free)
    (hgeneration : ∀ t, (c'.slots t).generation = (c.slots t).generation)
    (hsame : ∀ t ≠ s, ((c'.slots t).state = .free ↔ (c.slots t).state = .free) ∧
      ((c'.slots t).state = .completed ↔ (c.slots t).state = .completed))
    (hcompleted : (c'.slots s).state = .completed)
    (htrace : lifecycle c'.trace = lifecycle c.trace ++ [.completed s (c.slots s).generation]) :
    Chronicle c' where
  acquired t := by
    have hacquired := h.acquired t
    simp only [acquisitions] at hacquired ⊢
    rw [hgeneration, htrace, List.filterMap_append, hacquired]
    simp
  completed t g := by
    rw [htrace, List.mem_append, h.completed, hgeneration]
    by_cases ht : t = s
    · subst ht
      have hpos : 0 < (c.slots t).generation.toNat := by
        refine Nat.pos_of_ne_zero fun hzero => hactive ((h.free t).mpr ?_)
        exact UInt32.toNat_inj.mp hzero
      simp only [List.mem_singleton, Obs.completed.injEq, true_and, hcompleted, and_true]
      constructor
      · rintro (⟨hg, hlt | ⟨rfl, -⟩⟩ | rfl)
        · exact ⟨hg, Or.inl hlt⟩
        · exact ⟨hpos, Or.inr rfl⟩
        · exact ⟨hpos, Or.inr rfl⟩
      · rintro ⟨hg, hlt | rfl⟩
        · exact Or.inl ⟨hg, Or.inl hlt⟩
        · exact Or.inr rfl
    · simp [ht, (hsame t ht).2]
  free t := by
    rw [hgeneration]
    by_cases ht : t = s
    · subst ht
      have := (h.free t).not.mp hactive
      simp [hcompleted, this]
    · rw [(hsame t ht).1]
      exact h.free t

end Chronicle

/-! ## One slot along a trace -/

theorem acquisitions_cons (o : Obs N) (trace : List (Obs N)) : acquisitions s (o :: trace) =
    match o with
    | .acquired t g =>
        if t = s then g.toNat :: acquisitions s trace else acquisitions s trace
    | _ => acquisitions s trace := by
  cases o with
  | acquired t g =>
      by_cases ht : t = s <;> simp [acquisitions, ht]
  | error | enqueued | resumed | completed | destroyed => simp [acquisitions]

theorem mem_acquisitions {trace : List (Obs N)} {n : ℕ} :
    n ∈ acquisitions s trace ↔ ∃ g : UInt32, g.toNat = n ∧ Obs.acquired s g ∈ trace := by
  induction trace with
  | nil => simp [acquisitions]
  | cons o trace ih =>
      rw [acquisitions_cons]
      cases o with
      | acquired t g =>
          by_cases ht : t = s
          · subst ht
            simp only [if_true, List.mem_cons, ih, Obs.acquired.injEq, true_and]
            constructor
            · rintro (rfl | ⟨k, hk, hmem⟩)
              · exact ⟨g, rfl, Or.inl rfl⟩
              · exact ⟨k, hk, Or.inr hmem⟩
            · rintro ⟨k, rfl, rfl | hmem⟩
              · exact Or.inl rfl
              · exact Or.inr ⟨k, rfl, hmem⟩
          · simp [ht, ih, Ne.symm ht]
      | error | enqueued | resumed | completed | destroyed => simp [ih]

theorem mem_lifecycle_completed {trace : List (Obs N)} {g : UInt32} :
    Obs.completed s g ∈ lifecycle trace ↔ Obs.completed s g ∈ trace := by
  simp [lifecycle]

/-- The generation of a slot counts its acquisitions, those of `obs` behind the earlier ones. -/
theorem Chronicle.later {c c' : Scheduler N} {obs : List (Obs N)} (h : Chronicle c)
    (h' : Chronicle c') (htrace : c'.trace = c.trace ++ obs) (s : Fin N) :
    (c'.slots s).generation.toNat =
      (c.slots s).generation.toNat + (acquisitions s obs).length ∧
    acquisitions s obs =
      List.range' ((c.slots s).generation.toNat + 1) (acquisitions s obs).length := by
  have hwhole := h'.acquired s
  rw [htrace, acquisitions_append, h.acquired s] at hwhole
  have hlength := congrArg List.length hwhole
  simp only [List.length_append, List.length_range'] at hlength
  refine ⟨hlength.symm, ?_⟩
  rw [← hlength, ← List.range'_append_1] at hwhole
  rw [List.append_cancel_left hwhole, List.length_range', Nat.add_comm]

theorem not_acquired_iff {obs : List (Obs N)} :
    (∀ g, Obs.acquired s g ∉ obs) ↔ acquisitions s obs = [] := by
  rw [List.eq_nil_iff_forall_not_mem]
  constructor
  · intro h n hn
    obtain ⟨g, -, hg⟩ := mem_acquisitions.mp hn
    exact h g hg
  · exact fun h g hg => h _ (mem_acquisitions.mpr ⟨g, rfl, hg⟩)

/-- The generation of a slot changes exactly with its acquisitions. -/
theorem Chronicle.same_iff {c c' : Scheduler N} {obs : List (Obs N)} (h : Chronicle c)
    (h' : Chronicle c') (htrace : c'.trace = c.trace ++ obs) (s : Fin N) :
    (c'.slots s).generation = (c.slots s).generation ↔ ∀ g, Obs.acquired s g ∉ obs := by
  have hlater := (h.later h' htrace s).1
  rw [not_acquired_iff, ← List.length_eq_zero_iff, ← UInt32.toNat_inj]
  omega

/-- A slot without a task stays as it is until it is acquired. -/
theorem Chronicle.vacant_kept {c c' : Scheduler N} {obs : List (Obs N)} (h : Chronicle c)
    (h' : Chronicle c') (htrace : c'.trace = c.trace ++ obs) (hs : ∀ g, Obs.acquired s g ∉ obs) :
    ((c.slots s).state = .free → (c'.slots s).state = .free) ∧
      ((c.slots s).state = .completed → (c'.slots s).state = .completed) := by
  have hsame := (h.same_iff h' htrace s).mpr hs
  refine ⟨fun hfree => (h'.free s).mpr (hsame.trans ((h.free s).mp hfree)), fun hcompleted => ?_⟩
  have hpos : 0 < (c.slots s).generation.toNat := by
    refine Nat.pos_of_ne_zero fun hzero => ?_
    have hfree := (h.free s).mpr (UInt32.toNat_inj.mp hzero)
    rw [hcompleted] at hfree
    cases hfree
  have hended : Obs.completed s (c.slots s).generation ∈ lifecycle c'.trace := by
    rw [htrace, lifecycle_append, List.mem_append]
    exact Or.inl ((h.completed s _).mpr ⟨hpos, Or.inr ⟨rfl, hcompleted⟩⟩)
  rcases ((h'.completed s _).mp hended).2 with hlt | ⟨-, hstill⟩
  · rw [hsame] at hlt
    exact absurd hlt (lt_irrefl _)
  · exact hstill

/-- An exhausted slot is never acquired again. -/
theorem Chronicle.retired {c c' : Scheduler N} {obs : List (Obs N)} (h : Chronicle c)
    (h' : Chronicle c') (htrace : c'.trace = c.trace ++ obs)
    (hmax : (c.slots s).generation = maxGeneration) (g : UInt32) : Obs.acquired s g ∉ obs := by
  refine (h.same_iff h' htrace s).mp (UInt32.toNat_inj.mp ?_) g
  have hlater := (h.later h' htrace s).1
  have hlt := (c'.slots s).generation.toNat_lt
  rw [hmax] at hlater ⊢
  have : maxGeneration.toNat = 2 ^ 32 - 1 := rfl
  omega

end SimpleAwait
