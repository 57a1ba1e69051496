import Mathlib.Logic.ExistsUnique
import Mathlib.Logic.Function.Basic

/-!
# Unique owners

Owners hold things, at most one each: `held o` is what `o` holds, and `alive` tells which things
exist.  `Owned held alive` says that whatever exists has exactly one owner, and that nothing else
is held.

A program that hands ownership around follows three rules: what comes into being is given to an
owner that holds nothing (`give`), what an owner holds goes to one that holds nothing (`move`), and
an owner lets go of a thing by ending it (`drop`).
-/

namespace Ownership

open Function

variable {ω α : Type*}

/-- Every existing thing has exactly one owner, and nothing else is held. -/
structure Owned (held : ω → Option α) (alive : α → Bool) : Prop where
  alive_of_held : ∀ o x, held o = some x → alive x = true
  held_of_alive : ∀ x, alive x = true → ∃ o, held o = some x
  unique : ∀ o o' x, held o = some x → held o' = some x → o = o'

variable {held : ω → Option α} {alive : α → Bool} {o o' : ω} {x : α}

namespace Owned

/-- Nothing exists, and nothing is held. -/
theorem nothing (hheld : ∀ o, held o = none) (halive : ∀ x, alive x = false) : Owned held alive where
  alive_of_held o x ho := by simp [hheld] at ho
  held_of_alive x hx := by simp [halive] at hx
  unique o o' x ho := by simp [hheld] at ho

theorem existsUnique (h : Owned held alive) (hx : alive x = true) : ∃! o, held o = some x := by
  obtain ⟨o, ho⟩ := h.held_of_alive x hx
  exact ⟨o, ho, fun o' ho' => h.unique o' o x ho' ho⟩

/-- A thing that does not exist is held by nobody. -/
theorem not_held (h : Owned held alive) (hx : alive x = false) (o : ω) : held o ≠ some x := by
  intro ho
  rw [h.alive_of_held o x ho] at hx
  cases hx

variable [DecidableEq ω]

/-- An owner hands over what it holds. -/
theorem move (h : Owned held alive) (ho' : held o' = none) :
    Owned (update (update held o none) o' (held o)) alive := by
  have hafter : ∀ p x, update (update held o none) o' (held o) p = some x →
      p = o' ∧ held o = some x ∨ p ≠ o' ∧ p ≠ o ∧ held p = some x := by
    intro p x hp
    by_cases hpo' : p = o'
    · rw [hpo', update_self] at hp
      exact Or.inl ⟨hpo', hp⟩
    · rw [update_of_ne hpo'] at hp
      by_cases hpo : p = o
      · rw [hpo, update_self] at hp
        cases hp
      · rw [update_of_ne hpo] at hp
        exact Or.inr ⟨hpo', hpo, hp⟩
  refine ⟨fun p x hp => ?_, fun x hx => ?_, fun p q x hp hq => ?_⟩
  · rcases hafter p x hp with ⟨-, hx⟩ | ⟨-, -, hx⟩
    · exact h.alive_of_held o x hx
    · exact h.alive_of_held p x hx
  · obtain ⟨p, hp⟩ := h.held_of_alive x hx
    by_cases hpo : p = o
    · exact ⟨o', by rw [update_self, ← hpo, hp]⟩
    · refine ⟨p, ?_⟩
      rw [update_of_ne, update_of_ne hpo, hp]
      rintro rfl
      rw [ho'] at hp
      cases hp
  · rcases hafter p x hp with ⟨hpo', hx⟩ | ⟨-, hpo, hx⟩ <;>
      rcases hafter q x hq with ⟨hqo', hy⟩ | ⟨-, hqo, hy⟩
    · rw [hpo', hqo']
    · exact absurd (h.unique q o x hy hx) hqo
    · exact absurd (h.unique p o x hx hy) hpo
    · exact h.unique p q x hx hy

variable [DecidableEq α]

/-- A thing comes into being. -/
theorem give (h : Owned held alive) (ho : held o = none) (hx : alive x = false) :
    Owned (update held o (some x)) (update alive x true) where
  alive_of_held p y hp := by
    by_cases hyx : y = x
    · rw [hyx, update_self]
    · by_cases hpo : p = o
      · rw [hpo, update_self] at hp
        exact absurd (Option.some.inj hp).symm hyx
      · rw [update_of_ne hpo] at hp
        rw [update_of_ne hyx]
        exact h.alive_of_held p y hp
  held_of_alive y hy := by
    by_cases hyx : y = x
    · exact ⟨o, by rw [hyx, update_self]⟩
    · rw [update_of_ne hyx] at hy
      obtain ⟨p, hp⟩ := h.held_of_alive y hy
      refine ⟨p, ?_⟩
      rw [update_of_ne, hp]
      rintro rfl
      rw [ho] at hp
      cases hp
  unique p q y hp hq := by
    have hother : ∀ r, r ≠ o → update held o (some x) r = some y → held r = some y ∧ y ≠ x := by
      intro r hr hy
      rw [update_of_ne hr] at hy
      exact ⟨hy, fun hyx => h.not_held hx r (hyx ▸ hy)⟩
    by_cases hpo : p = o <;> by_cases hqo : q = o
    · rw [hpo, hqo]
    · rw [hpo, update_self] at hp
      exact absurd (Option.some.inj hp).symm (hother q hqo hq).2
    · rw [hqo, update_self] at hq
      exact absurd (Option.some.inj hq).symm (hother p hpo hp).2
    · exact h.unique p q y (hother p hpo hp).1 (hother q hqo hq).1

/-- A thing that an owner holds ends. -/
theorem drop (h : Owned held alive) (ho : held o = some x) :
    Owned (update held o none) (update alive x false) where
  alive_of_held p y hp := by
    by_cases hpo : p = o
    · rw [hpo, update_self] at hp
      cases hp
    · rw [update_of_ne hpo] at hp
      rw [update_of_ne]
      · exact h.alive_of_held p y hp
      · rintro rfl
        exact hpo (h.unique p o y hp ho)
  held_of_alive y hy := by
    by_cases hyx : y = x
    · rw [hyx, update_self] at hy
      cases hy
    · rw [update_of_ne hyx] at hy
      obtain ⟨p, hp⟩ := h.held_of_alive y hy
      refine ⟨p, ?_⟩
      rw [update_of_ne, hp]
      rintro rfl
      exact hyx (Option.some.inj (hp.symm.trans ho))
  unique p q y hp hq := by
    have hother : ∀ r, update held o none r = some y → held r = some y := by
      intro r hr
      by_cases hro : r = o
      · rw [hro, update_self] at hr
        cases hr
      · rwa [update_of_ne hro] at hr
    exact h.unique p q y (hother p hp) (hother q hq)

/-- An owner ends what it holds and takes over what another one holds. -/
theorem replace (h : Owned held alive) (hoo' : o ≠ o') (ho' : held o' = some x) :
    Owned (update (update held o' (held o)) o none) (update alive x false) := by
  have hdropped := h.drop ho'
  have hempty : update held o' none o' = none := update_self ..
  have hmoved := hdropped.move (o := o) hempty
  rw [update_of_ne hoo', update_comm hoo', update_idem] at hmoved
  exact hmoved

end Owned

end Ownership
