import Mathlib.Data.List.Basic
import Mathlib.Logic.Function.Basic

/-!
# Lifetimes of objects in raw storage

A program that manages storage by hand constructs an object at a place, reads it and destroys
it.  A list of such uses is `Lawful` if no object is constructed over a live one and none is
read or destroyed unless it is live; `live` says which places hold an object at its end.  A
lawful list constructs and destroys alternately at every place (`constructed_eq`).

A piece of a program is described by the places it takes from `s` to `s'` (`Takes`): its uses
are lawful where the objects `s` are live and leave the objects `s'`.  Pieces compose by
`Takes.append`.
-/

namespace Lifetimes

/-- A use of the object at a place. -/
inductive Use (ι : Type*)
  | construct (p : ι)
  | read (p : ι)
  | destroy (p : ι)
  deriving DecidableEq

variable {ι : Type*} [DecidableEq ι]

/-- The places that hold an object after one use. -/
def Use.after (s : ι → Bool) : Use ι → ι → Bool
  | .construct p => Function.update s p true
  | .read _ => s
  | .destroy p => Function.update s p false

/-- Only a dead place is constructed at, and only a live object is read or destroyed. -/
def Use.Allowed (s : ι → Bool) : Use ι → Prop
  | .construct p => s p = false
  | .read p | .destroy p => s p = true

/-- The places that hold an object at the end. -/
def live (s : ι → Bool) (uses : List (Use ι)) : ι → Bool := uses.foldl Use.after s

/-- Each use is allowed when it happens. -/
def Lawful : (ι → Bool) → List (Use ι) → Prop
  | _, [] => True
  | s, u :: uses => u.Allowed s ∧ Lawful (u.after s) uses

/-- The uses are lawful where the objects `s` are live, and leave the objects `s'`. -/
structure Takes (s : ι → Bool) (uses : List (Use ι)) (s' : ι → Bool) : Prop where
  lawful : Lawful s uses
  live : live s uses = s'

variable {s s' s'' : ι → Bool} {uses uses' : List (Use ι)} {p : ι}

theorem Lawful.append (h : Lawful s uses) (h' : Lawful (live s uses) uses') :
    Lawful s (uses ++ uses') := by
  induction uses generalizing s with
  | nil => exact h'
  | cons u uses ih => exact ⟨h.1, ih h.2 h'⟩

namespace Takes

theorem nil (s : ι → Bool) : Takes s [] s := ⟨trivial, rfl⟩

theorem append (h : Takes s uses s') (h' : Takes s' uses' s'') : Takes s (uses ++ uses') s'' := by
  obtain ⟨hlawful, rfl⟩ := h
  refine ⟨hlawful.append h'.lawful, ?_⟩
  rw [← h'.live]
  exact List.foldl_append ..

theorem construct (hp : s p = false) : Takes s [.construct p] (Function.update s p true) :=
  ⟨⟨hp, trivial⟩, rfl⟩

theorem read (hp : s p = true) : Takes s [.read p] s := ⟨⟨hp, trivial⟩, rfl⟩

theorem destroy (hp : s p = true) : Takes s [.destroy p] (Function.update s p false) :=
  ⟨⟨hp, trivial⟩, rfl⟩

end Takes

/-- Over a lawful list the objects constructed at a place, with the one that was there, are
those destroyed there, with the one that is left. -/
theorem constructed_eq (h : Lawful s uses) (p : ι) :
    uses.count (.construct p) + (s p).toNat = uses.count (.destroy p) + (live s uses p).toNat := by
  induction uses generalizing s with
  | nil => simp [live]
  | cons u uses ih =>
      have hrest := ih h.2
      have hlive : live s (u :: uses) = live (u.after s) uses := rfl
      rw [hlive]
      cases u with
      | construct r =>
          have hr : s r = false := h.1
          by_cases hpr : r = p
          · subst hpr
            simp [Use.after, hr] at hrest ⊢
            omega
          · simpa [Use.after, hpr, Ne.symm hpr] using hrest
      | read r => simpa [Use.after] using hrest
      | destroy r =>
          have hr : s r = true := h.1
          by_cases hpr : r = p
          · subst hpr
            simp [Use.after, hr] at hrest ⊢
            omega
          · simpa [Use.after, hpr, Ne.symm hpr] using hrest

end Lifetimes
