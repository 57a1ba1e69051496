import Mathlib.Data.List.Nodup

/-!
# Taking turns

Whoever is first in a line is served and leaves it, and may join again at its end.  `Abreast` compares
two members: while `y` is in the line whenever somebody is served, nobody is served more than once
more than `y`.  `Share` counts all services: of each `n` in a row `y` has one, where the line is never
longer than `n`.
-/

namespace Lines

universe u

variable {ι : Type u} {x y a : ι} {line line' served new : List ι} {n : ℕ}

/-- In a step from `line` to `line'` some join at the end, or the first is served. -/
inductive Step : (line served line' : List ι) → Prop
  | join (line new : List ι) : Step line [] (line ++ new)
  | serve (a : ι) (line : List ι) : Step (a :: line) [a] line

variable [BEq ι] [LawfulBEq ι]

theorem count_concat_of_ne {b : ι} (hab : a ≠ b) : (served ++ [a]).count b = served.count b := by
  rw [List.count_append, List.count_cons_of_ne hab, List.count_nil, Nat.add_zero]

theorem count_concat_self : (served ++ [a]).count a = served.count a + 1 := by
  rw [List.count_append, List.count_singleton_self]

/-! ## Overtaking -/

/-- `x` was served at most once more than `y`, and not more often while it is ahead of `y` in the line
or `y` is not in the line. -/
structure Abreast (x y : ι) (line served : List ι) : Prop where
  bound : served.count x ≤ served.count y + 1
  ahead : y ∉ line ∨ [x, y].Sublist line → served.count x ≤ served.count y

omit [LawfulBEq ι] in
theorem Abreast.start (x y : ι) (line : List ι) : Abreast x y line [] where
  bound := Nat.zero_le _
  ahead _ := Nat.le_refl _

theorem Abreast.join (h : Abreast x y line served) (hnodup : (line ++ new).Nodup) :
    Abreast x y (line ++ new) served where
  bound := h.bound
  ahead hahead := by
    by_cases hy : y ∈ line
    · rcases hahead with hout | hsub
      · exact absurd (List.mem_append_left new hy) hout
      · -- nobody who joins comes to stand ahead of `y`
        apply h.ahead (Or.inr ?_)
        obtain ⟨l₁, l₂, heq, hl₁, hl₂⟩ := List.sublist_append_iff.mp hsub
        have hynew : y ∉ new := fun hnew => (List.nodup_append.mp hnodup).2.2 y hy y hnew rfl
        cases l₂ with
        | nil =>
            rw [List.append_nil] at heq
            rwa [heq]
        | cons b l₂ =>
            have hlast : y ∈ b :: l₂ := by
              have hmem := congrArg List.getLast? heq
              rw [List.getLast?_append_of_ne_nil _ (List.cons_ne_nil b l₂)] at hmem
              exact List.mem_of_getLast? hmem.symm
            exact absurd (hl₂.subset hlast) hynew
    · exact h.ahead (Or.inl hy)

theorem Abreast.serve (h : Abreast x y (a :: line) served) (hxy : x ≠ y) (hy : y ∈ a :: line)
    (hnodup : (a :: line).Nodup) : Abreast x y line (served ++ [a]) := by
  have hbound := h.bound
  have ha : a ∉ line := (List.nodup_cons.mp hnodup).1
  by_cases hax : a = x
  · subst hax
    have hline : y ∈ line := (List.mem_cons.mp hy).resolve_left fun he => hxy he.symm
    have hahead : served.count a ≤ served.count y :=
      h.ahead (Or.inr ((List.singleton_sublist.mpr hline).cons_cons a))
    constructor
    · rw [count_concat_self, count_concat_of_ne hxy]
      omega
    · rintro (hout | hsub)
      · exact absurd hline hout
      · exact absurd (hsub.subset (by simp)) ha
  · by_cases hay : a = y
    · subst hay
      have hcount : (served ++ [a]).count x ≤ (served ++ [a]).count a := by
        rw [count_concat_self, count_concat_of_ne hax]
        omega
      exact ⟨Nat.le_succ_of_le hcount, fun _ => hcount⟩
    · have hline : y ∈ line := (List.mem_cons.mp hy).resolve_left fun he => hay he.symm
      constructor
      · rw [count_concat_of_ne hax, count_concat_of_ne hay]
        exact hbound
      · rw [count_concat_of_ne hax, count_concat_of_ne hay]
        rintro (hout | hsub)
        · exact absurd hline hout
        · exact h.ahead (Or.inr (hsub.cons a))

theorem Abreast.step (h : Abreast x y line served) (hstep : Step line new line') (hxy : x ≠ y)
    (hy : new ≠ [] → y ∈ line) (hnodup : line.Nodup) (hnodup' : line'.Nodup) :
    Abreast x y line' (served ++ new) := by
  cases hstep with
  | join =>
      rw [List.append_nil]
      exact h.join hnodup'
  | serve => exact h.serve hxy (hy (by simp)) hnodup

/-! ## Shares -/

/-- Of the services so far, `y` had its share in a line of at most `n`; of those ahead of it none has
been counted. -/
structure Share (n : ℕ) (y : ι) (line served : List ι) : Prop where
  waiting : y ∈ line → served.length + line.idxOf y < n * (served.count y + 1)
  out : y ∉ line → served.length ≤ n * served.count y

theorem Share.start (y : ι) (hlength : line.length ≤ n) : Share n y line [] where
  waiting hy := by
    have := List.idxOf_lt_length_iff.mpr hy
    simp only [List.length_nil, List.count_nil]
    omega
  out _ := Nat.zero_le _

theorem Share.join (h : Share n y line served) (hlength : (line ++ new).length ≤ n) :
    Share n y (line ++ new) served where
  waiting hmem := by
    by_cases hy : y ∈ line
    · rw [List.idxOf_append_of_mem hy]
      exact h.waiting hy
    · have hless := h.out hy
      have hidx := List.idxOf_lt_length_iff.mpr hmem
      rw [Nat.mul_succ]
      omega
  out hout := h.out fun hy => hout (List.mem_append_left new hy)

theorem Share.serve (h : Share n y (a :: line) served) (hy : y ∈ a :: line)
    (hnodup : (a :: line).Nodup) : Share n y line (served ++ [a]) := by
  have hless := h.waiting hy
  by_cases hay : a = y
  · subst hay
    constructor
    · exact fun hmem => absurd hmem (List.nodup_cons.mp hnodup).1
    · intro _
      rw [count_concat_self, List.length_append, List.length_singleton]
      omega
  · have hline : y ∈ line := (List.mem_cons.mp hy).resolve_left fun he => hay he.symm
    constructor
    · intro _
      rw [List.idxOf_cons_ne _ hay] at hless
      rw [count_concat_of_ne hay, List.length_append, List.length_singleton]
      omega
    · exact fun hout => absurd hline hout

theorem Share.step (h : Share n y line served) (hstep : Step line new line')
    (hy : new ≠ [] → y ∈ line) (hnodup : line.Nodup) (hlength : line'.length ≤ n) :
    Share n y line' (served ++ new) := by
  cases hstep with
  | join =>
      rw [List.append_nil]
      exact h.join hlength
  | serve => exact h.serve (hy (by simp)) hnodup

end Lines
