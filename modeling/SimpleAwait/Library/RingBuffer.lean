import Mathlib.Data.List.Range
import Mathlib.Logic.Function.Basic

/-!
# Ring buffers

`cap` cells are used as a ring: `index cap head i` is the cell `i` places after `head`,
and `contents` lists the `count` cells from `head` on.  Writing behind the last used cell
appends to the contents, and moving `head` on drops the first of them.
-/

namespace Ring

variable {α : Type*} {cap head count : ℕ}

/-- The cell `i` places after `head`. -/
def index (cap head i : ℕ) : ℕ := if head + i ≥ cap then head + i - cap else head + i

/-- The values in `count` cells from `head` on, in ring order. -/
def contents (cap : ℕ) (cells : ℕ → α) (head count : ℕ) : List α :=
  (List.range count).map fun i => cells (index cap head i)

@[simp] theorem index_zero (hhead : head < cap) : index cap head 0 = head := by
  unfold index
  split_ifs <;> omega

/-- Different places within one turn are different cells. -/
theorem index_injective {i j : ℕ} (hi : i < cap) (hj : j < cap)
    (h : index cap head i = index cap head j) : i = j := by
  unfold index at h
  split_ifs at h <;> omega

theorem index_succ (hhead : head < cap) {i : ℕ} (hi : i + 1 < cap + 1) :
    index cap (index cap head 1) i = index cap head (i + 1) := by
  unfold index
  split_ifs <;> omega

@[simp] theorem length_contents (cells : ℕ → α) : (contents cap cells head count).length = count := by
  simp [contents]

@[simp] theorem contents_zero (cells : ℕ → α) : contents cap cells head 0 = [] := rfl

/-- Writing behind the contents appends to them. -/
theorem contents_push (hcount : count < cap) (head : ℕ) (cells : ℕ → α) (a : α) :
    contents cap (Function.update cells (index cap head count) a) head (count + 1) =
      contents cap cells head count ++ [a] := by
  have hold : ∀ i ∈ List.range count,
      Function.update cells (index cap head count) a (index cap head i) =
        cells (index cap head i) := by
    intro i hi
    have hlt := List.mem_range.mp hi
    refine Function.update_of_ne (fun he => ?_) ..
    have := index_injective (by omega) hcount he
    omega
  simp only [contents, List.range_succ, List.map_append, List.map_cons, List.map_nil,
    Function.update_self, List.map_congr_left hold]

/-- Moving the head on drops the first value; its cell may be overwritten. -/
theorem contents_pop (hhead : head < cap) (hcount : count + 1 ≤ cap) (cells : ℕ → α) (a : α) :
    contents cap cells head (count + 1) =
      cells head :: contents cap (Function.update cells head a) (index cap head 1) count := by
  have hrest : ∀ i ∈ List.range count, cells (index cap head (i + 1)) =
      Function.update cells head a (index cap (index cap head 1) i) := by
    intro i hi
    have hlt := List.mem_range.mp hi
    rw [index_succ hhead (by omega), Function.update_of_ne]
    intro he
    have : i + 1 = 0 := by
      have hindex : index cap head (i + 1) = index cap head 0 := by rw [he, index_zero hhead]
      exact index_injective (by omega) (by omega) hindex
    omega
  simp only [contents, List.range_succ_eq_map, List.map_cons, List.map_map, index_zero hhead]
  exact congrArg _ (List.map_congr_left hrest)

/-- Cell `i` is one of the `count` cells from `head` on. -/
def Occupied (cap head count i : ℕ) : Prop := ∃ k < count, index cap head k = i

instance (cap head count i : ℕ) : Decidable (Occupied cap head count i) :=
  inferInstanceAs (Decidable (∃ k < count, _))

theorem not_occupied_zero (cap head i : ℕ) : ¬ Occupied cap head 0 i := by
  rintro ⟨k, hk, -⟩
  omega

theorem occupied_succ {i : ℕ} :
    Occupied cap head (count + 1) i ↔ Occupied cap head count i ∨ i = index cap head count := by
  constructor
  · rintro ⟨k, hk, rfl⟩
    rcases Nat.lt_succ_iff_lt_or_eq.mp hk with hlt | rfl
    · exact Or.inl ⟨k, hlt, rfl⟩
    · exact Or.inr rfl
  · rintro (⟨k, hk, rfl⟩ | rfl)
    · exact ⟨k, by omega, rfl⟩
    · exact ⟨count, by omega, rfl⟩

/-- The cell behind the used ones is not used. -/
theorem not_occupied_index (hcount : count < cap) :
    ¬ Occupied cap head count (index cap head count) := by
  rintro ⟨k, hk, he⟩
  have := index_injective (by omega) hcount he
  omega

theorem occupied_head (hhead : head < cap) : Occupied cap head (count + 1) head :=
  ⟨0, by omega, index_zero hhead⟩

/-- Moving the head on gives up the cell that it was at. -/
theorem occupied_pop (hhead : head < cap) (hcount : count + 1 ≤ cap) {i : ℕ} :
    Occupied cap (index cap head 1) count i ↔ Occupied cap head (count + 1) i ∧ i ≠ head := by
  constructor
  · rintro ⟨k, hk, rfl⟩
    rw [index_succ hhead (by omega)]
    refine ⟨⟨k + 1, by omega, rfl⟩, fun he => ?_⟩
    have hzero : index cap head (k + 1) = index cap head 0 := by rw [he, index_zero hhead]
    have := index_injective (by omega) (by omega) hzero
    omega
  · rintro ⟨⟨k, hk, rfl⟩, hne⟩
    cases k with
    | zero => exact absurd (index_zero hhead) hne
    | succ k => exact ⟨k, by omega, index_succ hhead (by omega)⟩

/-- The place is the sum modulo the capacity. -/
theorem index_eq_mod (hhead : head < cap) {k : ℕ} (hk : k < cap) :
    index cap head k = (head + k) % cap := by
  unfold index
  split_ifs with h
  · rw [Nat.mod_eq_sub_mod h, Nat.mod_eq_of_lt (by omega)]
  · rw [Nat.mod_eq_of_lt (by omega)]

end Ring
