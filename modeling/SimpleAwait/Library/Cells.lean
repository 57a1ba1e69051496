import Mathlib.Data.Nat.ModEq
import SimpleAwait.Library.Tiling

/-!
# Tilings by cells

A tiling is `Cellular` for a cell length `c` if its tiles start at multiples of `c` and each owned
one covers a single cell.  Then the interval has as many cells as there are owned tiles and free
cells, so that a free cell is left until they are all owned; joining free tiles, owning a cell and
giving one back keep it so.

In any merged tiling, the free tiles outnumber the owned ones by one at most.
-/

namespace Tiling

variable {α : Type*} {c off : ℕ} {l r : List (Tile α)} {t u : Tile α}

/-- The tiles start at multiples of `c`, and an owned one has one cell. -/
structure Cellular (c off : ℕ) (l : List (Tile α)) : Prop where
  start : ∀ q ∈ placed off l, c ∣ q.1
  single : ∀ t ∈ l, t.owner ≠ none → t.size / c = 1

/-- The owned tiles, counted. -/
def ownedCount (l : List (Tile α)) : ℕ := l.countP fun t => t.owner.isSome

/-- The cells on free tiles. -/
def freeCells (c : ℕ) (l : List (Tile α)) : ℕ :=
  (l.map fun t => if t.owner.isSome then 0 else t.size / c).sum

theorem ownedCount_cons : ownedCount (t :: l) = ownedCount l + if t.owner.isSome then 1 else 0 :=
  List.countP_cons

theorem freeCells_cons : freeCells c (t :: l) =
    (if t.owner.isSome then 0 else t.size / c) + freeCells c l := List.sum_cons

/-- No cell is free exactly if no free tile has one. -/
theorem freeCells_eq_zero :
    freeCells c l = 0 ↔ ∀ t ∈ l, t.owner = none → t.size / c = 0 := by
  induction l with
  | nil => simp [freeCells]
  | cons t l ih =>
      rw [freeCells_cons, Nat.add_eq_zero_iff, ih, List.forall_mem_cons]
      refine and_congr_left fun _ => ?_
      cases t.owner <;> simp

theorem cellular_nil : Cellular c off ([] : List (Tile α)) := ⟨by simp, by simp⟩

theorem cellular_cons : Cellular c off (t :: l) ↔
    c ∣ off ∧ (t.owner ≠ none → t.size / c = 1) ∧ Cellular c (off + t.size) l := by
  constructor
  · intro h
    refine ⟨h.start (off, t) (List.mem_cons_self ..), h.single t (List.mem_cons_self ..), ?_⟩
    exact ⟨fun q hq => h.start q (List.mem_cons_of_mem _ hq),
      fun u hu => h.single u (List.mem_cons_of_mem _ hu)⟩
  · intro ⟨hoff, ht, hl⟩
    refine ⟨fun q hq => ?_, fun u hu => ?_⟩
    · rcases List.mem_cons.mp hq with rfl | hq
      · exact hoff
      · exact hl.start q hq
    · rcases List.mem_cons.mp hu with rfl | hu
      · exact ht
      · exact hl.single u hu

theorem cellular_append :
    Cellular c off (l ++ r) ↔ Cellular c off l ∧ Cellular c (off + total l) r := by
  induction l generalizing off with
  | nil => simp [cellular_nil]
  | cons t l ih =>
      rw [List.cons_append, cellular_cons, cellular_cons, ih, total_cons, Nat.add_assoc]
      tauto

/-! ## Counting cells -/

/-- The cells of the interval are those on owned tiles and those on free ones. -/
theorem Cellular.count (h : Cellular c off l) :
    total l / c = ownedCount l + freeCells c l := by
  induction l generalizing off with
  | nil => simp [ownedCount, freeCells]
  | cons t l ih =>
      obtain ⟨hoff, hsingle, hrest⟩ := cellular_cons.mp h
      have hhead : t.size / c = (if t.owner.isSome then 1 else 0) +
          if t.owner.isSome then 0 else t.size / c := by
        cases howner : t.owner with
        | none => simp
        | some a => simpa [howner] using hsingle
      have hsplit : (t.size + total l) / c = t.size / c + total l / c := by
        cases l with
        | nil => simp
        | cons u l =>
            -- the tile ends where the next one starts, at a multiple of the length
            have hnext : c ∣ off + t.size := (cellular_cons.mp hrest).1
            exact Nat.add_div_of_dvd_right ((Nat.dvd_add_right hoff).mp hnext)
      calc total (t :: l) / c
          = t.size / c + (ownedCount l + freeCells c l) := by rw [total_cons, hsplit, ih hrest]
        _ = ownedCount (t :: l) + freeCells c (t :: l) := by
          rw [ownedCount_cons, freeCells_cons]
          omega

/-! ## Keeping the cells -/

theorem Cellular.push (h : Cellular c off (t :: l)) : Cellular c off (push t l) := by
  cases l with
  | nil => exact h
  | cons u l =>
      by_cases hfree : t.owner = none ∧ u.owner = none
      · obtain ⟨hoff, -, hrest⟩ := cellular_cons.mp h
        obtain ⟨-, -, hl⟩ := cellular_cons.mp hrest
        rw [push_free hfree.1 hfree.2, cellular_cons, ← Nat.add_assoc]
        exact ⟨hoff, fun hne => absurd rfl hne, hl⟩
      · rw [push_owned (by tauto)]
        exact h

/-- Joining free tiles. -/
theorem Cellular.merge (h : Cellular c off l) : Cellular c off (merge l) := by
  induction l generalizing off with
  | nil => exact h
  | cons t l ih =>
      obtain ⟨hoff, hsingle, hrest⟩ := cellular_cons.mp h
      exact Cellular.push (cellular_cons.mpr ⟨hoff, hsingle, ih hrest⟩)

/-- Giving a cell back. -/
theorem Cellular.release (h : Cellular c off (l ++ t :: r)) :
    Cellular c off (l ++ ⟨t.size, none⟩ :: r) := by
  obtain ⟨hl, hrest⟩ := cellular_append.mp h
  obtain ⟨hoff, -, hr⟩ := cellular_cons.mp hrest
  exact cellular_append.mpr ⟨hl, cellular_cons.mpr ⟨hoff, fun hne => absurd rfl hne, hr⟩⟩

/-- Owning the first cell of a tile, which is split. -/
theorem Cellular.split (h : Cellular c off (l ++ t :: r)) (hc : 0 < c) (hle : c ≤ t.size)
    {owner : Option α} : Cellular c off (l ++ ⟨c, owner⟩ :: ⟨t.size - c, none⟩ :: r) := by
  obtain ⟨hl, hrest⟩ := cellular_append.mp h
  obtain ⟨hoff, -, hr⟩ := cellular_cons.mp hrest
  refine cellular_append.mpr ⟨hl, cellular_cons.mpr ⟨hoff, fun _ => Nat.div_self hc, ?_⟩⟩
  refine cellular_cons.mpr ⟨(Nat.dvd_add_right hoff).mpr (dvd_refl c), fun hne => absurd rfl hne, ?_⟩
  have hend : off + total l + c + (t.size - c) = off + total l + t.size := by omega
  dsimp only
  rwa [hend]

/-- Owning a tile of one cell. -/
theorem Cellular.own (h : Cellular c off (l ++ t :: r)) (hone : t.size / c = 1)
    {owner : Option α} : Cellular c off (l ++ ⟨t.size, owner⟩ :: r) := by
  obtain ⟨hl, hrest⟩ := cellular_append.mp h
  obtain ⟨hoff, -, hr⟩ := cellular_cons.mp hrest
  exact cellular_append.mpr ⟨hl, cellular_cons.mpr ⟨hoff, fun _ => hone, hr⟩⟩

/-! ## Free tiles among owned ones -/

theorem dvd_total (h : ∀ t ∈ l, c ∣ t.size) : c ∣ total l := by
  induction l with
  | nil => exact dvd_zero c
  | cons t l ih =>
      rw [total_cons]
      exact Nat.dvd_add (h t (List.mem_cons_self ..)) (ih fun u hu => h u (List.mem_cons_of_mem _ hu))

/-- The free tiles, with their positions. -/
def vacant (off : ℕ) (l : List (Tile α)) : List (ℕ × Tile α) :=
  (placed off l).filter fun p => p.2.owner.isNone

theorem vacant_cons : vacant off (t :: l) =
    if t.owner = none then (off, t) :: vacant (off + t.size) l else vacant (off + t.size) l := by
  rw [vacant, placed_cons, List.filter_cons]
  cases t.owner <;> rfl

theorem length_vacant (off : ℕ) (l : List (Tile α)) :
    (vacant off l).length = l.countP fun t => t.owner.isNone := by
  conv_rhs => rw [← map_snd_placed off l, List.countP_map]
  rw [vacant, ← List.countP_eq_length_filter]
  rfl

/-- What is not owned is free. -/
theorem size_vacant (off : ℕ) (l : List (Tile α)) :
    ((vacant off l).map fun p => p.2.size).sum + ownedSize l = total l := by
  induction l generalizing off with
  | nil => simp [vacant]
  | cons t l ih =>
      have hl := ih (off + t.size)
      rw [vacant_cons, ownedSize_cons, total_cons]
      split_ifs
      · rw [List.map_cons, List.sum_cons]
        dsimp only
        omega
      · omega

/-- Between two free tiles lies an owned one. -/
theorem Merged.free_le (h : Merged l) :
    (l.countP fun t => t.owner.isNone) ≤ ownedCount l + 1 := by
  -- a tiling that starts with an owned tile has no more free tiles than owned ones
  have hstrong : (l.countP fun t => t.owner.isNone) ≤
      ownedCount l + if (l.head?.bind Tile.owner).isNone then 1 else 0 := by
    induction l with
    | nil => simp
    | cons t l ih =>
        have hl := ih h.tail
        rw [List.countP_cons, ownedCount_cons]
        cases howner : t.owner with
        | some a => simp [howner] at hl ⊢; split_ifs at hl <;> omega
        | none =>
            cases l with
            | nil => simp [howner, ownedCount]
            | cons u l =>
                have hu : u.owner ≠ none :=
                  (List.isChain_cons_cons.mp h).1.resolve_left (by simp [howner])
                obtain ⟨a, ha⟩ := Option.ne_none_iff_exists'.mp hu
                simp [howner, ha] at hl ⊢
                omega
  refine hstrong.trans (Nat.add_le_add_left ?_ _)
  split_ifs <;> omega

end Tiling
