import Mathlib.Algebra.BigOperators.Group.List.Basic
import Mathlib.Algebra.Order.Ring.Nat
import Mathlib.Data.List.Chain

/-!
# Tilings

An interval cut into tiles that lie one behind the other, each of them free or owned.  A tiling
is the list of its tiles; `placed` tells where they lie, and `Stored` says that some memory holds
them there.  `merge` joins the free tiles that touch: the owned ones stay where they are, and no
two free ones touch afterwards.
-/

namespace Tiling

/-- A tile, with its owner unless it is free. -/
structure Tile (α : Type*) where
  size : ℕ
  owner : Option α

variable {α : Type*} {off stop : ℕ} {l r : List (Tile α)} {t u : Tile α}

/-- The length of the tiled interval. -/
def total (l : List (Tile α)) : ℕ := (l.map Tile.size).sum

@[simp] theorem total_nil : total ([] : List (Tile α)) = 0 := rfl

@[simp] theorem total_cons : total (t :: l) = t.size + total l := List.sum_cons

@[simp] theorem total_append : total (l ++ r) = total l + total r := by
  simp [total]

/-- The tiles with the offsets at which they start. -/
def placed : ℕ → List (Tile α) → List (ℕ × Tile α)
  | _, [] => []
  | off, t :: l => (off, t) :: placed (off + t.size) l

@[simp] theorem placed_nil : placed off ([] : List (Tile α)) = [] := rfl

@[simp] theorem placed_cons : placed off (t :: l) = (off, t) :: placed (off + t.size) l := rfl

theorem placed_append : placed off (l ++ r) = placed off l ++ placed (off + total l) r := by
  induction l generalizing off with
  | nil => simp
  | cons t l ih => simp [ih, Nat.add_assoc]

/-- Every tile lies within the interval. -/
theorem le_of_mem_placed {o : ℕ} (h : (o, t) ∈ placed off l) :
    off ≤ o ∧ o + t.size ≤ off + total l := by
  induction l generalizing off with
  | nil => cases h
  | cons u l ih =>
      rw [placed_cons, List.mem_cons, Prod.mk.injEq] at h
      rcases h with ⟨rfl, rfl⟩ | h
      · simp
      · have := ih h
        rw [total_cons]
        omega

/-- The tiles lie one behind the other. -/
theorem pairwise_placed (off : ℕ) (l : List (Tile α)) :
    (placed off l).Pairwise fun p q => p.1 + p.2.size ≤ q.1 := by
  induction l generalizing off with
  | nil => exact List.Pairwise.nil
  | cons t l ih => exact List.Pairwise.cons (fun q hq => (le_of_mem_placed hq).1) (ih _)

/-- The tiles in front of a tile and behind it. -/
theorem exists_split {o : ℕ} (h : (o, t) ∈ placed off l) :
    ∃ front back, l = front ++ t :: back ∧ o = off + total front := by
  induction l generalizing off with
  | nil => cases h
  | cons u l ih =>
      rw [placed_cons, List.mem_cons, Prod.mk.injEq] at h
      rcases h with ⟨rfl, rfl⟩ | h
      · exact ⟨[], l, rfl, by simp⟩
      · obtain ⟨front, back, rfl, ho⟩ := ih h
        exact ⟨u :: front, back, rfl, by rw [ho, total_cons, Nat.add_assoc]⟩

/-- Two tiles are the same, or one lies behind the other. -/
theorem placed_apart {o o' : ℕ} (h : (o, t) ∈ placed off l) (h' : (o', u) ∈ placed off l) :
    (o = o' ∧ t = u) ∨ o + t.size ≤ o' ∨ o' + u.size ≤ o := by
  induction l generalizing off with
  | nil => cases h
  | cons v l ih =>
      rw [placed_cons, List.mem_cons, Prod.mk.injEq] at h h'
      rcases h with ⟨rfl, rfl⟩ | h <;> rcases h' with ⟨rfl, rfl⟩ | h'
      · exact Or.inl ⟨rfl, rfl⟩
      · exact Or.inr (Or.inl (le_of_mem_placed h').1)
      · exact Or.inr (Or.inr (le_of_mem_placed h).1)
      · exact ih h h'

/-- Every place in the interval lies on a tile. -/
theorem exists_placed_of_lt {x : ℕ} (hle : off ≤ x) (hlt : x < off + total l) :
    ∃ o t, (o, t) ∈ placed off l ∧ o ≤ x ∧ x < o + t.size := by
  induction l generalizing off with
  | nil =>
      rw [total_nil] at hlt
      omega
  | cons t l ih =>
      rw [total_cons] at hlt
      by_cases hx : x < off + t.size
      · exact ⟨off, t, List.mem_cons_self .., hle, hx⟩
      · obtain ⟨o, u, hmem, hu⟩ := ih (show off + t.size ≤ x by omega) (by omega)
        exact ⟨o, u, List.mem_cons_of_mem _ hmem, hu⟩

theorem map_snd_placed (off : ℕ) (l : List (Tile α)) : (placed off l).map Prod.snd = l := by
  induction l generalizing off with
  | nil => rfl
  | cons t l ih => rw [placed_cons, List.map_cons, ih]

theorem mem_of_mem_placed {q : ℕ × Tile α} (h : q ∈ placed off l) : q.2 ∈ l := by
  rw [← map_snd_placed off l]
  exact List.mem_map_of_mem h

/-! ## Owned tiles -/

/-- The owned tiles and where they lie. -/
def owned (off : ℕ) (l : List (Tile α)) : List (ℕ × Tile α) :=
  (placed off l).filter fun p => p.2.owner.isSome

@[simp] theorem owned_nil : owned off ([] : List (Tile α)) = [] := rfl

theorem owned_cons : owned off (t :: l) =
    if t.owner = none then owned (off + t.size) l else (off, t) :: owned (off + t.size) l := by
  rw [owned, placed_cons, List.filter_cons]
  cases t.owner <;> rfl

theorem owned_append : owned off (l ++ r) = owned off l ++ owned (off + total l) r := by
  rw [owned, placed_append, List.filter_append, owned, owned]

/-- The size of the owned tiles together. -/
def ownedSize (l : List (Tile α)) : ℕ := ((owned 0 l).map fun p => p.2.size).sum

@[simp] theorem ownedSize_nil : ownedSize ([] : List (Tile α)) = 0 := rfl

theorem ownedSize_eq (off : ℕ) (l : List (Tile α)) :
    ownedSize l = ((owned off l).map fun p => p.2.size).sum := by
  have hall : ∀ off off' : ℕ, ((owned off l).map fun p => p.2.size) =
      (owned off' l).map fun p => p.2.size := by
    induction l with
    | nil => simp
    | cons t l ih =>
        intro off off'
        rw [owned_cons, owned_cons]
        split_ifs
        · exact ih _ _
        · rw [List.map_cons, List.map_cons, ih]
  rw [ownedSize, hall]

theorem ownedSize_append : ownedSize (l ++ r) = ownedSize l + ownedSize r := by
  rw [ownedSize, owned_append, List.map_append, List.sum_append, ← ownedSize_eq, ← ownedSize_eq]

theorem ownedSize_cons : ownedSize (t :: l) =
    (if t.owner = none then 0 else t.size) + ownedSize l := by
  rw [ownedSize, owned_cons]
  split_ifs
  · rw [← ownedSize_eq, Nat.zero_add]
  · rw [List.map_cons, List.sum_cons, ← ownedSize_eq]

theorem ownedSize_le (l : List (Tile α)) : ownedSize l ≤ total l := by
  induction l with
  | nil => exact Nat.zero_le _
  | cons t l ih =>
      rw [ownedSize_cons, total_cons]
      split_ifs <;> omega

/-! ## Merging -/

/-- No two free tiles touch. -/
def Merged (l : List (Tile α)) : Prop := l.IsChain fun t u => t.owner ≠ none ∨ u.owner ≠ none

/-- Put a tile in front, joined with the first one if both are free. -/
def push (t : Tile α) : List (Tile α) → List (Tile α)
  | [] => [t]
  | u :: l => if t.owner = none ∧ u.owner = none then ⟨t.size + u.size, none⟩ :: l else t :: u :: l

/-- Join all free tiles that touch. -/
def merge : List (Tile α) → List (Tile α)
  | [] => []
  | t :: l => push t (merge l)

theorem push_free (ht : t.owner = none) (hu : u.owner = none) :
    push t (u :: l) = ⟨t.size + u.size, none⟩ :: l := by
  rw [push, if_pos ⟨ht, hu⟩]

theorem push_owned (h : t.owner ≠ none ∨ u.owner ≠ none) : push t (u :: l) = t :: u :: l := by
  rw [push, if_neg (by tauto)]

theorem owned_push : owned off (push t l) = owned off (t :: l) := by
  cases l with
  | nil => rfl
  | cons u l =>
      by_cases h : t.owner = none ∧ u.owner = none
      · rw [push_free h.1 h.2, owned_cons, owned_cons, owned_cons, if_pos rfl, if_pos h.1, if_pos h.2,
          Nat.add_assoc]
      · rw [push_owned (by tauto)]

/-- The tile in front begins with `t`, and is free exactly if `t` is. -/
theorem exists_push (t : Tile α) (l : List (Tile α)) :
    ∃ v r, push t l = v :: r ∧ (v.owner = none ↔ t.owner = none) := by
  cases l with
  | nil => exact ⟨t, [], rfl, Iff.rfl⟩
  | cons u l =>
      by_cases h : t.owner = none ∧ u.owner = none
      · exact ⟨_, _, push_free h.1 h.2, iff_of_true rfl h.1⟩
      · exact ⟨_, _, push_owned (by tauto), Iff.rfl⟩

theorem merged_push (h : Merged l) : Merged (push t l) := by
  cases l with
  | nil => exact List.IsChain.singleton t
  | cons u l =>
      by_cases hfree : t.owner = none ∧ u.owner = none
      · rw [push_free hfree.1 hfree.2]
        cases l with
        | nil => exact List.IsChain.singleton _
        | cons v l =>
            obtain ⟨huv, hl⟩ := List.isChain_cons_cons.mp h
            exact List.isChain_cons_cons.mpr ⟨Or.inr (huv.resolve_left (by simp [hfree.2])), hl⟩
      · rw [push_owned (by tauto)]
        exact List.isChain_cons_cons.mpr ⟨by tauto, h⟩

@[simp] theorem merge_nil : merge ([] : List (Tile α)) = [] := rfl

@[simp] theorem merge_cons : merge (t :: l) = push t (merge l) := rfl

theorem owned_merge : owned off (merge l) = owned off l := by
  induction l generalizing off with
  | nil => rfl
  | cons t l ih => rw [merge_cons, owned_push, owned_cons, owned_cons, ih]

theorem ownedSize_merge : ownedSize (merge l) = ownedSize l := by
  rw [ownedSize, owned_merge, ownedSize]

theorem merged_merge (l : List (Tile α)) : Merged (merge l) := by
  induction l with
  | nil => exact List.IsChain.nil
  | cons t l ih => exact merged_push ih

/-- Two free tiles that touch may be joined first. -/
theorem merge_join (ht : t.owner = none) (hu : u.owner = none) :
    merge (⟨t.size + u.size, none⟩ :: l) = merge (t :: u :: l) := by
  rw [merge_cons, merge_cons, merge_cons]
  cases merge l with
  | nil => rw [show push u [] = [u] from rfl, push_free ht hu]; rfl
  | cons v r =>
      by_cases hv : v.owner = none
      · rw [push_free rfl hv, push_free hu hv, push_free ht rfl, Nat.add_assoc]
      · rw [push_owned (Or.inr hv), push_owned (Or.inr hv), push_free ht hu]

/-- A tile that cannot be joined with the next one stays as it is. -/
theorem merge_skip (h : t.owner ≠ none ∨ u.owner ≠ none) :
    merge (t :: u :: l) = t :: merge (u :: l) := by
  obtain ⟨v, r, hpush, hv⟩ := exists_push u (merge l)
  rw [merge_cons, merge_cons, hpush, push_owned (by tauto)]

/-! ## Merged tilings -/

theorem Merged.tail (h : Merged (t :: l)) : Merged l := List.IsChain.tail h

/-- Of two tiles that touch, one is owned. -/
theorem Merged.touching (h : Merged l) (hpos : ∀ t ∈ l, 0 < t.size) {o : ℕ}
    (ht : (o, t) ∈ placed off l) (hu : (o + t.size, u) ∈ placed off l) :
    t.owner ≠ none ∨ u.owner ≠ none := by
  induction l generalizing off with
  | nil => cases ht
  | cons v l ih =>
      have hl : Merged l := h.tail
      have hposl : ∀ t ∈ l, 0 < t.size := fun t ht => hpos t (List.mem_cons_of_mem _ ht)
      have htpos := hpos t (mem_of_mem_placed ht)
      have hupos := hpos u (mem_of_mem_placed hu)
      rw [placed_cons, List.mem_cons, Prod.mk.injEq] at ht hu
      rcases ht with ⟨rfl, rfl⟩ | ht
      · rcases hu with ⟨hoff, -⟩ | hu
        · omega
        cases l with
        | nil => cases hu
        | cons x l =>
            rw [placed_cons, List.mem_cons, Prod.mk.injEq] at hu
            rcases hu with ⟨-, rfl⟩ | hu
            · exact (List.isChain_cons_cons.mp h).1
            · have := (le_of_mem_placed hu).1
              have := hposl x (List.mem_cons_self ..)
              omega
      · have hle := (le_of_mem_placed ht).1
        rcases hu with ⟨hoff, -⟩ | hu
        · omega
        · exact ih hl hposl ht hu

/-- Behind a free tile of a merged tiling lies an owned one, unless it is the last. -/
theorem Merged.owned_behind (h : Merged (t :: l)) (ht : t.owner = none) :
    l = [] ∨ ∃ u l', l = u :: l' ∧ ∀ o, owned o l = (o, u) :: owned (o + u.size) l' := by
  cases l with
  | nil => exact Or.inl rfl
  | cons u l =>
      have hu := (List.isChain_cons_cons.mp h).1.resolve_left (by simp [ht])
      exact Or.inr ⟨u, l, rfl, fun o => by rw [owned_cons, if_neg hu]⟩

/-- The owned tiles from an offset on do not begin before it. -/
theorem owned_ne_cons {q : ℕ × Tile α} {qs : List (ℕ × Tile α)} {o : ℕ} (h : q.1 < o) :
    owned o l ≠ q :: qs := by
  intro he
  have hmem : q ∈ owned o l := by
    rw [he]
    exact List.mem_cons_self ..
  have := (le_of_mem_placed (List.mem_filter.mp hmem).1).1
  omega

/-- A merged tiling is determined by its owned tiles. -/
theorem Merged.unique (hl : Merged l) (hr : Merged r) (hlpos : ∀ t ∈ l, 0 < t.size)
    (hrpos : ∀ t ∈ r, 0 < t.size) (htotal : total l = total r)
    (howned : owned off l = owned off r) : l = r := by
  induction l generalizing off r with
  | nil =>
      cases r with
      | nil => rfl
      | cons u r =>
          have := hrpos u (List.mem_cons_self ..)
          simp at htotal
          omega
  | cons t l ih =>
      have htpos := hlpos t (List.mem_cons_self ..)
      cases r with
      | nil =>
          simp at htotal
          omega
      | cons u r =>
          have hupos := hrpos u (List.mem_cons_self ..)
          have hlpos' : ∀ t ∈ l, 0 < t.size := fun t ht => hlpos t (List.mem_cons_of_mem _ ht)
          have hrpos' : ∀ t ∈ r, 0 < t.size := fun t ht => hrpos t (List.mem_cons_of_mem _ ht)
          rw [owned_cons, owned_cons] at howned
          rw [total_cons, total_cons] at htotal
          have hsize : t = u := by
            by_cases ht : t.owner = none <;> by_cases hu : u.owner = none
            · rw [if_pos ht, if_pos hu] at howned
              have heq : t.size = u.size := by
                rcases hl.owned_behind ht with rfl | ⟨v, l', rfl, hv⟩ <;>
                  rcases hr.owned_behind hu with rfl | ⟨v', r', rfl, hv'⟩
                · simpa using htotal
                · rw [hv'] at howned
                  cases howned
                · rw [hv] at howned
                  cases howned
                · rw [hv, hv'] at howned
                  have := congrArg Prod.fst (List.cons.inj howned).1
                  dsimp only at this
                  omega
              cases t
              cases u
              simp_all
            · rw [if_pos ht, if_neg hu] at howned
              exact absurd howned (owned_ne_cons (by dsimp only; omega))
            · rw [if_neg ht, if_pos hu] at howned
              exact absurd howned.symm (owned_ne_cons (by dsimp only; omega))
            · rw [if_neg ht, if_neg hu] at howned
              exact (Prod.mk.inj (List.cons.inj howned).1).2
          subst hsize
          have hrest : owned (off + t.size) l = owned (off + t.size) r := by
            split_ifs at howned
            · exact howned
            · exact (List.cons.inj howned).2
          rw [ih hl.tail hr.tail hlpos' hrpos' (by omega) hrest]

/-! ## Replacing a free tile -/

theorem merged_cons_owned (hu : u.owner ≠ none) : Merged (u :: l) ↔ Merged l := by
  rw [Merged, List.isChain_cons]
  exact and_iff_right fun _ _ => Or.inl hu

/-- A tile may be replaced by an owned one. -/
theorem Merged.own (h : Merged (l ++ t :: r)) (hu : u.owner ≠ none) : Merged (l ++ u :: r) := by
  obtain ⟨hl, hr, -⟩ := List.isChain_append.mp h
  refine List.isChain_append.mpr ⟨hl, (merged_cons_owned hu).mpr hr.tail, ?_⟩
  rintro x - y hy
  obtain rfl : u = y := by simpa using hy
  exact Or.inr hu

/-- A free tile may be replaced by an owned one with any tile behind it. -/
theorem Merged.split (h : Merged (l ++ t :: r)) (ht : t.owner = none) (hu : u.owner ≠ none)
    (v : Tile α) : Merged (l ++ u :: v :: r) := by
  obtain ⟨-, hr, -⟩ := List.isChain_append.mp h
  obtain ⟨hl, -, hlast⟩ := List.isChain_append.mp (h.own hu)
  refine List.isChain_append.mpr ⟨hl, (merged_cons_owned hu).mpr ?_, hlast⟩
  refine List.isChain_cons.mpr ⟨fun y hy => Or.inr ?_, hr.tail⟩
  exact ((List.isChain_cons.mp hr).1 y hy).resolve_left (by simp [ht])

/-! ## Tilings in memory -/

/-- The memory, described by `holds`, stores the tiles from `off` on, and they end at `stop`. -/
def Stored (holds : ℕ → Tile α → Prop) (stop : ℕ) : ℕ → List (Tile α) → Prop
  | off, [] => off = stop
  | off, t :: l => holds off t ∧ Stored holds stop (off + t.size) l

variable {holds holds' : ℕ → Tile α → Prop}

@[simp] theorem stored_nil : Stored holds stop off [] ↔ off = stop := Iff.rfl

@[simp] theorem stored_cons : Stored holds stop off (t :: l) ↔
    holds off t ∧ Stored holds stop (off + t.size) l := Iff.rfl

theorem stored_iff : Stored holds stop off l ↔
    off + total l = stop ∧ ∀ o t, (o, t) ∈ placed off l → holds o t := by
  induction l generalizing off with
  | nil => simp
  | cons t l ih =>
      simp only [stored_cons, ih, total_cons, placed_cons, List.mem_cons, Prod.mk.injEq,
        Nat.add_assoc]
      constructor
      · rintro ⟨ht, htotal, hl⟩
        refine ⟨htotal, ?_⟩
        rintro o u (⟨rfl, rfl⟩ | hmem)
        · exact ht
        · exact hl o u hmem
      · rintro ⟨htotal, hall⟩
        exact ⟨hall off t (Or.inl ⟨rfl, rfl⟩), htotal, fun o u hmem => hall o u (Or.inr hmem)⟩

theorem Stored.total_eq (h : Stored holds stop off l) : off + total l = stop := (stored_iff.mp h).1

theorem stored_append : Stored holds stop off (l ++ r) ↔
    Stored holds (off + total l) off l ∧ Stored holds stop (off + total l) r := by
  induction l generalizing off with
  | nil => simp
  | cons t l ih => simp [ih, Nat.add_assoc, and_assoc]

/-- Writes that leave the stored tiles alone. -/
theorem Stored.congr (h : Stored holds stop off l)
    (hsame : ∀ o t, (o, t) ∈ placed off l → holds o t → holds' o t) : Stored holds' stop off l := by
  rw [stored_iff] at h ⊢
  exact ⟨h.1, fun o t hmem => hsame o t hmem (h.2 o t hmem)⟩

/-- Writes to one tile. -/
theorem Stored.replace {m : List (Tile α)} (h : Stored holds stop off (l ++ t :: r))
    (hm : Stored holds' (off + total l + t.size) (off + total l) m)
    (hsame : ∀ o u, (o, u) ∈ placed off (l ++ t :: r) →
      o + u.size ≤ off + total l ∨ off + total l + t.size ≤ o → holds o u → holds' o u) :
    Stored holds' stop off (l ++ (m ++ r)) := by
  rw [placed_append, placed_cons] at hsame
  obtain ⟨hl, hr⟩ := stored_append.mp h
  have htotal := hm.total_eq
  refine stored_append.mpr ⟨hl.congr fun o u hu => hsame o u (List.mem_append_left _ hu) (Or.inl ?_),
    stored_append.mpr ⟨by rwa [htotal], ?_⟩⟩
  · exact (le_of_mem_placed hu).2
  · rw [htotal]
    exact (stored_cons.mp hr).2.congr fun o u hu =>
      hsame o u (List.mem_append_right _ (List.mem_cons_of_mem _ hu))
        (Or.inr (le_of_mem_placed hu).1)

/-- There are no more tiles than the interval has units, if none is empty. -/
theorem length_le_total (h : ∀ t ∈ l, 0 < t.size) : l.length ≤ total l := by
  induction l with
  | nil => exact Nat.zero_le _
  | cons t l ih =>
      have := ih fun u hu => h u (List.mem_cons_of_mem _ hu)
      have := h t (List.mem_cons_self ..)
      rw [List.length_cons, total_cons]
      omega

end Tiling
