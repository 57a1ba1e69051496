import Mathlib.Algebra.Order.BigOperators.Group.List
import SimpleAwait.FramePool.Layout
import SimpleAwait.Library.Cells

/-!
# How many frames a pool has room for

A pool whose requests all come to the same number of bytes, header and rounding included, cannot be
fragmented: its blocks start at multiples of that number, and whatever the order in which frames come
and go, a frame is refused only where the arena is full of them.  Frames of different sizes may
fragment the pool, but each live one separates at most two free blocks: what is free is enough for a
request as soon as it is more than the blocks between the live ones can keep from it.
-/

namespace SimpleAwait

open Tiling Transition

variable {w : ℕ} {P : PoolConfig w} {memory : FramePool w} {s s' : PoolState w}
  {tiles pre post : List (Tile (Allocation w))} {t : Tile (Allocation w)} {a : Allocation w}
  {calls : List (PoolAction w)} {size align p : BitVec w} {c o : ℕ}

/-- What a frame of `size` bytes takes, with its header and rounded up. -/
def PoolConfig.frameBytes (P : PoolConfig w) (size : BitVec w) : ℕ :=
  Words.roundUp (P.kHeader.toNat + size.toNat) P.kAlign.toNat

/-- The request is for a frame of at least one byte that takes `c` bytes and needs no special
alignment. -/
def PoolConfig.IsFrame (P : PoolConfig w) (c : ℕ) (size align : BitVec w) : Prop :=
  align ≤ P.kAlign ∧ 0#w < size ∧ P.frameBytes size = c

instance (P : PoolConfig w) (c : ℕ) (size align : BitVec w) : Decidable (P.IsFrame c size align) :=
  inferInstanceAs (Decidable (_ ∧ _ ∧ _))

/-- All requests among the calls are for such frames. -/
def PoolConfig.Uniform (P : PoolConfig w) (c : ℕ) (calls : List (PoolAction w)) : Prop :=
  ∀ size align, .allocate size align ∈ calls → P.IsFrame c size align

/-! ## One request -/

/-- Without a special alignment there is no padding. -/
theorem PoolConfig.payloadOffset_eq (P : PoolConfig w) (ho : P.kAlign.toNat ∣ o) :
    P.payloadOffset P.kAlign.toNat o = P.kHeader.toNat := by
  have hdvd : P.kAlign.toNat ∣ P.storage.toNat + o + P.kHeader.toNat :=
    Nat.dvd_add (Nat.dvd_add P.storage_aligned ho) P.kAlign_dvd_kHeader
  rw [PoolConfig.payloadOffset, Words.padding, Nat.mod_eq_zero_of_dvd hdvd]
  simp

/-- A block holds a frame exactly if it is free and as long as the frame with its header. -/
theorem PoolConfig.canHold_iff (ho : P.kAlign.toNat ∣ o) (hblock : P.IsBlock o t)
    (halign : align ≤ P.kAlign) :
    P.CanHold size.toNat (max align.toNat P.kAlign.toNat) o t ↔
      t.owner = none ∧ P.frameBytes size ≤ t.size := by
  have hmax : max align.toNat P.kAlign.toNat = P.kAlign.toNat :=
    max_eq_right (BitVec.le_def.mp halign)
  rw [PoolConfig.CanHold, hmax, P.payloadOffset_eq ho, PoolConfig.frameBytes]
  refine and_congr_right fun _ => ⟨Words.roundUp_le P.kAlign_pos hblock.dvd, fun hle => ?_⟩
  exact (Words.le_roundUp _ P.kAlign_pos).trans hle

/-- Blocks start at multiples of the alignment. -/
theorem Arena.kAlign_dvd {pool : FramePool w} (h : Arena P pool tiles)
    (hmem : (o, t) ∈ placed 0 tiles) : P.kAlign.toNat ∣ o := by
  obtain ⟨front, back, rfl, rfl⟩ := exists_split hmem
  rw [Nat.zero_add]
  refine dvd_total fun u hu => ?_
  obtain ⟨before, behind, rfl⟩ := List.append_of_mem hu
  rw [List.append_assoc] at h
  exact (PoolConfig.areBlocks_append.mp h.blocks).2.head.dvd

namespace PoolConfig.IsFrame

variable (hframe : P.IsFrame c size align)

include hframe

theorem dvd : P.kAlign.toNat ∣ c := by
  rw [← hframe.2.2]
  exact Words.dvd_roundUp _ _

/-- A frame with a byte in it is longer than the smallest block that is split off. -/
theorem kHeader_le : P.kHeader.toNat + P.kAlign.toNat ≤ c := by
  have hpos : 0 < size.toNat := BitVec.lt_def.mp hframe.2.1
  have hlt : P.kHeader.toNat < c := by
    have hle := Words.le_roundUp (P.kHeader.toNat + size.toNat) P.kAlign_pos
    rw [← hframe.2.2, PoolConfig.frameBytes]
    omega
  exact add_le_of_dvd P.kAlign_dvd_kHeader hframe.dvd hlt

theorem needed_eq (ho : c ∣ o) : P.needed size.toNat (max align.toNat P.kAlign.toNat) o = c := by
  have hmax : max align.toNat P.kAlign.toNat = P.kAlign.toNat :=
    max_eq_right (BitVec.le_def.mp hframe.1)
  rw [PoolConfig.needed, hmax, P.payloadOffset_eq (hframe.dvd.trans ho)]
  exact hframe.2.2

end PoolConfig.IsFrame

/-! ## Frames of one size -/

/-- The tiling after an allocation in a pool of cells. -/
theorem Cellular.given (h : Cellular c 0 (pre ++ t :: post)) (hframe : P.IsFrame c a.size a.align)
    (hle : c ≤ t.size) : Cellular c 0 (P.given pre t post a) := by
  have hstart : c ∣ total pre := by
    have hrest := (cellular_append.mp h).2
    rw [Nat.zero_add] at hrest
    exact (cellular_cons.mp hrest).1
  have hheader := hframe.kHeader_le
  have hpos : 0 < c := by
    have := P.kAlign_pos
    omega
  rw [PoolConfig.given, hframe.needed_eq hstart, PoolConfig.cut]
  split_ifs with hsplit
  · exact h.split hpos hle
  · -- what is left over is less than a frame
    refine h.own ?_
    exact Nat.div_eq_of_lt_le (by omega) (by omega)

/-- Every call on frames of one size keeps the cells. -/
theorem Allotted.step_cellular (h : Allotted P s tiles) (hcells : Cellular c 0 tiles)
    {call : PoolAction w} (hcall : ∀ size align, call = .allocate size align → P.IsFrame c size align)
    (hstep : s.step P call = some s') : ∃ tiles', Allotted P s' tiles' ∧ Cellular c 0 tiles' := by
  cases call with
  | allocate size align =>
      have hframe := hcall size align rfl
      rcases h.allocate size align with
        ⟨-, hresult, hnext⟩ | ⟨pre, t, post, p, pool', rfl, hfit, hresult, hnext, -⟩
      · rw [PoolState.step, hresult] at hstep
        obtain rfl := Option.some.inj hstep
        exact ⟨_, hnext, hcells⟩
      · rw [PoolState.step, hresult] at hstep
        obtain rfl := Option.some.inj hstep
        have hmem : (total pre, t) ∈ placed 0 (pre ++ t :: post) := by
          rw [placed_append, Nat.zero_add]
          exact List.mem_append_right _ (List.mem_cons_self ..)
        have hstart := hframe.dvd.trans (hcells.start _ hmem)
        have hle := ((PoolConfig.canHold_iff hstart (h.arena.blocks _ _ hmem) hframe.1).mp
          hfit.holds).2
        rw [hframe.2.2] at hle
        exact ⟨_, hnext, Cellular.given hcells hframe hle⟩
  | deallocate p =>
      rw [PoolState.step] at hstep
      split_ifs at hstep with hlive
      obtain ⟨a, ha, rfl⟩ := hlive
      obtain ⟨pre, t, post, pool', rfl, -, hresult, hnext, -⟩ := h.deallocate ha
      rw [hresult] at hstep
      obtain rfl := Option.some.inj hstep
      exact ⟨_, hnext, hcells.release.merge⟩

theorem length_owners (tiles : List (Tile (Allocation w))) :
    (owners tiles).length = ownedCount tiles := by
  rw [owners, ownedCount, List.length_filterMap_eq_countP]

/-- The invariant of a pool of cells. -/
theorem exists_cellular (hrun : run (PoolState.step P) (PoolState.fresh P memory) calls = some s)
    (huniform : P.Uniform c calls) : ∃ tiles, Allotted P s tiles ∧ Cellular c 0 tiles := by
  refine run_induction (P := fun u => ∃ tiles, Allotted P u tiles ∧ Cellular c 0 tiles) hrun
    ⟨_, Allotted.fresh P memory, ?_⟩ ?_
  · exact cellular_cons.mpr ⟨dvd_zero c, fun hne => absurd rfl hne, cellular_nil⟩
  · intro u call u' hcall ⟨tiles, htiles, hcells⟩ hstep
    refine htiles.step_cellular hcells ?_ hstep
    intro size align he
    exact huniform size align (he ▸ hcall)

/-- In every run on frames that take `c` bytes each, there are never more than `kUsable / c` of them,
and the next one is given room exactly where there are less. -/
theorem uniform_frames_served
    (hrun : run (PoolState.step P) (PoolState.fresh P memory) calls = some s)
    (huniform : P.Uniform c calls) (hframe : P.IsFrame c size align) :
    s.live.length ≤ P.kUsable.toNat / c ∧
      ((∃ p pool', s.pool.allocate P size align = some (some p, pool')) ↔
        s.live.length < P.kUsable.toNat / c) := by
  obtain ⟨tiles, h, hcells⟩ := exists_cellular hrun huniform
  have htotal : total tiles = P.kUsable.toNat := by
    have := h.arena.stored.total_eq
    omega
  have hcount := hcells.count
  rw [htotal, ← length_owners, ← h.live.length_eq] at hcount
  have hheader := hframe.kHeader_le
  have halign := P.kAlign_pos
  refine ⟨by omega, ?_⟩
  rcases h.allocate size align with
    ⟨hnone, hresult, -⟩ | ⟨pre, t, post, p, pool', rfl, hfit, hresult, -⟩
  · -- no free tile has a cell, so the live frames have them all
    have hpow : (max align.toNat P.kAlign.toNat).isPowerOfTwo := by
      rw [max_eq_right (BitVec.le_def.mp hframe.1)]
      exact P.kAlign_pow
    have hfull : freeCells c tiles = 0 := by
      refine freeCells_eq_zero.mpr fun t ht hfree => Nat.div_eq_of_lt ?_
      rw [← map_snd_placed 0 tiles, List.mem_map] at ht
      obtain ⟨⟨o, u⟩, hmem, rfl⟩ := ht
      have hstart := hframe.dvd.trans (hcells.start _ hmem)
      have hcannot := hnone hpow o u hmem
      rw [PoolConfig.canHold_iff hstart (h.arena.blocks o u hmem) hframe.1, hframe.2.2] at hcannot
      exact Nat.lt_of_not_le fun hle => hcannot ⟨hfree, hle⟩
    constructor
    · intro ⟨p, pool', hgiven⟩
      rw [hresult] at hgiven
      cases hgiven
    · omega
  · refine ⟨fun _ => ?_, fun _ => ⟨p, pool', hresult⟩⟩
    have hmem : (total pre, t) ∈ placed 0 (pre ++ t :: post) := by
      rw [placed_append, Nat.zero_add]
      exact List.mem_append_right _ (List.mem_cons_self ..)
    have hstart := hframe.dvd.trans (hcells.start _ hmem)
    obtain ⟨hfree, hle⟩ := (PoolConfig.canHold_iff hstart (h.arena.blocks _ _ hmem) hframe.1).mp
      hfit.holds
    rw [hframe.2.2] at hle
    have hcell : freeCells c (pre ++ t :: post) ≠ 0 := by
      intro hzero
      have hdiv := freeCells_eq_zero.mp hzero t (mem_of_mem_placed hmem) hfree
      have := Nat.div_pos hle (by omega)
      omega
    omega

/-- Frames of 20 and of 24 bytes take 40 bytes each.  The first of two is freed, and there is room
for another one. -/
theorem uniform_frames_served_small :
    let calls : List (PoolAction 32) := [.allocate 24 8, .allocate 20 4, .deallocate 4112]
    let s := PoolState.after .small (.zeroed 32) calls
    s.live.length = 1 ∧ ∃ p pool', s.pool.allocate .small 24 8 = some (some p, pool') := by
  intro calls s
  have hrun : run (PoolState.step .small) (.fresh .small (.zeroed 32)) calls = some s :=
    PoolState.run_after (by decide +kernel)
  have huniform : PoolConfig.small.Uniform 40 calls := by
    intro size align hmem
    simp only [calls, List.mem_cons, PoolAction.allocate.injEq, reduceCtorEq, List.not_mem_nil,
      or_false] at hmem
    rcases hmem with ⟨rfl, rfl⟩ | ⟨rfl, rfl⟩ <;> decide +kernel
  have hlength : s.live.length = 1 := by decide +kernel
  refine ⟨hlength, (uniform_frames_served hrun huniform (by decide +kernel)).2.mpr ?_⟩
  rw [hlength]
  decide +kernel

/-! ## Frames of any size -/

/-- The sizes of the free blocks. -/
theorem Allotted.freeSizes (h : Allotted P s tiles) :
    ((s.pool.freeBlocks P).map fun b => b.2.size.toNat) = (vacant 0 tiles).map fun q => q.2.size := by
  rw [h.arena.freeBlocks_eq, List.map_map]
  refine List.map_congr_left fun q hq => ?_
  exact (h.arena.holds (List.mem_filter.mp hq).1).size

/-- What the walk finds free, with `n` live allocations: at most `n + 1` blocks, and in them all free
bytes. -/
theorem Allotted.freeBlocks (h : Allotted P s tiles) :
    (s.pool.freeBlocks P).length ≤ s.live.length + 1 ∧
      ((s.pool.freeBlocks P).map fun b => b.2.size.toNat).sum = (s.pool.bytesFree P).toNat := by
  constructor
  · calc (s.pool.freeBlocks P).length
        = (vacant 0 tiles).length := by rw [h.arena.freeBlocks_eq, List.length_map]
      _ ≤ ownedCount tiles + 1 := by
          rw [length_vacant]
          exact h.arena.merged.free_le
      _ = s.live.length + 1 := by rw [← length_owners, ← h.live.length_eq]
  · have htotal := h.arena.stored.total_eq
    have hsize := size_vacant 0 tiles
    rw [h.freeSizes, FramePool.bytesFree,
      BitVec.toNat_sub_of_le (BitVec.le_def.mpr h.arena.bytesUsed_le), h.arena.used]
    omega

/-- With `n` live allocations the free bytes lie in `n + 1` blocks at most, so that a request is
served where there are more of them than that many blocks can have without room for it. -/
theorem free_bytes_suffice (hs : s.Reachable P) :
    (s.pool.freeBlocks P).length ≤ s.live.length + 1 ∧
      ((s.pool.freeBlocks P).map fun b => b.2.size.toNat).sum = (s.pool.bytesFree P).toNat ∧
      ∀ size align : BitVec w, align ≤ P.kAlign →
        (s.live.length + 1) * (P.frameBytes size - P.kAlign.toNat) < (s.pool.bytesFree P).toNat →
        ∃ p pool', s.pool.allocate P size align = some (some p, pool') := by
  obtain ⟨tiles, h⟩ := hs.allotted
  obtain ⟨hcount, hbytes⟩ := h.freeBlocks
  refine ⟨hcount, hbytes, fun size align halign hfree => ?_⟩
  rcases h.allocate size align with
    ⟨hnone, hresult, -⟩ | ⟨pre, t, post, p, pool', rfl, hfit, hresult, -⟩
  · exfalso
    have hpow : (max align.toNat P.kAlign.toNat).isPowerOfTwo := by
      rw [max_eq_right (BitVec.le_def.mp halign)]
      exact P.kAlign_pow
    -- a free block is shorter than the frame, by a multiple of the alignment
    have hshort : ∀ n ∈ (s.pool.freeBlocks P).map fun b => b.2.size.toNat,
        n ≤ P.frameBytes size - P.kAlign.toNat := by
      rw [h.freeSizes]
      intro n hn
      obtain ⟨⟨o, u⟩, hvacant, rfl⟩ := List.mem_map.mp hn
      obtain ⟨hmem, hvacant⟩ := List.mem_filter.mp hvacant
      have hblock := h.arena.blocks o u hmem
      have hcannot := hnone hpow o u hmem
      rw [PoolConfig.canHold_iff (h.arena.kAlign_dvd hmem) hblock halign] at hcannot
      have hlt : u.size < P.frameBytes size :=
        Nat.lt_of_not_le fun hle => hcannot ⟨Option.isNone_iff_eq_none.mp hvacant, hle⟩
      have hdvd : P.kAlign.toNat ∣ P.frameBytes size := Words.dvd_roundUp _ _
      have := add_le_of_dvd hblock.dvd hdvd hlt
      dsimp only
      omega
    have hsum := List.sum_le_card_nsmul _ _ hshort
    rw [hbytes, List.length_map, Nat.nsmul_eq_mul] at hsum
    have hmul := Nat.mul_le_mul_right (P.frameBytes size - P.kAlign.toNat) hcount
    omega
  · exact ⟨p, pool', hresult⟩

/-- One frame lies between 40 free bytes and 184 more: enough for a frame of 90 bytes. -/
theorem free_bytes_suffice_small :
    let s := PoolState.after .small (.zeroed 32)
      [.allocate 24 8, .allocate 10 0, .deallocate 4112]
    s.pool.bytesFree .small = 224 ∧ (s.pool.freeBlocks .small).length = 2 ∧
      ∃ p pool', s.pool.allocate .small 90 8 = some (some p, pool') := by
  intro s
  have hs : s.Reachable .small := .after (by decide +kernel)
  exact ⟨by decide +kernel, by decide +kernel,
    (free_bytes_suffice hs).2.2 90 8 (by decide) (by decide +kernel)⟩

end SimpleAwait
