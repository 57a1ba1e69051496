import SimpleAwait.FramePool.Runs
import SimpleAwait.Library.Cells

/-!
# The layout

What a walk over the block headers finds in the arena.  It is the tiling, header for tile, and it
determines the header of every owned tile.
-/

namespace SimpleAwait

open Tiling

variable {w : ℕ} {P : PoolConfig w} {pool pool' : FramePool w} {s : PoolState w}
  {tiles pre post : List (Tile (Allocation w))} {t : Tile (Allocation w)} {a : Allocation w}

namespace FramePool

/-- The headers from `off` to `stop`, with their offsets. -/
def blocksFrom (pool : FramePool w) (stop : ℕ) : ℕ → ℕ → List (ℕ × BlockHeader)
  | 0, _ => []
  | fuel + 1, off =>
      if off < stop then
        (off, pool.header off) :: pool.blocksFrom stop fuel (off + (pool.header off).size.toNat)
      else []

/-- The blocks of the arena. -/
def blocks (P : PoolConfig w) (pool : FramePool w) : List (ℕ × BlockHeader) :=
  pool.blocksFrom P.kUsable.toNat (P.kUsable.toNat + 1) 0

/-- The blocks that are allocated. -/
def allocatedBlocks (P : PoolConfig w) (pool : FramePool w) : List (ℕ × BlockHeader) :=
  (pool.blocks P).filter fun b => b.2.allocated

/-- The blocks that are free. -/
def freeBlocks (P : PoolConfig w) (pool : FramePool w) : List (ℕ × BlockHeader) :=
  (pool.blocks P).filter fun b => !b.2.allocated

/-- The address of the payload of a block. -/
def payload (P : PoolConfig w) (b : ℕ × BlockHeader) : ℕ :=
  P.storage.toNat + b.1 + b.2.payloadOffset.toNat

theorem blocksFrom_eq {fuel off : ℕ} (hfuel : tiles.length < fuel)
    (hstored : Stored (pool.Holds P) P.kUsable.toNat off tiles) (hblocks : P.AreBlocks off tiles) :
    pool.blocksFrom P.kUsable.toNat fuel off =
      (placed off tiles).map fun q => (q.1, pool.header q.1) := by
  induction tiles generalizing fuel off with
  | nil =>
      obtain ⟨fuel, rfl⟩ : ∃ n, fuel = n + 1 := ⟨fuel - 1, by simp at hfuel; omega⟩
      rw [blocksFrom, if_neg (by rw [stored_nil.mp hstored]; omega)]
      rfl
  | cons t tiles ih =>
      obtain ⟨fuel, rfl⟩ : ∃ n, fuel = n + 1 := ⟨fuel - 1, by simp at hfuel; omega⟩
      obtain ⟨hholds, hrest⟩ := stored_cons.mp hstored
      have htotal := hrest.total_eq
      have hpos := P.kHeader_pos
      have hheader := hblocks.head.header_le
      rw [blocksFrom, if_pos (by omega), hholds.size,
        ih (by simpa using hfuel) hrest hblocks.tail]
      rfl

/-- An owned tile determines its header. -/
theorem Holds.header_unique {o : ℕ} (h : pool.Holds P o t) (h' : pool'.Holds P o t)
    (ht : t.owner = some a) : pool'.header o = pool.header o := by
  have hsize : (pool'.header o).size = (pool.header o).size :=
    BitVec.eq_of_toNat_eq (h'.size.trans h.size.symm)
  have hoffset : (pool'.header o).payloadOffset = (pool.header o).payloadOffset := by
    have hptr := h.ptr a ht
    have hptr' := h'.ptr a ht
    exact BitVec.eq_of_toNat_eq (by omega)
  have hallocated : (pool'.header o).allocated = (pool.header o).allocated :=
    h'.allocated.trans h.allocated.symm
  cases hblk : pool.header o
  cases hblk' : pool'.header o
  simp_all

end FramePool

namespace Arena

theorem holds (h : Arena P pool tiles) {o : ℕ} (hmem : (o, t) ∈ placed 0 tiles) :
    pool.Holds P o t := (stored_iff.mp h.stored).2 o t hmem

theorem blocks_eq (h : Arena P pool tiles) :
    pool.blocks P = (placed 0 tiles).map fun q => (q.1, pool.header q.1) :=
  FramePool.blocksFrom_eq h.length_lt h.stored h.blocks

theorem mem_blocks (h : Arena P pool tiles) {o : ℕ} {blk : BlockHeader} :
    (o, blk) ∈ pool.blocks P ↔ ∃ t, (o, t) ∈ placed 0 tiles ∧ pool.header o = blk := by
  rw [h.blocks_eq, List.mem_map]
  constructor
  · rintro ⟨⟨o', t⟩, hmem, he⟩
    obtain ⟨rfl, rfl⟩ := Prod.mk.inj he
    exact ⟨t, hmem, rfl⟩
  · rintro ⟨t, hmem, rfl⟩
    exact ⟨(o, t), hmem, rfl⟩

theorem allocatedBlocks_eq (h : Arena P pool tiles) :
    pool.allocatedBlocks P = (owned 0 tiles).map fun q => (q.1, pool.header q.1) := by
  rw [FramePool.allocatedBlocks, h.blocks_eq, List.filter_map, owned]
  refine congrArg _ (List.filter_congr fun q hq => ?_)
  exact (h.holds hq).allocated

theorem freeBlocks_eq (h : Arena P pool tiles) :
    pool.freeBlocks P = (vacant 0 tiles).map fun q => (q.1, pool.header q.1) := by
  rw [FramePool.freeBlocks, h.blocks_eq, List.filter_map, vacant]
  refine congrArg _ (List.filter_congr fun q hq => ?_)
  simp [(h.holds hq).allocated]

/-- An owned tile that is still there has its header. -/
theorem map_header_eq (h : Arena P pool tiles) {tiles' : List (Tile (Allocation w))}
    (h' : Arena P pool' tiles') {l : List (ℕ × Tile (Allocation w))} (hl : l ⊆ owned 0 tiles)
    (hl' : l ⊆ owned 0 tiles') :
    (l.map fun q => (q.1, pool'.header q.1)) = l.map fun q => (q.1, pool.header q.1) := by
  refine List.map_congr_left fun q hq => ?_
  obtain ⟨hmem, howned⟩ := List.mem_filter.mp (hl hq)
  obtain ⟨a, howner⟩ := Option.isSome_iff_exists.mp howned
  have hmem' := (List.mem_filter.mp (hl' hq)).1
  rw [(h.holds hmem).header_unique (h'.holds hmem') howner]

end Arena

end SimpleAwait
