import SimpleAwait.FramePool.Arithmetic
import SimpleAwait.Library.Tiling

/-!
# The walks over the blocks

The blocks of a pool tile the arena, and a tile's owner is the allocation whose payload lies in
the block.  `Holds` reads one block header as a tile; the loops of the pool are then walks along
a stored tiling.
-/

namespace SimpleAwait

open Tiling

variable {w : ℕ}

/-- What a live pointer was allocated for. -/
structure Allocation (w : ℕ) where
  ptr : BitVec w
  size : BitVec w
  align : BitVec w
  deriving DecidableEq

/-- The header at `off` describes the tile. -/
structure FramePool.Holds (P : PoolConfig w) (pool : FramePool w) (off : ℕ)
    (t : Tile (Allocation w)) : Prop where
  size : (pool.header off).size.toNat = t.size
  allocated : (pool.header off).allocated = t.owner.isSome
  ptr : ∀ a, t.owner = some a →
    P.storage.toNat + off + (pool.header off).payloadOffset.toNat = a.ptr.toNat

/-- The tile at `off` is a block: it has room for its header and, behind it, for the payload. -/
structure PoolConfig.IsBlock (P : PoolConfig w) (off : ℕ) (t : Tile (Allocation w)) : Prop where
  header_le : P.kHeader.toNat ≤ t.size
  dvd : P.kAlign.toNat ∣ t.size
  after_header : ∀ a, t.owner = some a → P.storage.toNat + off + P.kHeader.toNat ≤ a.ptr.toNat
  payload_le : ∀ a, t.owner = some a →
    a.ptr.toNat + a.size.toNat ≤ P.storage.toNat + off + t.size
  aligned : ∀ a, t.owner = some a → max a.align.toNat P.kAlign.toNat ∣ a.ptr.toNat

/-- All tiles are blocks. -/
def PoolConfig.AreBlocks (P : PoolConfig w) (off : ℕ) (tiles : List (Tile (Allocation w))) : Prop :=
  ∀ o t, (o, t) ∈ placed off tiles → P.IsBlock o t

/-- The payload offset of an allocation at `off`. -/
def PoolConfig.payloadOffset (P : PoolConfig w) (align off : ℕ) : ℕ :=
  P.kHeader.toNat + Words.padding (P.storage.toNat + off + P.kHeader.toNat) align

/-- The tile at `off` is free and large enough. -/
def PoolConfig.CanHold (P : PoolConfig w) (size align off : ℕ) (t : Tile (Allocation w)) : Prop :=
  t.owner = none ∧ P.payloadOffset align off + size ≤ t.size

variable {P : PoolConfig w} {pool : FramePool w} {tiles rest : List (Tile (Allocation w))}
  {t : Tile (Allocation w)} {off size align p : BitVec w}

theorem PoolConfig.AreBlocks.head {o : ℕ} (h : P.AreBlocks o (t :: rest)) : P.IsBlock o t :=
  h o t (List.mem_cons_self ..)

theorem PoolConfig.AreBlocks.tail {o : ℕ} (h : P.AreBlocks o (t :: rest)) :
    P.AreBlocks (o + t.size) rest :=
  fun u v hmem => h u v (List.mem_cons_of_mem _ hmem)

namespace FramePool

theorem Holds.congr {pool' : FramePool w} {o : ℕ} (h : pool.Holds P o t)
    (hsame : pool'.header o = pool.header o) : pool'.Holds P o t := by
  obtain ⟨hsize, hallocated, hptr⟩ := h
  exact ⟨by rwa [hsame], by rwa [hsame], by rwa [hsame]⟩

/-! ## One step of a walk -/

/-- A block in front of a walk, and the offset behind it. -/
theorem walk_head (hstored : Stored (pool.Holds P) P.kUsable.toNat off.toNat (t :: rest))
    (hblock : P.IsBlock off.toNat t) :
    off < P.kUsable ∧ ((pool.headerAt off).size.setWidth w).toNat = t.size ∧
      off.toNat + t.size ≤ P.kUsable.toNat ∧
      (off + (pool.headerAt off).size.setWidth w).toNat = off.toNat + t.size := by
  obtain ⟨hholds, hrest⟩ := stored_cons.mp hstored
  have htotal := hrest.total_eq
  have hpos := P.kHeader_pos
  have hheader := hblock.header_le
  have husable := P.kUsable_lt
  have hword := P.two_pow_32_le
  have hsize : ((pool.headerAt off).size.setWidth w).toNat = t.size := by
    rw [headerAt, setWidth_toNat (by rw [hholds.size]; omega), hholds.size]
  refine ⟨by rw [BitVec.lt_def]; omega, hsize, by omega, ?_⟩
  rw [BitVec.toNat_add_of_lt (by omega), hsize]

/-- The test of `allocate` on one block. -/
theorem canHold_iff (size : BitVec w)
    (hstored : Stored (pool.Holds P) P.kUsable.toNat off.toNat (t :: rest))
    (hblock : P.IsBlock off.toNat t) (halign : align.toNat.isPowerOfTwo) :
    (!(pool.headerAt off).allocated &&
        payloadOffsetAt P off align ≤ (pool.headerAt off).size.setWidth w &&
        size ≤ (pool.headerAt off).size.setWidth w - payloadOffsetAt P off align) = true ↔
      P.CanHold size.toNat align.toNat off.toNat t := by
  obtain ⟨-, hsize, hfits, -⟩ := walk_head hstored hblock
  have hheader := hblock.header_le
  have hoffset := payloadOffsetAt_toNat P halign
    (show off.toNat + P.kHeader.toNat ≤ P.kUsable.toNat by omega)
  have hfree : (!(pool.headerAt off).allocated) = true ↔ t.owner = none := by
    have := (stored_cons.mp hstored).1.allocated
    rw [headerAt, this]
    cases t.owner <;> simp
  rw [Bool.and_eq_true, Bool.and_eq_true, hfree, decide_eq_true_iff, decide_eq_true_iff,
    BitVec.le_def, BitVec.le_def, hsize, and_assoc, PoolConfig.CanHold, PoolConfig.payloadOffset,
    ← hoffset]
  refine and_congr_right fun _ => ⟨fun ⟨hle, hrest⟩ => ?_, fun hle => ⟨by omega, ?_⟩⟩
  · rw [BitVec.toNat_sub_of_le (by rw [BitVec.le_def, hsize]; exact hle), hsize] at hrest
    omega
  · rw [BitVec.toNat_sub_of_le (by rw [BitVec.le_def, hsize]; omega), hsize]
    omega

/-! ## `allocate` -/

/-- The loop of `allocate` gives the first block that can hold the request, or fails where there
is none. -/
theorem allocateLoop_spec (halign : align.toNat.isPowerOfTwo) (size : BitVec w) {fuel : ℕ}
    (hfuel : rest.length < fuel)
    (hstored : Stored (pool.Holds P) P.kUsable.toNat off.toNat rest)
    (hblocks : P.AreBlocks off.toNat rest) :
    ((∀ o t, (o, t) ∈ placed off.toNat rest → ¬ P.CanHold size.toNat align.toNat o t) ∧
      pool.allocateLoop P size align fuel off = some (none, pool.fail)) ∨
    ∃ pre t post at', rest = pre ++ t :: post ∧ at'.toNat = off.toNat + total pre ∧
      (∀ o u, (o, u) ∈ placed off.toNat pre → ¬ P.CanHold size.toNat align.toNat o u) ∧
      P.CanHold size.toNat align.toNat at'.toNat t ∧
      pool.allocateLoop P size align fuel off =
        some (some (P.storage + at' + payloadOffsetAt P at' align),
          pool.take P at' (payloadOffsetAt P at' align) size) := by
  induction rest generalizing off fuel with
  | nil =>
      obtain ⟨fuel, rfl⟩ : ∃ n, fuel = n + 1 := ⟨fuel - 1, by simp at hfuel; omega⟩
      refine Or.inl ⟨by simp, ?_⟩
      have hend : ¬ off < P.kUsable := by
        rw [BitVec.lt_def, stored_nil.mp hstored]
        omega
      rw [allocateLoop, if_neg hend]
  | cons t rest ih =>
      obtain ⟨fuel, rfl⟩ : ∃ n, fuel = n + 1 := ⟨fuel - 1, by simp at hfuel; omega⟩
      obtain ⟨hlt, hsize, hfits, hnext⟩ := walk_head hstored hblocks.head
      have hiff := canHold_iff size hstored hblocks.head halign
      by_cases hhold : P.CanHold size.toNat align.toNat off.toNat t
      · refine Or.inr ⟨[], t, rest, off, rfl, by simp, by simp, hhold, ?_⟩
        rw [allocateLoop, if_pos hlt]
        dsimp only
        rw [if_pos (hiff.mpr hhold)]
      · have hloop : pool.allocateLoop P size align (fuel + 1) off =
            pool.allocateLoop P size align fuel
              (off + (pool.headerAt off).size.setWidth w) := by
          rw [allocateLoop, if_pos hlt]
          dsimp only
          rw [if_neg (hiff.not.mpr hhold)]
        have hrest := (stored_cons.mp hstored).2
        have hblocks' := hblocks.tail
        rw [← hnext] at hrest hblocks'
        rcases ih (by simpa using hfuel) hrest hblocks' with
          ⟨hnone, hresult⟩ | ⟨pre, u, post, at', rfl, hat, hpre, hu, hresult⟩
        · refine Or.inl ⟨?_, hloop.trans hresult⟩
          intro o u hmem
          rw [placed_cons, List.mem_cons, Prod.mk.injEq, ← hnext] at hmem
          rcases hmem with ⟨rfl, rfl⟩ | hmem
          · exact hhold
          · exact hnone o u hmem
        · refine Or.inr ⟨t :: pre, u, post, at', rfl, ?_, ?_, hu, hloop.trans hresult⟩
          · rw [hat, hnext, total_cons, Nat.add_assoc]
          · intro o v hmem
            rw [placed_cons, List.mem_cons, Prod.mk.injEq, ← hnext] at hmem
            rcases hmem with ⟨rfl, rfl⟩ | hmem
            · exact hhold
            · exact hpre o v hmem

end FramePool

end SimpleAwait
