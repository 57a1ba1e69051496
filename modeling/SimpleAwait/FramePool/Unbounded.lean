import Mathlib.Data.Int.Bitwise
import SimpleAwait.FramePool.Take

/-!
# `allocate` over the integers

The algorithm of `allocate` with integers for machine words.  Only the counter of failures, which
no branch reads, stays a word.
-/

namespace SimpleAwait

open Tiling

variable {w : ℕ}

/-- A `BlockHeader` with integer fields. -/
structure IntHeader where
  size : ℤ
  payloadOffset : ℤ
  allocated : Bool

/-- A `FramePool` with integer fields. -/
structure IntPool (w : ℕ) where
  header : ℕ → IntHeader
  bytesUsed : ℤ
  peakBytesUsed : ℤ
  allocationFailures : BitVec w

def BlockHeader.toInt (blk : BlockHeader) : IntHeader :=
  ⟨blk.size.toNat, blk.payloadOffset.toNat, blk.allocated⟩

def FramePool.toInt (pool : FramePool w) : IntPool w :=
  ⟨fun o => (pool.header o).toInt, pool.bytesUsed.toNat, pool.peakBytesUsed.toNat,
    pool.allocationFailures⟩

namespace IntPool

/-! ## Helpers -/

def isPowerOfTwo (v : ℤ) : Bool := v ≠ 0 && Int.land v (v - 1) = 0

def alignPadding (addr align : ℤ) : ℤ :=
  let mask := align - 1
  Int.land (align - Int.land addr mask) mask

def roundUp (v a : ℤ) : ℤ := Int.land (v + (a - 1)) (Int.lnot (a - 1))

def kHeader (P : PoolConfig w) : ℤ :=
  Int.land (sizeofBlockHeader + P.kAlign.toNat - 1) (Int.lnot (P.kAlign.toNat - 1))

def kUsable (P : PoolConfig w) : ℤ := P.bytes.toNat - P.bytes.toNat % P.kAlign.toNat

/-! ## The algorithm -/

variable (P : PoolConfig w) (pool : IntPool w)

def headerAt (off : ℤ) : IntHeader := pool.header off.toNat

def write (off : ℤ) (blk : IntHeader) : IntPool w :=
  { pool with header := Function.update pool.header off.toNat blk }

def payloadOffsetAt (off align : ℤ) : ℤ :=
  let startAddr := P.storage.toNat + off
  let pad := alignPadding (startAddr + kHeader P) align
  kHeader P + pad

def take (off payloadOffset size : ℤ) : IntPool w :=
  let blk := pool.headerAt off
  let blkSize := blk.size
  let used := payloadOffset + size
  let needed := roundUp used P.kAlign.toNat
  let remainder := blkSize - needed
  let split :=
    if remainder ≥ kHeader P + P.kAlign.toNat then
      (pool.write (off + needed) ⟨remainder, kHeader P, false⟩).write off { blk with size := needed }
    else pool
  let blk := split.headerAt off
  let given := split.write off { blk with allocated := true, payloadOffset := payloadOffset }
  let bytesUsed := pool.bytesUsed + blk.size
  { given with
    bytesUsed := bytesUsed
    peakBytesUsed := if bytesUsed > pool.peakBytesUsed then bytesUsed else pool.peakBytesUsed }

def fail : IntPool w := { pool with allocationFailures := pool.allocationFailures + 1#w }

def allocateLoop (size align : ℤ) : ℕ → ℤ → Option (Option ℤ × IntPool w)
  | 0, _ => none
  | fuel + 1, off =>
      if off < kUsable P then
        let blk := pool.headerAt off
        let blkSize := blk.size
        let payloadOffset := payloadOffsetAt P off align
        if !blk.allocated && payloadOffset ≤ blkSize && size ≤ blkSize - payloadOffset then
          some (some (P.storage.toNat + off + payloadOffset), pool.take P off payloadOffset size)
        else allocateLoop size align fuel (off + blkSize)
      else some (none, pool.fail)

def allocate (size align : ℤ) : Option (Option ℤ × IntPool w) :=
  let align := if align < P.kAlign.toNat then (P.kAlign.toNat : ℤ) else align
  if !isPowerOfTwo align then some (none, pool.fail)
  else pool.allocateLoop P size align ((kUsable P).toNat + 1) 0

/-! ## The block that is given away -/

section Take

variable {P} {pool} {off po size needed : ℤ}

theorem take_header_split (hneeded : roundUp (po + size) P.kAlign.toNat = needed)
    (hsplit : (pool.headerAt off).size - needed ≥ kHeader P + P.kAlign.toNat) :
    (pool.take P off po size).header =
      Function.update (Function.update pool.header (off + needed).toNat
          ⟨(pool.headerAt off).size - needed, kHeader P, false⟩)
        off.toNat ⟨needed, po, true⟩ := by
  rw [headerAt] at hsplit
  simp only [take, hneeded, headerAt, if_pos hsplit, write, Function.update_self,
    Function.update_idem]

theorem take_header_whole (hneeded : roundUp (po + size) P.kAlign.toNat = needed)
    (hwhole : ¬ (pool.headerAt off).size - needed ≥ kHeader P + P.kAlign.toNat) :
    (pool.take P off po size).header =
      Function.update pool.header off.toNat ⟨(pool.headerAt off).size, po, true⟩ := by
  rw [headerAt] at hwhole
  simp only [take, hneeded, headerAt, if_neg hwhole, write]

theorem take_bytesUsed : (pool.take P off po size).bytesUsed =
    pool.bytesUsed + ((pool.take P off po size).headerAt off).size := by
  simp only [take, headerAt, write, Function.update_self]

theorem take_peakBytesUsed : (pool.take P off po size).peakBytesUsed =
    if (pool.take P off po size).bytesUsed > pool.peakBytesUsed then
      (pool.take P off po size).bytesUsed
    else pool.peakBytesUsed := rfl

theorem take_allocationFailures :
    (pool.take P off po size).allocationFailures = pool.allocationFailures := by
  unfold take
  dsimp only
  split_ifs <;> rfl

end Take

/-! ## Helpers compute the same -/

theorem pred_cast {n : ℕ} (hn : 0 < n) : (n : ℤ) - 1 = ((n - 1 : ℕ) : ℤ) := by omega

theorem land_cast (m n : ℕ) : Int.land (m : ℤ) (n : ℤ) = ((m &&& n : ℕ) : ℤ) := rfl

theorem land_lnot_cast (m n : ℕ) : Int.land (m : ℤ) (Int.lnot (n : ℤ)) = (Nat.ldiff m n : ℤ) := rfl

theorem ldiff_pred {n a : ℕ} (ha : a.isPowerOfTwo) : Nat.ldiff n (a - 1) = n / a * a := by
  obtain ⟨k, rfl⟩ := ha
  refine Nat.eq_of_testBit_eq fun i => ?_
  rw [Nat.testBit_ldiff, Nat.testBit_two_pow_sub_one, ← Nat.shiftRight_eq_div_pow,
    ← Nat.shiftLeft_eq, Nat.testBit_shiftLeft, Nat.testBit_shiftRight]
  rcases Nat.lt_or_ge i k with hi | hi
  · simp [hi, Nat.not_le.mpr hi]
  · have hshift : k + (i - k) = i := by omega
    simp [hi, Nat.not_lt.mpr hi, hshift]

theorem isPowerOfTwo_cast (n : ℕ) : isPowerOfTwo (n : ℤ) = true ↔ n.isPowerOfTwo := by
  rw [← Nat.ne_zero_and_sub_one_eq_zero_iff_isPowerOfTwo, isPowerOfTwo, Bool.and_eq_true,
    decide_eq_true_iff, decide_eq_true_iff]
  rcases Nat.eq_zero_or_pos n with rfl | hn
  · simp
  · rw [pred_cast hn, land_cast]
    norm_cast

theorem alignPadding_cast {addr align : ℕ} (halign : align.isPowerOfTwo) :
    alignPadding (addr : ℤ) align = (Words.padding addr align : ℤ) := by
  have hpos := pos_of_isPowerOfTwo halign
  have hlt := Nat.mod_lt addr hpos
  obtain ⟨k, hk⟩ := id halign
  unfold alignPadding
  dsimp only
  rw [pred_cast hpos, land_cast, hk, Nat.and_two_pow_sub_one_eq_mod, ← hk, ← Nat.cast_sub (by omega),
    land_cast, hk, Nat.and_two_pow_sub_one_eq_mod, Words.padding]

theorem roundUp_cast {v a : ℕ} (ha : a.isPowerOfTwo) :
    roundUp (v : ℤ) a = (Words.roundUp v a : ℤ) := by
  rw [roundUp, pred_cast (pos_of_isPowerOfTwo ha), ← Nat.cast_add, land_lnot_cast, ldiff_pred ha,
    Words.roundUp]

theorem kHeader_cast (P : PoolConfig w) : kHeader P = (P.kHeader.toNat : ℤ) := by
  rw [P.kHeader_toNat, ← roundUp_cast P.kAlign_pow, kHeader, roundUp, Int.add_sub_assoc]

theorem kUsable_cast (P : PoolConfig w) : kUsable P = (P.kUsable.toNat : ℤ) := by
  rw [P.kUsable_toNat, kUsable, Nat.cast_sub (Nat.mod_le _ _), Int.natCast_emod]

theorem payloadOffsetAt_cast (P : PoolConfig w) {align : ℕ} (halign : align.isPowerOfTwo) (off : ℕ) :
    payloadOffsetAt P (off : ℤ) align = (P.payloadOffset align off : ℤ) := by
  unfold payloadOffsetAt
  dsimp only
  rw [kHeader_cast, ← Nat.cast_add, ← Nat.cast_add, alignPadding_cast halign, ← Nat.cast_add,
    PoolConfig.payloadOffset]

end IntPool

end SimpleAwait
