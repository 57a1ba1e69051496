import Mathlib.Logic.Function.Basic
import SimpleAwait.Library.Words

/-!
# `FramePool`

The coalescing first-fit allocator of coroutine frames (`detail/frame_pool.h`), in the machine
arithmetic of a target with `w`-bit `size_t` and `uintptr_t`.  Block headers live inside the
arena: `header` maps an offset to what a `BlockHeader` placed there holds.  The arena outside
the headers belongs to the frames, which write there and nowhere else.

Each loop takes a bound on its iterations and is `none` when that runs out.
-/

namespace SimpleAwait

/-- `sizeof(BlockHeader)`: two `uint32_t` and a `bool`. -/
def sizeofBlockHeader : ℕ := 12

/-- `FramePool::BlockHeader`. -/
structure BlockHeader where
  size : BitVec 32 := 0
  payloadOffset : BitVec 32 := 0
  allocated : Bool := false
  deriving DecidableEq, Repr

/-- The target and the template argument `Bytes`, with the `static_assert`s, and the address
`storage_` of the arena. -/
structure PoolConfig (w : ℕ) where
  bytes : BitVec w
  /-- `alignof(std::max_align_t)`. -/
  kAlign : BitVec w
  storage : BitVec w
  /-- A `uint32_t` is no wider than `size_t`. -/
  word : 32 ≤ w
  kAlign_pow : kAlign.toNat.isPowerOfTwo
  bytes_ge : Words.roundUp sizeofBlockHeader kAlign.toNat + kAlign.toNat ≤ bytes.toNat
  usable_le : bytes.toNat - bytes.toNat % kAlign.toNat ≤ 2 ^ 32 - 1
  storage_aligned : kAlign.toNat ∣ storage.toNat
  /-- The arena, with the address past its end, is in the address space. -/
  storage_fits : storage.toNat + bytes.toNat < 2 ^ w

/-- A pool of 256 bytes on a target with words of 32 bits and alignment to 8 bytes. -/
def PoolConfig.small : PoolConfig 32 where
  bytes := 256
  kAlign := 8
  storage := 4096
  word := by decide
  kAlign_pow := ⟨3, by decide⟩
  bytes_ge := by decide
  usable_le := by decide
  storage_aligned := by decide
  storage_fits := by decide

namespace PoolConfig

variable {w : ℕ} (P : PoolConfig w)

/-- `kHeader`. -/
def kHeader : BitVec w :=
  (BitVec.ofNat w sizeofBlockHeader + P.kAlign - 1#w) &&& ~~~(P.kAlign - 1#w)

/-- `kUsable`. -/
def kUsable : BitVec w := P.bytes - P.bytes % P.kAlign

end PoolConfig

/-- `FramePool`. -/
structure FramePool (w : ℕ) where
  header : ℕ → BlockHeader
  bytesUsed : BitVec w
  peakBytesUsed : BitVec w
  allocationFailures : BitVec w

/-- Memory that holds zeros. -/
def FramePool.zeroed (w : ℕ) : FramePool w := ⟨fun _ => {}, 0, 0, 0⟩

/-- `FramePool::is_power_of_two`. -/
def isPowerOfTwo {w : ℕ} (v : BitVec w) : Bool := v ≠ 0#w && v &&& (v - 1#w) = 0#w

/-- `FramePool::align_padding`. -/
def alignPadding {w : ℕ} (addr align : BitVec w) : BitVec w :=
  let mask := align - 1#w
  (align - (addr &&& mask)) &&& mask

/-- `FramePool::round_up`. -/
def roundUp {w : ℕ} (v a : BitVec w) : BitVec w := (v + (a - 1#w)) &&& ~~~(a - 1#w)

namespace FramePool

variable {w : ℕ} (P : PoolConfig w) (pool : FramePool w)

/-- `header_at`. -/
def headerAt (off : BitVec w) : BlockHeader := pool.header off.toNat

/-- A write to the header at `off`. -/
def write (off : BitVec w) (blk : BlockHeader) : FramePool w :=
  { pool with header := Function.update pool.header off.toNat blk }

/-- `FramePool::reset`, on an arena that holds anything. -/
def reset : FramePool w :=
  { pool.write 0#w ⟨P.kUsable.setWidth 32, P.kHeader.setWidth 32, false⟩ with
    bytesUsed := 0#w
    peakBytesUsed := 0#w
    allocationFailures := 0#w }

/-! ## `allocate` -/

/-- The offset of the payload in a block at `off`. -/
def payloadOffsetAt (off align : BitVec w) : BitVec w :=
  let startAddr := P.storage + off
  let pad := alignPadding (startAddr + P.kHeader) align
  P.kHeader + pad

/-- The block at `off` is split if enough remains of it, and given away. -/
def take (off payloadOffset size : BitVec w) : FramePool w :=
  let blk := pool.headerAt off
  let blkSize := blk.size.setWidth w
  let used := payloadOffset + size
  let needed := roundUp used P.kAlign
  let remainder := blkSize - needed
  let split :=
    if remainder ≥ P.kHeader + P.kAlign then
      (pool.write (off + needed) ⟨remainder.setWidth 32, P.kHeader.setWidth 32, false⟩).write off
        { blk with size := needed.setWidth 32 }
    else pool
  let blk := split.headerAt off
  let given := split.write off
    { blk with allocated := true, payloadOffset := payloadOffset.setWidth 32 }
  let bytesUsed := pool.bytesUsed + blk.size.setWidth w
  { given with
    bytesUsed := bytesUsed
    peakBytesUsed := if bytesUsed > pool.peakBytesUsed then bytesUsed else pool.peakBytesUsed }

/-- The failure of an allocation. -/
def fail : FramePool w := { pool with allocationFailures := pool.allocationFailures + 1#w }

/-- The loop of `allocate`; the pointer is null if no block fits. -/
def allocateLoop (size align : BitVec w) : ℕ → BitVec w → Option (Option (BitVec w) × FramePool w)
  | 0, _ => none
  | fuel + 1, off =>
      if off < P.kUsable then
        let blk := pool.headerAt off
        let blkSize := blk.size.setWidth w
        let payloadOffset := payloadOffsetAt P off align
        if !blk.allocated && payloadOffset ≤ blkSize && size ≤ blkSize - payloadOffset then
          some (some (P.storage + off + payloadOffset), pool.take P off payloadOffset size)
        else allocateLoop size align fuel (off + blkSize)
      else some (none, pool.fail)

/-- `FramePool::allocate`. -/
def allocate (size align : BitVec w) : Option (Option (BitVec w) × FramePool w) :=
  let align := if align < P.kAlign then P.kAlign else align
  if !isPowerOfTwo align then some (none, pool.fail)
  else pool.allocateLoop P size align (P.kUsable.toNat + 1) 0#w

/-! ## `deallocate` -/

/-- The loop of `coalesce`. -/
def coalesceLoop : ℕ → FramePool w → BitVec w → Option (FramePool w)
  | 0, _, _ => none
  | fuel + 1, pool, off =>
      if off < P.kUsable then
        let blk := pool.headerAt off
        let nextOff := off + blk.size.setWidth w
        if !blk.allocated && nextOff < P.kUsable && !(pool.headerAt nextOff).allocated then
          let size := blk.size + (pool.headerAt nextOff).size
          coalesceLoop fuel (pool.write off { blk with size := size }) off
        else coalesceLoop fuel pool nextOff
      else some pool

/-- `FramePool::coalesce`. -/
def coalesce : Option (FramePool w) := coalesceLoop P (P.kUsable.toNat + 1) pool 0#w

/-- The loop of `deallocate`; the result tells whether `Error::internal_error` is reported. -/
def deallocateLoop (p : BitVec w) : ℕ → BitVec w → Option (Bool × FramePool w)
  | 0, _ => none
  | fuel + 1, off =>
      if off < P.kUsable then
        let blk := pool.headerAt off
        let blkSize := blk.size.setWidth w
        if blk.allocated && P.storage + off + blk.payloadOffset.setWidth w = p then
          let freed := pool.write off { blk with allocated := false }
          (coalesce P { freed with bytesUsed := pool.bytesUsed - blkSize }).map fun pool =>
            (false, pool)
        else deallocateLoop p fuel (off + blkSize)
      else some (true, pool)

/-- `FramePool::deallocate`; the null pointer is `0`. -/
def deallocate (p : BitVec w) : Option (Bool × FramePool w) :=
  if p = 0#w then some (false, pool) else pool.deallocateLoop P p (P.kUsable.toNat + 1) 0#w

/-- `FramePool::bytesFree`. -/
def bytesFree : BitVec w := P.kUsable - pool.bytesUsed

end FramePool

end SimpleAwait
