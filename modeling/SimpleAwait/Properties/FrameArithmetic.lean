import SimpleAwait.FramePool.Layout
import SimpleAwait.FramePool.Unbounded

/-!
# The machine arithmetic of `allocate` is exact

On a tiled arena `allocate` takes the same branches as over the integers and stores the same
values.
-/

namespace SimpleAwait

open Tiling

variable {w : ℕ} {P : PoolConfig w} {pool : FramePool w} {s : PoolState w}
  {rest pre post tiles : List (Tile (Allocation w))} {t : Tile (Allocation w)}
  {off size align : BitVec w}

namespace FramePool

theorem toInt_update (header : ℕ → BlockHeader) (o : ℕ) (blk : BlockHeader) :
    (fun n => (Function.update header o blk n).toInt) =
      Function.update (fun n => (header n).toInt) o blk.toInt := by
  funext n
  by_cases hn : n = o
  · rw [hn, Function.update_self, Function.update_self]
  · rw [Function.update_of_ne hn, Function.update_of_ne hn]

/-- What one iteration of `allocate` computes and tests. -/
structure SameNumbers (P : PoolConfig w) (pool : FramePool w) (size align off : BitVec w) :
    Prop where
  blkSize : (((pool.headerAt off).size.setWidth w).toNat : ℤ) =
    (pool.toInt.headerAt off.toNat).size
  payloadOffset : ((payloadOffsetAt P off align).toNat : ℤ) =
    IntPool.payloadOffsetAt P off.toNat align.toNat
  fits : (payloadOffsetAt P off align ≤ (pool.headerAt off).size.setWidth w ∧
      size ≤ (pool.headerAt off).size.setWidth w - payloadOffsetAt P off align) ↔
    IntPool.payloadOffsetAt P off.toNat align.toNat ≤ (pool.toInt.headerAt off.toNat).size ∧
      (size.toNat : ℤ) ≤ (pool.toInt.headerAt off.toNat).size -
        IntPool.payloadOffsetAt P off.toNat align.toNat
  next : ((off + (pool.headerAt off).size.setWidth w).toNat : ℤ) =
    off.toNat + (pool.toInt.headerAt off.toNat).size

/-- What `allocate` computes and tests in a block that it gives away. -/
structure SameCut (P : PoolConfig w) (pool : FramePool w) (size align off : BitVec w) : Prop where
  used : ((payloadOffsetAt P off align + size).toNat : ℤ) =
    IntPool.payloadOffsetAt P off.toNat align.toNat + size.toNat
  needed : ((roundUp (payloadOffsetAt P off align + size) P.kAlign).toNat : ℤ) =
    IntPool.roundUp (IntPool.payloadOffsetAt P off.toNat align.toNat + size.toNat) P.kAlign.toNat
  remainder : (((pool.headerAt off).size.setWidth w -
      roundUp (payloadOffsetAt P off align + size) P.kAlign).toNat : ℤ) =
    (pool.toInt.headerAt off.toNat).size -
      IntPool.roundUp (IntPool.payloadOffsetAt P off.toNat align.toNat + size.toNat) P.kAlign.toNat
  split : (pool.headerAt off).size.setWidth w -
      roundUp (payloadOffsetAt P off align + size) P.kAlign ≥ P.kHeader + P.kAlign ↔
    (pool.toInt.headerAt off.toNat).size - IntPool.roundUp
      (IntPool.payloadOffsetAt P off.toNat align.toNat + size.toNat) P.kAlign.toNat ≥
        IntPool.kHeader P + P.kAlign.toNat

/-! ## One iteration -/

theorem toInt_size (hstored : Stored (pool.Holds P) P.kUsable.toNat off.toNat (t :: rest)) :
    (pool.toInt.headerAt off.toNat).size = t.size :=
  congrArg Nat.cast (stored_cons.mp hstored).1.size

theorem sameNumbers (size : BitVec w) (halign : align.toNat.isPowerOfTwo)
    (hstored : Stored (pool.Holds P) P.kUsable.toNat off.toNat (t :: rest))
    (hblock : P.IsBlock off.toNat t) : SameNumbers P pool size align off := by
  obtain ⟨-, hsize, hfits, hnext⟩ := walk_head hstored hblock
  have hsize' := toInt_size hstored
  have hheader := hblock.header_le
  have hoffset : (payloadOffsetAt P off align).toNat = P.payloadOffset align.toNat off.toNat :=
    payloadOffsetAt_toNat P halign (by omega)
  have hoffset' := IntPool.payloadOffsetAt_cast P halign off.toNat
  refine ⟨by rw [hsize, hsize'], by rw [hoffset, hoffset'], ?_, by rw [hnext, hsize', Nat.cast_add]⟩
  rw [hsize', hoffset', BitVec.le_def, BitVec.le_def, hsize, hoffset]
  refine ⟨fun ⟨hle, hrest⟩ => ?_, fun ⟨hle, hrest⟩ => ⟨by omega, ?_⟩⟩
  · rw [BitVec.toNat_sub_of_le (by rw [BitVec.le_def]; omega), hsize, hoffset] at hrest
    omega
  · rw [BitVec.toNat_sub_of_le (by rw [BitVec.le_def]; omega), hsize, hoffset]
    omega

theorem sameCut (halign : align.toNat.isPowerOfTwo)
    (hstored : Stored (pool.Holds P) P.kUsable.toNat off.toNat (t :: rest))
    (hblock : P.IsBlock off.toNat t) (hhold : P.CanHold size.toNat align.toNat off.toNat t) :
    SameCut P pool size align off := by
  obtain ⟨-, hsize, hfits, -⟩ := walk_head hstored hblock
  obtain ⟨hneeded, hrest, hsplit⟩ := needed_toNat halign hstored hblock hhold rfl
  obtain ⟨hused, hle, -⟩ := needed_le hblock hhold
  obtain ⟨hoffset, -⟩ := ptr_toNat halign hstored hblock hhold
  have hsum : (payloadOffsetAt P off align + size).toNat =
      P.payloadOffset align.toNat off.toNat + size.toNat := by
    have husable := P.kUsable.isLt
    rw [BitVec.toNat_add_of_lt (by omega), hoffset]
  have hsum' : IntPool.payloadOffsetAt P off.toNat align.toNat + (size.toNat : ℤ) =
      ((P.payloadOffset align.toNat off.toNat + size.toNat : ℕ) : ℤ) := by
    rw [IntPool.payloadOffsetAt_cast P halign, Nat.cast_add]
  have hround := IntPool.roundUp_cast P.kAlign_pow (v := P.payloadOffset align.toNat off.toNat +
    size.toNat)
  refine ⟨by rw [hsum, hsum'], ?_, ?_, ?_⟩
  · rw [hneeded, hsum', hround, PoolConfig.needed]
  · rw [hrest, hsum', hround, toInt_size hstored, ← PoolConfig.needed]
    omega
  · rw [hsplit, hsum', hround, toInt_size hstored, ← PoolConfig.needed, IntPool.kHeader_cast]
    omega

/-! ## The whole call -/

/-- The headers that `take` writes. -/
theorem take_header_toInt (halign : align.toNat.isPowerOfTwo)
    (hstored : Stored (pool.Holds P) P.kUsable.toNat off.toNat (t :: rest))
    (hblock : P.IsBlock off.toNat t) (hhold : P.CanHold size.toNat align.toNat off.toNat t) :
    (fun o => ((pool.take P off (payloadOffsetAt P off align) size).header o).toInt) =
      (pool.toInt.take P off.toNat (IntPool.payloadOffsetAt P off.toNat align.toNat)
        size.toNat).header := by
  have hcut := sameCut halign hstored hblock hhold
  obtain ⟨-, -, hfits, -⟩ := walk_head hstored hblock
  obtain ⟨hneeded, hrest, -⟩ := needed_toNat halign hstored hblock hhold rfl
  obtain ⟨hused, hle, -⟩ := needed_le hblock hhold
  obtain ⟨hoffset, -⟩ := ptr_toNat halign hstored hblock hhold
  have husable := P.kUsable_lt
  have hpo : (((payloadOffsetAt P off align).setWidth 32).toNat : ℤ) =
      IntPool.payloadOffsetAt P off.toNat align.toNat := by
    rw [setWidth_toNat (by omega), hoffset, IntPool.payloadOffsetAt_cast P halign]
  by_cases hsplit : (pool.headerAt off).size.setWidth w -
      roundUp (payloadOffsetAt P off align + size) P.kAlign ≥ P.kHeader + P.kAlign
  · have hat : ((off.toNat : ℤ) + IntPool.roundUp (IntPool.payloadOffsetAt P off.toNat align.toNat +
        size.toNat) P.kAlign.toNat).toNat =
        (off + roundUp (payloadOffsetAt P off align + size) P.kAlign).toNat := by
      rw [← hcut.needed, hneeded, ← Nat.cast_add, Int.toNat_natCast,
        BitVec.toNat_add_of_lt (by have := P.kUsable.isLt; omega), hneeded]
    rw [take_header_split rfl hsplit, IntPool.take_header_split rfl (hcut.split.mp hsplit),
      toInt_update, toInt_update, hat, ← hcut.remainder, ← hcut.needed, Int.toNat_natCast]
    have hkept : (BlockHeader.toInt ⟨((pool.headerAt off).size.setWidth w -
          roundUp (payloadOffsetAt P off align + size) P.kAlign).setWidth 32,
          P.kHeader.setWidth 32, false⟩) =
        ⟨((pool.headerAt off).size.setWidth w -
          roundUp (payloadOffsetAt P off align + size) P.kAlign).toNat, IntPool.kHeader P, false⟩ := by
      have hheader := P.kHeader_add_kAlign_le
      rw [BlockHeader.toInt, setWidth_toNat (by omega), setWidth_toNat (by omega),
        IntPool.kHeader_cast]
    have hgiven : (BlockHeader.toInt ⟨(roundUp (payloadOffsetAt P off align + size)
          P.kAlign).setWidth 32, (payloadOffsetAt P off align).setWidth 32, true⟩) =
        ⟨(roundUp (payloadOffsetAt P off align + size) P.kAlign).toNat,
          IntPool.payloadOffsetAt P off.toNat align.toNat, true⟩ := by
      rw [BlockHeader.toInt, setWidth_toNat (by omega), hpo]
    rw [hkept, hgiven]
    rfl
  · rw [take_header_whole rfl hsplit, IntPool.take_header_whole rfl (hcut.split.not.mp hsplit),
      toInt_update, Int.toNat_natCast, BlockHeader.toInt, hpo]
    rfl

/-- `take` stores the same values. -/
theorem take_toInt (h : Arena P pool (pre ++ t :: post)) (hoff : off.toNat = total pre)
    (halign : align.toNat.isPowerOfTwo)
    (hhold : P.CanHold size.toNat align.toNat off.toNat t) :
    (pool.take P off (payloadOffsetAt P off align) size).toInt =
      pool.toInt.take P off.toNat (IntPool.payloadOffsetAt P off.toNat align.toNat) size.toNat := by
  obtain ⟨hstored, hblocks⟩ := h.behind hoff
  have hheader := take_header_toInt halign hstored hblocks.head hhold
  obtain ⟨-, hneeded, -⟩ := needed_le hblocks.head hhold
  -- The block that is given away is not larger than the free one.
  obtain ⟨n, rest, hcut, -, hn⟩ := cut_eq_cons (P := P)
    (a := ⟨P.storage + off + payloadOffsetAt P off align, size, align⟩) hneeded
  have hsize : ((pool.take P off (payloadOffsetAt P off align) size).headerAt off).size.toNat =
      n := by
    have hstored' := take_cut (a := ⟨_, size, align⟩) halign hstored hblocks.head hhold rfl
    rw [hcut] at hstored'
    exact (stored_cons.mp hstored').1.size
  have hbound : pool.bytesUsed.toNat + n ≤ P.kUsable.toNat := by
    have htotal := h.stored.total_eq
    have hpre := ownedSize_le pre
    have hpost := ownedSize_le post
    rw [h.used, ownedSize_append, ownedSize_cons, if_pos hhold.1]
    rw [total_append, total_cons] at htotal
    omega
  have hused : ((pool.take P off (payloadOffsetAt P off align) size).bytesUsed.toNat : ℤ) =
      (pool.toInt.take P off.toNat (IntPool.payloadOffsetAt P off.toNat align.toNat)
        size.toNat).bytesUsed := by
    have hword := P.kUsable_lt
    have hlt := P.two_pow_32_le
    have hwide : (((pool.take P off (payloadOffsetAt P off align) size).headerAt
        off).size.setWidth w).toNat = n := by
      rw [setWidth_toNat (by omega), hsize]
    rw [take_bytesUsed, BitVec.toNat_add_of_lt (by omega), hwide, IntPool.take_bytesUsed,
      IntPool.headerAt, ← hheader, Int.toNat_natCast, Nat.cast_add, ← hsize]
    rfl
  have hpeak : ((pool.take P off (payloadOffsetAt P off align) size).peakBytesUsed.toNat : ℤ) =
      (pool.toInt.take P off.toNat (IntPool.payloadOffsetAt P off.toNat align.toNat)
        size.toNat).peakBytesUsed := by
    rw [take_peakBytesUsed, IntPool.take_peakBytesUsed, ← hused]
    have hiff : (pool.take P off (payloadOffsetAt P off align) size).bytesUsed >
        pool.peakBytesUsed ↔
        ((pool.take P off (payloadOffsetAt P off align) size).bytesUsed.toNat : ℤ) >
          pool.toInt.peakBytesUsed := by
      rw [gt_iff_lt, gt_iff_lt, BitVec.lt_def]
      exact Int.ofNat_lt.symm
    simp only [hiff]
    split_ifs <;> rfl
  have hfailures :
      (pool.take P off (payloadOffsetAt P off align) size).allocationFailures =
      (pool.toInt.take P off.toNat (IntPool.payloadOffsetAt P off.toNat align.toNat)
        size.toNat).allocationFailures := by
    rw [take_allocationFailures, IntPool.take_allocationFailures]
    rfl
  cases hint : pool.toInt.take P off.toNat (IntPool.payloadOffsetAt P off.toNat align.toNat)
    size.toNat
  rw [hint] at hheader hused hpeak hfailures
  rw [toInt, hheader, hused, hpeak, hfailures]

/-- A result, in integers. -/
def resultToInt (result : Option (BitVec w) × FramePool w) : Option ℤ × IntPool w :=
  (result.1.map fun p => (p.toNat : ℤ), result.2.toInt)

/-- Each iteration takes the same branch. -/
theorem allocateLoop_toInt (halign : align.toNat.isPowerOfTwo) (fuel : ℕ)
    (h : Arena P pool (pre ++ rest)) (hoff : off.toNat = total pre) :
    pool.toInt.allocateLoop P size.toNat align.toNat fuel off.toNat =
      (pool.allocateLoop P size align fuel off).map resultToInt := by
  induction fuel generalizing pre rest off with
  | zero => rfl
  | succ fuel ih =>
      obtain ⟨hstored, hblocks⟩ := h.behind hoff
      cases rest with
      | nil =>
          have hoff' := stored_nil.mp hstored
          have hend : ¬ off < P.kUsable := by
            rw [BitVec.lt_def]
            omega
          have hend' : ¬ (off.toNat : ℤ) < IntPool.kUsable P := by
            rw [IntPool.kUsable_cast]
            omega
          rw [allocateLoop, if_neg hend, IntPool.allocateLoop, if_neg hend']
          rfl
      | cons t rest =>
          obtain ⟨hlt, -, -, hnext⟩ := walk_head hstored hblocks.head
          have hlt' : (off.toNat : ℤ) < IntPool.kUsable P := by
            rw [IntPool.kUsable_cast]
            exact Int.ofNat_lt.mpr hlt
          have hsame := sameNumbers size halign hstored hblocks.head
          have hiff := canHold_iff size hstored hblocks.head halign
          have htest : (!(pool.toInt.headerAt off.toNat).allocated &&
              IntPool.payloadOffsetAt P off.toNat align.toNat ≤
                (pool.toInt.headerAt off.toNat).size &&
              (size.toNat : ℤ) ≤ (pool.toInt.headerAt off.toNat).size -
                IntPool.payloadOffsetAt P off.toNat align.toNat) = true ↔
              P.CanHold size.toNat align.toNat off.toNat t := by
            rw [← hiff]
            simp only [Bool.and_eq_true, decide_eq_true_iff, and_assoc, hsame.fits]
            rfl
          rw [allocateLoop, if_pos hlt, IntPool.allocateLoop, if_pos hlt']
          dsimp only
          by_cases hhold : P.CanHold size.toNat align.toNat off.toNat t
          · obtain ⟨-, hptr⟩ := ptr_toNat halign hstored hblocks.head hhold
            rw [if_pos (hiff.mpr hhold), if_pos (htest.mpr hhold),
              ← take_toInt h hoff halign hhold, IntPool.payloadOffsetAt_cast P halign]
            simp only [Option.map_some, resultToInt, hptr, Nat.cast_add]
          · rw [if_neg (hiff.not.mpr hhold), if_neg (htest.not.mpr hhold), ← hsame.next]
            have h' : Arena P pool ((pre ++ [t]) ++ rest) := by rwa [List.append_assoc]
            refine ih h' ?_
            rw [hnext, hoff]
            simp

/-- The whole call. -/
theorem allocate_toInt (h : Arena P pool tiles) (size align : BitVec w) :
    pool.toInt.allocate P size.toNat align.toNat =
      (pool.allocate P size align).map resultToInt := by
  obtain ⟨align', halign', hint⟩ : ∃ align' : BitVec w,
      (if align < P.kAlign then P.kAlign else align) = align' ∧
      (if (align.toNat : ℤ) < P.kAlign.toNat then (P.kAlign.toNat : ℤ) else align.toNat) =
        align'.toNat := by
    refine ⟨_, rfl, ?_⟩
    simp only [BitVec.lt_def, Int.ofNat_lt]
    split_ifs <;> rfl
  have hpow : IntPool.isPowerOfTwo align'.toNat = isPowerOfTwo align' := by
    rw [Bool.eq_iff_iff, IntPool.isPowerOfTwo_cast, isPowerOfTwo_iff]
  rw [allocate, IntPool.allocate]
  simp only [halign', hint, hpow]
  cases hvalid : isPowerOfTwo align' with
  | false => rfl
  | true =>
      have hbound : (IntPool.kUsable P).toNat + 1 = P.kUsable.toNat + 1 := by
        rw [IntPool.kUsable_cast, Int.toNat_natCast]
      rw [if_neg (by simp), if_neg (by simp), hbound]
      exact allocateLoop_toInt ((isPowerOfTwo_iff align').mp hvalid) _
        (show Arena P pool ([] ++ tiles) from h)
        (show (0#w).toNat = total ([] : List (Tile (Allocation w))) by simp)

end FramePool

/-- The alignment in effect, as `allocate` computes it. -/
def PoolConfig.alignInEffect (P : PoolConfig w) (align : BitVec w) : BitVec w :=
  if align < P.kAlign then P.kAlign else align

/-- In every reachable state, and for every request, `allocate` gives the same pointer and stores
the same values as over the integers.  In each block of the arena it computes the same numbers and
passes the same tests. -/
theorem allocate_exact (hs : s.Reachable P) (size align : BitVec w) :
    s.pool.toInt.allocate P size.toNat align.toNat =
        (s.pool.allocate P size align).map FramePool.resultToInt ∧
      (P.kHeader.toNat : ℤ) = IntPool.kHeader P ∧ (P.kUsable.toNat : ℤ) = IntPool.kUsable P ∧
      isPowerOfTwo (P.alignInEffect align) =
        IntPool.isPowerOfTwo (max (align.toNat : ℤ) P.kAlign.toNat) ∧
      (isPowerOfTwo (P.alignInEffect align) → ∀ off : BitVec w,
        (∃ blk, (off.toNat, blk) ∈ s.pool.blocks P) →
          FramePool.SameNumbers P s.pool size (P.alignInEffect align) off ∧
          ((s.pool.headerAt off).allocated = false →
            FramePool.payloadOffsetAt P off (P.alignInEffect align) ≤
              (s.pool.headerAt off).size.setWidth w →
            size ≤ (s.pool.headerAt off).size.setWidth w -
              FramePool.payloadOffsetAt P off (P.alignInEffect align) →
            FramePool.SameCut P s.pool size (P.alignInEffect align) off)) := by
  obtain ⟨tiles, h⟩ := hs.allotted
  have hmax : max (align.toNat : ℤ) P.kAlign.toNat = (P.alignInEffect align).toNat := by
    rw [PoolConfig.alignInEffect]
    split_ifs with hlt <;> rw [BitVec.lt_def] at hlt <;> omega
  refine ⟨FramePool.allocate_toInt h.arena size align, (IntPool.kHeader_cast P).symm,
    (IntPool.kUsable_cast P).symm, ?_, ?_⟩
  · rw [hmax, Bool.eq_iff_iff, IntPool.isPowerOfTwo_cast, isPowerOfTwo_iff]
  · rintro hpow off ⟨blk, hblk⟩
    have hpow' := (isPowerOfTwo_iff (P.alignInEffect align)).mp hpow
    obtain ⟨t, hmem, -⟩ := h.arena.mem_blocks.mp hblk
    obtain ⟨front, back, rfl, hoff⟩ := exists_split hmem
    obtain ⟨hstored, hblocks⟩ := h.arena.behind (hoff.trans (Nat.zero_add _))
    refine ⟨FramePool.sameNumbers size hpow' hstored hblocks.head, fun hfree hle hrest => ?_⟩
    refine FramePool.sameCut hpow' hstored hblocks.head ?_
    refine (FramePool.canHold_iff size hstored hblocks.head hpow').mp ?_
    simp [hfree, hle, hrest]

/-- The largest request with the largest alignment fails over the integers as well. -/
theorem allocate_exact_small :
    let s := PoolState.after .small (.zeroed 32) [.allocate 24 8, .allocate 10 0]
    (s.pool.toInt.allocate .small 4294967295 2147483648).map (fun result => result.1) =
      some none := by
  intro s
  have hs : s.Reachable .small := .after (by decide +kernel)
  have hsame := (allocate_exact hs 4294967295 2147483648).1
  have hnull : (s.pool.allocate .small 4294967295 2147483648).map (fun result => result.1) =
      some none := by decide +kernel
  obtain ⟨⟨p, pool⟩, hresult, hp⟩ := Option.map_eq_some_iff.mp hnull
  obtain rfl : p = none := hp
  have hsize : ((4294967295 : BitVec 32).toNat : ℤ) = 4294967295 := by simp
  have halign : ((2147483648 : BitVec 32).toNat : ℤ) = 2147483648 := by simp
  rw [hresult, hsize, halign] at hsame
  rw [hsame]
  rfl

end SimpleAwait
