import SimpleAwait.FramePool.Walks

/-!
# Giving a block away

`take` turns a free tile into an owned one, and what it splits off into a free one behind it.
-/

namespace SimpleAwait

open Tiling

variable {w : ℕ}

/-- The size that an allocation at `off` needs. -/
def PoolConfig.needed (P : PoolConfig w) (size align off : ℕ) : ℕ :=
  Words.roundUp (P.payloadOffset align off + size) P.kAlign.toNat

/-- What becomes of a free block of the given length, of which so much is needed. -/
def PoolConfig.cut (P : PoolConfig w) (a : Allocation w) (needed length : ℕ) :
    List (Tile (Allocation w)) :=
  if P.kHeader.toNat + P.kAlign.toNat ≤ length - needed then
    [⟨needed, some a⟩, ⟨length - needed, none⟩]
  else [⟨length, some a⟩]

variable {P : PoolConfig w} {pool : FramePool w} {pre post : List (Tile (Allocation w))}
  {t : Tile (Allocation w)} {a : Allocation w} {off size align needed po : BitVec w}

/-! ## The headers -/

namespace FramePool

theorem take_header_split (hneeded : roundUp (po + size) P.kAlign = needed)
    (hsplit : (pool.headerAt off).size.setWidth w - needed ≥ P.kHeader + P.kAlign) :
    (pool.take P off po size).header =
      Function.update (Function.update pool.header (off + needed).toNat
          ⟨((pool.headerAt off).size.setWidth w - needed).setWidth 32, P.kHeader.setWidth 32, false⟩)
        off.toNat ⟨needed.setWidth 32, po.setWidth 32, true⟩ := by
  rw [headerAt] at hsplit
  simp only [take, hneeded, headerAt, if_pos hsplit, write, Function.update_self,
    Function.update_idem]

theorem take_header_whole (hneeded : roundUp (po + size) P.kAlign = needed)
    (hwhole : ¬ (pool.headerAt off).size.setWidth w - needed ≥ P.kHeader + P.kAlign) :
    (pool.take P off po size).header =
      Function.update pool.header off.toNat ⟨(pool.headerAt off).size, po.setWidth 32, true⟩ := by
  rw [headerAt] at hwhole
  simp only [take, hneeded, headerAt, if_neg hwhole, write]

theorem take_bytesUsed : (pool.take P off po size).bytesUsed =
    pool.bytesUsed + ((pool.take P off po size).headerAt off).size.setWidth w := by
  simp only [take, headerAt, write, Function.update_self]

theorem take_peakBytesUsed : (pool.take P off po size).peakBytesUsed =
    if (pool.take P off po size).bytesUsed > pool.peakBytesUsed then
      (pool.take P off po size).bytesUsed
    else pool.peakBytesUsed := rfl

theorem take_allocationFailures :
    (pool.take P off po size).allocationFailures = pool.allocationFailures := by
  unfold take
  dsimp only
  split_ifs <;> rfl

/-! ## The block that is given away -/

/-- What an allocation in a block needs lies within the block. -/
theorem needed_le {size align off : ℕ} (hblock : P.IsBlock off t)
    (hhold : P.CanHold size align off t) :
    P.payloadOffset align off + size ≤ P.needed size align off ∧
      P.needed size align off ≤ t.size ∧ P.kAlign.toNat ∣ P.needed size align off :=
  ⟨Words.le_roundUp _ P.kAlign_pos, Words.roundUp_le P.kAlign_pos hblock.dvd hhold.2,
    Words.dvd_roundUp _ _⟩

/-- The machine computes what the allocation needs, and the test whether to split. -/
theorem needed_toNat (halign : align.toNat.isPowerOfTwo)
    (hstored : Stored (pool.Holds P) P.kUsable.toNat off.toNat (t :: post))
    (hblock : P.IsBlock off.toNat t) (hhold : P.CanHold size.toNat align.toNat off.toNat t)
    (hneeded : roundUp (payloadOffsetAt P off align + size) P.kAlign = needed) :
    needed.toNat = P.needed size.toNat align.toNat off.toNat ∧
      ((pool.headerAt off).size.setWidth w - needed).toNat =
        t.size - P.needed size.toNat align.toNat off.toNat ∧
      ((pool.headerAt off).size.setWidth w - needed ≥ P.kHeader + P.kAlign ↔
        P.kHeader.toNat + P.kAlign.toNat ≤ t.size - P.needed size.toNat align.toNat off.toNat) := by
  obtain ⟨-, hsize, hfits, -⟩ := walk_head hstored hblock
  obtain ⟨-, hle, -⟩ := needed_le hblock hhold
  have hheader := hblock.header_le
  have hroom := P.kUsable_add_kAlign
  have hpos := P.kAlign_pos
  have hoffset : (payloadOffsetAt P off align).toNat = P.payloadOffset align.toNat off.toNat :=
    payloadOffsetAt_toNat P halign (by omega)
  have hsum : (payloadOffsetAt P off align + size).toNat =
      P.payloadOffset align.toNat off.toNat + size.toNat := by
    have := hhold.2
    rw [BitVec.toNat_add_of_lt (by omega), hoffset]
  have hround : needed.toNat = P.needed size.toNat align.toNat off.toNat := by
    have := hhold.2
    rw [← hneeded, roundUp_toNat' P.kAlign_pow (by omega), hsum, PoolConfig.needed]
  have hrest : ((pool.headerAt off).size.setWidth w - needed).toNat =
      t.size - P.needed size.toNat align.toNat off.toNat := by
    rw [BitVec.toNat_sub_of_le (by rw [BitVec.le_def]; omega), hsize, hround]
  have hmin : (P.kHeader + P.kAlign).toNat = P.kHeader.toNat + P.kAlign.toNat :=
    BitVec.toNat_add_of_lt (by have := P.kHeader_add_kAlign_le; have := P.kUsable.isLt; omega)
  exact ⟨hround, hrest, by rw [ge_iff_le, BitVec.le_def, hmin, hrest]⟩

/-- The pointer that is given away. -/
theorem ptr_toNat (halign : align.toNat.isPowerOfTwo)
    (hstored : Stored (pool.Holds P) P.kUsable.toNat off.toNat (t :: post))
    (hblock : P.IsBlock off.toNat t) (hhold : P.CanHold size.toNat align.toNat off.toNat t) :
    (payloadOffsetAt P off align).toNat = P.payloadOffset align.toNat off.toNat ∧
      (P.storage + off + payloadOffsetAt P off align).toNat =
        P.storage.toNat + off.toNat + P.payloadOffset align.toNat off.toNat := by
  obtain ⟨-, -, hfits, -⟩ := walk_head hstored hblock
  have hheader := hblock.header_le
  have hle := hhold.2
  have harena := P.storage_add_kUsable
  have hoffset : (payloadOffsetAt P off align).toNat = P.payloadOffset align.toNat off.toNat :=
    payloadOffsetAt_toNat P halign (by omega)
  have hbase : (P.storage + off).toNat = P.storage.toNat + off.toNat :=
    BitVec.toNat_add_of_lt (by omega)
  exact ⟨hoffset, by rw [BitVec.toNat_add_of_lt (by omega), hbase, hoffset]⟩

/-- The headers outside the block stay. -/
theorem take_header_of_outside (halign : align.toNat.isPowerOfTwo)
    (hstored : Stored (pool.Holds P) P.kUsable.toNat off.toNat (t :: post))
    (hblock : P.IsBlock off.toNat t) (hhold : P.CanHold size.toNat align.toNat off.toNat t)
    {o : ℕ} (hout : o < off.toNat ∨ off.toNat + t.size ≤ o) :
    (pool.take P off (payloadOffsetAt P off align) size).header o = pool.header o := by
  obtain ⟨-, -, hfits, -⟩ := walk_head hstored hblock
  obtain ⟨hneeded, -, hsplit⟩ := needed_toNat halign hstored hblock hhold rfl
  have hpos := P.kHeader_pos
  have hheader := hblock.header_le
  have hoff : o ≠ off.toNat := by omega
  by_cases h : P.kHeader.toNat + P.kAlign.toNat ≤
      t.size - P.needed size.toNat align.toNat off.toNat
  · have hat : (off + roundUp (payloadOffsetAt P off align + size) P.kAlign).toNat =
        off.toNat + P.needed size.toNat align.toNat off.toNat := by
      rw [BitVec.toNat_add_of_lt (by have := P.kUsable.isLt; omega), hneeded]
    rw [take_header_split rfl (hsplit.mpr h), Function.update_of_ne hoff,
      Function.update_of_ne (by rw [hat]; omega)]
  · rw [take_header_whole rfl (hsplit.not.mpr h), Function.update_of_ne hoff]

/-- The headers in the block describe what it is cut into. -/
theorem take_cut (halign : align.toNat.isPowerOfTwo)
    (hstored : Stored (pool.Holds P) P.kUsable.toNat off.toNat (t :: post))
    (hblock : P.IsBlock off.toNat t) (hhold : P.CanHold size.toNat align.toNat off.toNat t)
    (hptr : a.ptr = P.storage + off + payloadOffsetAt P off align) :
    Stored ((pool.take P off (payloadOffsetAt P off align) size).Holds P) (off.toNat + t.size)
      off.toNat (P.cut a (P.needed size.toNat align.toNat off.toNat) t.size) := by
  obtain ⟨-, -, hfits, -⟩ := walk_head hstored hblock
  obtain ⟨hneeded, hrest, hsplit⟩ := needed_toNat halign hstored hblock hhold rfl
  obtain ⟨hused, hle, -⟩ := needed_le hblock hhold
  obtain ⟨hoffset, hptr'⟩ := ptr_toNat halign hstored hblock hhold
  have hword := P.kUsable_lt
  have hpo : ((payloadOffsetAt P off align).setWidth 32).toNat =
      P.payloadOffset align.toNat off.toNat := by
    rw [setWidth_toNat (by omega), hoffset]
  have haddr : P.storage.toNat + off.toNat + P.payloadOffset align.toNat off.toNat =
      a.ptr.toNat := by rw [hptr, hptr']
  by_cases h : P.kHeader.toNat + P.kAlign.toNat ≤
      t.size - P.needed size.toNat align.toNat off.toNat
  · have hpos : 0 < P.needed size.toNat align.toNat off.toNat := by
      have := P.kHeader_pos
      rw [PoolConfig.payloadOffset] at hused
      omega
    have hat : (off + roundUp (payloadOffsetAt P off align + size) P.kAlign).toNat =
        off.toNat + P.needed size.toNat align.toNat off.toNat := by
      rw [BitVec.toNat_add_of_lt (by have := P.kUsable.isLt; omega), hneeded]
    have hheader := take_header_split rfl (hsplit.mpr h)
    rw [hat] at hheader
    rw [PoolConfig.cut, if_pos h, stored_cons, stored_cons, stored_nil]
    dsimp only
    refine ⟨⟨?_, ?_, ?_⟩, ⟨?_, ?_, ?_⟩, by omega⟩
    · rw [hheader, Function.update_self, setWidth_toNat (by omega), hneeded]
    · rw [hheader, Function.update_self]
      rfl
    · rintro b hb
      obtain rfl := Option.some.inj hb
      rw [hheader, Function.update_self, hpo, haddr]
    · rw [hheader, Function.update_of_ne (by omega), Function.update_self,
        setWidth_toNat (by omega), hrest]
    · rw [hheader, Function.update_of_ne (by omega), Function.update_self]
      rfl
    · rintro b ⟨⟩
  · have hheader := take_header_whole rfl (hsplit.not.mpr h)
    rw [PoolConfig.cut, if_neg h, stored_cons, stored_nil]
    refine ⟨⟨?_, ?_, ?_⟩, rfl⟩
    · rw [hheader, Function.update_self]
      exact (stored_cons.mp hstored).1.size
    · rw [hheader, Function.update_self]
      rfl
    · rintro b hb
      obtain rfl := Option.some.inj hb
      rw [hheader, Function.update_self, hpo, haddr]

end FramePool

end SimpleAwait
