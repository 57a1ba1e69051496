import SimpleAwait.FramePool.Basic

/-!
# The pool's arithmetic does not wrap

What the constants and the helpers of `FramePool` compute, as natural numbers.  A request can be
as large as the address space and its alignment half of it; everything added up before the fit
test stays below that, and everything after it within the arena.
-/

namespace SimpleAwait

variable {w : ℕ}

/-! ## Helpers -/

theorem pow_le_half {n : ℕ} (hw : 0 < w) (hn : n.isPowerOfTwo) (hlt : n < 2 ^ w) :
    n ≤ 2 ^ (w - 1) := by
  obtain ⟨k, rfl⟩ := hn
  have hk : k < w := (Nat.pow_lt_pow_iff_right (by omega)).mp hlt
  exact Nat.pow_le_pow_right (by omega) (by omega)

theorem pos_of_isPowerOfTwo {n : ℕ} (hn : n.isPowerOfTwo) : 0 < n := by
  obtain ⟨k, rfl⟩ := hn
  exact Nat.two_pow_pos k

/-- A multiple below another is at least one step below. -/
theorem add_le_of_dvd {a m n : ℕ} (hm : a ∣ m) (hn : a ∣ n) (h : m < n) : m + a ≤ n := by
  have := Nat.le_of_dvd (by omega) (Nat.dvd_sub hn hm)
  omega

theorem isPowerOfTwo_iff (v : BitVec w) : isPowerOfTwo v = true ↔ v.toNat.isPowerOfTwo := by
  rw [← Words.isPowerOfTwo_iff]
  simp [isPowerOfTwo]

theorem alignPadding_toNat {addr align : BitVec w} (halign : align.toNat.isPowerOfTwo) :
    (alignPadding addr align).toNat = Words.padding addr.toNat align.toNat := by
  have hlt := Nat.mod_lt addr.toNat (pos_of_isPowerOfTwo halign)
  have hlow := Words.and_pred_toNat (x := addr) halign
  unfold alignPadding
  dsimp only
  rw [Words.and_pred_toNat halign, BitVec.toNat_sub_of_le (by rw [BitVec.le_def, hlow]; omega), hlow,
    Words.padding]

theorem roundUp_toNat' {v a : BitVec w} (ha : a.toNat.isPowerOfTwo)
    (hsum : v.toNat + (a.toNat - 1) < 2 ^ w) :
    (roundUp v a).toNat = Words.roundUp v.toNat a.toNat := by
  rw [roundUp, Words.and_not_pred_toNat ha, BitVec.toNat_add,
    Words.pred_toNat (pos_of_isPowerOfTwo ha), Nat.mod_eq_of_lt hsum, Words.roundUp]

/-- A value that fits a header field is stored as it is. -/
theorem setWidth_toNat {n : ℕ} {v : BitVec w} (h : v.toNat < 2 ^ n) :
    (v.setWidth n).toNat = v.toNat := by
  rw [BitVec.toNat_setWidth, Nat.mod_eq_of_lt h]

namespace PoolConfig

variable (P : PoolConfig w)

/-! ## Constants -/

theorem kAlign_pos : 0 < P.kAlign.toNat := pos_of_isPowerOfTwo P.kAlign_pow

theorem kAlign_dvd_two_pow : P.kAlign.toNat ∣ 2 ^ w := by
  obtain ⟨k, hk⟩ := P.kAlign_pow
  have hlt := P.kAlign.isLt
  rw [hk] at hlt ⊢
  exact Nat.pow_dvd_pow 2 (Nat.le_of_lt ((Nat.pow_lt_pow_iff_right (by omega)).mp hlt))

include P in
theorem two_pow_32_le : 2 ^ 32 ≤ 2 ^ w := Nat.pow_le_pow_right (by omega) P.word

theorem kHeader_toNat : P.kHeader.toNat = Words.roundUp sizeofBlockHeader P.kAlign.toNat := by
  have hpos := P.kAlign_pos
  have hbytes := P.bytes.isLt
  have hge := P.bytes_ge
  have hle := Words.le_roundUp sizeofBlockHeader hpos
  have hsize : (BitVec.ofNat w sizeofBlockHeader).toNat = sizeofBlockHeader := by
    rw [BitVec.toNat_ofNat, Nat.mod_eq_of_lt (by omega)]
  have hadd : BitVec.ofNat w sizeofBlockHeader + P.kAlign - 1#w =
      BitVec.ofNat w sizeofBlockHeader + (P.kAlign - 1#w) := by
    rw [BitVec.sub_eq_add_neg, BitVec.sub_eq_add_neg, BitVec.add_assoc]
  have hround := roundUp_toNat' (v := BitVec.ofNat w sizeofBlockHeader) P.kAlign_pow
    (by rw [hsize]; omega)
  rwa [hsize, roundUp, ← hadd] at hround

theorem kUsable_toNat : P.kUsable.toNat = P.bytes.toNat - P.bytes.toNat % P.kAlign.toNat := by
  have hmod : (P.bytes % P.kAlign).toNat = P.bytes.toNat % P.kAlign.toNat := BitVec.toNat_umod ..
  rw [kUsable, BitVec.toNat_sub_of_le
    (by rw [BitVec.le_def, hmod]; exact Nat.mod_le _ _), hmod]

theorem kAlign_dvd_kUsable : P.kAlign.toNat ∣ P.kUsable.toNat := by
  rw [kUsable_toNat]
  exact Nat.dvd_sub_mod _

theorem kAlign_dvd_kHeader : P.kAlign.toNat ∣ P.kHeader.toNat := by
  rw [kHeader_toNat]
  exact Words.dvd_roundUp _ _

theorem kHeader_pos : 0 < P.kHeader.toNat := by
  have := Words.le_roundUp sizeofBlockHeader P.kAlign_pos
  rw [kHeader_toNat]
  exact Nat.lt_of_lt_of_le (by decide) this

theorem kUsable_lt : P.kUsable.toNat < 2 ^ 32 := by
  have := P.usable_le
  rw [kUsable_toNat]
  omega

theorem kHeader_add_kAlign_le : P.kHeader.toNat + P.kAlign.toNat ≤ P.kUsable.toNat := by
  have hge := P.bytes_ge
  rw [← kHeader_toNat] at hge
  have hdvd : P.kAlign.toNat ∣ P.kHeader.toNat + P.kAlign.toNat :=
    Nat.dvd_add P.kAlign_dvd_kHeader (Nat.dvd_refl _)
  have hmod := Nat.mod_lt P.bytes.toNat P.kAlign_pos
  rw [kUsable_toNat]
  by_contra hlt
  have := add_le_of_dvd (Nat.dvd_sub_mod P.bytes.toNat) hdvd (by omega)
  omega

/-- The arena lies within the address space. -/
theorem storage_add_kUsable : P.storage.toNat + P.kUsable.toNat < 2 ^ w := by
  have := P.storage_fits
  rw [kUsable_toNat]
  omega

/-- Rounding up within the arena does not wrap. -/
theorem kUsable_add_kAlign : P.kUsable.toNat + P.kAlign.toNat ≤ 2 ^ w :=
  add_le_of_dvd P.kAlign_dvd_kUsable P.kAlign_dvd_two_pow (by
    have := P.kUsable_lt
    have := P.two_pow_32_le
    omega)

/-- A header leaves room in a word for any padding. -/
theorem kHeader_le_half : P.kHeader.toNat ≤ 2 ^ (w - 1) := by
  have hw : 2 ^ w = 2 * 2 ^ (w - 1) := by
    rw [← Nat.pow_succ', Nat.succ_eq_add_one, Nat.sub_add_cancel (by have := P.word; omega)]
  have hle := P.kHeader_add_kAlign_le
  have husable := P.kUsable_add_kAlign
  rcases Nat.lt_or_ge P.kAlign.toNat sizeofBlockHeader with hsmall | hlarge
  · have hlt := Words.roundUp_lt_add sizeofBlockHeader P.kAlign_pos
    rw [← kHeader_toNat] at hlt
    have : 2 ^ 31 ≤ 2 ^ (w - 1) := Nat.pow_le_pow_right (by omega) (by have := P.word; omega)
    unfold sizeofBlockHeader at *
    omega
  · have hone := Words.roundUp_le P.kAlign_pos (Nat.dvd_refl _) hlarge
    rw [← kHeader_toNat] at hone
    omega

end PoolConfig

/-! ## Payloads -/

namespace FramePool

variable (P : PoolConfig w)

/-- The offset of the payload in a block that has room for its header. -/
theorem payloadOffsetAt_toNat {off align : BitVec w} (halign : align.toNat.isPowerOfTwo)
    (hoff : off.toNat + P.kHeader.toNat ≤ P.kUsable.toNat) :
    (payloadOffsetAt P off align).toNat = P.kHeader.toNat +
      Words.padding (P.storage.toNat + off.toNat + P.kHeader.toNat) align.toNat := by
  have hfits := P.storage_add_kUsable
  have haddr : (P.storage + off).toNat = P.storage.toNat + off.toNat :=
    BitVec.toNat_add_of_lt (by omega)
  have hstart : (P.storage + off + P.kHeader).toNat =
      P.storage.toNat + off.toNat + P.kHeader.toNat := by
    rw [BitVec.toNat_add_of_lt (by omega), haddr]
  have hpad : (alignPadding (P.storage + off + P.kHeader) align).toNat =
      Words.padding (P.storage.toNat + off.toNat + P.kHeader.toNat) align.toNat := by
    rw [alignPadding_toNat halign, hstart]
  have hlt := Words.padding_lt (P.storage.toNat + off.toNat + P.kHeader.toNat)
    (pos_of_isPowerOfTwo halign)
  have hhalf := pow_le_half (by have := P.word; omega) halign align.isLt
  have hheader := P.kHeader_le_half
  have hw : 2 ^ w = 2 * 2 ^ (w - 1) := by
    rw [← Nat.pow_succ', Nat.succ_eq_add_one, Nat.sub_add_cancel (by have := P.word; omega)]
  unfold payloadOffsetAt
  dsimp only
  rw [BitVec.toNat_add, hpad, Nat.mod_eq_of_lt (by omega)]

end FramePool

end SimpleAwait
