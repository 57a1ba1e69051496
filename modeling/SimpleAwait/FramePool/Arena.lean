import SimpleAwait.FramePool.Take

/-!
# The arena under allocation

`Arena` relates a pool to the tiling of its arena.  An allocation cuts the first tile that can
hold it and leaves the others alone.
-/

namespace SimpleAwait

open Tiling

variable {w : ℕ} {P : PoolConfig w} {pool : FramePool w}
  {tiles pre post : List (Tile (Allocation w))} {t : Tile (Allocation w)} {a : Allocation w}
  {off size align : BitVec w}

/-- The pool stores the tiling, and it is one the pool keeps. -/
structure Arena (P : PoolConfig w) (pool : FramePool w) (tiles : List (Tile (Allocation w))) :
    Prop where
  stored : Stored (pool.Holds P) P.kUsable.toNat 0 tiles
  blocks : P.AreBlocks 0 tiles
  merged : Merged tiles
  used : pool.bytesUsed.toNat = ownedSize tiles

/-- The allocations that own the tiles. -/
def owners (tiles : List (Tile (Allocation w))) : List (Allocation w) := tiles.filterMap Tile.owner

theorem PoolConfig.areBlocks_append {o : ℕ} : P.AreBlocks o (pre ++ post) ↔
    P.AreBlocks o pre ∧ P.AreBlocks (o + total pre) post := by
  simp only [PoolConfig.AreBlocks, placed_append, List.mem_append, or_imp, forall_and]

theorem PoolConfig.areBlocks_cons {o : ℕ} : P.AreBlocks o (t :: post) ↔
    P.IsBlock o t ∧ P.AreBlocks (o + t.size) post := by
  simp only [PoolConfig.AreBlocks, placed_cons, List.mem_cons, or_imp, forall_and, Prod.mk.injEq,
    and_imp, forall_eq_apply_imp_iff, forall_eq]

/-! ## Cutting a block -/

theorem owners_cut (needed length : ℕ) : owners (P.cut a needed length) = [a] := by
  rw [PoolConfig.cut]
  split_ifs <;> rfl

/-- The parts of a block are blocks. -/
theorem areBlocks_cut {off align : ℕ} (hblock : P.IsBlock off t)
    (hhold : P.CanHold a.size.toNat align off t)
    (halign : align = max a.align.toNat P.kAlign.toNat)
    (hptr : a.ptr.toNat = P.storage.toNat + off + P.payloadOffset align off) :
    P.AreBlocks off (P.cut a (P.needed a.size.toNat align off) t.size) := by
  obtain ⟨hused, hle, hdvd⟩ := FramePool.needed_le hblock hhold
  have hpos : 0 < align := by
    have := P.kAlign_pos
    omega
  have hoffset : P.kHeader.toNat ≤ P.payloadOffset align off := Nat.le_add_right _ _
  have haligned : align ∣ a.ptr.toNat := by
    have := Words.dvd_add_padding (P.storage.toNat + off + P.kHeader.toNat) hpos
    rwa [hptr, PoolConfig.payloadOffset, ← Nat.add_assoc]
  -- The block that is given away, as long as what is needed at least.
  have hgiven : ∀ length, P.needed a.size.toNat align off ≤ length → P.kAlign.toNat ∣ length →
      P.IsBlock off ⟨length, some a⟩ := by
    intro length hlength hdvd'
    refine ⟨by dsimp only; omega, hdvd', ?_, ?_, ?_⟩
    · rintro b ⟨⟩
      omega
    · rintro b ⟨⟩
      dsimp only
      omega
    · rintro b ⟨⟩
      rwa [← halign]
  rw [PoolConfig.cut]
  split_ifs with hsplit
  · rw [PoolConfig.areBlocks_cons, PoolConfig.areBlocks_cons]
    refine ⟨hgiven _ le_rfl hdvd, ⟨by dsimp only; omega, Nat.dvd_sub hblock.dvd hdvd, ?_, ?_, ?_⟩, ?_⟩
    · rintro b ⟨⟩
    · rintro b ⟨⟩
    · rintro b ⟨⟩
    · rintro o u ⟨⟩
  · rw [PoolConfig.areBlocks_cons]
    exact ⟨hgiven _ hle hblock.dvd, fun o u h => by cases h⟩

theorem merged_cut {needed : ℕ} (h : Merged (pre ++ t :: post)) (ht : t.owner = none) :
    Merged (pre ++ (P.cut a needed t.size ++ post)) := by
  rw [PoolConfig.cut]
  split_ifs
  · exact h.split ht (Option.some_ne_none a) _
  · exact h.own (Option.some_ne_none a)

/-- The first part is the one that is owned. -/
theorem cut_eq_cons {needed length : ℕ} (hle : needed ≤ length) : ∃ n rest,
    P.cut a needed length = ⟨n, some a⟩ :: rest ∧ (∀ o, owned o rest = []) ∧
      n + total rest = length := by
  rw [PoolConfig.cut]
  split_ifs
  · refine ⟨_, _, rfl, fun o => ?_, ?_⟩
    · rw [owned_cons, if_pos rfl, owned_nil]
    · simp only [total_cons, total_nil]
      omega
  · exact ⟨_, _, rfl, fun o => owned_nil, by simp⟩

/-! ## Taking a block -/

namespace Arena

theorem bytesUsed_le (h : Arena P pool tiles) : pool.bytesUsed.toNat ≤ P.kUsable.toNat := by
  have htotal := h.stored.total_eq
  have := ownedSize_le tiles
  rw [h.used]
  omega

/-- The blocks from some block on. -/
theorem behind (h : Arena P pool (pre ++ post)) (hoff : off.toNat = total pre) :
    Stored (pool.Holds P) P.kUsable.toNat off.toNat post ∧ P.AreBlocks off.toNat post := by
  have hstored := (stored_append.mp h.stored).2
  have hblocks := (PoolConfig.areBlocks_append.mp h.blocks).2
  rw [Nat.zero_add, ← hoff] at hstored hblocks
  exact ⟨hstored, hblocks⟩

/-- `take` cuts the block. -/
theorem take (h : Arena P pool (pre ++ t :: post)) (hoff : off.toNat = total pre)
    (hpow : align.toNat.isPowerOfTwo) (halign : align.toNat = max a.align.toNat P.kAlign.toNat)
    (hhold : P.CanHold a.size.toNat align.toNat off.toNat t)
    (hptr : a.ptr = P.storage + off + FramePool.payloadOffsetAt P off align) :
    Arena P (pool.take P off (FramePool.payloadOffsetAt P off align) a.size)
      (pre ++ (P.cut a (P.needed a.size.toNat align.toNat off.toNat) t.size ++ post)) := by
  obtain ⟨hstored, hblocks⟩ := h.behind hoff
  obtain ⟨hblock, hpost⟩ := PoolConfig.areBlocks_cons.mp hblocks
  obtain ⟨-, hptr'⟩ := FramePool.ptr_toNat hpow hstored hblock hhold
  rw [← hptr] at hptr'
  have hcut := FramePool.take_cut hpow hstored hblock hhold hptr
  have htotal := hcut.total_eq
  have hstored' : Stored
      ((pool.take P off (FramePool.payloadOffsetAt P off align) a.size).Holds P) P.kUsable.toNat 0
      (pre ++ (P.cut a (P.needed a.size.toNat align.toNat off.toNat) t.size ++ post)) := by
    refine h.stored.replace (by rwa [Nat.zero_add, ← hoff]) fun o u hmem hout hu => ?_
    have hpos := P.kHeader_pos
    have hsize := (h.blocks o u hmem).header_le
    rw [Nat.zero_add, ← hoff] at hout
    exact hu.congr (FramePool.take_header_of_outside hpow hstored hblock hhold (by omega))
  refine ⟨hstored', ?_, merged_cut h.merged hhold.1, ?_⟩
  · rw [PoolConfig.areBlocks_append, PoolConfig.areBlocks_append, Nat.zero_add, ← hoff, htotal]
    refine ⟨(PoolConfig.areBlocks_append.mp h.blocks).1, ?_, hpost⟩
    exact areBlocks_cut hblock hhold halign hptr'
  · obtain ⟨-, hneeded, -⟩ := FramePool.needed_le hblock hhold
    obtain ⟨n, rest, hcons, hrest, -⟩ := cut_eq_cons (P := P) (a := a) hneeded
    have hn : ownedSize
        (P.cut a (P.needed a.size.toNat align.toNat off.toNat) t.size) = n := by
      rw [hcons, ownedSize_cons, if_neg (by simp), ownedSize, hrest]
      simp
    have hsize : ((pool.take P off (FramePool.payloadOffsetAt P off align) a.size).headerAt
        off).size.toNat = n := by
      rw [hcons] at hcut
      exact (stored_cons.mp hcut).1.size
    have hused := h.used
    have hle := ownedSize_le
      (pre ++ (P.cut a (P.needed a.size.toNat align.toNat off.toNat) t.size ++ post))
    have hend := hstored'.total_eq
    have hword := P.kUsable.isLt
    have hlt := P.two_pow_32_le
    simp only [ownedSize_append, ownedSize_cons, if_pos hhold.1, hn] at hused hle ⊢
    have hwide : (((pool.take P off (FramePool.payloadOffsetAt P off align) a.size).headerAt
        off).size.setWidth w).toNat = n := by
      rw [setWidth_toNat (by omega), hsize]
    rw [FramePool.take_bytesUsed, BitVec.toNat_add_of_lt (by omega), hwide]
    omega

theorem fail (h : Arena P pool tiles) : Arena P pool.fail tiles := by
  have hstored : Stored (pool.fail.Holds P) P.kUsable.toNat 0 tiles :=
    h.stored.congr fun o u _ hu => hu.congr rfl
  exact ⟨hstored, h.blocks, h.merged, h.used⟩

theorem size_pos (h : Arena P pool tiles) : ∀ t ∈ tiles, 0 < t.size := by
  intro t ht
  obtain ⟨pre, post, rfl⟩ := List.append_of_mem ht
  have hheader := (PoolConfig.areBlocks_append.mp h.blocks).2.head.header_le
  have hpos := P.kHeader_pos
  omega

/-- There is a bound on the walks that they do not reach. -/
theorem length_lt (h : Arena P pool tiles) : tiles.length < P.kUsable.toNat + 1 := by
  have hlength := length_le_total h.size_pos
  have htotal := h.stored.total_eq
  omega

end Arena

/-! ## `allocate` -/

/-- The tile is the first one that can hold the allocation, whose payload lies in it. -/
structure FirstFit (P : PoolConfig w) (pre : List (Tile (Allocation w))) (t : Tile (Allocation w))
    (a : Allocation w) : Prop where
  pow : (max a.align.toNat P.kAlign.toNat).isPowerOfTwo
  first : ∀ o u, (o, u) ∈ placed 0 pre →
    ¬ P.CanHold a.size.toNat (max a.align.toNat P.kAlign.toNat) o u
  holds : P.CanHold a.size.toNat (max a.align.toNat P.kAlign.toNat) (total pre) t
  ptr : a.ptr.toNat = P.storage.toNat + total pre +
    P.payloadOffset (max a.align.toNat P.kAlign.toNat) (total pre)

/-- The tiling after the allocation. -/
def PoolConfig.given (P : PoolConfig w) (pre : List (Tile (Allocation w)))
    (t : Tile (Allocation w)) (post : List (Tile (Allocation w))) (a : Allocation w) :
    List (Tile (Allocation w)) :=
  pre ++ (P.cut a (P.needed a.size.toNat (max a.align.toNat P.kAlign.toNat) (total pre)) t.size ++
    post)

/-- `allocate` gives the first tile that can hold the request, or fails where there is none. -/
theorem Arena.allocate (h : Arena P pool tiles) (size align : BitVec w) :
    (((max align.toNat P.kAlign.toNat).isPowerOfTwo →
        ∀ o t, (o, t) ∈ placed 0 tiles →
          ¬ P.CanHold size.toNat (max align.toNat P.kAlign.toNat) o t) ∧
      pool.allocate P size align = some (none, pool.fail)) ∨
    ∃ pre t post p pool', tiles = pre ++ t :: post ∧ FirstFit P pre t ⟨p, size, align⟩ ∧
      pool.allocate P size align = some (some p, pool') ∧
      Arena P pool' (P.given pre t post ⟨p, size, align⟩) ∧
      pool'.peakBytesUsed.toNat = max pool.peakBytesUsed.toNat pool'.bytesUsed.toNat ∧
      pool'.allocationFailures = pool.allocationFailures := by
  obtain ⟨align', halign', hmax⟩ : ∃ align' : BitVec w,
      (if align < P.kAlign then P.kAlign else align) = align' ∧
      align'.toNat = max align.toNat P.kAlign.toNat := by
    refine ⟨_, rfl, ?_⟩
    split_ifs with hlt <;> rw [BitVec.lt_def] at hlt <;> omega
  by_cases hpow : isPowerOfTwo align' = true
  · have hpow' := (isPowerOfTwo_iff align').mp hpow
    have hloop : pool.allocate P size align =
        pool.allocateLoop P size align' (P.kUsable.toNat + 1) 0#w := by
      rw [FramePool.allocate, halign']
      simp [hpow]
    have hbehind : Stored (pool.Holds P) P.kUsable.toNat (0#w).toNat tiles ∧
        P.AreBlocks (0#w).toNat tiles :=
      Arena.behind (show Arena P pool ([] ++ tiles) from h) (by simp)
    obtain ⟨hstored, hblocks⟩ := hbehind
    rw [hloop, ← hmax]
    rcases FramePool.allocateLoop_spec hpow' size h.length_lt hstored hblocks with
      ⟨hnone, hresult⟩ | ⟨pre, t, post, off, rfl, hoff, hpre, ht, hresult⟩
    · exact Or.inl ⟨fun _ => by simpa using hnone, hresult⟩
    · have hoff' : off.toNat = total pre := by simpa using hoff
      obtain ⟨hstored', hblocks'⟩ := h.behind hoff'
      obtain ⟨-, hptr⟩ := FramePool.ptr_toNat hpow' hstored' hblocks'.head ht
      have hfit : FirstFit P pre t
          ⟨P.storage + off + FramePool.payloadOffsetAt P off align', size, align⟩ := by
        refine ⟨?_, ?_, ?_, ?_⟩ <;> dsimp only <;> rw [← hmax]
        · exact hpow'
        · simpa using hpre
        · rwa [← hoff']
        · rw [hptr, hoff']
      have htake := h.take (a := ⟨_, size, align⟩) hoff' hpow' hmax ht rfl
      refine Or.inr ⟨pre, t, post, _, _, rfl, hfit, hresult, ?_, ?_, ?_⟩
      · rwa [PoolConfig.given, ← hmax, ← hoff']
      · rw [FramePool.take_peakBytesUsed]
        split_ifs with hgt <;> rw [gt_iff_lt, BitVec.lt_def] at hgt <;> omega
      · exact FramePool.take_allocationFailures
  · refine Or.inl ⟨fun hpow' => absurd ((isPowerOfTwo_iff align').mpr (hmax ▸ hpow')) hpow, ?_⟩
    rw [FramePool.allocate, halign']
    simp [hpow]

end SimpleAwait
