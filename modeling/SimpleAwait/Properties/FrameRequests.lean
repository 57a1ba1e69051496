import SimpleAwait.FramePool.Layout

/-!
# Which requests a pool serves

`allocate` fails only where nothing in the arena can hold the request, and gives the first block
that can otherwise.  Failed calls leave the pool as it is.
-/

namespace SimpleAwait

open Tiling

variable {w : ℕ} {P : PoolConfig w} {s : PoolState w} {tiles : List (Tile (Allocation w))}
  {size align : BitVec w}

/-- The alignment in effect. -/
def PoolConfig.effectiveAlign (P : PoolConfig w) (align : BitVec w) : ℕ :=
  max align.toNat P.kAlign.toNat

/-- What a header, the padding behind it and `size` bytes take at `off`. -/
def PoolConfig.demand (P : PoolConfig w) (size align : BitVec w) (off : ℕ) : ℕ :=
  P.payloadOffset (P.effectiveAlign align) off + size.toNat

/-- The block is free and can hold the request. -/
def PoolConfig.Fits (P : PoolConfig w) (size align : BitVec w) (b : ℕ × BlockHeader) : Prop :=
  b.2.allocated = false ∧ P.demand size align b.1 ≤ b.2.size.toNat

instance (b : ℕ × BlockHeader) : Decidable (P.Fits size align b) :=
  inferInstanceAs (Decidable (_ ∧ _))

/-- The byte at `x` belongs to no allocated block. -/
def FramePool.FreeByte (P : PoolConfig w) (pool : FramePool w) (x : ℕ) : Prop :=
  x < P.kUsable.toNat ∧
    ∀ b ∈ pool.allocatedBlocks P, ¬ (b.1 ≤ x ∧ x < b.1 + b.2.size.toNat)

/-- The bytes from `lo` to `hi` are free, and those next to them are not. -/
structure FramePool.MaximalRun (P : PoolConfig w) (pool : FramePool w) (lo hi : ℕ) : Prop where
  lt : lo < hi
  free : ∀ x, lo ≤ x → x < hi → pool.FreeByte P x
  before : ∀ x, x + 1 = lo → ¬ pool.FreeByte P x
  behind : ¬ pool.FreeByte P hi

namespace Allotted

theorem fits_iff (h : Allotted P s tiles) (size align : BitVec w) {o : ℕ}
    {t : Tile (Allocation w)} (hmem : (o, t) ∈ placed 0 tiles) : P.Fits size align (o, s.pool.header o) ↔
      P.CanHold size.toNat (P.effectiveAlign align) o t := by
  have hholds := h.arena.holds hmem
  rw [PoolConfig.Fits, PoolConfig.CanHold, hholds.size, hholds.allocated, PoolConfig.demand,
    Option.isSome_eq_false_iff, Option.isNone_iff_eq_none]

/-- A request fits a block exactly if the tile of the block can hold it. -/
theorem fits_blocks (h : Allotted P s tiles) (size align : BitVec w) {b : ℕ × BlockHeader}
    (hb : b ∈ s.pool.blocks P) :
    ∃ t, (b.1, t) ∈ placed 0 tiles ∧
      (P.Fits size align b ↔ P.CanHold size.toNat (P.effectiveAlign align) b.1 t) := by
  obtain ⟨t, hmem, hheader⟩ := h.arena.mem_blocks.mp hb
  have hiff := h.fits_iff size align hmem
  rw [hheader] at hiff
  exact ⟨t, hmem, hiff⟩

/-! ## Runs of free bytes -/

/-- The free bytes are those on free tiles. -/
theorem freeByte_iff (h : Allotted P s tiles) {o : ℕ} {t : Tile (Allocation w)}
    (hmem : (o, t) ∈ placed 0 tiles) {x : ℕ} (hx : o ≤ x) (hx' : x < o + t.size) :
    s.pool.FreeByte P x ↔ t.owner = none := by
  have hin := le_of_mem_placed hmem
  have htotal := h.arena.stored.total_eq
  rw [FramePool.FreeByte, h.arena.allocatedBlocks_eq]
  constructor
  · rintro ⟨-, hfree⟩
    by_contra hne
    refine hfree _ (List.mem_map_of_mem (List.mem_filter.mpr ⟨hmem, ?_⟩)) ⟨hx, ?_⟩
    · exact Option.isSome_iff_ne_none.mpr hne
    · dsimp only
      rwa [(h.arena.holds hmem).size]
  · refine fun hnone => ⟨by omega, fun b hb => ?_⟩
    obtain ⟨⟨o', u⟩, hu, rfl⟩ := List.mem_map.mp hb
    obtain ⟨hmem', howned⟩ := List.mem_filter.mp hu
    dsimp only
    rw [(h.arena.holds hmem').size]
    rcases placed_apart hmem hmem' with ⟨rfl, rfl⟩ | hbehind | hbefore
    · simp [hnone] at howned
    · omega
    · omega

/-- A maximal run of free bytes is a free block. -/
theorem exists_block (h : Allotted P s tiles) {lo hi : ℕ} (hrun : s.pool.MaximalRun P lo hi) :
    ∃ t, (lo, t) ∈ placed 0 tiles ∧ t.owner = none ∧ lo + t.size = hi := by
  have htotal := h.arena.stored.total_eq
  have hpos : ∀ t ∈ tiles, 0 < t.size := h.arena.size_pos
  have hlo := hrun.free lo le_rfl hrun.lt
  obtain ⟨o, t, hmem, hle, hlt⟩ := exists_placed_of_lt (Nat.zero_le lo) (by
    rw [htotal]
    exact hlo.1)
  have hfree := (h.freeByte_iff hmem hle hlt).mp hlo
  -- The byte in front of the run would lie on the same tile.
  obtain rfl : o = lo := by
    by_contra hne
    exact hrun.before (lo - 1) (by omega)
      ((h.freeByte_iff hmem (by omega) (by omega)).mpr hfree)
  refine ⟨t, hmem, hfree, ?_⟩
  rcases Nat.lt_trichotomy hi (o + t.size) with hshort | hend | hlong
  · exact absurd ((h.freeByte_iff hmem (Nat.le_of_lt hrun.lt) hshort).mpr hfree) hrun.behind
  · exact hend.symm
  · -- The byte behind the tile lies on a free one, which would touch it.
    have hbyte := hrun.free (o + t.size) (by omega) hlong
    obtain ⟨o', u, hmem', hle', hlt'⟩ := exists_placed_of_lt (Nat.zero_le (o + t.size)) (by
      rw [htotal]
      exact hbyte.1)
    have hfree' := (h.freeByte_iff hmem' hle' hlt').mp hbyte
    have htpos := hpos t (mem_of_mem_placed hmem)
    obtain rfl : o' = o + t.size := by
      rcases placed_apart hmem hmem' with ⟨rfl, rfl⟩ | hbehind | hbefore <;> omega
    rcases h.arena.merged.touching hpos hmem hmem' with howned | howned
    · exact absurd hfree howned
    · exact absurd hfree' howned

/-! ## Requests -/

/-- `allocate` fails where no block can hold the request, and gives the first one that can
otherwise. -/
theorem served (h : Allotted P s tiles) (size align : BitVec w) :
    ((¬ (P.effectiveAlign align).isPowerOfTwo ∨ ∀ b ∈ s.pool.blocks P, ¬ P.Fits size align b) ∧
      s.pool.allocate P size align = some (none, s.pool.fail)) ∨
    ∃ b p pool', (P.effectiveAlign align).isPowerOfTwo ∧
      s.pool.allocate P size align = some (some p, pool') ∧ b ∈ s.pool.blocks P ∧
      P.Fits size align b ∧
      p.toNat = P.storage.toNat + b.1 + P.payloadOffset (P.effectiveAlign align) b.1 ∧
      ∀ c ∈ s.pool.blocks P, P.Fits size align c → b.1 ≤ c.1 := by
  rcases h.allocate size align with
    ⟨hnone, hresult, -⟩ | ⟨pre, t, post, p, pool', rfl, hfit, hresult, -⟩
  · refine Or.inl ⟨?_, hresult⟩
    by_cases hpow : (P.effectiveAlign align).isPowerOfTwo
    · refine Or.inr fun b hb => ?_
      obtain ⟨t, hmem, hiff⟩ := h.fits_blocks size align hb
      exact hiff.not.mpr (hnone hpow _ t hmem)
    · exact Or.inl hpow
  · have hmem : (total pre, t) ∈ placed 0 (pre ++ t :: post) := by
      rw [placed_append, Nat.zero_add]
      exact List.mem_append_right _ (List.mem_cons_self ..)
    refine Or.inr ⟨_, p, pool', hfit.pow, hresult, h.arena.mem_blocks.mpr ⟨t, hmem, rfl⟩,
      (h.fits_iff size align hmem).mpr hfit.holds, hfit.ptr, fun c hc hfits => ?_⟩
    obtain ⟨u, hu, hiff⟩ := h.fits_blocks size align hc
    have hhold := hiff.mp hfits
    rw [placed_append, List.mem_append] at hu
    rcases hu with hu | hu
    · exact absurd hhold (hfit.first _ u hu)
    · have hbehind := (le_of_mem_placed hu).1
      dsimp only
      omega

end Allotted

/-- In every reachable state `allocate` returns null exactly if the alignment is invalid or no free
block can hold the request, and gives the lowest such block otherwise.  No maximal run of free
bytes can hold a request that fails for lack of space.  A failed `allocate` only counts itself,
and a pointer that is not live is reported and changes nothing. -/
theorem requests_served (hs : s.Reachable P) (size align : BitVec w) :
    ((∃ pool', s.pool.allocate P size align = some (none, pool')) ↔
      ¬ (P.effectiveAlign align).isPowerOfTwo ∨ ∀ b ∈ s.pool.blocks P, ¬ P.Fits size align b) ∧
    ((P.effectiveAlign align).isPowerOfTwo → (∃ b ∈ s.pool.blocks P, P.Fits size align b) →
      ∃ p pool', s.pool.allocate P size align = some (some p, pool') ∧
        ∃ b ∈ s.pool.blocks P, P.Fits size align b ∧
        p.toNat = P.storage.toNat + b.1 + P.payloadOffset (P.effectiveAlign align) b.1 ∧
        ∀ c ∈ s.pool.blocks P, P.Fits size align c → b.1 ≤ c.1) ∧
    (∀ pool', (P.effectiveAlign align).isPowerOfTwo →
      s.pool.allocate P size align = some (none, pool') →
      ∀ lo hi, s.pool.MaximalRun P lo hi → ¬ P.demand size align lo ≤ hi - lo) ∧
    (∀ pool', s.pool.allocate P size align = some (none, pool') →
      pool' = { s.pool with allocationFailures := s.pool.allocationFailures + 1#w }) ∧
    ∀ p, p ≠ 0#w → ¬ s.IsLive p → s.pool.deallocate P p = some (true, s.pool) := by
  obtain ⟨tiles, h⟩ := hs.allotted
  refine ⟨?_, ?_, ?_, ?_, fun p hp hlive => h.deallocate_foreign hp hlive⟩ <;>
    rcases h.served size align with
      ⟨hfail, hresult⟩ | ⟨b, p, pool', hpow, hresult, hb, hfits, hptr, hlowest⟩
  · exact ⟨fun _ => hfail, fun _ => ⟨_, hresult⟩⟩
  · refine ⟨fun ⟨_, hnull⟩ => ?_, fun hfail => ?_⟩
    · rw [hresult] at hnull
      cases hnull
    · exact hfail.elim (absurd hpow) fun hnone => absurd hfits (hnone b hb)
  · rintro hpow ⟨b, hb, hfits⟩
    exact absurd hfits (hfail.resolve_left (not_not_intro hpow) b hb)
  · rintro - -
    exact ⟨p, pool', hresult, b, hb, hfits, hptr, hlowest⟩
  · intro pool' hpow hnull lo hi hrun hdemand
    obtain ⟨t, hmem, hfree, rfl⟩ := h.exists_block hrun
    refine hfail.elim (absurd hpow) fun hnone => ?_
    refine hnone _ (h.arena.mem_blocks.mpr ⟨t, hmem, rfl⟩) ((h.fits_iff size align hmem).mpr ⟨hfree, ?_⟩)
    rwa [Nat.add_sub_cancel_left] at hdemand
  · intro pool' _ hnull
    rw [hresult] at hnull
    cases hnull
  · intro pool' hnull
    rw [hresult] at hnull
    cases hnull
    rfl
  · intro pool' hnull
    rw [hresult] at hnull
    cases hnull

/-- One frame in use and 216 bytes free.  A request for 208 bytes fails, and so does a second
`deallocate` of the first frame. -/
theorem requests_served_small :
    let s := PoolState.after .small (.zeroed 32)
      [.allocate 24 8, .allocate 10 0, .deallocate 4112]
    (∃ pool', s.pool.allocate .small 208 8 = some (none, pool')) ∧
      s.pool.deallocate .small 4112 = some (true, s.pool) := by
  intro s
  have hs : s.Reachable .small := .after (by decide +kernel)
  obtain ⟨hnull, -, -, -, hforeign⟩ := requests_served hs 208 8
  exact ⟨hnull.mpr (Or.inr (by decide +kernel)), hforeign 4112 (by decide) (by decide +kernel)⟩

end SimpleAwait
