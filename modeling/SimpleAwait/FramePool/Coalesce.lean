import SimpleAwait.FramePool.Arena

/-!
# Taking a block back

`deallocate` frees the tile whose owner has the pointer, and `coalesce` merges the tiling: it
rewrites the header in front of each run of free tiles and passes over the others.
-/

namespace SimpleAwait

open Tiling

variable {w : ℕ} {P : PoolConfig w} {pool : FramePool w}
  {tiles pre post rest : List (Tile (Allocation w))} {t u : Tile (Allocation w)}
  {a : Allocation w} {off p : BitVec w}

/-! ## Merging blocks -/

theorem PoolConfig.isBlock_join {o : ℕ} (ht : P.IsBlock o t) (hu : P.IsBlock (o + t.size) u) :
    P.IsBlock o ⟨t.size + u.size, none⟩ where
  header_le := by
    have := ht.header_le
    dsimp only
    omega
  dvd := Nat.dvd_add ht.dvd hu.dvd
  after_header := by
    rintro b ⟨⟩
  payload_le := by
    rintro b ⟨⟩
  aligned := by
    rintro b ⟨⟩

theorem PoolConfig.AreBlocks.push {o : ℕ} (h : P.AreBlocks o (t :: rest)) :
    P.AreBlocks o (push t rest) := by
  cases rest with
  | nil => exact h
  | cons u rest =>
      by_cases hfree : t.owner = none ∧ u.owner = none
      · obtain ⟨ht, hu, hrest⟩ := by
          simpa only [PoolConfig.areBlocks_cons] using h
        rw [push_free hfree.1 hfree.2, PoolConfig.areBlocks_cons, ← Nat.add_assoc]
        exact ⟨PoolConfig.isBlock_join ht hu, hrest⟩
      · rwa [push_owned (by tauto)]

theorem PoolConfig.AreBlocks.merge {o : ℕ} (h : P.AreBlocks o tiles) :
    P.AreBlocks o (merge tiles) := by
  induction tiles generalizing o with
  | nil => exact h
  | cons t rest ih =>
      refine PoolConfig.AreBlocks.push ?_
      exact PoolConfig.areBlocks_cons.mpr ⟨h.head, ih h.tail⟩

namespace FramePool

theorem write_header_self (blk : BlockHeader) : (pool.write off blk).header off.toNat = blk :=
  Function.update_self ..

theorem write_header_of_ne (blk : BlockHeader) {o : ℕ} (h : o ≠ off.toNat) :
    (pool.write off blk).header o = pool.header o := Function.update_of_ne h ..

/-- A write to a header leaves the blocks behind alone. -/
theorem stored_write (blk : BlockHeader) {o : ℕ}
    (h : Stored (pool.Holds P) P.kUsable.toNat o rest) (hlt : off.toNat < o) :
    Stored ((pool.write off blk).Holds P) P.kUsable.toNat o rest :=
  h.congr fun u v hmem hv => hv.congr (write_header_of_ne blk (by
    have := (le_of_mem_placed hmem).1
    omega))

/-! ## `coalesce` -/

/-- The result of `coalesce` from `off` on: the pool stores the merged tiling, and nothing else
changes. -/
structure Coalesced (P : PoolConfig w) (pool : FramePool w) (off : ℕ)
    (rest : List (Tile (Allocation w))) (pool' : FramePool w) : Prop where
  stored : Stored (pool'.Holds P) P.kUsable.toNat off (merge rest)
  before : ∀ o < off, pool'.header o = pool.header o
  bytesUsed : pool'.bytesUsed = pool.bytesUsed
  peakBytesUsed : pool'.peakBytesUsed = pool.peakBytesUsed
  allocationFailures : pool'.allocationFailures = pool.allocationFailures

/-- The walk passes a tile that stays as it is. -/
theorem Coalesced.skip {pool' : FramePool w} {o : ℕ} (hholds : pool.Holds P o t)
    (hpos : 0 < t.size) (hmerge : merge (t :: rest) = t :: merge rest)
    (h : Coalesced P pool (o + t.size) rest pool') : Coalesced P pool o (t :: rest) pool' := by
  refine ⟨?_, fun o' ho' => h.before o' (by omega), h.bytesUsed, h.peakBytesUsed,
    h.allocationFailures⟩
  rw [hmerge, stored_cons]
  exact ⟨hholds.congr (h.before o (by omega)), h.stored⟩

/-- The walk joins two free tiles in the header of the first one. -/
theorem Coalesced.join {pool' : FramePool w} (ht : t.owner = none) (hu : u.owner = none)
    (blk : BlockHeader)
    (h : Coalesced P (pool.write off blk) off.toNat (⟨t.size + u.size, none⟩ :: rest) pool') :
    Coalesced P pool off.toNat (t :: u :: rest) pool' := by
  refine ⟨?_, fun o ho => ?_, h.bytesUsed, h.peakBytesUsed, h.allocationFailures⟩
  · rw [← merge_join ht hu]
    exact h.stored
  · rw [h.before o ho, write_header_of_ne blk (by omega)]

/-- The test of `coalesce` on a block and the one behind it. -/
theorem joins_iff (hstored : Stored (pool.Holds P) P.kUsable.toNat off.toNat (t :: rest))
    (hblocks : P.AreBlocks off.toNat (t :: rest)) {next : BitVec w}
    (hnext : next.toNat = off.toNat + t.size) :
    (!(pool.headerAt off).allocated && next < P.kUsable && !(pool.headerAt next).allocated) = true ↔
      t.owner = none ∧ ∃ u l, rest = u :: l ∧ u.owner = none := by
  obtain ⟨hholds, hrest⟩ := stored_cons.mp hstored
  have hfree : (pool.headerAt off).allocated = t.owner.isSome := hholds.allocated
  have hblocks' := hblocks.tail
  rw [← hnext] at hrest hblocks'
  rcases rest with _ | ⟨u, l⟩
  · have hend : ¬ next < P.kUsable := by
      rw [BitVec.lt_def, stored_nil.mp hrest]
      omega
    simp [hend]
  · obtain ⟨hlt, -⟩ := walk_head hrest hblocks'.head
    have hfree' : (pool.headerAt next).allocated = u.owner.isSome :=
      (stored_cons.mp hrest).1.allocated
    simp [hfree, hlt, hfree']

/-- The header in front of two free tiles is rewritten. -/
theorem stored_join (hstored : Stored (pool.Holds P) P.kUsable.toNat off.toNat (t :: u :: rest))
    (hblocks : P.AreBlocks off.toNat (t :: u :: rest)) (ht : t.owner = none) {next : BitVec w}
    (hnext : next.toNat = off.toNat + t.size) :
    Stored ((pool.write off { pool.headerAt off with
        size := (pool.headerAt off).size + (pool.headerAt next).size }).Holds P)
      P.kUsable.toNat off.toNat (⟨t.size + u.size, none⟩ :: rest) := by
  obtain ⟨hholds, hrest⟩ := stored_cons.mp hstored
  obtain ⟨hholds', hrest'⟩ := stored_cons.mp hrest
  have hfirst : (pool.headerAt off).size.toNat = t.size := hholds.size
  have hsecond : (pool.headerAt next).size.toNat = u.size := by
    rw [headerAt, hnext]
    exact hholds'.size
  have hend := hrest'.total_eq
  have husable := P.kUsable_lt
  have hpos := P.kHeader_pos
  have hheader := hblocks.head.header_le
  refine stored_cons.mpr ⟨⟨?_, ?_, ?_⟩, ?_⟩
  · rw [write_header_self, BitVec.toNat_add_of_lt (by omega), hfirst, hsecond]
  · rw [write_header_self]
    exact hholds.allocated.trans (by rw [ht])
  · rintro b ⟨⟩
  · rw [← Nat.add_assoc]
    exact stored_write _ hrest' (by omega)

/-- Each iteration joins two tiles or passes one. -/
theorem coalesceLoop_spec {fuel : ℕ} (hfuel : rest.length < fuel)
    (hstored : Stored (pool.Holds P) P.kUsable.toNat off.toNat rest)
    (hblocks : P.AreBlocks off.toNat rest) :
    ∃ pool', coalesceLoop P fuel pool off = some pool' ∧
      Coalesced P pool off.toNat rest pool' := by
  induction fuel generalizing pool off rest with
  | zero => exact absurd hfuel (Nat.not_lt_zero _)
  | succ fuel ih =>
      rcases rest with _ | ⟨t, rest⟩
      · have hend : ¬ off < P.kUsable := by
          rw [BitVec.lt_def, stored_nil.mp hstored]
          omega
        exact ⟨pool, by rw [coalesceLoop, if_neg hend], hstored, fun _ _ => rfl, rfl, rfl, rfl⟩
      obtain ⟨hlt, -, -, hnext⟩ := walk_head hstored hblocks.head
      have hiff := joins_iff hstored hblocks hnext
      rw [coalesceLoop, if_pos hlt]
      dsimp only
      by_cases hjoin : t.owner = none ∧ ∃ u l, rest = u :: l ∧ u.owner = none
      · rw [if_pos (hiff.mpr hjoin)]
        obtain ⟨ht, u, l, rfl, hu⟩ := hjoin
        have hblocks' : P.AreBlocks off.toNat (⟨t.size + u.size, none⟩ :: l) := by
          have := hblocks.push
          rwa [push_free ht hu] at this
        obtain ⟨pool', hloop, hdone⟩ :=
          ih (by simpa using hfuel) (stored_join hstored hblocks ht hnext) hblocks'
        exact ⟨pool', hloop, hdone.join ht hu⟩
      · rw [if_neg (hiff.not.mpr hjoin)]
        obtain ⟨hholds, hrest⟩ := stored_cons.mp hstored
        have hpos : 0 < t.size := Nat.lt_of_lt_of_le P.kHeader_pos hblocks.head.header_le
        have hblocks' := hblocks.tail
        rw [← hnext] at hrest hblocks'
        obtain ⟨pool', hloop, hdone⟩ := ih (by simpa using hfuel) hrest hblocks'
        rw [hnext] at hdone
        refine ⟨pool', hloop, hdone.skip hholds hpos ?_⟩
        cases rest with
        | nil => rfl
        | cons u l => exact merge_skip (by_contra fun h => hjoin (by grind))

/-! ## `deallocate` -/

/-- The owner of the tile has the pointer. -/
def OwnedAt (p : BitVec w) (t : Tile (Allocation w)) : Prop := ∃ a, t.owner = some a ∧ a.ptr = p

/-- The test of `deallocate` on one block. -/
theorem ownedAt_iff (hstored : Stored (pool.Holds P) P.kUsable.toNat off.toNat (t :: rest))
    (hblock : P.IsBlock off.toNat t) (p : BitVec w) :
    ((pool.headerAt off).allocated &&
        P.storage + off + (pool.headerAt off).payloadOffset.setWidth w = p) = true ↔
      OwnedAt p t := by
  obtain ⟨-, -, hfits, -⟩ := walk_head hstored hblock
  obtain ⟨hholds, -⟩ := stored_cons.mp hstored
  have hallocated : (pool.headerAt off).allocated = t.owner.isSome := hholds.allocated
  have harena := P.storage_add_kUsable
  have hword := P.two_pow_32_le
  cases howner : t.owner with
  | none => simp [hallocated, howner, OwnedAt]
  | some a =>
      have hptr : P.storage + off + (pool.headerAt off).payloadOffset.setWidth w = a.ptr := by
        have hptr' := hholds.ptr a howner
        have hoffset : ((pool.headerAt off).payloadOffset.setWidth w).toNat =
            (pool.header off.toNat).payloadOffset.toNat :=
          setWidth_toNat (Nat.lt_of_lt_of_le (BitVec.isLt _) hword)
        have hlt := a.ptr.isLt
        have hbase : (P.storage + off).toNat = P.storage.toNat + off.toNat :=
          BitVec.toNat_add_of_lt (by omega)
        refine BitVec.eq_of_toNat_eq ?_
        rw [BitVec.toNat_add_of_lt (by omega), hbase, hoffset, hptr']
      simp [hallocated, howner, OwnedAt, hptr]

/-- The pool whose block at `off` has been marked free, before it is coalesced. -/
def release (pool : FramePool w) (off : BitVec w) : FramePool w :=
  { pool.write off { pool.headerAt off with allocated := false } with
    bytesUsed := pool.bytesUsed - (pool.headerAt off).size.setWidth w }

theorem release_header_self : (pool.release off).header off.toNat =
    { pool.headerAt off with allocated := false } := write_header_self ..

/-- The loop of `deallocate` frees the first block with the pointer, or reports an error where
there is none. -/
theorem deallocateLoop_spec {fuel : ℕ} (hfuel : rest.length < fuel)
    (hstored : Stored (pool.Holds P) P.kUsable.toNat off.toNat rest)
    (hblocks : P.AreBlocks off.toNat rest) (p : BitVec w) :
    ((∀ t ∈ rest, ¬ OwnedAt p t) ∧ pool.deallocateLoop P p fuel off = some (true, pool)) ∨
    ∃ pre t post at', rest = pre ++ t :: post ∧ at'.toNat = off.toNat + total pre ∧
      (∀ u ∈ pre, ¬ OwnedAt p u) ∧ OwnedAt p t ∧
      pool.deallocateLoop P p fuel off =
        (coalesce P (pool.release at')).map fun pool => (false, pool) := by
  induction rest generalizing off fuel with
  | nil =>
      obtain ⟨fuel, rfl⟩ : ∃ n, fuel = n + 1 := ⟨fuel - 1, by simp at hfuel; omega⟩
      have hend : ¬ off < P.kUsable := by
        rw [BitVec.lt_def, stored_nil.mp hstored]
        omega
      exact Or.inl ⟨by simp, by rw [deallocateLoop, if_neg hend]⟩
  | cons t rest ih =>
      obtain ⟨fuel, rfl⟩ : ∃ n, fuel = n + 1 := ⟨fuel - 1, by simp at hfuel; omega⟩
      obtain ⟨hlt, -, -, hnext⟩ := walk_head hstored hblocks.head
      have hiff := ownedAt_iff hstored hblocks.head p
      by_cases howned : OwnedAt p t
      · refine Or.inr ⟨[], t, rest, off, rfl, by simp, by simp, howned, ?_⟩
        rw [deallocateLoop, if_pos hlt]
        dsimp only
        rw [if_pos (hiff.mpr howned)]
        rfl
      · have hloop : pool.deallocateLoop P p (fuel + 1) off =
            pool.deallocateLoop P p fuel (off + (pool.headerAt off).size.setWidth w) := by
          rw [deallocateLoop, if_pos hlt]
          dsimp only
          rw [if_neg (hiff.not.mpr howned)]
        have hrest := (stored_cons.mp hstored).2
        have hblocks' := hblocks.tail
        rw [← hnext] at hrest hblocks'
        rcases ih (by simpa using hfuel) hrest hblocks' with
          ⟨hnone, hresult⟩ | ⟨pre, u, post, at', rfl, hat, hpre, hu, hresult⟩
        · exact Or.inl ⟨List.forall_mem_cons.mpr ⟨howned, hnone⟩, hloop.trans hresult⟩
        · refine Or.inr ⟨t :: pre, u, post, at', rfl, ?_, List.forall_mem_cons.mpr ⟨howned, hpre⟩,
            hu, hloop.trans hresult⟩
          rw [hat, hnext, total_cons, Nat.add_assoc]

end FramePool

/-! ## The arena -/

/-- The tiling after the owner of a tile has freed it. -/
def freed (pre : List (Tile (Allocation w))) (t : Tile (Allocation w))
    (post : List (Tile (Allocation w))) : List (Tile (Allocation w)) :=
  merge (pre ++ ⟨t.size, none⟩ :: post)

namespace Arena

/-- Marking a block free and coalescing keeps the arena. -/
theorem release (h : Arena P pool (pre ++ t :: post)) (hoff : off.toNat = total pre)
    (ht : t.owner ≠ none) :
    ∃ pool', FramePool.coalesce P (pool.release off) = some pool' ∧
      Arena P pool' (freed pre t post) ∧ pool'.peakBytesUsed = pool.peakBytesUsed ∧
      pool'.allocationFailures = pool.allocationFailures := by
  obtain ⟨hstored, hblocks⟩ := h.behind hoff
  obtain ⟨hblock, hpost⟩ := PoolConfig.areBlocks_cons.mp hblocks
  obtain ⟨-, hsize, -, -⟩ := FramePool.walk_head hstored hblock
  obtain ⟨hholds, hrest⟩ := stored_cons.mp hstored
  have hpos : 0 < t.size := Nat.lt_of_lt_of_le P.kHeader_pos hblock.header_le
  have hfree : P.IsBlock off.toNat ⟨t.size, none⟩ :=
    ⟨hblock.header_le, hblock.dvd, by rintro b ⟨⟩, by rintro b ⟨⟩, by rintro b ⟨⟩⟩
  have hstored' : Stored ((pool.release off).Holds P) P.kUsable.toNat 0
      (pre ++ ([⟨t.size, none⟩] ++ post)) := by
    refine h.stored.replace ?_ fun o u hmem hout hu => ?_
    · rw [Nat.zero_add, ← hoff, stored_cons, stored_nil]
      refine ⟨⟨?_, ?_, ?_⟩, rfl⟩
      · rw [FramePool.release_header_self]
        exact hholds.size
      · rw [FramePool.release_header_self]
        rfl
      · rintro b ⟨⟩
    · have hpos' := P.kHeader_pos
      have hheader := (h.blocks o u hmem).header_le
      rw [Nat.zero_add, ← hoff] at hout
      exact hu.congr (FramePool.write_header_of_ne _ (by omega))
  have hblocks' : P.AreBlocks 0 (pre ++ ([⟨t.size, none⟩] ++ post)) := by
    refine PoolConfig.areBlocks_append.mpr ⟨(PoolConfig.areBlocks_append.mp h.blocks).1, ?_⟩
    rw [Nat.zero_add, ← hoff, List.singleton_append, PoolConfig.areBlocks_cons]
    exact ⟨hfree, hpost⟩
  have hlength : (pre ++ ([(⟨t.size, none⟩ : Tile (Allocation w))] ++ post)).length <
      P.kUsable.toNat + 1 := by
    have := h.length_lt
    simpa using this
  obtain ⟨pool', hcoalesce, hdone⟩ : ∃ pool', FramePool.coalesce P (pool.release off) = some pool' ∧
      FramePool.Coalesced P (pool.release off) (0#w).toNat
        (pre ++ ([(⟨t.size, none⟩ : Tile (Allocation w))] ++ post)) pool' :=
    FramePool.coalesceLoop_spec hlength hstored' hblocks'
  refine ⟨pool', hcoalesce, ⟨hdone.stored, hblocks'.merge, merged_merge _, ?_⟩,
    hdone.peakBytesUsed, hdone.allocationFailures⟩
  have hused := h.used
  rw [ownedSize_append, ownedSize_cons, if_neg ht] at hused
  have hbytes : pool'.bytesUsed = pool.bytesUsed - (pool.headerAt off).size.setWidth w :=
    hdone.bytesUsed
  rw [hbytes, BitVec.toNat_sub_of_le (by rw [BitVec.le_def]; omega), hsize, hused, freed,
    ownedSize_merge, ownedSize_append, ownedSize_cons, if_pos rfl]
  omega

/-- `deallocate` frees the block with the pointer, or reports an error where there is none. -/
theorem deallocate (h : Arena P pool tiles) (p : BitVec w) (hp : p ≠ 0#w) :
    ((∀ t ∈ tiles, ¬ FramePool.OwnedAt p t) ∧ pool.deallocate P p = some (true, pool)) ∨
    ∃ pre t post pool', tiles = pre ++ t :: post ∧ (∀ u ∈ pre, ¬ FramePool.OwnedAt p u) ∧
      FramePool.OwnedAt p t ∧ pool.deallocate P p = some (false, pool') ∧
      Arena P pool' (freed pre t post) ∧ pool'.peakBytesUsed = pool.peakBytesUsed ∧
      pool'.allocationFailures = pool.allocationFailures := by
  have hblocks : P.AreBlocks (0#w).toNat tiles := h.blocks
  rw [FramePool.deallocate, if_neg hp]
  rcases FramePool.deallocateLoop_spec h.length_lt h.stored hblocks p with
    hnone | ⟨pre, t, post, off, rfl, hoff, hpre, ht, hresult⟩
  · exact Or.inl hnone
  · obtain ⟨a, howner, hptr⟩ := ht
    obtain ⟨pool', hcoalesce, harena, hpeak, hfailures⟩ :=
      h.release (show off.toNat = total pre by simpa using hoff) (by simp [howner])
    refine Or.inr ⟨pre, t, post, pool', rfl, hpre, ⟨a, howner, hptr⟩, ?_, harena, hpeak, hfailures⟩
    rw [hresult, hcoalesce]
    rfl

end Arena

end SimpleAwait
