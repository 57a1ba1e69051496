import Mathlib.Order.Bounds.Basic
import SimpleAwait.FramePool.Layout

/-!
# The frame pool keeps frames apart

In every run of a pool the blocks tile the arena, the counters count them, and the live
allocations lie apart from each other and from the block headers.
-/

namespace SimpleAwait

open Tiling Transition

variable {w : ℕ} {P : PoolConfig w} {memory : FramePool w} {s s' : PoolState w}
  {tiles : List (Tile (Allocation w))} {calls : List (PoolAction w)} {a b : Allocation w}

/-- The blocks lie one behind the other, from `off` to `stop`. -/
def Consecutive (stop : ℕ) : ℕ → List (ℕ × BlockHeader) → Prop
  | off, [] => off = stop
  | off, b :: blocks => b.1 = off ∧ Consecutive stop (off + b.2.size.toNat) blocks

/-- The blocks of the pool and the live allocations in them. -/
structure PoolState.WellFormed (P : PoolConfig w) (s : PoolState w) : Prop where
  consecutive : Consecutive P.kUsable.toNat 0 (s.pool.blocks P)
  size : ∀ b ∈ s.pool.blocks P,
    P.kHeader.toNat ≤ b.2.size.toNat ∧ P.kAlign.toNat ∣ b.2.size.toNat
  merged : (s.pool.blocks P).IsChain fun b c => b.2.allocated ∨ c.2.allocated
  bytesUsed : s.pool.bytesUsed.toNat =
    ((s.pool.allocatedBlocks P).map fun b => b.2.size.toNat).sum
  inside : ∀ a ∈ s.live, P.storage.toNat ≤ a.ptr.toNat ∧
    a.ptr.toNat + a.size.toNat ≤ P.storage.toNat + P.kUsable.toNat
  aligned : ∀ a ∈ s.live, max a.align.toNat P.kAlign.toNat ∣ a.ptr.toNat
  disjoint : s.live.Pairwise fun a b => a.ptr ≠ b.ptr ∧
    (a.ptr.toNat + a.size.toNat ≤ b.ptr.toNat ∨ b.ptr.toNat + b.size.toNat ≤ a.ptr.toNat)
  off_headers : ∀ a ∈ s.live, ∀ b ∈ s.pool.blocks P,
    P.storage.toNat + b.1 + P.kHeader.toNat ≤ a.ptr.toNat ∨
      a.ptr.toNat + a.size.toNat ≤ P.storage.toNat + b.1

/-- What `bytesUsed()` is in the course of a run. -/
def usedAlong (P : PoolConfig w) (memory : FramePool w) (calls : List (PoolAction w)) : Set ℕ :=
  { n | ∃ before u, before <+: calls ∧
    run (PoolState.step P) (PoolState.fresh P memory) before = some u ∧
    u.pool.bytesUsed.toNat = n }

/-- The pool without the block of a payload: it was the only one with that payload, and it is the
only one that is not allocated any more. -/
def FramePool.Frees (P : PoolConfig w) (pool pool' : FramePool w) (p : BitVec w) : Prop :=
  ∃ b front back, pool.allocatedBlocks P = front ++ b :: back ∧
    FramePool.payload P b = p.toNat ∧ (∀ c ∈ front ++ back, FramePool.payload P c ≠ p.toNat) ∧
    pool'.allocatedBlocks P = front ++ back

/-! ## The blocks -/

theorem consecutive_blocks {off stop : ℕ} {pool : FramePool w}
    (h : Stored (pool.Holds P) stop off tiles) :
    Consecutive stop off ((placed off tiles).map fun q => (q.1, pool.header q.1)) := by
  induction tiles generalizing off with
  | nil => exact h
  | cons t tiles ih =>
      obtain ⟨hholds, hrest⟩ := stored_cons.mp h
      refine ⟨rfl, ?_⟩
      dsimp only
      rw [hholds.size]
      exact ih hrest

namespace Allotted

theorem mem_blocks (h : Allotted P s tiles) {b : ℕ × BlockHeader} (hb : b ∈ s.pool.blocks P) :
    ∃ t, (b.1, t) ∈ placed 0 tiles ∧ b.2.size.toNat = t.size ∧ b.2.allocated = t.owner.isSome := by
  obtain ⟨t, hmem, hheader⟩ := h.arena.mem_blocks.mp hb
  have hholds := h.arena.holds hmem
  rw [← hheader]
  exact ⟨t, hmem, hholds.size, hholds.allocated⟩

theorem merged_blocks (h : Allotted P s tiles) :
    (s.pool.blocks P).IsChain fun b c => b.2.allocated ∨ c.2.allocated := by
  have hmerged := h.arena.merged
  rw [Merged, ← map_snd_placed 0 tiles, List.isChain_map] at hmerged
  rw [h.arena.blocks_eq, List.isChain_map]
  refine hmerged.imp_of_mem_imp fun q r hq hr hqr => ?_
  rwa [(h.arena.holds hq).allocated, (h.arena.holds hr).allocated, Option.isSome_iff_ne_none,
    Option.isSome_iff_ne_none]

theorem bytesUsed_eq (h : Allotted P s tiles) : s.pool.bytesUsed.toNat =
    ((s.pool.allocatedBlocks P).map fun b => b.2.size.toNat).sum := by
  rw [h.arena.used, ownedSize, h.arena.allocatedBlocks_eq, List.map_map]
  refine congrArg List.sum (List.map_congr_left fun q hq => ?_)
  exact (h.arena.holds (List.mem_filter.mp hq).1).size.symm

/-- The block of a live allocation. -/
theorem block_of_live (h : Allotted P s tiles) (ha : a ∈ s.live) :
    ∃ o t, (o, t) ∈ placed 0 tiles ∧ t.owner = some a ∧ P.IsBlock o t := by
  obtain ⟨o, t, hmem, howner⟩ := exists_placed (h.mem_live.mp ha)
  exact ⟨o, t, hmem, howner, h.arena.blocks o t hmem⟩

/-- The live allocations lie apart. -/
theorem pairwise_live (h : Allotted P s tiles) : s.live.Pairwise fun a b => a.ptr ≠ b.ptr ∧
    (a.ptr.toNat + a.size.toNat ≤ b.ptr.toNat ∨ b.ptr.toNat + b.size.toNat ≤ a.ptr.toNat) := by
  refine (h.live.pairwise_iff fun hab => ⟨hab.1.symm, hab.2.symm⟩).mpr ?_
  refine h.arena.pairwise_owners.imp fun hab => ⟨fun hptr => ?_, Or.inl hab.1⟩
  rw [hptr] at hab
  omega

/-- A live allocation does not touch a header. -/
theorem off_headers (h : Allotted P s tiles) (ha : a ∈ s.live) {b : ℕ × BlockHeader}
    (hb : b ∈ s.pool.blocks P) : P.storage.toNat + b.1 + P.kHeader.toNat ≤ a.ptr.toNat ∨
      a.ptr.toNat + a.size.toNat ≤ P.storage.toNat + b.1 := by
  obtain ⟨o, t, hmem, howner, hblock⟩ := h.block_of_live ha
  obtain ⟨u, hmem', -⟩ := h.mem_blocks hb
  have hheader := (h.arena.blocks _ u hmem').header_le
  have hstart := hblock.after_header a howner
  have hend := hblock.payload_le a howner
  rcases placed_apart hmem hmem' with ⟨rfl, rfl⟩ | hbehind | hbefore
  · exact Or.inl hstart
  · exact Or.inr (by omega)
  · exact Or.inl (by omega)

theorem wellFormed (h : Allotted P s tiles) : s.WellFormed P where
  consecutive := by
    rw [h.arena.blocks_eq]
    exact consecutive_blocks h.arena.stored
  size b hb := by
    obtain ⟨t, hmem, hsize, -⟩ := h.mem_blocks hb
    have hblock := h.arena.blocks _ t hmem
    rw [hsize]
    exact ⟨hblock.header_le, hblock.dvd⟩
  merged := h.merged_blocks
  bytesUsed := h.bytesUsed_eq
  inside a ha := by
    obtain ⟨o, t, hmem, howner, hblock⟩ := h.block_of_live ha
    have hstart := hblock.after_header a howner
    have hend := hblock.payload_le a howner
    have hin := le_of_mem_placed hmem
    have htotal := h.arena.stored.total_eq
    omega
  aligned a ha := by
    obtain ⟨o, t, hmem, howner, hblock⟩ := h.block_of_live ha
    exact hblock.aligned a howner
  disjoint := h.pairwise_live
  off_headers a ha b hb := h.off_headers ha hb

/-! ## Freeing -/

theorem payload_owned (h : Allotted P s tiles) {o : ℕ} {t : Tile (Allocation w)}
    (hmem : (o, t) ∈ placed 0 tiles) (ht : t.owner = some a) :
    FramePool.payload P (o, s.pool.header o) = a.ptr.toNat := (h.arena.holds hmem).ptr a ht

/-- The allocated blocks have the payloads of the live allocations. -/
theorem payload_ne (h : Allotted P s tiles) {q : ℕ × Tile (Allocation w)} (hq : q ∈ owned 0 tiles)
    (hne : ¬ FramePool.OwnedAt a.ptr q.2) :
    FramePool.payload P (q.1, s.pool.header q.1) ≠ a.ptr.toNat := by
  obtain ⟨hmem, howned⟩ := List.mem_filter.mp hq
  obtain ⟨b, hb⟩ := Option.isSome_iff_exists.mp howned
  rw [h.payload_owned hmem hb]
  exact fun hptr => hne ⟨b, hb, BitVec.eq_of_toNat_eq hptr⟩

/-- Freeing a live pointer frees its block. -/
theorem frees (h : Allotted P s tiles) (ha : a ∈ s.live) :
    ∃ pool', s.pool.deallocate P a.ptr = some (false, pool') ∧
      FramePool.Frees P s.pool pool' a.ptr := by
  obtain ⟨pre, t, post, pool', rfl, howner, hresult, hnext, -⟩ := h.deallocate ha
  obtain ⟨hbefore, hothers⟩ := h.arena.owned_split howner
  have hkept : owned 0 pre ++ owned (total pre + t.size) post ⊆ owned 0 (pre ++ t :: post) := by
    intro q hq
    rw [hbefore]
    simp only [List.mem_append, List.mem_cons] at hq ⊢
    tauto
  have hplaced : (total pre, t) ∈ placed 0 (pre ++ t :: post) := by
    rw [placed_append, Nat.zero_add]
    exact List.mem_append_right _ (List.mem_cons_self ..)
  refine ⟨pool', hresult, (total pre, s.pool.header (total pre)),
    (owned 0 pre).map fun q => (q.1, s.pool.header q.1),
    (owned (total pre + t.size) post).map fun q => (q.1, s.pool.header q.1), ?_,
    h.payload_owned hplaced howner, ?_, ?_⟩
  · rw [h.arena.allocatedBlocks_eq, hbefore, List.map_append, List.map_cons]
  · intro c hc
    rw [← List.map_append, List.mem_map] at hc
    obtain ⟨q, hq, rfl⟩ := hc
    exact h.payload_ne (hkept hq) (hothers q hq)
  · have hnew : pool'.allocatedBlocks P =
        (owned 0 (SimpleAwait.freed pre t post)).map fun q => (q.1, pool'.header q.1) :=
      hnext.arena.allocatedBlocks_eq
    rw [hnew, h.arena.map_header_eq hnext.arena (by rwa [owned_freed]) (List.Subset.refl _), owned_freed,
      List.map_append]

/-! ## The peak -/

/-- Every call raises the peak to what is used then. -/
theorem step_peak (h : Allotted P s tiles)
    (hle : s.pool.bytesUsed.toNat ≤ s.pool.peakBytesUsed.toNat) {call : PoolAction w}
    (hstep : s.step P call = some s') :
    s'.pool.peakBytesUsed.toNat =
      max s.pool.peakBytesUsed.toNat s'.pool.bytesUsed.toNat := by
  cases call with
  | allocate size align =>
      rcases h.allocate size align with
        ⟨-, hresult, -⟩ | ⟨pre, t, post, p, pool', -, -, hresult, -, hpeak, -⟩
      · rw [PoolState.step, hresult] at hstep
        obtain rfl := Option.some.inj hstep
        exact (max_eq_left hle).symm
      · rw [PoolState.step, hresult] at hstep
        obtain rfl := Option.some.inj hstep
        exact hpeak
  | deallocate p =>
      rw [PoolState.step] at hstep
      split_ifs at hstep with hlive
      obtain ⟨a, ha, rfl⟩ := hlive
      obtain ⟨pre, t, post, pool', rfl, howner, hresult, hnext, hpeak, -⟩ := h.deallocate ha
      rw [hresult] at hstep
      obtain rfl := Option.some.inj hstep
      have hbefore := h.arena.used
      have hafter := hnext.arena.used
      rw [ownedSize_append, ownedSize_cons, if_neg (by simp [howner])] at hbefore
      rw [SimpleAwait.freed, ownedSize_merge, ownedSize_append, ownedSize_cons, if_pos rfl] at hafter
      dsimp only at hafter ⊢
      rw [hpeak]
      omega

end Allotted

/-- The peak is the most that was used in the course of the run. -/
theorem peak_isGreatest
    (hrun : run (PoolState.step P) (PoolState.fresh P memory) calls = some s) :
    IsGreatest (usedAlong P memory calls) s.pool.peakBytesUsed.toNat := by
  induction calls using List.reverseRecOn generalizing s with
  | nil =>
      cases hrun
      refine ⟨⟨[], _, List.prefix_refl _, rfl, rfl⟩, ?_⟩
      rintro n ⟨before, u, hbefore, hu, rfl⟩
      rw [List.prefix_nil.mp hbefore] at hu
      cases hu
      exact le_rfl
  | append_singleton calls call ih =>
      obtain ⟨u, hu, hstep⟩ := run_append.mp hrun
      rw [run_singleton] at hstep
      have hgreatest := ih hu
      obtain ⟨tiles, htiles⟩ := PoolState.Reachable.allotted ⟨memory, calls, hu⟩
      have hpeak := htiles.step_peak (hgreatest.2 ⟨calls, u, List.prefix_refl _, hu, rfl⟩) hstep
      have halong : usedAlong P memory (calls ++ [call]) =
          insert s.pool.bytesUsed.toNat (usedAlong P memory calls) := by
        ext n
        constructor
        · rintro ⟨before, v, hbefore, hv, rfl⟩
          rcases List.prefix_concat_iff.mp hbefore with rfl | hbefore
          · rw [hrun] at hv
            cases hv
            exact Set.mem_insert ..
          · exact Set.mem_insert_of_mem _ ⟨before, v, hbefore, hv, rfl⟩
        · rintro (rfl | ⟨before, v, hbefore, hv, rfl⟩)
          · exact ⟨_, s, List.prefix_refl _, hrun, rfl⟩
          · exact ⟨before, v, hbefore.trans (List.prefix_append ..), hv, rfl⟩
      rw [halong, hpeak, max_comm]
      exact hgreatest.insert _

/-! ## Every run -/

/-- In the course of every run the blocks tile the arena, no two free ones touch, the counters
count them, and the live allocations lie apart.  Every call returns, and the block of a freed
pointer is the one that becomes free. -/
theorem frames_kept_apart (P : PoolConfig w) (memory : FramePool w) (calls : List (PoolAction w))
    (hrun : run (PoolState.step P) (PoolState.fresh P memory) calls = some s) :
    s.WellFormed P ∧ IsGreatest (usedAlong P memory calls) s.pool.peakBytesUsed.toNat ∧
      (∀ size align, (s.pool.allocate P size align).isSome) ∧
      (∀ p, (s.pool.deallocate P p).isSome) ∧
      ∀ a ∈ s.live, ∃ pool', s.pool.deallocate P a.ptr = some (false, pool') ∧
        FramePool.Frees P s.pool pool' a.ptr := by
  obtain ⟨tiles, h⟩ := PoolState.Reachable.allotted ⟨memory, calls, hrun⟩
  refine ⟨h.wellFormed, peak_isGreatest hrun, fun size align => ?_, fun p => ?_, fun a => h.frees⟩
  · rcases h.allocate size align with ⟨-, hresult, -⟩ | ⟨pre, t, post, p, pool', -, -, hresult, -⟩
    · rw [hresult]
      rfl
    · rw [hresult]
      rfl
  · by_cases hp : p = 0#w
    · rw [FramePool.deallocate, if_pos hp]
      rfl
    · rcases h.arena.deallocate p hp with
        ⟨-, hresult⟩ | ⟨pre, t, post, pool', -, -, -, hresult, -⟩
      · rw [hresult]
        rfl
      · rw [hresult]
        rfl

/-- Two frames and an over-aligned one of size zero; the first one is freed. -/
theorem frames_kept_apart_small :
    let s := PoolState.after .small (.zeroed 32)
      [.allocate 24 8, .allocate 10 0, .allocate 0 64, .deallocate 4112]
    s.live = [⟨4224, 0, 64⟩, ⟨4152, 10, 0⟩] ∧ s.pool.bytesUsed = 88 ∧
      s.pool.peakBytesUsed = 128 ∧ s.WellFormed .small := by
  intro s
  have hrun : run (PoolState.step .small) (.fresh .small (.zeroed 32))
      [.allocate 24 8, .allocate 10 0, .allocate 0 64, .deallocate 4112] = some s :=
    PoolState.run_after (by decide +kernel)
  exact ⟨by decide +kernel, by decide +kernel, by decide +kernel,
    (frames_kept_apart .small _ _ hrun).1⟩

end SimpleAwait
