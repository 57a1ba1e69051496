import Mathlib.Data.List.Nodup
import SimpleAwait.FramePool.Coalesce
import SimpleAwait.Library.Transition

/-!
# Runs of the pool

A client allocates what it likes and frees what is live.  `Allotted` is the invariant: the arena is
tiled, and the live allocations are the owners of the tiles.
-/

namespace SimpleAwait

open Tiling Transition

variable {w : ℕ}

/-- A pool with the allocations that are live. -/
structure PoolState (w : ℕ) where
  pool : FramePool w
  live : List (Allocation w)

inductive PoolAction (w : ℕ)
  | allocate (size align : BitVec w)
  | deallocate (p : BitVec w)

namespace PoolState

/-- A pool after its construction in memory that holds anything. -/
def fresh (P : PoolConfig w) (memory : FramePool w) : PoolState w := ⟨memory.reset P, []⟩

/-- The pointer is live. -/
def IsLive (s : PoolState w) (p : BitVec w) : Prop := ∃ a ∈ s.live, a.ptr = p

instance (s : PoolState w) (p : BitVec w) : Decidable (s.IsLive p) :=
  inferInstanceAs (Decidable (∃ a ∈ s.live, a.ptr = p))

/-- One call; only a live pointer is freed. -/
def step (P : PoolConfig w) (s : PoolState w) : PoolAction w → Option (PoolState w)
  | .allocate size align =>
      (s.pool.allocate P size align).map fun
        | (none, pool) => { s with pool := pool }
        | (some p, pool) => ⟨pool, ⟨p, size, align⟩ :: s.live⟩
  | .deallocate p =>
      if s.IsLive p then
        (s.pool.deallocate P p).map fun result => ⟨result.2, s.live.filter fun a => a.ptr ≠ p⟩
      else none

/-- Some run leads to the state. -/
def Reachable (P : PoolConfig w) (s : PoolState w) : Prop :=
  ∃ memory, Transition.Reachable (step P) (fresh P memory) s

/-- The state after the calls. -/
def after (P : PoolConfig w) (memory : FramePool w) (calls : List (PoolAction w)) : PoolState w :=
  (run (step P) (fresh P memory) calls).getD (fresh P memory)

theorem run_after {P : PoolConfig w} {memory : FramePool w} {calls : List (PoolAction w)}
    (h : (run (step P) (fresh P memory) calls).isSome = true) :
    run (step P) (fresh P memory) calls = some (after P memory calls) := by
  obtain ⟨s, hs⟩ := Option.isSome_iff_exists.mp h
  rw [after, hs, Option.getD_some]

theorem Reachable.after {P : PoolConfig w} {memory : FramePool w} {calls : List (PoolAction w)}
    (h : (run (step P) (fresh P memory) calls).isSome = true) :
    (PoolState.after P memory calls).Reachable P := ⟨memory, calls, run_after h⟩

end PoolState

variable {P : PoolConfig w} {pool pool' : FramePool w} {s s' : PoolState w}
  {tiles pre post : List (Tile (Allocation w))} {t : Tile (Allocation w)} {a : Allocation w}

/-! ## Owners -/

theorem owners_eq (off : ℕ) (tiles : List (Tile (Allocation w))) :
    owners tiles = (owned off tiles).filterMap fun q => q.2.owner := by
  induction tiles generalizing off with
  | nil => rfl
  | cons t tiles ih =>
      rw [owned_cons, owners, List.filterMap_cons]
      cases howner : t.owner with
      | none =>
          rw [if_pos rfl]
          exact ih _
      | some a =>
          rw [if_neg (by simp), List.filterMap_cons, howner]
          exact congrArg _ (ih _)

theorem owners_append : owners (pre ++ post) = owners pre ++ owners post := List.filterMap_append

theorem owners_merge : owners (merge tiles) = owners tiles := by
  rw [owners_eq 0, owned_merge, ← owners_eq]

theorem owners_cons_none (ht : t.owner = none) : owners (t :: post) = owners post := by
  rw [owners, List.filterMap_cons_none ht, owners]

theorem owners_cons_some (ht : t.owner = some a) : owners (t :: post) = a :: owners post := by
  rw [owners, List.filterMap_cons_some ht, owners]

/-- An owner owns a tile. -/
theorem exists_placed (h : a ∈ owners tiles) :
    ∃ o t, (o, t) ∈ placed 0 tiles ∧ t.owner = some a := by
  rw [owners_eq 0, List.mem_filterMap] at h
  obtain ⟨⟨o, t⟩, hmem, howner⟩ := h
  exact ⟨o, t, (List.mem_filter.mp hmem).1, howner⟩

namespace Arena

/-- The payloads lie one behind the other. -/
theorem pairwise_owners (h : Arena P pool tiles) : (owners tiles).Pairwise fun a b =>
    a.ptr.toNat + a.size.toNat ≤ b.ptr.toNat ∧ a.ptr.toNat < b.ptr.toNat := by
  have hpos := P.kHeader_pos
  have hplaced : (placed 0 tiles).Pairwise fun q r => q.1 + q.2.size ≤ r.1 ∧
      P.IsBlock q.1 q.2 ∧ P.IsBlock r.1 r.2 :=
    (pairwise_placed 0 tiles).imp_of_mem fun hq hr hle =>
      ⟨hle, h.blocks _ _ hq, h.blocks _ _ hr⟩
  have howned := hplaced.sublist (List.filter_sublist (p := fun q => q.2.owner.isSome))
  rw [owners_eq 0]
  refine List.Pairwise.filterMap _ ?_ howned
  rintro ⟨o, t⟩ ⟨o', t'⟩ ⟨hle, hblock, hblock'⟩ a ha b hb
  have hend := hblock.payload_le a ha
  have hstart := hblock'.after_header b hb
  dsimp only at hle hend hstart
  omega

/-- The pointers of the owners differ. -/
theorem nodup_ptr (h : Arena P pool tiles) : ((owners tiles).map Allocation.ptr).Nodup :=
  List.Pairwise.map _ (fun a b hab he => by
    have := congrArg BitVec.toNat he
    omega) h.pairwise_owners

/-- A pool after its construction is one free block. -/
theorem reset (P : PoolConfig w) (memory : FramePool w) :
    Arena P (memory.reset P) [⟨P.kUsable.toNat, none⟩] := by
  have husable := P.kUsable_lt
  have hroom := P.kHeader_add_kAlign_le
  refine ⟨?_, ?_, List.IsChain.singleton _, rfl⟩
  · refine stored_cons.mpr ⟨⟨?_, ?_, ?_⟩, stored_nil.mpr (by simp)⟩
    · exact (setWidth_toNat (n := 32) husable)
    · rfl
    · rintro b ⟨⟩
  · refine PoolConfig.areBlocks_cons.mpr ⟨⟨?_, P.kAlign_dvd_kUsable, ?_, ?_, ?_⟩, ?_⟩
    · dsimp only
      omega
    · rintro b ⟨⟩
    · rintro b ⟨⟩
    · rintro b ⟨⟩
    · rintro o t ⟨⟩

/-- A tile of which the pointer is known is the only one with it. -/
theorem ownedAt_unique (h : Arena P pool (pre ++ t :: post)) (ht : t.owner = some a)
    {u : Tile (Allocation w)} (hu : u ∈ pre ++ post) : ¬ FramePool.OwnedAt a.ptr u := by
  rintro ⟨b, hb, hptr⟩
  have hnodup := h.nodup_ptr
  rw [owners_append, owners_cons_some ht, List.map_append, List.map_cons, List.nodup_middle]
    at hnodup
  refine (List.nodup_cons.mp hnodup).1 ?_
  rw [← List.map_append, ← owners_append, ← hptr]
  exact List.mem_map_of_mem (List.mem_filterMap.mpr ⟨u, hu, hb⟩)

/-- The owned tiles besides the one of a pointer. -/
theorem owned_split (h : Arena P pool (pre ++ t :: post)) (ht : t.owner = some a) :
    owned 0 (pre ++ t :: post) =
        owned 0 pre ++ (total pre, t) :: owned (total pre + t.size) post ∧
      ∀ q ∈ owned 0 pre ++ owned (total pre + t.size) post, ¬ FramePool.OwnedAt a.ptr q.2 := by
  refine ⟨?_, fun q hq => h.ownedAt_unique ht ?_⟩
  · rw [owned_append, owned_cons, if_neg (by simp [ht]), Nat.zero_add]
  · rcases List.mem_append.mp hq with hq | hq
    · exact List.mem_append_left _ (mem_of_mem_placed (List.mem_filter.mp hq).1)
    · exact List.mem_append_right _ (mem_of_mem_placed (List.mem_filter.mp hq).1)

end Arena

/-- Without its owner, a tile is not among the owned ones. -/
theorem owned_free (pre : List (Tile (Allocation w))) {t : Tile (Allocation w)}
    (ht : t.owner = none) (post : List (Tile (Allocation w))) :
    owned 0 (pre ++ t :: post) = owned 0 pre ++ owned (total pre + t.size) post := by
  rw [owned_append, owned_cons, if_pos ht, Nat.zero_add]

theorem owned_freed : owned 0 (freed pre t post) =
    owned 0 pre ++ owned (total pre + t.size) post := by
  rw [freed, owned_merge, owned_free pre rfl]

/-! ## The invariant of the runs -/

/-- The arena is tiled, and the live allocations own the tiles. -/
structure Allotted (P : PoolConfig w) (s : PoolState w) (tiles : List (Tile (Allocation w))) :
    Prop where
  arena : Arena P s.pool tiles
  live : s.live.Perm (owners tiles)

namespace Allotted

theorem fresh (P : PoolConfig w) (memory : FramePool w) :
    Allotted P (PoolState.fresh P memory) [⟨P.kUsable.toNat, none⟩] :=
  ⟨Arena.reset P memory, List.Perm.refl []⟩

theorem mem_live (h : Allotted P s tiles) : a ∈ s.live ↔ a ∈ owners tiles := h.live.mem_iff

/-- The pointers of live allocations differ, and none is null. -/
theorem live_unique (h : Allotted P s tiles) (ha : a ∈ s.live) {b : Allocation w} (hb : b ∈ s.live)
    (hptr : a.ptr = b.ptr) : a = b :=
  List.inj_on_of_nodup_map h.arena.nodup_ptr (h.mem_live.mp ha) (h.mem_live.mp hb) hptr

theorem ptr_ne_zero (h : Allotted P s tiles) (ha : a ∈ s.live) : a.ptr ≠ 0#w := by
  obtain ⟨o, t, hmem, howner⟩ := exists_placed (h.mem_live.mp ha)
  have hafter := (h.arena.blocks o t hmem).after_header a howner
  have hpos := P.kHeader_pos
  rintro hzero
  rw [hzero] at hafter
  simp at hafter
  omega

/-- The owner of the tile that is given away is live. -/
theorem given (h : Allotted P s (pre ++ t :: post)) (ht : t.owner = none)
    (harena : Arena P pool' (P.given pre t post a)) :
    Allotted P ⟨pool', a :: s.live⟩ (P.given pre t post a) := by
  refine ⟨harena, ?_⟩
  have hlive := h.live
  rw [owners_append, owners_cons_none ht, ← owners_append] at hlive
  rw [PoolConfig.given, owners_append, owners_append, owners_cut]
  refine (hlive.cons a).trans ?_
  rw [owners_append]
  exact List.perm_middle.symm

/-- The owner of the tile that is freed is not live any more. -/
theorem freed (h : Allotted P s (pre ++ t :: post)) (ht : t.owner = some a)
    (harena : Arena P pool' (freed pre t post)) :
    Allotted P ⟨pool', s.live.filter fun b => b.ptr ≠ a.ptr⟩ (freed pre t post) := by
  refine ⟨harena, ?_⟩
  have hkeep : ∀ l ⊆ pre ++ post, (owners l).filter (fun b => b.ptr ≠ a.ptr) = owners l := by
    intro l hl
    refine List.filter_eq_self.mpr fun b hb => ?_
    obtain ⟨u, hu, howner⟩ := List.mem_filterMap.mp hb
    simpa using fun hptr => h.arena.ownedAt_unique ht (hl hu) ⟨b, howner, hptr⟩
  have hlive := h.live.filter fun b => b.ptr ≠ a.ptr
  rw [owners_append, owners_cons_some ht, List.filter_append, List.filter_cons_of_neg (by simp),
    hkeep pre (List.subset_append_left ..), hkeep post (List.subset_append_right ..)] at hlive
  rw [SimpleAwait.freed, owners_merge, owners_append, owners_cons_none rfl]
  exact hlive

/-- `allocate` returns. -/
theorem allocate (h : Allotted P s tiles) (size align : BitVec w) :
    (((max align.toNat P.kAlign.toNat).isPowerOfTwo → ∀ o t, (o, t) ∈ placed 0 tiles →
        ¬ P.CanHold size.toNat (max align.toNat P.kAlign.toNat) o t) ∧
      s.pool.allocate P size align = some (none, s.pool.fail) ∧
      Allotted P { s with pool := s.pool.fail } tiles) ∨
    ∃ pre t post p pool', tiles = pre ++ t :: post ∧ FirstFit P pre t ⟨p, size, align⟩ ∧
      s.pool.allocate P size align = some (some p, pool') ∧
      Allotted P ⟨pool', ⟨p, size, align⟩ :: s.live⟩ (P.given pre t post ⟨p, size, align⟩) ∧
      pool'.peakBytesUsed.toNat = max s.pool.peakBytesUsed.toNat pool'.bytesUsed.toNat ∧
      pool'.allocationFailures = s.pool.allocationFailures := by
  rcases h.arena.allocate size align with
    ⟨hnone, hresult⟩ | ⟨pre, t, post, p, pool', rfl, hfit, hresult, harena, hpeak, hfailures⟩
  · exact Or.inl ⟨hnone, hresult, h.arena.fail, h.live⟩
  · exact Or.inr ⟨pre, t, post, p, pool', rfl, hfit, hresult, h.given hfit.holds.1 harena, hpeak,
      hfailures⟩

/-- `deallocate` of a live pointer returns and frees the tile of its owner. -/
theorem deallocate (h : Allotted P s tiles) (ha : a ∈ s.live) :
    ∃ pre t post pool', tiles = pre ++ t :: post ∧ t.owner = some a ∧
      s.pool.deallocate P a.ptr = some (false, pool') ∧
      Allotted P ⟨pool', s.live.filter fun b => b.ptr ≠ a.ptr⟩ (SimpleAwait.freed pre t post) ∧
      pool'.peakBytesUsed = s.pool.peakBytesUsed ∧
      pool'.allocationFailures = s.pool.allocationFailures := by
  rcases h.arena.deallocate a.ptr (h.ptr_ne_zero ha) with
    ⟨hnone, -⟩ | ⟨pre, t, post, pool', rfl, -, ⟨b, howner, hptr⟩, hresult, harena, hpeak, hfailures⟩
  · obtain ⟨t, ht, howner⟩ := List.mem_filterMap.mp (h.mem_live.mp ha)
    exact absurd ⟨a, howner, rfl⟩ (hnone t ht)
  · have hb : b ∈ s.live := by
      rw [h.mem_live, owners_append, owners_cons_some howner]
      exact List.mem_append_right _ (List.mem_cons_self ..)
    obtain rfl := h.live_unique hb ha hptr
    exact ⟨pre, t, post, pool', rfl, howner, hresult, h.freed howner harena, hpeak, hfailures⟩

/-- `deallocate` of a pointer that is not live changes nothing. -/
theorem deallocate_foreign (h : Allotted P s tiles) {p : BitVec w} (hp : p ≠ 0#w)
    (hlive : ¬ s.IsLive p) : s.pool.deallocate P p = some (true, s.pool) := by
  rcases h.arena.deallocate p hp with ⟨-, hresult⟩ | ⟨pre, t, post, -, rfl, -, ⟨a, howner, hptr⟩, -⟩
  · exact hresult
  · refine absurd ⟨a, ?_, hptr⟩ hlive
    rw [h.mem_live, owners_append, owners_cons_some howner]
    exact List.mem_append_right _ (List.mem_cons_self ..)

/-- Every call keeps the invariant. -/
theorem step (h : Allotted P s tiles) {action : PoolAction w} (hstep : s.step P action = some s') :
    ∃ tiles', Allotted P s' tiles' := by
  cases action with
  | allocate size align =>
      rcases h.allocate size align with
        ⟨-, hresult, hnext⟩ | ⟨pre, t, post, p, pool', -, -, hresult, hnext, -⟩
      all_goals
        rw [PoolState.step, hresult] at hstep
        obtain rfl := Option.some.inj hstep
        exact ⟨_, hnext⟩
  | deallocate p =>
      rw [PoolState.step] at hstep
      split_ifs at hstep with hlive
      obtain ⟨a, ha, rfl⟩ := hlive
      obtain ⟨pre, t, post, pool', -, -, hresult, hnext, -⟩ := h.deallocate ha
      rw [hresult] at hstep
      obtain rfl := Option.some.inj hstep
      exact ⟨_, hnext⟩

end Allotted

/-- The invariant holds in every reachable state. -/
theorem PoolState.Reachable.allotted (h : s.Reachable P) : ∃ tiles, Allotted P s tiles := by
  obtain ⟨memory, hreach⟩ := h
  refine hreach.induction (P := fun u => ∃ tiles, Allotted P u tiles)
    ⟨_, Allotted.fresh P memory⟩ fun u action u' hu hstep => ?_
  obtain ⟨tiles, htiles⟩ := hu
  exact htiles.step hstep

end SimpleAwait
