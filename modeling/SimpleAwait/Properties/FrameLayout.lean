import SimpleAwait.FramePool.Layout

/-!
# The layout depends on the live blocks alone

A merged tiling is determined by its owned tiles.  Hence the order in which pointers are freed does
not matter, and freeing undoes an allocation.
-/

namespace SimpleAwait

open Tiling Transition

variable {w : ℕ} {P : PoolConfig w} {pool pool' : FramePool w} {s s' : PoolState w}
  {tiles tiles' : List (Tile (Allocation w))} {a b : Allocation w} {p : BitVec w}

/-- Offset, size and flag of each block. -/
def FramePool.layout (P : PoolConfig w) (pool : FramePool w) : List (ℕ × ℕ × Bool) :=
  (pool.blocks P).map fun b => (b.1, b.2.size.toNat, b.2.allocated)

theorem Arena.layout_eq (h : Arena P pool tiles) :
    pool.layout P = (placed 0 tiles).map fun q => (q.1, q.2.size, q.2.owner.isSome) := by
  rw [FramePool.layout, h.blocks_eq, List.map_map]
  refine List.map_congr_left fun q hq => ?_
  have hholds := h.holds hq
  exact Prod.ext rfl (Prod.ext hholds.size hholds.allocated)

/-- The owned tiles determine the layout and what is used. -/
theorem Arena.layout_unique (h : Arena P pool tiles) (h' : Arena P pool' tiles')
    (howned : owned 0 tiles = owned 0 tiles') :
    pool.layout P = pool'.layout P ∧ pool.bytesUsed = pool'.bytesUsed := by
  have htotal : total tiles = total tiles' := by
    have hend := h.stored.total_eq
    have hend' := h'.stored.total_eq
    omega
  obtain rfl := h.merged.unique h'.merged h.size_pos h'.size_pos htotal howned
  exact ⟨h.layout_eq.trans h'.layout_eq.symm, BitVec.eq_of_toNat_eq (h.used.trans h'.used.symm)⟩

namespace Allotted

/-- The owned tiles without those of a pointer. -/
def without (p : BitVec w) (l : List (ℕ × Tile (Allocation w))) : List (ℕ × Tile (Allocation w)) :=
  l.filter fun q => q.2.owner.map Allocation.ptr ≠ some p

theorem without_comm (p q : BitVec w) (l : List (ℕ × Tile (Allocation w))) :
    without p (without q l) = without q (without p l) := List.filter_comm ..

/-- The owned tiles besides the one of a pointer. -/
theorem without_owned {pre post : List (Tile (Allocation w))} {t : Tile (Allocation w)}
    (h : Arena P pool (pre ++ t :: post)) (ht : t.owner = some a) :
    without a.ptr (owned 0 (pre ++ t :: post)) =
      owned 0 pre ++ owned (total pre + t.size) post := by
  obtain ⟨hsplit, hothers⟩ := h.owned_split ht
  have hkeep : ∀ l ⊆ owned 0 pre ++ owned (total pre + t.size) post, without a.ptr l = l := by
    intro l hl
    refine List.filter_eq_self.mpr fun q hq => ?_
    have hne := hothers q (hl hq)
    simpa [FramePool.OwnedAt] using hne
  rw [hsplit, without, List.filter_append, List.filter_cons_of_neg (by simp [ht])]
  exact congrArg₂ _ (hkeep _ (List.subset_append_left ..)) (hkeep _ (List.subset_append_right ..))

/-- Freeing a live pointer takes its tile away from the owned ones. -/
theorem step_deallocate (h : Allotted P s tiles) (ha : a ∈ s.live) :
    ∃ s' tiles', s.step P (.deallocate a.ptr) = some s' ∧
      s.pool.deallocate P a.ptr = some (false, s'.pool) ∧
      s'.live = s.live.filter (fun b => b.ptr ≠ a.ptr) ∧ Allotted P s' tiles' ∧
      owned 0 tiles' = without a.ptr (owned 0 tiles) := by
  obtain ⟨pre, t, post, pool', rfl, howner, hresult, hnext, -⟩ := h.deallocate ha
  refine ⟨_, _, ?_, hresult, rfl, hnext, ?_⟩
  · rw [PoolState.step, if_pos ⟨a, ha, rfl⟩, hresult]
    rfl
  · rw [owned_freed, without_owned h.arena howner]

/-- Without the allocation, the tiling has the same owned tiles as before. -/
theorem without_given {pre post : List (Tile (Allocation w))} {t : Tile (Allocation w)}
    (h : Arena P pool (pre ++ t :: post)) (hfit : FirstFit P pre t a)
    (h' : Arena P pool' (P.given pre t post a)) :
    without a.ptr (owned 0 (P.given pre t post a)) = owned 0 (pre ++ t :: post) := by
  have hblock : P.IsBlock (total pre) t := by
    have hblocks := (PoolConfig.areBlocks_append.mp h.blocks).2.head
    rwa [Nat.zero_add] at hblocks
  obtain ⟨-, hneeded, -⟩ := FramePool.needed_le hblock hfit.holds
  obtain ⟨n, rest, hcut, hfree, htotal⟩ := cut_eq_cons (P := P) (a := a) hneeded
  rw [PoolConfig.given, hcut, List.cons_append] at h' ⊢
  rw [without_owned h' rfl, owned_append, hfree, List.nil_append, Nat.add_assoc, htotal,
    owned_free pre hfit.holds.1]

/-- All live pointers can be freed, in any order. -/
theorem free_all (h : Allotted P s tiles) {ps : List (BitVec w)}
    (hps : ps.Perm (s.live.map Allocation.ptr)) :
    ∃ s' tiles', run (PoolState.step P) s (ps.map .deallocate) = some s' ∧ s'.live = [] ∧
      Allotted P s' tiles' := by
  induction ps generalizing s tiles with
  | nil => exact ⟨s, tiles, rfl, List.map_eq_nil_iff.mp hps.symm.eq_nil, h⟩
  | cons p ps ih =>
      obtain ⟨a, ha, rfl⟩ := List.mem_map.mp (hps.mem_iff.mp (List.mem_cons_self ..))
      obtain ⟨s', tiles', hstep, -, hlive, hnext, -⟩ := h.step_deallocate ha
      have hnodup : (a.ptr :: ps).Nodup := by
        rw [hps.nodup_iff, (h.live.map _).nodup_iff]
        exact h.arena.nodup_ptr
      have hrest : ps.Perm (s'.live.map Allocation.ptr) := by
        have hfilter := hps.filter fun q => q ≠ a.ptr
        rw [List.filter_cons_of_neg (by simp), List.filter_map] at hfilter
        rw [hlive]
        refine List.Perm.trans (List.Perm.of_eq ?_) hfilter
        refine (List.filter_eq_self.mpr fun q hq => ?_).symm
        simpa using fun he : q = a.ptr => (List.nodup_cons.mp hnodup).1 (he ▸ hq)
      obtain ⟨u, tilesu, hrun, hnil, hu⟩ := ih hnext hrest
      exact ⟨u, tilesu, run_cons.mpr ⟨s', hstep, hrun⟩, hnil, hu⟩

/-- Nothing is owned where nothing is live. -/
theorem owned_eq_nil (h : Allotted P s tiles) (hnil : s.live = []) : owned 0 tiles = [] := by
  refine List.eq_nil_iff_forall_not_mem.mpr fun q hq => ?_
  obtain ⟨b, hb⟩ := Option.isSome_iff_exists.mp (List.mem_filter.mp hq).2
  have hmem : b ∈ s.live := by
    rw [h.mem_live, owners_eq 0]
    exact List.mem_filterMap.mpr ⟨q, hq, hb⟩
  rw [hnil] at hmem
  cases hmem

/-- Two live pointers can be freed one after the other. -/
theorem free_two (h : Allotted P s tiles) (ha : a ∈ s.live) (hb : b ∈ s.live)
    (hne : a.ptr ≠ b.ptr) :
    ∃ s' tiles', run (PoolState.step P) s [.deallocate a.ptr, .deallocate b.ptr] = some s' ∧
      Allotted P s' tiles' ∧ owned 0 tiles' = without b.ptr (without a.ptr (owned 0 tiles)) := by
  obtain ⟨u, tilesu, hfirst, -, hlive, hu, howned⟩ := h.step_deallocate ha
  have hb' : b ∈ u.live := by
    rw [hlive]
    exact List.mem_filter.mpr ⟨hb, by simpa using hne.symm⟩
  obtain ⟨s', tiles', hsecond, -, -, hnext, howned'⟩ := hu.step_deallocate hb'
  refine ⟨s', tiles', ?_, hnext, by rw [howned', howned]⟩
  exact run_cons.mpr ⟨u, hfirst, run_singleton.mpr hsecond⟩

end Allotted

/-- In every reachable state two live pointers can be freed in either order with the same result,
freeing what was just allocated restores the layout, and freeing all live pointers in any order
leaves the layout of a fresh pool. -/
theorem layout_canonical (hs : s.Reachable P) :
    (∀ a ∈ s.live, ∀ b ∈ s.live, a.ptr ≠ b.ptr → ∃ s₁ s₂,
      run (PoolState.step P) s [.deallocate a.ptr, .deallocate b.ptr] = some s₁ ∧
      run (PoolState.step P) s [.deallocate b.ptr, .deallocate a.ptr] = some s₂ ∧
      s₁.pool.layout P = s₂.pool.layout P ∧ s₁.pool.bytesUsed = s₂.pool.bytesUsed) ∧
    (∀ size align p pool', s.pool.allocate P size align = some (some p, pool') →
      ∃ pool'', pool'.deallocate P p = some (false, pool'') ∧
        pool''.layout P = s.pool.layout P ∧ pool''.bytesUsed = s.pool.bytesUsed) ∧
    ∀ ps : List (BitVec w), ps.Perm (s.live.map Allocation.ptr) →
      ∃ s', run (PoolState.step P) s (ps.map .deallocate) = some s' ∧
        s'.pool.layout P = [(0, P.kUsable.toNat, false)] ∧ s'.pool.bytesUsed = 0#w := by
  obtain ⟨tiles, h⟩ := hs.allotted
  refine ⟨fun a ha b hb hne => ?_, fun size align p pool' hgiven => ?_, fun ps hps => ?_⟩
  · obtain ⟨s₁, tiles₁, hrun₁, h₁, howned₁⟩ := h.free_two ha hb hne
    obtain ⟨s₂, tiles₂, hrun₂, h₂, howned₂⟩ := h.free_two hb ha hne.symm
    refine ⟨s₁, s₂, hrun₁, hrun₂, h₁.arena.layout_unique h₂.arena ?_⟩
    rw [howned₁, howned₂, Allotted.without_comm]
  · rcases h.allocate size align with
      ⟨-, hresult, -⟩ | ⟨pre, t, post, p', pool'', rfl, hfit, hresult, hnext, -⟩
    · rw [hresult] at hgiven
      cases hgiven
    · rw [hresult] at hgiven
      cases hgiven
      obtain ⟨u, tilesu, -, hfreed, -, hu, howned⟩ := hnext.step_deallocate (List.mem_cons_self ..)
      refine ⟨u.pool, hfreed, hu.arena.layout_unique h.arena ?_⟩
      rw [howned, Allotted.without_given h.arena hfit hnext.arena]
  · obtain ⟨s', tiles', hrun, hnil, h'⟩ := h.free_all hps
    have hfresh := Arena.reset P s.pool
    have hsame := h'.arena.layout_unique hfresh (h'.owned_eq_nil hnil)
    exact ⟨s', hrun, hsame.1.trans hfresh.layout_eq, hsame.2⟩

/-- Two frames are in use; freed in either order, they leave one free block of 256 bytes. -/
theorem layout_canonical_small :
    let s := PoolState.after .small (.zeroed 32) [.allocate 24 8, .allocate 10 64]
    ∃ s', run (PoolState.step .small) s [.deallocate 4160, .deallocate 4112] = some s' ∧
      s'.pool.layout .small = [(0, 256, false)] ∧ s'.pool.bytesUsed = 0#32 := by
  intro s
  have hs : s.Reachable .small := .after (by decide +kernel)
  obtain ⟨-, -, hall⟩ := layout_canonical hs
  exact hall [4160, 4112] (by decide +kernel)

end SimpleAwait
