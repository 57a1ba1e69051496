import SimpleAwait.Ownership.Step

/-!
# The frames in the pool

The live allocations of the pool are the frames that exist, with those whose destructors run.  So an
allocated frame is a new one, and a frame is freed once its destructors have returned.
-/

namespace SimpleAwait

open Function Tiling

variable {w : ℕ} {P : PoolConfig w} {pool : PoolState w} {pool' : FramePool w}
  {uses : List (Lifetimes.Use Frame)} {alive : Frame → Bool} {dying : List Frame} {frame : Frame}

/-- The pool, the history and the frames agree. -/
structure Accounts (P : PoolConfig w) (pool : PoolState w) (uses : List (Lifetimes.Use Frame))
    (alive : Frame → Bool) (dying : List Frame) : Prop where
  allotted : ∃ tiles, Allotted P pool tiles
  uses : Lifetimes.Takes (fun _ => false) uses alive
  nodup : dying.Nodup
  dead : ∀ f ∈ dying, alive f = false
  memory : ∀ f, (∃ a ∈ pool.live, a.ptr.toNat = f) ↔ alive f = true ∨ f ∈ dying

namespace Accounts

theorem start (P : PoolConfig w) (memory : FramePool w) :
    Accounts P (.fresh P memory) [] (fun _ => false) [] where
  allotted := ⟨_, Allotted.fresh P memory⟩
  uses := .nil _
  nodup := List.nodup_nil
  dead := by simp
  memory f := by simp [PoolState.fresh]

/-- `destroy()` on a frame that exists. -/
theorem destroy (h : Accounts P pool uses alive dying) (hframe : alive frame = true) :
    Accounts P pool (uses ++ [.destroy frame]) (update alive frame false) (frame :: dying) where
  allotted := h.allotted
  uses := h.uses.append (.destroy hframe)
  nodup := by
    refine List.nodup_cons.mpr ⟨fun hmem => ?_, h.nodup⟩
    rw [h.dead frame hmem] at hframe
    cases hframe
  dead f hf := by
    by_cases hff : f = frame
    · rw [hff, update_self]
    · rw [update_of_ne hff]
      exact h.dead f (by simpa [hff] using hf)
  memory f := by
    rw [h.memory f]
    by_cases hff : f = frame
    · simp [hff, hframe]
    · simp [hff]

/-- A failed allocation. -/
theorem exhausted (h : Accounts P pool uses alive dying) {size : BitVec w}
    (halloc : pool.pool.allocate P size P.kAlign = some (none, pool')) :
    Accounts P { pool with pool := pool' } uses alive dying := by
  obtain ⟨tiles, hallotted⟩ := h.allotted
  rcases hallotted.allocate size P.kAlign with
    ⟨-, hresult, hnext⟩ | ⟨pre, t, post, p, pool'', -, -, hresult, -⟩
  · rw [halloc] at hresult
    cases hresult
    exact ⟨⟨tiles, hnext⟩, h.uses, h.nodup, h.dead, h.memory⟩
  · rw [halloc] at hresult
    cases hresult

/-- An allocated frame is neither alive nor dying. -/
theorem allocate (h : Accounts P pool uses alive dying) {size p : BitVec w}
    (halloc : pool.pool.allocate P size P.kAlign = some (some p, pool')) :
    alive p.toNat = false ∧ Accounts P ⟨pool', ⟨p, size, P.kAlign⟩ :: pool.live⟩
      (uses ++ [.construct p.toNat]) (update alive p.toNat true) dying := by
  obtain ⟨tiles, hallotted⟩ := h.allotted
  rcases hallotted.allocate size P.kAlign with
    ⟨-, hresult, -⟩ | ⟨pre, t, post, p', pool'', -, -, hresult, hnext, -⟩
  · rw [halloc] at hresult
    cases hresult
  · rw [halloc] at hresult
    cases hresult
    -- the pointers of the live allocations differ
    have hnodup := (hnext.live.map Allocation.ptr).nodup_iff.mpr hnext.arena.nodup_ptr
    have hfresh : ¬ ∃ a ∈ pool.live, a.ptr.toNat = p.toNat := by
      rintro ⟨a, ha, hptr⟩
      refine (List.nodup_cons.mp hnodup).1 (List.mem_map.mpr ⟨a, ha, ?_⟩)
      exact BitVec.eq_of_toNat_eq hptr
    rw [h.memory, not_or, Bool.not_eq_true] at hfresh
    refine ⟨hfresh.1, ⟨_, hnext⟩, h.uses.append (.construct hfresh.1), h.nodup, fun f hf => ?_,
      fun f => ?_⟩
    · rw [update_of_ne]
      · exact h.dead f hf
      · rintro rfl
        exact hfresh.2 hf
    · by_cases hff : f = p.toNat
      · simp [hff]
      · simpa [hff, Ne.symm hff] using h.memory f

/-- The memory of a frame is freed. -/
theorem deallocate (h : Accounts P pool uses alive (frame :: dying)) {bad : Bool}
    (hfree : pool.pool.deallocate P (BitVec.ofNat w frame) = some (bad, pool')) :
    bad = false ∧ Accounts P
      ⟨pool', pool.live.filter fun a => a.ptr ≠ BitVec.ofNat w frame⟩ uses alive dying := by
  obtain ⟨tiles, hallotted⟩ := h.allotted
  obtain ⟨a, ha, hptr⟩ := (h.memory frame).mpr (Or.inr (by simp))
  have hp : BitVec.ofNat w frame = a.ptr := by rw [← hptr, BitVec.ofNat_toNat, BitVec.setWidth_eq]
  obtain ⟨pre, t, post, pool'', -, -, hresult, hnext, -⟩ := hallotted.deallocate ha
  rw [hp, hresult] at hfree
  cases hfree
  obtain ⟨hnew, hnodup⟩ := List.nodup_cons.mp h.nodup
  refine ⟨rfl, ⟨_, hp ▸ hnext⟩, h.uses, hnodup, fun f hf => h.dead f (by simp [hf]), fun f => ?_⟩
  have hmemory := h.memory f
  have hdead := h.dead frame (by simp)
  have hfilter : (∃ b ∈ pool.live.filter fun b => b.ptr ≠ BitVec.ofNat w frame, b.ptr.toNat = f) ↔
      (∃ b ∈ pool.live, b.ptr.toNat = f) ∧ f ≠ frame := by
    constructor
    · rintro ⟨b, hb, rfl⟩
      obtain ⟨hmem, hne⟩ := List.mem_filter.mp hb
      refine ⟨⟨b, hmem, rfl⟩, fun hf => ?_⟩
      rw [hp, ← hallotted.live_unique hmem ha (BitVec.eq_of_toNat_eq (hf.trans hptr.symm))] at hne
      simp at hne
    · rintro ⟨⟨b, hb, rfl⟩, hf⟩
      refine ⟨b, List.mem_filter.mpr ⟨hb, ?_⟩, rfl⟩
      rw [hp, decide_eq_true_iff]
      intro hbp
      exact hf (by rw [hbp, hptr])
  rw [hfilter, hmemory]
  by_cases hff : f = frame
  · simp [hff, hdead, hnew]
  · simp [hff]

/-- With no frame left, no byte is in use. -/
theorem bytesUsed (h : Accounts P pool uses alive []) (halive : ∀ f, alive f = false) :
    pool.pool.bytesUsed = 0#w := by
  obtain ⟨tiles, hallotted⟩ := h.allotted
  have hlive : pool.live = [] := by
    refine List.eq_nil_iff_forall_not_mem.mpr fun a ha => ?_
    have := (h.memory a.ptr.toNat).mp ⟨a, ha, rfl⟩
    simp [halive] at this
  have howners : owners tiles = [] := by
    have hperm := hallotted.live
    rwa [hlive, List.nil_perm] at hperm
  have howned : owned 0 tiles = [] := by
    rw [owners_eq 0, List.filterMap_eq_nil_iff] at howners
    refine List.eq_nil_iff_forall_not_mem.mpr fun q hq => ?_
    have hsome := (List.mem_filter.mp hq).2
    rw [howners q hq] at hsome
    cases hsome
  apply BitVec.eq_of_toNat_eq
  rw [hallotted.arena.used, ownedSize, howned]
  rfl

end Accounts

end SimpleAwait
