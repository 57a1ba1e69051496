import Mathlib.Data.Fintype.Card
import Mathlib.Data.List.Chain
import Mathlib.Order.WellFounded

/-!
# Parent links without cycles

`up` names the parent of a node, if it has one.  Fresh nodes, which are nobody's parent, may be linked
to another node, and links may be cut: neither closes a cycle.  In a finite forest each chain of children
comes to an end.
-/

namespace Forest

universe u

variable {α : Type u} {up up' : α → Option α}

/-- Parents come before their children in some ranking. -/
def Acyclic (up : α → Option α) : Prop :=
  ∃ rank : α → ℕ, ∀ c p, up c = some p → rank p < rank c

theorem Acyclic.of_none : Acyclic fun _ : α => none :=
  ⟨fun _ => 0, fun _ _ h => by cases h⟩

/-- Links are cut, and fresh nodes are linked to `root`. -/
theorem Acyclic.graft (h : Acyclic up) (fresh : α → Prop) {root : Option α}
    (hroot : ∀ p, root = some p → ¬ fresh p) (hfresh : ∀ s, fresh s → ∀ c, up c ≠ some s)
    (hlinks : ∀ c p, up' c = some p → up c = some p ∨ fresh c ∧ root = some p) : Acyclic up' := by
  classical
  obtain ⟨rank, hrank⟩ := h
  refine ⟨fun s => if fresh s then rank s + root.elim 0 rank + 1 else rank s, fun c p hup => ?_⟩
  rcases hlinks c p hup with hold | ⟨hc, rfl⟩
  · have hp : ¬ fresh p := fun hp => hfresh p hp c hold
    have hlt := hrank c p hold
    simp only [if_neg hp]
    split_ifs <;> omega
  · simp only [if_neg (hroot p rfl), if_pos hc, Option.elim_some]
    omega

/-- In a finite forest an induction may go from the children to their parent. -/
theorem Acyclic.children_wellFounded [Finite α] (h : Acyclic up) :
    WellFounded fun c p => up c = some p := by
  obtain ⟨rank, hrank⟩ := h
  have : IsTrans α fun c p => rank p < rank c := ⟨fun _ _ _ h h' => h'.trans h⟩
  have : Std.Irrefl fun c p => rank p < rank c := ⟨fun s => lt_irrefl (rank s)⟩
  have hwf : WellFounded fun c p => rank p < rank c := Finite.wellFounded_of_trans_of_irrefl _
  exact Subrelation.wf (fun {c p} hup => hrank c p hup) hwf

/-- From each node a chain of children leads to a node that has no child, and meets no node twice. -/
theorem Acyclic.exists_chain [Finite α] (h : Acyclic up) (p : α) :
    ∃ chain : List α, (p :: chain).IsChain (fun p c => up c = some p) ∧ (p :: chain).Nodup ∧
      ∀ c, up c ≠ some ((p :: chain).getLast (List.cons_ne_nil p chain)) := by
  have hchain : ∃ chain : List α, (p :: chain).IsChain (fun p c => up c = some p) ∧
      ∀ c, up c ≠ some ((p :: chain).getLast (List.cons_ne_nil p chain)) := by
    induction p using h.children_wellFounded.induction with
    | _ p ih =>
        by_cases hchild : ∃ c, up c = some p
        · obtain ⟨c, hc⟩ := hchild
          obtain ⟨chain, hlinked, hlast⟩ := ih c hc
          refine ⟨c :: chain, List.isChain_cons_cons.mpr ⟨hc, hlinked⟩, ?_⟩
          rwa [List.getLast_cons (List.cons_ne_nil c chain)]
        · exact ⟨[], List.isChain_singleton p, fun c hc => hchild ⟨c, hc⟩⟩
  obtain ⟨chain, hlinked, hlast⟩ := hchain
  obtain ⟨rank, hrank⟩ := h
  refine ⟨chain, hlinked, ?_, hlast⟩
  -- ranks increase along the chain
  have hranks : (p :: chain).IsChain fun p c => rank p < rank c :=
    hlinked.imp fun p c hc => hrank c p hc
  have : Trans (fun p c => rank p < rank c) (fun p c => rank p < rank c)
      (fun p c => rank p < rank c) := ⟨fun h h' => Nat.lt_trans h h'⟩
  apply hranks.pairwise.imp
  intro p c hlt heq
  exact lt_irrefl (rank p) (by rwa [heq] at hlt ⊢)

end Forest
