import Mathlib.Data.List.Nodup
import Mathlib.Data.List.Perm.Subperm
import Mathlib.Logic.Function.Basic

/-!
# Intrusive singly linked lists

A set of nodes `ι` carries one link per node, `next : ι → Option ι`, and a list is a
head pointer into that set.  `Linked next head l` says that following the links from
`head` visits exactly the nodes `l` and then stops.  `Fifo` adds the tail pointer of
a queue that appends at the end.

Several lists may share one link per node as long as they are disjoint: the frame
rules `Linked.congr` and `Fifo.congr` only ask that the links of the list's own nodes
are kept.  The operations are stated through the links they leave behind
(`pushNext`), so that any record with a link field can use them.
-/

namespace Intrusive

variable {ι : Type*} {next next' : ι → Option ι} {head tail : Option ι} {l l' : List ι}

/-- Following `next` from `head` visits exactly `l` and then stops. -/
def Linked (next : ι → Option ι) : Option ι → List ι → Prop
  | head, [] => head = none
  | head, a :: l => head = some a ∧ Linked next (next a) l

@[simp] theorem linked_nil : Linked next head [] ↔ head = none := Iff.rfl

@[simp] theorem linked_cons {a : ι} :
    Linked next head (a :: l) ↔ head = some a ∧ Linked next (next a) l := Iff.rfl

theorem Linked.head?_eq (h : Linked next head l) : l.head? = head := by
  cases l with
  | nil => exact (linked_nil.mp h).symm
  | cons a l => exact h.1.symm

theorem Linked.eq_nil (h : Linked next none l) : l = [] := by
  simpa using h.head?_eq

theorem Linked.exists_cons {a : ι} (h : Linked next (some a) l) :
    ∃ rest, l = a :: rest ∧ Linked next (next a) rest := by
  cases l with
  | nil => simp at h
  | cons b rest =>
      obtain ⟨hb, hrest⟩ := h
      cases hb
      exact ⟨rest, rfl, hrest⟩

/-- The nodes visited are determined by the links and the head. -/
theorem Linked.unique (h : Linked next head l) (h' : Linked next head l') : l = l' := by
  induction l generalizing head l' with
  | nil =>
      rw [linked_nil] at h
      subst h
      exact h'.eq_nil.symm
  | cons a l ih =>
      obtain ⟨rfl, hl⟩ := h
      obtain ⟨rest, rfl, hrest⟩ := h'.exists_cons
      rw [ih hl hrest]

/-- Only the links of the list's own nodes matter. -/
theorem Linked.congr (h : Linked next head l) (hsame : ∀ a ∈ l, next' a = next a) :
    Linked next' head l := by
  induction l generalizing head with
  | nil => exact h
  | cons a l ih =>
      refine ⟨h.1, ?_⟩
      rw [hsame a (List.mem_cons_self ..)]
      exact ih h.2 fun b hb => hsame b (List.mem_cons_of_mem _ hb)

/-- Chains from one head whose common nodes have common links are the same. -/
theorem Linked.agree (h : Linked next head l) (h' : Linked next' head l')
    (hsame : ∀ a ∈ l, a ∈ l' → next' a = next a) : l' = l := by
  induction l generalizing head l' with
  | nil =>
      rw [linked_nil] at h
      subst h
      exact h'.eq_nil
  | cons a l ih =>
      obtain ⟨rfl, hl⟩ := h
      obtain ⟨rest, rfl, hrest⟩ := h'.exists_cons
      rw [hsame a (List.mem_cons_self ..) (List.mem_cons_self ..)] at hrest
      rw [ih hl hrest fun b hb hb' =>
        hsame b (List.mem_cons_of_mem _ hb) (List.mem_cons_of_mem _ hb')]

theorem Linked.suffix {pre : List ι} {a : ι} (h : Linked next head (pre ++ a :: l)) :
    Linked next (some a) (a :: l) := by
  induction pre generalizing head with
  | nil => exact ⟨rfl, h.2⟩
  | cons b pre ih => exact ih h.2

/-- A chain that ends is acyclic: were a node visited twice, the chain from its first
visit would equal the strictly shorter chain from its second. -/
theorem Linked.nodup (h : Linked next head l) : l.Nodup := by
  induction l generalizing head with
  | nil => exact List.nodup_nil
  | cons a l ih =>
      refine List.nodup_cons.mpr ⟨fun hmem => ?_, ih h.2⟩
      obtain ⟨pre, post, rfl⟩ := List.append_of_mem hmem
      have hlate : Linked next (some a) (a :: post) := h.2.suffix
      have hearly : Linked next (some a) (a :: (pre ++ a :: post)) := ⟨rfl, h.2⟩
      have hlength := congrArg List.length (hlate.unique hearly)
      simp only [List.length_cons, List.length_append] at hlength
      omega

/-- Nodes that are numbered below `n` make a chain no longer than `n`. -/
theorem Linked.length_le {next : ℕ → Option ℕ} {head : Option ℕ} {l : List ℕ} {n : ℕ}
    (h : Linked next head l) (hnamed : ∀ a ∈ l, a < n) : l.length ≤ n := by
  have hsub : l ⊆ List.range n := fun a ha => List.mem_range.mpr (hnamed a ha)
  simpa using (h.nodup.subperm hsub).length_le

/-- The first `n` nodes from `head` on. -/
def follow (next : ι → Option ι) : ℕ → Option ι → List ι
  | 0, _ => []
  | _ + 1, none => []
  | n + 1, some a => a :: follow next n (next a)

theorem Linked.follow_eq (h : Linked next head l) {n : ℕ} (hn : l.length ≤ n) :
    follow next n head = l := by
  induction l generalizing head n with
  | nil =>
      rw [linked_nil.mp h]
      cases n <;> rfl
  | cons a l ih =>
      obtain ⟨rfl, hl⟩ := h
      cases n with
      | zero => simp at hn
      | succ n => rw [follow, ih hl (Nat.le_of_succ_le_succ hn)]

/-- Walk at most `n` nodes in search of `a`: the node before it, where it is found; `prev` is
the node before the first. -/
def before [DecidableEq ι] (next : ι → Option ι) (a : ι) : ℕ → Option ι → Option ι → Option (Option ι)
  | 0, _, _ => none
  | _ + 1, _, none => none
  | n + 1, prev, some b => if b = a then some prev else before next a n (some b) (next b)

theorem Linked.before_eq [DecidableEq ι] {pre post : List ι} {a : ι}
    (h : Linked next head (pre ++ a :: post)) {n : ℕ} (hn : pre.length < n) :
    before next a n none head = some pre.getLast? := by
  have hwalk : ∀ (pre : List ι) (n : ℕ) (prev head : Option ι), pre.length < n →
      Linked next head (pre ++ a :: post) →
      before next a n prev head = some (pre.getLast?.or prev) := by
    intro pre
    induction pre with
    | nil =>
        rintro (_ | n) prev head hn ⟨rfl, -⟩
        · simp at hn
        · simp [before]
    | cons b pre ih =>
        rintro (_ | n) prev head hn hlinked
        · simp at hn
        · have hne : b ≠ a := by
            rintro rfl
            have := (List.nodup_cons.mp hlinked.nodup).1
            simp at this
          obtain ⟨rfl, hrest⟩ := hlinked
          rw [before, if_neg hne, ih n (some b) _ (Nat.lt_of_succ_lt_succ hn) hrest]
          cases pre with
          | nil => rfl
          | cons c pre =>
              have hlast := List.getLast?_eq_some_getLast (List.cons_ne_nil c pre)
              rw [List.getLast?_cons_cons, hlast, Option.some_or, Option.some_or]
  simpa using hwalk pre n none head hn h

/-- Replacing the chain behind `pre`: the last link of `pre` is redirected. -/
theorem Linked.redirect {pre rest : List ι} {target : Option ι}
    (h : Linked next head (pre ++ l)) (hrest : Linked next' target rest)
    (hpre : ∀ a ∈ pre, pre.getLast? ≠ some a → next' a = next a)
    (hlast : ∀ a, pre.getLast? = some a → next' a = target) :
    Linked next' (if pre = [] then target else head) (pre ++ rest) := by
  induction pre generalizing head with
  | nil => simpa using hrest
  | cons b pre ih =>
      obtain ⟨hhead, htail⟩ := h
      refine ⟨by simpa using hhead, ?_⟩
      cases pre with
      | nil =>
          rw [hlast b (by simp)]
          simpa using hrest
      | cons c pre =>
          have hnodup := (show Linked next head (b :: (c :: pre ++ l)) from ⟨hhead, htail⟩).nodup
          have hne : (c :: pre).getLast? ≠ some b := by
            intro hb
            have hmem : b ∈ c :: pre := List.mem_of_getLast? hb
            rw [List.nodup_cons] at hnodup
            exact hnodup.1 (List.mem_append_left _ hmem)
          rw [hpre b (by simp) (by simpa using hne)]
          simpa using ih htail (fun a ha hla => hpre a (List.mem_cons_of_mem _ ha) (by simpa using hla))
            fun a ha => hlast a (by simpa using ha)

/-! ## Queues with a tail pointer -/

/-- A head and a tail pointer onto the chain `l`. -/
structure Fifo (next : ι → Option ι) (head tail : Option ι) (l : List ι) : Prop where
  linked : Linked next head l
  tail_eq : tail = l.getLast?

theorem Fifo.nil : Fifo next none none [] := ⟨rfl, rfl⟩

theorem Fifo.congr (h : Fifo next head tail l) (hsame : ∀ a ∈ l, next' a = next a) :
    Fifo next' head tail l :=
  ⟨h.linked.congr hsame, h.tail_eq⟩

theorem Fifo.head_eq_none (h : Fifo next head tail l) : head = none ↔ l = [] := by
  rw [← h.linked.head?_eq]
  simp

theorem Fifo.tail_eq_none (h : Fifo next head tail l) : tail = none ↔ l = [] := by
  rw [h.tail_eq]
  simp

theorem Fifo.head_mem (h : Fifo next head tail l) {a : ι} (ha : head = some a) : a ∈ l :=
  List.mem_of_mem_head? (h.linked.head?_eq.trans ha)

/-- The tail of a queue is one of its nodes. -/
theorem Fifo.tail_mem (h : Fifo next head tail l) {t : ι} (ht : tail = some t) : t ∈ l :=
  List.mem_of_getLast? (h.tail_eq ▸ ht)

/-- A node is the tail if nothing is behind it. -/
theorem Fifo.tail_eq_some_iff {pre post : List ι} {a : ι} (h : Fifo next head tail (pre ++ a :: post)) :
    tail = some a ↔ post = [] := by
  have hlast : (pre ++ a :: post).getLast? = (a :: post).getLast? := by
    rw [List.getLast?_append, List.getLast?_eq_some_getLast (List.cons_ne_nil a post), Option.some_or]
  rw [h.tail_eq, hlast]
  cases post with
  | nil => simp
  | cons b post =>
      have hnodup := (List.nodup_append.mp h.linked.nodup).2.1
      rw [List.getLast?_cons_cons]
      simp only [reduceCtorEq, iff_false]
      exact fun he => (List.nodup_cons.mp hnodup).1 (List.mem_of_getLast? he)

/-- The head after `a` is appended. -/
def pushHead (head tail : Option ι) (a : ι) : Option ι :=
  match tail with
  | none => some a
  | some _ => head

/-- The tail after the front is popped and `head` is the new head. -/
def popTail (head tail : Option ι) : Option ι :=
  match head with
  | none => none
  | some _ => tail

section Push

variable [DecidableEq ι]

/-- The links after `a` is appended behind `tail`: `a`'s link is cleared first, then
the old tail is made to point to `a`. -/
def pushNext (next : ι → Option ι) (tail : Option ι) (a : ι) : ι → Option ι :=
  match tail with
  | none => Function.update next a none
  | some t => Function.update (Function.update next a none) t (some a)

theorem pushNext_of_ne {a b : ι} (hb : b ≠ a) (ht : tail ≠ some b) :
    pushNext next tail a b = next b := by
  cases tail with
  | none => simp [pushNext, hb]
  | some t =>
      have : b ≠ t := fun h => ht (h ▸ rfl)
      simp [pushNext, hb, this]

/-- Appending a node that is not in the queue. -/
theorem Fifo.push {a : ι} (h : Fifo next head tail l) (ha : a ∉ l) :
    Fifo (pushNext next tail a) (pushHead head tail a) (some a) (l ++ [a]) := by
  refine ⟨?_, by simp⟩
  have hback : Linked (pushNext next tail a) (some a) [a] := by
    refine ⟨rfl, ?_⟩
    cases tail with
    | none => simp [pushNext]
    | some t =>
        have : a ≠ t := fun hat => ha (hat ▸ h.tail_mem rfl)
        simp [pushNext, this]
  have hempty : pushHead head tail a = if l = [] then some a else head := by
    cases tail with
    | none => simp [pushHead, h.tail_eq_none.mp rfl]
    | some t => simp [pushHead, List.ne_nil_of_mem (h.tail_mem rfl)]
  rw [hempty]
  refine Linked.redirect (l := []) (by simpa using h.linked) hback ?_ ?_
  · intro b hb hlast
    refine pushNext_of_ne (fun hba => ha (hba ▸ hb)) ?_
    rw [h.tail_eq]
    exact hlast
  · intro b hb
    rw [← h.tail_eq] at hb
    simp [hb, pushNext]

/-- A queue disjoint from the one pushed to, and from the new node, is kept. -/
theorem Fifo.push_frame {a : ι} {head₁ tail₁ : Option ι} (h : Fifo next head₁ tail₁ l')
    (ha : a ∉ l') (ht : ∀ t, tail = some t → t ∉ l') :
    Fifo (pushNext next tail a) head₁ tail₁ l' :=
  h.congr fun b hb => pushNext_of_ne (fun hba => ha (hba ▸ hb)) fun htb => ht b htb hb

end Push

/-- Popping the front node; its own link may be reset. -/
theorem Fifo.pop {a : ι} (h : Fifo next head tail (a :: l)) (hsame : ∀ b ≠ a, next' b = next b) :
    Fifo next' (next a) (popTail (next a) tail) l := by
  have hnodup := List.nodup_cons.mp h.linked.nodup
  have hrest : Linked next (next a) l := h.linked.2
  refine ⟨hrest.congr fun b hb => hsame b fun hba => hnodup.1 (hba ▸ hb), ?_⟩
  rw [h.tail_eq]
  cases l with
  | nil => simp [popTail, linked_nil.mp hrest]
  | cons b l => simp [popTail, hrest.1]

section Remove

variable {pre post : List ι} {a : ι}

theorem Linked.not_mem_of_middle (h : Linked next head (pre ++ a :: post)) : a ∉ pre ++ post := by
  have hnodup := List.perm_middle.nodup_iff.mp h.nodup
  exact (List.nodup_cons.mp hnodup).1

/-- Taking out the node `a`: the node before it, or the head, is made to point to the node
behind it, and the tail moves back if `a` was the last node. -/
theorem Fifo.remove [DecidableEq ι] (h : Fifo next head tail (pre ++ a :: post))
    (hlinks : ∀ b ≠ a, next' b = if pre.getLast? = some b then next a else next b) :
    Fifo next' (if pre = [] then next a else head) (if post = [] then pre.getLast? else tail)
      (pre ++ post) := by
  have hne : ∀ b ∈ pre ++ post, b ≠ a := fun b hb he => h.linked.not_mem_of_middle (he ▸ hb)
  have hlast : ∀ b ∈ post, pre.getLast? ≠ some b := by
    intro b hb he
    exact (List.nodup_append.mp h.linked.nodup).2.2 b (List.mem_of_getLast? he) b (by simp [hb]) rfl
  have hrest : Linked next' (next a) post := by
    refine h.linked.suffix.2.congr fun b hb => ?_
    rw [hlinks b (hne b (List.mem_append_right _ hb)), if_neg (hlast b hb)]
  refine ⟨h.linked.redirect hrest (fun b hb hb' => ?_) fun b hb => ?_, ?_⟩
  · rw [hlinks b (hne b (List.mem_append_left _ hb)), if_neg hb']
  · rw [hlinks b (hne b (List.mem_append_left _ (List.mem_of_getLast? hb))), if_pos hb]
  · rw [h.tail_eq]
    cases post with
    | nil => simp
    | cons b post => simp

end Remove

end Intrusive
