import Mathlib.Data.List.Perm.Basic

/-!
# Waiting in turn

Everybody who waits for something joins at the end of a line.  `joined` lists the arrivals, and
each of them was served, gave up or still waits.  `InTurn` says that nobody is lost or counted
twice, and that those who did not give up are served in the order in which they came.
-/

namespace Turns

variable {ι : Type*} {joined served left waiting pre post : List ι} {a : ι}

/-- Of those who joined, `served` were served, `left` gave up and `waiting` still wait. -/
structure InTurn (joined served left waiting : List ι) : Prop where
  order : (served ++ waiting).Sublist joined
  all : joined.Perm (served ++ waiting ++ left)

namespace InTurn

theorem nil : InTurn ([] : List ι) [] [] [] := ⟨List.Sublist.refl _, List.Perm.refl _⟩

/-- Somebody joins. -/
theorem join (h : InTurn joined served left waiting) (a : ι) :
    InTurn (joined ++ [a]) served left (waiting ++ [a]) where
  order := by
    rw [← List.append_assoc]
    exact h.order.append (List.Sublist.refl _)
  all := by
    have hlast : (served ++ waiting ++ left ++ [a]).Perm (served ++ waiting ++ [a] ++ left) := by
      simp only [List.append_assoc]
      exact (List.perm_append_comm.append_left waiting).append_left served
    simpa using (h.all.append_right [a]).trans hlast

/-- The first one is served. -/
theorem serve (h : InTurn joined served left (a :: waiting)) :
    InTurn joined (served ++ [a]) left waiting where
  order := by simpa using h.order
  all := by simpa using h.all

/-- Somebody gives up. -/
theorem leave (h : InTurn joined served left (pre ++ a :: post)) :
    InTurn joined served (left ++ [a]) (pre ++ post) where
  order := by
    refine List.Sublist.trans ?_ h.order
    exact ((List.sublist_cons_self a post).append_left pre).append_left served
  all := by
    have hfront : (served ++ (pre ++ a :: post) ++ left).Perm
        (a :: (served ++ (pre ++ post) ++ left)) := by
      have hmiddle : ((served ++ pre) ++ a :: (post ++ left)).Perm
          (a :: ((served ++ pre) ++ (post ++ left))) := List.perm_middle
      simpa using hmiddle
    have hback : (a :: (served ++ (pre ++ post) ++ left)).Perm
        (served ++ (pre ++ post) ++ (left ++ [a])) := by
      simpa using (List.perm_append_singleton a (served ++ (pre ++ post) ++ left)).symm
    exact h.all.trans (hfront.trans hback)

end InTurn

end Turns
