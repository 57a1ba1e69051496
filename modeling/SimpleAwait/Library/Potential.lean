import SimpleAwait.Library.Transition

/-!
# Potentials

`Owes s n` bounds the work that a system has before it in state `s` by `n`.  If each step that counts
pays for itself, no run makes more than `n` of them; if in each state that is not final some step makes
the bound smaller, a final state is at most `n` steps away.
-/

namespace Transition

universe u v

variable {State : Type u} {Action : Type v} {step : State → Action → Option State} {s t : State}
  {actions : List Action} (Owes : State → ℕ → Prop) {n : ℕ}

/-- Steps that count pay for themselves. -/
theorem countP_le_of_pays {p : State → Action → Prop} {counts : Action → Bool}
    (hpays : ∀ s n a s', Owes s n → p s a → step s a = some s' →
      ∃ m, Owes s' m ∧ m + (if counts a then 1 else 0) ≤ n)
    (howes : Owes s n) (hrun : run step s actions = some t) (halong : Along step p s actions) :
    actions.countP counts ≤ n := by
  induction actions generalizing s n with
  | nil => exact Nat.zero_le n
  | cons a actions ih =>
      obtain ⟨s', hstep, hrest⟩ := run_cons.mp hrun
      obtain ⟨m, hm, hle⟩ := hpays s n a s' howes halong.1 hstep
      have hcount := ih hm hrest (halong.2 s' hstep)
      rw [List.countP_cons]
      omega

/-- A final state is reached, within the bound, by steps that are allowed. -/
theorem exists_run_of_pays {final : State → Prop} {allowed : Action → Prop}
    (hpays : ∀ s n, Owes s n → final s ∨
      ∃ a s' m, allowed a ∧ step s a = some s' ∧ Owes s' m ∧ m < n)
    (howes : Owes s n) : ∃ actions t, run step s actions = some t ∧ final t ∧
      actions.length ≤ n ∧ ∀ a ∈ actions, allowed a := by
  induction n using Nat.strongRecOn generalizing s with
  | ind n ih =>
      rcases hpays s n howes with hfinal | ⟨a, s', m, hallowed, hstep, hm, hlt⟩
      · exact ⟨[], s, rfl, hfinal, Nat.zero_le n, by simp⟩
      · obtain ⟨actions, t, hrun, hfinal, hlength, hall⟩ := ih m hlt hm
        refine ⟨a :: actions, t, run_cons.mpr ⟨s', hstep, hrun⟩, hfinal, ?_, ?_⟩
        · rw [List.length_cons]
          omega
        · exact List.forall_mem_cons.mpr ⟨hallowed, hall⟩

end Transition
