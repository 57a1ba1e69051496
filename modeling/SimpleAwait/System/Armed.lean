import SimpleAwait.Primitives.ThreadSafeFlag
import SimpleAwait.System.Places

/-!
# The armed list

`Armed F place armed` says that `s_armed_head_` and the `armed_next_` links thread exactly
the flags `armed`, and that these are the flags with a waiter, which is parked on them.
The walk of `poll_external_signals` splits the list into the flags it has left armed and
those it has yet to visit.
-/

namespace SimpleAwait

open Intrusive

variable {N : ℕ} {F F' : Flags N} {place place' : Fin N → Place N} {armed visited rest : List ℕ}
  {f : ℕ} {s : Fin N}

/-- The armed list holds the flags that a slot is parked on. -/
structure Armed (F : Flags N) (place : Fin N → Place N) (armed : List ℕ) : Prop where
  linked : Linked F.armedNext F.armedHead armed
  mem : ∀ f, f ∈ armed ↔ (F.flag f).waiter ≠ none
  waiter : ∀ f s, (F.flag f).waiter = some s ↔ place s = .parked (.flag f)

namespace Armed

/-- Signals come and go without touching the list. -/
theorem congr (h : Armed F place armed) (hhead : F'.armedHead = F.armedHead)
    (hnext : ∀ f, (F'.flag f).armedNext = (F.flag f).armedNext)
    (hwaiter : ∀ f, (F'.flag f).waiter = (F.flag f).waiter)
    (hplace : ∀ s f, place' s = .parked (.flag f) ↔ place s = .parked (.flag f)) :
    Armed F' place' armed where
  linked := by
    rw [hhead]
    exact h.linked.congr fun f _ => hnext f
  mem k := by rw [hwaiter]; exact h.mem k
  waiter k t := by rw [hwaiter, hplace]; exact h.waiter k t

/-- The running slot is parked on a flag without a waiter. -/
theorem park (h : Armed F place armed) (hs : ∀ k, place s ≠ .parked (.flag k))
    (hf : (F.flag f).waiter = none) :
    Armed ((F.modify f fun flag => { flag with waiter := some s }).arm f)
      (Function.update place s (.parked (.flag f))) (f :: armed) where
  linked := by
    refine ⟨rfl, ?_⟩
    have hself : ((F.modify f fun flag => { flag with waiter := some s }).arm f).armedNext f =
        F.armedHead := by
      simp [Flags.armedNext, Flags.arm]
    rw [hself]
    refine h.linked.congr fun k hk => ?_
    have hkf : k ≠ f := fun he => (h.mem k).mp hk (he ▸ hf)
    simp [Flags.armedNext, Flags.arm, hkf]
  mem k := by
    by_cases hk : k = f
    · simp [Flags.arm, hk]
    · simp [Flags.arm, hk, h.mem]
  waiter k t := by
    by_cases hk : k = f
    · subst hk
      have : ∀ u, place u ≠ .parked (.flag k) := fun u hu => by
        simp [(h.waiter k u).mpr hu] at hf
      by_cases ht : t = s
      · subst ht
        simp [Flags.arm]
      · simp [Flags.arm, ht, Ne.symm ht, this]
    · by_cases ht : t = s
      · subst ht
        simp [Flags.arm, hk, h.waiter, hs, Ne.symm hk]
      · simp [Flags.arm, hk, ht, h.waiter]

/-- The flags behind `f` on the armed list. -/
theorem next_eq (h : Armed F place (visited ++ f :: rest)) :
    (F.flag f).armedNext = rest.head? ∧ Linked F.armedNext (F.flag f).armedNext rest := by
  have hrest : Linked F.armedNext (F.armedNext f) rest := h.linked.suffix.2
  exact ⟨hrest.head?_eq.symm, hrest⟩

/-- The walk leaves an unsignaled flag armed. -/
theorem walkStep_skip (h : Armed F place (visited ++ f :: rest)) (c : Scheduler N)
    (prev : Option ℕ) (hf : (F.flag f).signaled = false) :
    F.walkStep c prev f = (some f, rest.head?, c, F) := by
  simp [Flags.walkStep, hf, h.next_eq.1]

/-- The fields that `disarm` writes. -/
theorem disarm_spec (F : Flags N) (prev : Option ℕ) (hprev : prev ≠ some f) :
    (F.disarm prev f).armedHead = (if prev = none then (F.flag f).armedNext else F.armedHead) ∧
      (F.disarm prev f).pending = F.pending ∧
      ∀ k, (F.disarm prev f).armedNext k = (if prev = some k then (F.flag f).armedNext
          else if k = f then none else F.armedNext k) ∧
        ((F.disarm prev f).flag k).waiter = (if k = f then none else (F.flag k).waiter) ∧
        ((F.disarm prev f).flag k).signaled = if k = f then false else (F.flag k).signaled := by
  cases prev with
  | none =>
      refine ⟨rfl, rfl, fun k => ?_⟩
      by_cases hk : k = f <;> simp [Flags.disarm, Flags.armedNext, hk]
  | some p =>
      have hpf : p ≠ f := fun he => hprev (he ▸ rfl)
      refine ⟨rfl, rfl, fun k => ?_⟩
      by_cases hkp : k = p
      · subst hkp
        simp [Flags.disarm, Flags.armedNext, hpf]
      · by_cases hk : k = f <;>
          simp [Flags.disarm, Flags.armedNext, hk, hkp, Ne.symm hkp, hpf, Ne.symm hpf]

/-- The walk takes a signaled flag off the list, resets it and wakes its waiter. -/
theorem disarm (h : Armed F place (visited ++ f :: rest)) (hs : (F.flag f).waiter = some s) :
    Armed (F.disarm visited.getLast? f) (Function.update place s .ready) (visited ++ rest) := by
  obtain ⟨hnext, hrest⟩ := h.next_eq
  have hnodup := h.linked.nodup
  have hf_visited : f ∉ visited := fun hmem =>
    (List.nodup_append.mp hnodup).2.2 f hmem f (by simp) rfl
  have hf_rest : f ∉ rest := (List.nodup_cons.mp (List.nodup_append.mp hnodup).2.1).1
  have hlast_rest : ∀ p, visited.getLast? = some p → p ∉ rest := fun p hp hmem =>
    (List.nodup_append.mp hnodup).2.2 p (List.mem_of_getLast? hp) p (by simp [hmem]) rfl
  obtain ⟨hhead, -, hfields⟩ := disarm_spec F visited.getLast?
    fun hlast => hf_visited (List.mem_of_getLast? hlast)
  refine ⟨?_, fun k => ?_, fun k t => ?_⟩
  · have hrest' : Linked (F.disarm visited.getLast? f).armedNext (F.flag f).armedNext rest := by
      refine hrest.congr fun k hk => ?_
      have hlast : visited.getLast? ≠ some k := fun he => hlast_rest k he hk
      have hkf : k ≠ f := fun he => hf_rest (he ▸ hk)
      rw [(hfields k).1, if_neg hlast, if_neg hkf]
    simp only [List.getLast?_eq_none_iff] at hhead
    rw [hhead]
    refine Linked.redirect h.linked hrest' (fun k hk hlast => ?_) fun k hlast => ?_
    · have hkf : k ≠ f := fun he => hf_visited (he ▸ hk)
      rw [(hfields k).1, if_neg hlast, if_neg hkf]
    · rw [(hfields k).1, if_pos hlast]
  · rw [(hfields k).2.1]
    by_cases hk : k = f
    · subst hk
      simp [hf_visited, hf_rest]
    · have := h.mem k
      simp only [List.mem_append, List.mem_cons, hk, false_or] at this
      simp [hk, this]
  · rw [(hfields k).2.1]
    by_cases hk : k = f
    · subst hk
      by_cases ht : t = s
      · simp [ht]
      · have : place t ≠ .parked (.flag k) := by
          intro he
          have := (h.waiter k t).mpr he
          rw [hs, Option.some.injEq] at this
          exact ht this.symm
        simp [ht, this]
    · by_cases ht : t = s
      · subst ht
        have hplace := (h.waiter f t).mp hs
        simp [hk, h.waiter, hplace, Ne.symm hk]
      · simp [hk, ht, h.waiter]

theorem walkStep_wake (h : Armed F place (visited ++ f :: rest)) (c : Scheduler N)
    (prev : Option ℕ) (hf : (F.flag f).signaled = true) (hs : (F.flag f).waiter = some s) :
    F.walkStep c prev f = (prev, rest.head?, c.wakeSlot (some s), F.disarm prev f) := by
  simp [Flags.walkStep, hf, hs, h.next_eq.1]

end Armed

end SimpleAwait
