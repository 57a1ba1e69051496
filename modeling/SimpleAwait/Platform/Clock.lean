import Mathlib.Algebra.Order.Ring.Nat
import Mathlib.Data.List.Chain
import SimpleAwait.Scheduler.Basic

/-!
# The 32-bit clock

`Micros32Extender` (`detail/platform_clock.h`) widens the 32-bit `micros()` of a generic Arduino to
64 bits by counting its wraps.
-/

namespace SimpleAwait

/-- `detail::Micros32Extender`. -/
structure Micros32Extender where
  last : UInt32 := 0
  wraps : UInt32 := 0
  deriving DecidableEq

namespace Micros32Extender

/-- `Micros32Extender::extend`. -/
def extend (e : Micros32Extender) (now32 : UInt32) : UInt64 × Micros32Extender :=
  let wraps := if now32 < e.last then e.wraps + 1 else e.wraps
  (wraps.toUInt64 <<< 32 ||| now32.toUInt64, ⟨now32, wraps⟩)

/-- What `extend` returns for the low words of the true times, in order. -/
def extendAll : Micros32Extender → List ℕ → List UInt64
  | _, [] => []
  | e, t :: times =>
      let (value, e) := e.extend (UInt32.ofNat t)
      value :: e.extendAll times

/-- The time that the extender has counted. -/
def counted (e : Micros32Extender) : ℕ := e.wraps.toNat * 2 ^ 32 + e.last.toNat

/-- At the true time `t` the extender has counted no more than `t`, and only whole periods less. -/
structure Follows (e : Micros32Extender) (t : ℕ) : Prop where
  le : e.counted ≤ t
  last : e.last.toNat = t % 2 ^ 32

variable {e : Micros32Extender} {t u : ℕ} {times : List ℕ}

theorem follows_initial : Follows {} 0 := ⟨le_rfl, rfl⟩

theorem Follows.counted_mod (h : Follows e t) : e.counted % 2 ^ 32 = t % 2 ^ 32 := by
  have hlast := h.last
  unfold counted
  omega

/-- The high and the low word do not overlap. -/
theorem extend_value (now32 : UInt32) : (e.extend now32).1.toNat = (e.extend now32).2.counted := by
  have hlow : now32.toUInt64.toNat = now32.toNat := UInt32.toNat_toUInt64 _
  have hhigh : ∀ wraps : UInt32, (wraps.toUInt64 <<< 32).toNat = wraps.toNat <<< 32 := by
    intro wraps
    have hwraps := wraps.toNat_lt
    rw [UInt64.toNat_shiftLeft, UInt32.toNat_toUInt64]
    have hthirtyTwo : (32 : UInt64).toNat % 64 = 32 := by decide
    rw [hthirtyTwo, Nat.shiftLeft_eq]
    omega
  unfold extend counted
  dsimp only
  rw [UInt64.toNat_or, hlow, hhigh, ← Nat.shiftLeft_add_eq_or_of_lt now32.toNat_lt,
    Nat.shiftLeft_eq]

/-- One wrap more where the low word is below the last one. -/
theorem Follows.extend_counted (h : Follows e t) (hle : t ≤ u) (hlt : u < 2 ^ 64) :
    (e.extend (UInt32.ofNat u)).2.counted =
      (e.wraps.toNat + if u % 2 ^ 32 < t % 2 ^ 32 then 1 else 0) * 2 ^ 32 + u % 2 ^ 32 := by
  have hnow : (UInt32.ofNat u).toNat = u % 2 ^ 32 := UInt32.toNat_ofNat'
  have hwrapped : UInt32.ofNat u < e.last ↔ u % 2 ^ 32 < t % 2 ^ 32 := by
    rw [UInt32.lt_iff_toNat_lt, hnow, h.last]
  have hbehind := h.le
  have hlast := h.last
  unfold counted at hbehind ⊢
  unfold extend
  dsimp only
  rw [hnow]
  by_cases hwrap : u % 2 ^ 32 < t % 2 ^ 32
  · -- the true time has passed a multiple of the period, so the wraps do not overflow
    rw [if_pos (hwrapped.mpr hwrap), if_pos hwrap, UInt32.toNat_add, UInt32.toNat_one,
      Nat.mod_eq_of_lt]
    omega
  · rw [if_neg (mt hwrapped.mp hwrap), if_neg hwrap, Nat.add_zero]

/-- A lower remainder later means that a whole period more has gone by. -/
theorem wrap_le {period wraps t u : ℕ} (hbehind : wraps * period + t % period ≤ t) (hle : t ≤ u)
    (hwrap : u % period < t % period) : (wraps + 1) * period + u % period ≤ u := by
  have hnext : t / period < u / period := by
    refine lt_of_le_of_ne (Nat.div_le_div_right hle) fun heq => ?_
    have ht := Nat.div_add_mod t period
    have hu := Nat.div_add_mod u period
    rw [heq] at ht
    omega
  have hperiods : wraps * period ≤ period * (t / period) := by
    have ht := Nat.div_add_mod t period
    omega
  calc (wraps + 1) * period + u % period
      = wraps * period + period + u % period := by rw [Nat.add_mul, Nat.one_mul]
    _ ≤ period * (t / period) + period + u % period := by omega
    _ = period * (t / period + 1) + u % period := by rw [Nat.mul_add, Nat.mul_one]
    _ ≤ period * (u / period) + u % period :=
        Nat.add_le_add_right (Nat.mul_le_mul_left period hnext) _
    _ = u := Nat.div_add_mod u period

/-- A low word that falls makes room for one more period. -/
theorem le_wrap {period wraps low low' : ℕ} (hlow : low < period) :
    wraps * period + low ≤ (wraps + if low' < low then 1 else 0) * period + low' := by
  split_ifs with hwrap
  · rw [Nat.add_mul, Nat.one_mul]
    omega
  · rw [Nat.add_zero]
    omega

/-- Less than one period later, the remainder falls exactly if a whole period more has gone by. -/
theorem wrap_eq {period wraps t u : ℕ} (hexact : wraps * period + t % period = t) (hle : t ≤ u)
    (hgap : u - t < period) :
    (wraps + if u % period < t % period then 1 else 0) * period + u % period = u := by
  have hlow : t % period < period := Nat.mod_lt t (by omega)
  have hmod : u % period = (t % period + (u - t)) % period := by
    rw [Nat.mod_add_mod, Nat.add_sub_cancel' hle]
  by_cases hfits : t % period + (u - t) < period
  · rw [Nat.mod_eq_of_lt hfits] at hmod
    rw [if_neg (by omega), Nat.add_zero]
    omega
  · have hover : (t % period + (u - t)) % period = t % period + (u - t) - period := by
      rw [Nat.mod_eq_sub_mod (by omega), Nat.mod_eq_of_lt (by omega)]
    rw [hover] at hmod
    rw [if_pos (by omega), Nat.add_mul, Nat.one_mul]
    omega

/-- One sample: the count does not pass the true time and does not fall, and it stays exact if
less than one period has gone by. -/
theorem Follows.extend (h : Follows e t) (hle : t ≤ u) (hlt : u < 2 ^ 64) :
    Follows (e.extend (UInt32.ofNat u)).2 u ∧
      e.counted ≤ (e.extend (UInt32.ofNat u)).2.counted ∧
      (e.counted = t → u - t < 2 ^ 32 → (e.extend (UInt32.ofNat u)).2.counted = u) := by
  rw [h.extend_counted hle hlt]
  have hlast := h.last
  refine ⟨⟨?_, UInt32.toNat_ofNat'⟩, ?_, ?_⟩
  · have hbehind := h.le
    unfold counted at hbehind
    rw [hlast] at hbehind
    rw [h.extend_counted hle hlt]
    split_ifs with hwrap
    · exact wrap_le hbehind hle hwrap
    · omega
  · unfold counted
    rw [hlast]
    exact le_wrap (Nat.mod_lt t (by decide))
  · intro hexact hgap
    unfold counted at hexact
    rw [hlast] at hexact
    exact wrap_eq hexact hle hgap

theorem extendAll_cons : e.extendAll (t :: times) =
    (e.extend (UInt32.ofNat t)).1 :: (e.extend (UInt32.ofNat t)).2.extendAll times := rfl

/-- Over any samples the values follow the true times and never fall. -/
theorem Follows.extendAll (h : Follows e t) (hordered : (t :: times).IsChain (· ≤ ·))
    (hbound : ∀ u ∈ times, u < 2 ^ 64) :
    List.Forall₂ (fun value u => value.toNat ≤ u ∧ value.toNat % 2 ^ 32 = u % 2 ^ 32)
        (e.extendAll times) times ∧
      (e.counted :: (e.extendAll times).map UInt64.toNat).IsChain (· ≤ ·) := by
  induction times generalizing e t with
  | nil => exact ⟨.nil, .singleton _⟩
  | cons u times ih =>
      obtain ⟨hle, hrest⟩ := List.isChain_cons_cons.mp hordered
      obtain ⟨hnext, hmono, -⟩ := h.extend hle (hbound u (by simp))
      obtain ⟨hfollow, hchain⟩ := ih hnext hrest fun v hv => hbound v (by simp [hv])
      rw [extendAll_cons, List.map_cons, extend_value]
      refine ⟨.cons ?_ hfollow, List.isChain_cons_cons.mpr ⟨hmono, hchain⟩⟩
      rw [extend_value]
      exact ⟨hnext.le, hnext.counted_mod⟩

/-- Samples less than one period apart are returned exactly. -/
theorem Follows.extendAll_exact (h : Follows e t) (hexact : e.counted = t)
    (hordered : (t :: times).IsChain (· ≤ ·))
    (hgaps : (t :: times).IsChain fun u v => v - u < 2 ^ 32)
    (hbound : ∀ u ∈ times, u < 2 ^ 64) : (e.extendAll times).map UInt64.toNat = times := by
  induction times generalizing e t with
  | nil => rfl
  | cons u times ih =>
      obtain ⟨hle, hrest⟩ := List.isChain_cons_cons.mp hordered
      obtain ⟨hgap, hgaps⟩ := List.isChain_cons_cons.mp hgaps
      obtain ⟨hnext, -, hkeeps⟩ := h.extend hle (hbound u (by simp))
      have hcounted := hkeeps hexact hgap
      rw [extendAll_cons, List.map_cons, extend_value, hcounted,
        ih hnext hcounted hrest hgaps fun v hv => hbound v (by simp [hv])]

end Micros32Extender

end SimpleAwait
