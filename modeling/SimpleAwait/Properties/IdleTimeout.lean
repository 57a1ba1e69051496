import SimpleAwait.Platform.Idle

/-!
# The tick timeout is exact

`platform_timeout_ticks` is the remaining time rounded up to ticks and capped at the maximum, for
all 64-bit times and maxima and every tick rate of 32 bits.
-/

namespace SimpleAwait

variable {now deadline : Tick} {ticksPerSecond maximumFiniteTicks : UInt64}

/-- The ceiling covers the time left, and by less than one tick too much. -/
theorem ticksCeil_spec (now deadline : Tick) (ticksPerSecond : ℕ) :
    (deadline.toNat - now.toNat) * ticksPerSecond ≤
        ticksCeil now deadline ticksPerSecond * 1000000 ∧
      ticksCeil now deadline ticksPerSecond * 1000000 <
        (deadline.toNat - now.toNat) * ticksPerSecond + 1000000 := by
  unfold ticksCeil
  generalize (deadline.toNat - now.toNat) * ticksPerSecond = left
  omega

/-- The timeout is the least of the maximum and of the time left, rounded up to ticks, where there
is time left and the clock ticks, and 0 otherwise; no intermediate value wraps.  So the wait is too
short only where it is capped, it is never a tick too long, and it is not the infinite one where
the maximum is one below that. -/
theorem timeout_exact (now deadline maximumFiniteTicks : UInt64)
    (hrate : ticksPerSecond.toNat < 2 ^ 32) :
    (now < deadline → 0 < ticksPerSecond →
        NoWrap now deadline ticksPerSecond maximumFiniteTicks) ∧
      let timeout := platformTimeoutTicks now deadline ticksPerSecond maximumFiniteTicks
      timeout.toNat = (if now < deadline ∧ 0 < ticksPerSecond then
        min maximumFiniteTicks.toNat (ticksCeil now deadline ticksPerSecond.toNat) else 0) ∧
      (timeout ≠ maximumFiniteTicks →
        (deadline.toNat - now.toNat) * ticksPerSecond.toNat ≤ timeout.toNat * 1000000) ∧
      timeout.toNat * 1000000 <
        (deadline.toNat - now.toNat) * ticksPerSecond.toNat + 1000000 ∧
      ∀ infinite : UInt64, maximumFiniteTicks.toNat + 1 = infinite.toNat → timeout ≠ infinite := by
  refine ⟨fun hdue hpos => noWrap maximumFiniteTicks hdue hpos hrate, ?_⟩
  intro timeout
  have htimeout : timeout.toNat =
      min maximumFiniteTicks.toNat (ticksCeil now deadline ticksPerSecond.toNat) :=
    platformTimeoutTicks_toNat now deadline maximumFiniteTicks hrate
  obtain ⟨hcovers, htight⟩ := ticksCeil_spec now deadline ticksPerSecond.toNat
  refine ⟨?_, fun hfinite => ?_, ?_, fun infinite hinfinite he => ?_⟩
  · split_ifs with hleft
    · exact htimeout
    · have hnone : (deadline.toNat - now.toNat) * ticksPerSecond.toNat = 0 := by
        rw [not_and_or, UInt64.not_lt, UInt64.not_lt] at hleft
        rcases hleft with hdue | hrate
        · rw [Nat.sub_eq_zero_of_le (UInt64.le_iff_toNat_le.mp hdue), Nat.zero_mul]
        · have hzero : ticksPerSecond.toNat = 0 := Nat.le_zero.mp (UInt64.le_iff_toNat_le.mp hrate)
          rw [hzero, Nat.mul_zero]
      rw [hnone] at htight
      omega
  · have hne : timeout.toNat ≠ maximumFiniteTicks.toNat :=
      fun he => hfinite (UInt64.toNat_inj.mp he)
    have hceil : timeout.toNat = ticksCeil now deadline ticksPerSecond.toNat := by omega
    rw [hceil]
    exact hcovers
  · have hle : timeout.toNat ≤ ticksCeil now deadline ticksPerSecond.toNat := by omega
    calc timeout.toNat * 1000000
        ≤ ticksCeil now deadline ticksPerSecond.toNat * 1000000 := Nat.mul_le_mul_right _ hle
      _ < (deadline.toNat - now.toNat) * ticksPerSecond.toNat + 1000000 := htight
  · rw [he, ← hinfinite] at htimeout
    omega

/-- At 100 ticks a second, 1500000 µs and one more are 151 ticks, of which the maximum allows 150. -/
theorem timeout_exact_small :
    (platformTimeoutTicks 0 1500001 100 150).toNat = 150 ∧
      platformTimeoutTicks 0 1500001 100 150 ≠ 151 := by
  obtain ⟨-, htimeout, -, -, hinfinite⟩ := timeout_exact 0 1500001 150
    (show (100 : UInt64).toNat < 2 ^ 32 by decide)
  exact ⟨htimeout.trans (by decide), hinfinite 151 (by decide)⟩

end SimpleAwait
