import Mathlib.Algebra.Order.Ring.Nat
import SimpleAwait.Scheduler.Basic

/-!
# The platform wait

The ESP32 backend of `detail/platform_idle.h`: a FreeRTOS binary semaphore that
`ThreadSafeFlag::set` gives and `poll_and_wait` takes, and the conversion of a deadline
to a tick timeout.  The semaphore is `none` before `poll_and_wait` first creates it and
holds its token afterwards.
-/

namespace SimpleAwait

/-- `scheduler_wake`: null, or a binary semaphore with or without its token. -/
abbrev Semaphore := Option Bool

/-- `detail::platform_prepare_scheduler_wait`: a new semaphore has no token. -/
def platformPrepareSchedulerWait (wake : Semaphore) : Semaphore :=
  match wake with
  | none => some false
  | some token => some token

/-- `detail::platform_wake_scheduler`: give the token unless there is no semaphore. -/
def platformWakeScheduler (wake : Semaphore) : Semaphore :=
  match wake with
  | none => none
  | some _ => some true

/-- `detail::platform_timeout_ticks`, in 64-bit machine arithmetic. -/
def platformTimeoutTicks (now deadline : Tick) (ticksPerSecond maximumFiniteTicks : UInt64) :
    UInt64 :=
  if deadline ≤ now ∨ ticksPerSecond = 0 ∨ maximumFiniteTicks = 0 then 0
  else
    let remainingUs := deadline - now
    let wholeSeconds := remainingUs / 1000000
    let remainingFractionUs := remainingUs % 1000000
    if wholeSeconds > maximumFiniteTicks / ticksPerSecond then maximumFiniteTicks
    else
      let ticks := wholeSeconds * ticksPerSecond
      let fractionalNumerator := remainingFractionUs * ticksPerSecond
      let fractionalTicks := fractionalNumerator / 1000000 +
        (if fractionalNumerator % 1000000 ≠ 0 then 1 else 0)
      if fractionalTicks > maximumFiniteTicks - ticks then maximumFiniteTicks
      else ticks + fractionalTicks

/-- `portMAX_DELAY`, the timeout with which `xSemaphoreTake` blocks without limit. -/
def portMaxDelay : UInt32 := 0xFFFFFFFF

/-- `detail::platform_ticks_until`, with `TickType_t` a `uint32_t`. -/
def platformTicksUntil (tickRateHz : UInt32) (now deadline : Tick) : UInt32 :=
  if deadline = tickMax then portMaxDelay
  else (platformTimeoutTicks now deadline tickRateHz.toUInt64 (portMaxDelay.toUInt64 - 1)).toUInt32

/-- What `platform_wait_until` does: return after at most one tick, or block in
`xSemaphoreTake` with a timeout. -/
inductive PlatformWait
  | returns
  | take (timeout : UInt32)
  deriving DecidableEq

/-- `detail::platform_wait_until`, with `now` the clock it samples. -/
def platformWaitUntil (tickRateHz : UInt32) (wake : Semaphore) (now deadline : Tick)
    (externallyWakeable : Bool) : PlatformWait :=
  if wake = none ∨ (deadline = tickMax ∧ !externallyWakeable) then .returns
  else
    let timeout := platformTicksUntil tickRateHz now deadline
    if timeout ≠ 0 then .take timeout else .returns

/-- `ceil ((deadline - now) * ticksPerSecond / 1000000)`: the remaining time rounded up
to ticks. -/
def ticksCeil (now deadline : Tick) (ticksPerSecond : ℕ) : ℕ :=
  ((deadline.toNat - now.toNat) * ticksPerSecond + 999999) / 1000000

/-- Whole seconds convert exactly, so rounding up may be left to the rest. -/
theorem ceil_split (r h : ℕ) :
    (r * h + 999999) / 1000000 = r / 1000000 * h + (r % 1000000 * h + 999999) / 1000000 := by
  have hsplit : r * h = 1000000 * (r / 1000000 * h) + r % 1000000 * h := by
    rw [← Nat.mul_assoc, ← Nat.add_mul, Nat.div_add_mod]
  rw [hsplit, Nat.add_assoc, Nat.mul_add_div (by omega)]

theorem roundUp_toNat (n : UInt64) :
    (n / 1000000 + (if n % 1000000 ≠ 0 then 1 else 0)).toNat = (n.toNat + 999999) / 1000000 := by
  have hdiv : (n / 1000000).toNat = n.toNat / 1000000 := UInt64.toNat_div ..
  have hmod : (n % 1000000).toNat = n.toNat % 1000000 := UInt64.toNat_mod ..
  have hlt := n.toNat_lt
  have hiff : n % 1000000 = 0 ↔ n.toNat % 1000000 = 0 := by
    rw [← hmod]
    exact UInt64.toNat_inj.symm
  split_ifs with hrest
  · rw [ne_eq, hiff] at hrest
    rw [UInt64.toNat_add, hdiv, UInt64.toNat_one]
    omega
  · rw [ne_eq, hiff, not_not] at hrest
    rw [UInt64.toNat_add, hdiv, UInt64.toNat_zero]
    omega

/-- The ticks of the whole seconds of a remaining time. -/
def wholeTicks (remainingUs ticksPerSecond : UInt64) : UInt64 :=
  remainingUs / 1000000 * ticksPerSecond

/-- The ticks of the rest, rounded up. -/
def fractionalTicks (remainingUs ticksPerSecond : UInt64) : UInt64 :=
  let fractionalNumerator := remainingUs % 1000000 * ticksPerSecond
  fractionalNumerator / 1000000 + (if fractionalNumerator % 1000000 ≠ 0 then 1 else 0)

/-- No step of the conversion wraps: each intermediate value that the code reaches is the one over
the natural numbers. -/
structure NoWrap (now deadline ticksPerSecond maximumFiniteTicks : UInt64) : Prop where
  remaining : (deadline - now).toNat = deadline.toNat - now.toNat
  numerator : ((deadline - now) % 1000000 * ticksPerSecond).toNat =
    (deadline.toNat - now.toNat) % 1000000 * ticksPerSecond.toNat
  fractional : (fractionalTicks (deadline - now) ticksPerSecond).toNat =
    ((deadline.toNat - now.toNat) % 1000000 * ticksPerSecond.toNat + 999999) / 1000000
  /-- The first guard is passed, and the whole seconds convert to no more ticks than the maximum. -/
  whole : (deadline - now) / 1000000 ≤ maximumFiniteTicks / ticksPerSecond →
    (wholeTicks (deadline - now) ticksPerSecond).toNat =
        (deadline.toNat - now.toNat) / 1000000 * ticksPerSecond.toNat ∧
      (wholeTicks (deadline - now) ticksPerSecond).toNat ≤ maximumFiniteTicks.toNat ∧
      (maximumFiniteTicks - wholeTicks (deadline - now) ticksPerSecond).toNat =
        maximumFiniteTicks.toNat - (wholeTicks (deadline - now) ticksPerSecond).toNat
  /-- Both guards are passed. -/
  sum : (deadline - now) / 1000000 ≤ maximumFiniteTicks / ticksPerSecond →
    fractionalTicks (deadline - now) ticksPerSecond ≤
      maximumFiniteTicks - wholeTicks (deadline - now) ticksPerSecond →
    (wholeTicks (deadline - now) ticksPerSecond +
        fractionalTicks (deadline - now) ticksPerSecond).toNat =
      (wholeTicks (deadline - now) ticksPerSecond).toNat +
        (fractionalTicks (deadline - now) ticksPerSecond).toNat

/-- A tick rate that fits in 32 bits keeps every product and sum in 64 bits. -/
theorem noWrap {now deadline ticksPerSecond : UInt64} (maximumFiniteTicks : UInt64)
    (hdue : now < deadline) (hpos : 0 < ticksPerSecond) (hrate : ticksPerSecond.toNat < 2 ^ 32) :
    NoWrap now deadline ticksPerSecond maximumFiniteTicks := by
  have hremaining : (deadline - now).toNat = deadline.toNat - now.toNat :=
    UInt64.toNat_sub_of_le _ _ (UInt64.le_of_lt hdue)
  have hfrac : ((deadline - now) % 1000000).toNat = (deadline.toNat - now.toNat) % 1000000 := by
    rw [← hremaining]
    exact UInt64.toNat_mod ..
  have hnumerator : ((deadline - now) % 1000000 * ticksPerSecond).toNat =
      (deadline.toNat - now.toNat) % 1000000 * ticksPerSecond.toNat := by
    rw [UInt64.toNat_mul, hfrac]
    apply Nat.mod_eq_of_lt
    calc (deadline.toNat - now.toNat) % 1000000 * ticksPerSecond.toNat
        ≤ 1000000 * 2 ^ 32 := Nat.mul_le_mul (Nat.mod_lt _ (by omega)).le hrate.le
      _ < 2 ^ 64 := by decide
  have hwhole : (deadline - now) / 1000000 ≤ maximumFiniteTicks / ticksPerSecond →
      (wholeTicks (deadline - now) ticksPerSecond).toNat =
          (deadline.toNat - now.toNat) / 1000000 * ticksPerSecond.toNat ∧
        (wholeTicks (deadline - now) ticksPerSecond).toNat ≤ maximumFiniteTicks.toNat := by
    intro hguard
    have hseconds : ((deadline - now) / 1000000).toNat = (deadline.toNat - now.toNat) / 1000000 := by
      rw [← hremaining]
      exact UInt64.toNat_div ..
    have hquot : (maximumFiniteTicks / ticksPerSecond).toNat =
        maximumFiniteTicks.toNat / ticksPerSecond.toNat := UInt64.toNat_div ..
    rw [UInt64.le_iff_toNat_le, hseconds, hquot,
      Nat.le_div_iff_mul_le (UInt64.lt_iff_toNat_lt.mp hpos)] at hguard
    have hmax := maximumFiniteTicks.toNat_lt
    rw [wholeTicks, UInt64.toNat_mul, hseconds, Nat.mod_eq_of_lt (by omega)]
    exact ⟨rfl, hguard⟩
  have hroom : (deadline - now) / 1000000 ≤ maximumFiniteTicks / ticksPerSecond →
      (maximumFiniteTicks - wholeTicks (deadline - now) ticksPerSecond).toNat =
        maximumFiniteTicks.toNat - (wholeTicks (deadline - now) ticksPerSecond).toNat := by
    intro hguard
    exact UInt64.toNat_sub_of_le _ _ (UInt64.le_iff_toNat_le.mpr (hwhole hguard).2)
  refine ⟨hremaining, hnumerator, ?_, fun hguard => ?_, fun hguard hfits => ?_⟩
  · rw [fractionalTicks, roundUp_toNat, hnumerator]
  · exact ⟨(hwhole hguard).1, (hwhole hguard).2, hroom hguard⟩
  · rw [UInt64.le_iff_toNat_le, hroom hguard] at hfits
    have hmax := maximumFiniteTicks.toNat_lt
    have hle := (hwhole hguard).2
    rw [UInt64.toNat_add, Nat.mod_eq_of_lt (by omega)]

/-- The timeout is the time left, rounded up to ticks and capped. -/
theorem platformTimeoutTicks_toNat (now deadline : Tick) {ticksPerSecond : UInt64}
    (maximumFiniteTicks : UInt64) (hrate : ticksPerSecond.toNat < 2 ^ 32) :
    (platformTimeoutTicks now deadline ticksPerSecond maximumFiniteTicks).toNat =
      min maximumFiniteTicks.toNat (ticksCeil now deadline ticksPerSecond.toNat) := by
  unfold platformTimeoutTicks ticksCeil
  split
  · rename_i hzero
    rcases hzero with hdue | hrate | hmax
    · have : deadline.toNat - now.toNat = 0 := Nat.sub_eq_zero_of_le (UInt64.le_iff_toNat_le.mp hdue)
      simp [this]
    · simp [hrate]
    · simp [hmax]
  rename_i hpositive
  simp only [not_or, UInt64.not_le] at hpositive
  obtain ⟨hdue, hrate', -⟩ := hpositive
  have hpos : 0 < ticksPerSecond := UInt64.pos_iff_ne_zero.mpr hrate'
  have hexact := noWrap maximumFiniteTicks hdue hpos hrate
  rw [ceil_split, ← hexact.fractional]
  dsimp only
  have hseconds : ((deadline - now) / 1000000).toNat = (deadline.toNat - now.toNat) / 1000000 := by
    rw [← hexact.remaining]
    exact UInt64.toNat_div ..
  split
  · -- more whole seconds than the cap has ticks
    rename_i hmany
    have hquot : (maximumFiniteTicks / ticksPerSecond).toNat =
        maximumFiniteTicks.toNat / ticksPerSecond.toNat := UInt64.toNat_div ..
    rw [gt_iff_lt, UInt64.lt_iff_toNat_lt, hseconds, hquot,
      Nat.div_lt_iff_lt_mul (UInt64.lt_iff_toNat_lt.mp hpos)] at hmany
    omega
  rename_i hfew
  have hguard := UInt64.not_lt.mp hfew
  obtain ⟨hwhole, hle, hroom⟩ := hexact.whole hguard
  rw [← hwhole]
  show (if fractionalTicks (deadline - now) ticksPerSecond >
      maximumFiniteTicks - wholeTicks (deadline - now) ticksPerSecond then maximumFiniteTicks
    else wholeTicks (deadline - now) ticksPerSecond +
      fractionalTicks (deadline - now) ticksPerSecond).toNat = _
  split
  · rename_i hover
    rw [gt_iff_lt, UInt64.lt_iff_toNat_lt, hroom] at hover
    omega
  · rename_i hfits
    have hsum := hexact.sum hguard (UInt64.not_lt.mp hfits)
    rw [gt_iff_lt, UInt64.lt_iff_toNat_lt, hroom] at hfits
    omega

/-- A deadline below `UINT64_MAX` gives a finite timeout, no longer than the time left. -/
theorem platformTicksUntil_finite (tickRateHz : UInt32) (now : Tick) {deadline : Tick}
    (hdeadline : deadline ≠ tickMax) :
    platformTicksUntil tickRateHz now deadline ≠ portMaxDelay ∧
      (platformTicksUntil tickRateHz now deadline).toNat ≤
        ticksCeil now deadline tickRateHz.toNat := by
  have hcap : (portMaxDelay.toUInt64 - 1).toNat = 2 ^ 32 - 2 := by decide
  have hrate : tickRateHz.toUInt64.toNat = tickRateHz.toNat := UInt32.toNat_toUInt64 _
  have hticks := platformTimeoutTicks_toNat now deadline (portMaxDelay.toUInt64 - 1)
    (hrate ▸ tickRateHz.toNat_lt)
  rw [hcap, hrate] at hticks
  have huntil : (platformTicksUntil tickRateHz now deadline).toNat =
      min (2 ^ 32 - 2) (ticksCeil now deadline tickRateHz.toNat) := by
    rw [platformTicksUntil, if_neg hdeadline, UInt64.toNat_toUInt32, hticks]
    omega
  refine ⟨fun he => ?_, by omega⟩
  have hmax : portMaxDelay.toNat = 2 ^ 32 - 1 := by decide
  rw [he, hmax] at huntil
  omega

end SimpleAwait
