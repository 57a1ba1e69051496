import SimpleAwait.Properties.Signals

/-!
# The scheduler does not sleep through work

While `poll_and_wait()` is blocked in `xSemaphoreTake`, nothing is ready.  Without a token, an
armed and signaled flag still has a `set()` on its way to give one.  The timeout is taken from
`nearest_deadline_`, which no armed timer is before.
-/

namespace SimpleAwait

variable {N : ℕ} {T : Type} {cfg : Config N} {w : World N T} {now : Tick} {timeout : UInt32}

theorem ticksCeil_mono {deadline deadline' : Tick} (h : deadline ≤ deadline') (now : Tick)
    (ticksPerSecond : ℕ) : ticksCeil now deadline ticksPerSecond ≤
      ticksCeil now deadline' ticksPerSecond := by
  have hle : deadline.toNat ≤ deadline'.toNat := UInt64.le_iff_toNat_le.mp h
  exact Nat.div_le_div_right (Nat.add_le_add_right
    (Nat.mul_le_mul_right _ (Nat.sub_le_sub_right hle _)) _)

/-- In the platform wait no task is ready, every flag that is armed and signaled is one whose
`set()` has yet to give the semaphore unless the token is there, and the timeout is finite and
no longer than the time to any deadline below `UINT64_MAX`. -/
theorem sleeps_only_without_work (hw : w.Reachable cfg) (htake : w.control = .take now timeout) :
    (∀ s, (w.sched.slots s).state ≠ .ready) ∧
    (w.wake ≠ some true → ∀ f, (w.flags.flag f).waiter ≠ none →
      (w.flags.flag f).signaled = true → f ∈ w.giving) ∧
    (∀ s, (w.sched.slots s).state = .waitingTimer → (w.sched.slots s).deadline < tickMax →
      timeout ≠ portMaxDelay ∧
        timeout.toNat ≤ ticksCeil now (w.sched.slots s).deadline cfg.tickRateHz.toNat) := by
  obtain ⟨L, hinv⟩ := hw.inv
  have hsound := hinv.core.sound
  obtain ⟨hand, hready, htimeout⟩ := hinv.staged.asleep now timeout htake
  refine ⟨fun s hs => ?_, fun htoken f hwaiter hsignaled => ?_, fun s hs hdeadline => ?_⟩
  · have hmem := (hsound.threaded.mem_ready s).mpr
      (Place.eq_ready_of_state (hsound.threaded.state s ▸ hs))
    rw [hready] at hmem
    cases hmem
  · have harmed := (hinv.core.armed.mem f).mpr hwaiter
    rw [Control.unvisited_eq_nil hinv.position (by rw [htake]; rfl), List.append_nil] at harmed
    exact (hinv.signals.told hand (by rw [htake]; rfl) f (Or.inl harmed) hsignaled).resolve_right
      htoken
  · have hnearest := hsound.timers.lower s hs
    have hfinite : w.sched.nearestDeadline ≠ tickMax :=
      UInt64.ne_of_lt (UInt64.lt_of_le_of_lt hnearest hdeadline)
    obtain ⟨hforever, hbound⟩ := platformTicksUntil_finite cfg.tickRateHz now hfinite
    rw [← htimeout] at hforever hbound
    exact ⟨hforever, hbound.trans (ticksCeil_mono hnearest now _)⟩

/-- One task waits for a flag and another for 5000 µs.  The flag is set while the scheduler
waits, for at most 5 ticks of 1 ms. -/
theorem sleeps_only_without_work_small :
    let w : World 3 ℕ := World.after .small [.createTask (some 1), .createTask (some 2),
      .poll true 0, .checkPending, .startPass, .passPop, .coAwait (.flag 0), .flagPark, .passPop,
      .coAwait (.delay 5000), .endPass 0, .setFlag 0]
    w.control = .take 0 5 ∧ 0 ∈ w.giving ∧ (5 : UInt32) ≠ portMaxDelay := by
  intro w
  have htake : w.control = .take 0 5 := by decide
  obtain ⟨-, hgiving, htimer⟩ := sleeps_only_without_work (.after _ (by decide)) htake
  exact ⟨htake, hgiving (by decide) 0 (by decide) (by decide),
    (htimer 1 (by decide) (by decide)).1⟩

end SimpleAwait
