import SimpleAwait.Library.Counting
import SimpleAwait.System.Places

/-!
# Parents and active slots

`Kin c place` ties the parent links and `active_count_` to the places: a slot is the
child of `p` exactly if `p` waits for it, and then it holds a task.  Completion of a
child and adoption of one change several of these at once; the lemmas say how.
-/

namespace SimpleAwait

variable {N : ℕ} {c c' : Scheduler N} {place : Fin N → Place N} {s : Fin N}

/-- The number of slots that hold a task. -/
def numActive (place : Fin N → Place N) : ℕ := (Finset.univ.filter fun s => (place s).Active).card

theorem numActive_update (place : Fin N → Place N) (s : Fin N) (p : Place N) :
    numActive (Function.update place s p) + (if (place s).Active then 1 else 0) =
      numActive place + (if p.Active then 1 else 0) :=
  Counting.card_filter_update Place.Active place s p

/-- The parent links and the count of active slots agree with the places. -/
structure Kin (c : Scheduler N) (place : Fin N → Place N) : Prop where
  parent : ∀ s p, (c.slots s).parent = some p ↔ place p = .child s
  /-- A child that is waited for holds a task. -/
  alive : ∀ s p, place p = .child s → (place s).Active
  active : c.activeCount = numActive place

theorem Kin.congr (h : Kin c place) (hparent : ∀ s, (c'.slots s).parent = (c.slots s).parent)
    (hactive : c'.activeCount = c.activeCount) : Kin c' place where
  parent t p := by rw [hparent]; exact h.parent t p
  alive := h.alive
  active := hactive.trans h.active

/-- An active slot that waits for no child moves to another place of this kind. -/
theorem Kin.move (h : Kin c place) {p : Place N} (hs : ∀ t, place s ≠ .child t)
    (hp : ∀ t, p ≠ .child t) (hactive : (place s).Active) (hactive' : p.Active) :
    Kin c (Function.update place s p) where
  parent t u := by
    by_cases hu : u = s
    · subst hu
      simp [h.parent, hs, hp]
    · simp [h.parent, hu]
  alive t u hu := by
    by_cases hus : u = s
    · subst hus
      simp [hp] at hu
    · rw [Function.update_of_ne hus] at hu
      by_cases hts : t = s
      · subst hts
        simpa using hactive'
      · simpa [hts] using h.alive t u hu
  active := by
    have := numActive_update place s p
    rw [if_pos hactive, if_pos hactive'] at this
    have := h.active
    omega

/-- A slot that holds no task is nobody's child. -/
theorem Kin.not_child (h : Kin c place) (hs : ¬ (place s).Active) (p : Fin N) :
    place p ≠ .child s :=
  fun hp => hs (h.alive s p hp)

/-- A slot that holds no task is filled with a task nobody waits for. -/
theorem Kin.adopt (h : Kin c place) (hs : ¬ (place s).Active)
    (hparent : ∀ t, (c'.slots t).parent = if t = s then none else (c.slots t).parent)
    (hactive : c'.activeCount = c.activeCount + 1) :
    Kin c' (Function.update place s .ready) where
  parent t u := by
    by_cases ht : t = s
    · subst ht
      by_cases hu : u = t
      · subst hu
        simp [hparent]
      · simp [hparent, hu, h.not_child hs u]
    · by_cases hu : u = s
      · subst hu
        have : place u ≠ .child t := fun he => hs (by rw [he]; simp [Place.Active])
        simp [hparent, ht, h.parent, this]
      · simp [hparent, ht, hu, h.parent]
  alive t u hu := by
    by_cases hus : u = s
    · subst hus
      simp at hu
    · rw [Function.update_of_ne hus] at hu
      by_cases hts : t = s
      · subst hts
        simp [Place.Active]
      · simpa [hts] using h.alive t u hu
  active := by
    have := numActive_update place s .ready
    rw [if_neg hs, if_pos (by simp [Place.Active])] at this
    have := h.active
    omega

/-- A slot that holds no task is filled with a child of the running slot `p`. -/
theorem Kin.adoptChild (h : Kin c place) {p : Fin N} (hs : ¬ (place s).Active)
    (hp : place p = .running)
    (hparent : ∀ t, (c'.slots t).parent = if t = s then some p else (c.slots t).parent)
    (hactive : c'.activeCount = c.activeCount + 1) :
    Kin c' (Function.update (Function.update place s .ready) p (.child s)) := by
  have hne : s ≠ p := by
    rintro rfl
    exact hs (by simp [hp, Place.Active])
  have hready : Function.update place s .ready p = .running := by
    rw [Function.update_of_ne hne.symm, hp]
  refine ⟨fun t u => ?_, fun t u hu => ?_, ?_⟩
  · by_cases hu : u = p
    · subst hu
      by_cases ht : t = s
      · subst ht
        simp [hparent]
      · have : (c.slots t).parent ≠ some u := by simp [h.parent, hp]
        simp [hparent, ht, this, Ne.symm ht]
    · by_cases ht : t = s
      · subst ht
        have hpu : p ≠ u := Ne.symm hu
        by_cases hut : u = t
        · subst hut
          simp [hparent, hu, hpu]
        · simp [hparent, hu, hut, hpu, h.not_child hs u]
      · by_cases hus : u = s
        · subst hus
          have : place u ≠ .child t := fun he => hs (by rw [he]; simp [Place.Active])
          simp [hparent, ht, hu, h.parent, this]
        · simp [hparent, ht, hu, hus, h.parent]
  · by_cases hup : u = p
    · subst hup
      simp only [Function.update_self, Place.child.injEq] at hu
      subst hu
      simp [hne, Place.Active]
    · by_cases hus : u = s
      · subst hus
        simp [hup] at hu
      · simp only [Function.update_of_ne hup, Function.update_of_ne hus] at hu
        have halive := h.alive t u hu
        by_cases htp : t = p
        · subst htp
          simp [Place.Active]
        · by_cases hts : t = s
          · subst hts
            simp [htp, Place.Active]
          · simpa [htp, hts] using halive
  · have hfirst := numActive_update place s .ready
    have hsecond := numActive_update (Function.update place s .ready) p (.child s)
    rw [if_neg hs, if_pos (by simp [Place.Active])] at hfirst
    rw [hready, if_pos (by simp [Place.Active]), if_pos (by simp [Place.Active])] at hsecond
    have := h.active
    omega

/-- The running slot completes, and nobody waits for it. -/
theorem Kin.complete (h : Kin c place) (hs : place s = .running)
    (hnone : (c.slots s).parent = none)
    (hparent : ∀ t, (c'.slots t).parent = if t = s then none else (c.slots t).parent)
    (hactive : c'.activeCount = c.activeCount - 1) :
    Kin c' (Function.update place s .completed) where
  parent t u := by
    have hsame : (c'.slots t).parent = (c.slots t).parent := by
      rw [hparent]
      split_ifs with ht
      · rw [ht, hnone]
      · rfl
    rw [hsame, h.parent]
    by_cases hu : u = s
    · subst hu
      simp [hs]
    · simp [hu]
  alive t u hu := by
    by_cases hus : u = s
    · subst hus
      simp at hu
    · rw [Function.update_of_ne hus] at hu
      by_cases hts : t = s
      · subst hts
        have := (h.parent t u).mpr hu
        simp [hnone] at this
      · simpa [hts] using h.alive t u hu
  active := by
    have := numActive_update place s .completed
    rw [if_pos (by simp [hs, Place.Active]), if_neg (by simp [Place.Active])] at this
    have := h.active
    omega

/-- The running slot completes, and its waiting parent `p` becomes ready. -/
theorem Kin.completeChild (h : Kin c place) {p : Fin N} (hs : place s = .running)
    (hp : place p = .child s)
    (hparent : ∀ t, (c'.slots t).parent = if t = s then none else (c.slots t).parent)
    (hactive : c'.activeCount = c.activeCount - 1) :
    Kin c' (Function.update (Function.update place s .completed) p .ready) := by
  have hne : p ≠ s := by
    rintro rfl
    simp [hs] at hp
  refine ⟨fun t u => ?_, fun t u hu => ?_, ?_⟩
  · rw [hparent]
    by_cases hup : u = p
    · subst hup
      split_ifs with ht
      · simp
      · have : (c.slots t).parent ≠ some u := by
          rw [Ne, h.parent, hp]
          simpa using Ne.symm ht
        simp [this]
    · split_ifs with ht
      · subst ht
        have : place u ≠ .child t := by
          intro he
          have hu := (h.parent t u).mpr he
          rw [(h.parent t p).mpr hp, Option.some.injEq] at hu
          exact hup hu.symm
        by_cases hut : u = t
        · subst hut
          simp [hup]
        · simp [hup, hut, this]
      · by_cases hus : u = s
        · subst hus
          simp [hup, h.parent, hs]
        · simp [hup, hus, h.parent]
  · by_cases hup : u = p
    · subst hup
      simp at hu
    · by_cases hus : u = s
      · subst hus
        simp [hup] at hu
      · simp only [Function.update_of_ne hup, Function.update_of_ne hus] at hu
        by_cases htp : t = p
        · subst htp
          simp [Place.Active]
        · by_cases hts : t = s
          · subst hts
            have hup' := (h.parent t u).mpr hu
            rw [(h.parent t p).mpr hp, Option.some.injEq] at hup'
            exact absurd hup'.symm hup
          · simpa [htp, hts] using h.alive t u hu
  · have hfirst := numActive_update place s .completed
    have hsecond := numActive_update (Function.update place s .completed) p .ready
    have hold : Function.update place s .completed p = .child s := by
      rw [Function.update_of_ne hne, hp]
    rw [if_pos (by simp [hs, Place.Active]), if_neg (by simp [Place.Active])] at hfirst
    rw [hold, if_pos (by simp [Place.Active]), if_pos (by simp [Place.Active])] at hsecond
    have := h.active
    omega

end SimpleAwait
