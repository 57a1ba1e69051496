import SimpleAwait.Primitives.Channel
import SimpleAwait.System.Armed
import SimpleAwait.System.DueTimers
import SimpleAwait.System.Lifecycle
import SimpleAwait.System.Step

/-!
# The core invariant

A `Layout` extends the view with the parked awaiters of every queue and with the armed
flags, those the walk has left behind and those it has yet to visit.  `Core w L` says that
the world `w` stores the layout `L`: the scheduler is sound, every queue is a channel, and a
slot in `waiting_local` is where its place says.  It does not mention `control`; what ties
the stages of a pass to the layout is added in `Invariant.lean`.
-/

namespace SimpleAwait

open Intrusive

variable {N : ℕ} {T : Type}

/-- The view with the waiting awaiters and flags. -/
structure Layout (N : ℕ) extends View N where
  senders : ℕ → List ℕ
  receivers : ℕ → List ℕ
  /-- Armed flags outside the walk, and those the walk left armed. -/
  visited : List ℕ
  /-- Armed flags the walk has yet to visit. -/
  unvisited : List ℕ

/-! ## Parked awaiters -/

variable {place place' : Fin N → Place N} {s t : Fin N} {p : Place N} {r : Registration}

theorem update_parked_iff (hold : place t ≠ .parked r) (hnew : p ≠ .parked r) :
    Function.update place t p s = .parked r ↔ place s = .parked r := by
  by_cases hs : s = t
  · subst hs
    simp [hold, hnew]
  · simp [hs]

/-- The awaiters in `l` are those that slots are parked on, where `slotOf` is an awaiter's
`slot_` and `reg` the registration it stands for. -/
structure Parked (slotOf : ℕ → Option (Fin N)) (reg : ℕ → Registration)
    (place : Fin N → Place N) (l : List ℕ) : Prop where
  slot : ∀ a ∈ l, ∃ s, slotOf a = some s
  place : ∀ a s, (a ∈ l ∧ slotOf a = some s) ↔ place s = .parked (reg a)

namespace Parked

variable {slotOf slotOf' : ℕ → Option (Fin N)} {reg : ℕ → Registration} {l : List ℕ} {a : ℕ}

theorem congr (h : Parked slotOf reg place l) (hslot : ∀ a ∈ l, slotOf' a = slotOf a)
    (hplace : ∀ a s, place' s = .parked (reg a) ↔ place s = .parked (reg a)) :
    Parked slotOf' reg place' l where
  slot b hb := by rw [hslot b hb]; exact h.slot b hb
  place b t := by
    rw [hplace, ← h.place]
    exact and_congr_right fun hb => by rw [hslot b hb]

/-- The first awaiter's slot leaves. -/
theorem pop (h : Parked slotOf reg place (a :: l)) (hnodup : a ∉ l) (hs : slotOf a = some s)
    (hreg : Function.Injective reg) (hp : ∀ b, p ≠ .parked (reg b)) :
    Parked slotOf reg (Function.update place s p) l where
  slot b hb := h.slot b (List.mem_cons_of_mem _ hb)
  place b t := by
    have hplace : place s = .parked (reg a) := (h.place a s).mp ⟨by simp, hs⟩
    by_cases hba : b = a
    · subst hba
      have : ∀ u ≠ s, place u ≠ .parked (reg b) := by
        intro u hu he
        have := ((h.place b u).mpr he).2
        rw [hs, Option.some.injEq] at this
        exact hu this.symm
      by_cases ht : t = s
      · simp [ht, hnodup, hp]
      · simp [ht, hnodup, this t ht]
    · have hne : place s ≠ .parked (reg b) := by
        rw [hplace]
        intro he
        exact hba (hreg (Place.parked.inj he)).symm
      rw [update_parked_iff hne (hp b), ← h.place]
      simp [hba]

/-- A running slot parks on a new awaiter. -/
theorem push (h : Parked slotOf reg place l) (ha : a ∉ l) (hs : ∀ b, place s ≠ .parked (reg b))
    (hreg : Function.Injective reg) (hself : slotOf' a = some s)
    (hother : ∀ b ≠ a, slotOf' b = slotOf b) :
    Parked slotOf' reg (Function.update place s (.parked (reg a))) (l ++ [a]) where
  slot b hb := by
    rcases List.mem_append.mp hb with hb | hb
    · have hba : b ≠ a := fun he => ha (he ▸ hb)
      rw [hother b hba]
      exact h.slot b hb
    · rw [List.mem_singleton.mp hb]
      exact ⟨s, hself⟩
  place b t := by
    by_cases hba : b = a
    · subst hba
      have : ∀ u, place u ≠ .parked (reg b) := fun u hu => ha ((h.place b u).mpr hu).1
      by_cases ht : t = s
      · simp [ht, hself]
      · simp [ht, hself, Ne.symm ht, this]
    · have hne : (.parked (reg a) : Place N) ≠ .parked (reg b) := fun he =>
        hba (hreg (Place.parked.inj he)).symm
      rw [update_parked_iff (hs b) hne, hother b hba, ← h.place]
      simp [hba]

end Parked

/-! ## Receives in progress -/

/-- `receiving` names the awaiter of the `receive()` that a slot is suspended in: the slot
is parked on it, or it was handed a result and is ready. -/
structure Receiving (queue : ℕ → Queue N T) (receiving : Fin N → Option (ℕ × ℕ))
    (place : Fin N → Place N) : Prop where
  parked : ∀ s q a, place s = .parked (.receiver q a) → receiving s = some (q, a)
  held : ∀ s q a, receiving s = some (q, a) → place s = .parked (.receiver q a) ∨
    place s = .ready ∧ ((queue q).receivers a).hasResult = true
  injective : ∀ s t x, receiving s = some x → receiving t = some x → s = t

namespace Receiving

variable {queue queue' : ℕ → Queue N T} {receiving : Fin N → Option (ℕ × ℕ)}

/-- Results stay until they are returned. -/
theorem congr (h : Receiving queue receiving place)
    (hresult : ∀ s q a, receiving s = some (q, a) → ((queue q).receivers a).hasResult = true →
      ((queue' q).receivers a).hasResult = true) : Receiving queue' receiving place where
  parked := h.parked
  held t q a ht := (h.held t q a ht).imp_right fun hready => ⟨hready.1, hresult t q a ht hready.2⟩
  injective := h.injective

/-- A slot that is in no `receive()` moves. -/
theorem update (h : Receiving queue receiving place) (hs : receiving s = none)
    (hp : ∀ q a, p ≠ .parked (.receiver q a)) :
    Receiving queue receiving (Function.update place s p) where
  parked t q a ht := by
    by_cases hts : t = s
    · subst hts
      simp [hp] at ht
    · exact h.parked t q a (by simpa [hts] using ht)
  held t q a ht := by
    have hts : t ≠ s := by
      rintro rfl
      simp [hs] at ht
    simpa [hts] using h.held t q a ht
  injective := h.injective

theorem eq_none (h : Receiving queue receiving place)
    (hs : place s ≠ .ready ∧ ∀ q a, place s ≠ .parked (.receiver q a)) : receiving s = none := by
  by_contra hne
  obtain ⟨⟨q, a⟩, hreceiving⟩ := Option.ne_none_iff_exists'.mp hne
  rcases h.held s q a hreceiving with hplace | hplace
  · exact hs.2 q a hplace
  · exact hs.1 hplace.1

/-- A parked receiver is handed a result and becomes ready. -/
theorem hand (h : Receiving queue receiving place) {k a : ℕ}
    (hs : place s = .parked (.receiver k a))
    (hself : ((queue' k).receivers a).hasResult = true)
    (hother : ∀ t q b, receiving t = some (q, b) → ((queue q).receivers b).hasResult = true →
      ((queue' q).receivers b).hasResult = true) :
    Receiving queue' receiving (Function.update place s .ready) where
  parked t q b ht := by
    by_cases hts : t = s
    · subst hts
      simp at ht
    · exact h.parked t q b (by simpa [hts] using ht)
  held t q b ht := by
    by_cases hts : t = s
    · subst hts
      have := h.parked t k a hs
      rw [ht, Option.some.injEq, Prod.mk.injEq] at this
      obtain ⟨rfl, rfl⟩ := this
      simp [hself]
    · simpa [hts] using (h.congr hother).held t q b ht
  injective := h.injective

end Receiving

/-! ## The invariant -/

/-- The world stores the layout. -/
structure Core (cfg : Config N) (w : World N T) (L : Layout N) : Prop where
  sound : Sound w.sched (fun e => (w.event e).waiters) L.toView
  channel : ∀ q, Channel (cfg.capacity q) (w.queue q) (L.senders q) (L.receivers q) (w.sent q)
  senders : ∀ q, Parked (fun a => ((w.queue q).senders a).slot) (.sender q) L.place (L.senders q)
  receivers : ∀ q,
    Parked (fun a => ((w.queue q).receivers a).slot) (.receiver q) L.place (L.receivers q)
  receiving : Receiving w.queue w.receiving L.place
  armed : Armed w.flags L.place (L.visited ++ L.unvisited)

variable {cfg : Config N} {w : World N T} {L : Layout N}

namespace Core

theorem initial : Core cfg (World.initial : World N T)
    { place := fun _ => .free, ready := [], waiters := fun _ => [], senders := fun _ => [],
      receivers := fun _ => [], visited := [], unvisited := [] } where
  sound := {
    threaded := ⟨fun _ => rfl, Fifo.nil, rfl, by simp, fun _ => Fifo.nil, by simp, rfl⟩
    kin := by
      refine ⟨by simp [World.initial], by simp, ?_⟩
      simp [World.initial, numActive, Place.Active]
    timers := ⟨by simp [World.initial], Or.inl rfl⟩
    chronicle := by
      refine ⟨fun _ => rfl, fun s g => ?_, fun s => by simp [World.initial]⟩
      simp [World.initial] }
  channel q := Channel.initial (cfg.capacity_pos q)
  senders q := ⟨by simp, by simp⟩
  receivers q := ⟨by simp, by simp⟩
  receiving := ⟨by simp, by simp [World.initial], by simp [World.initial]⟩
  armed := ⟨rfl, by simp [World.initial], by simp [World.initial]⟩

end Core

/-! ## Moves that no queue and no flag notices -/

/-- A change of places that neither makes nor breaks a registration with a queue or a flag and
that keeps the ready slots ready. -/
structure Keeps (place place' : Fin N → Place N) : Prop where
  ready : ∀ t, place t = .ready → place' t = .ready
  parked : ∀ t r, (∀ e, r ≠ .event e) → (place' t = .parked r ↔ place t = .parked r)

namespace Keeps

theorem refl (place : Fin N → Place N) : Keeps place place := ⟨fun _ h => h, fun _ _ _ => Iff.rfl⟩

theorem trans {place'' : Fin N → Place N} (h : Keeps place place') (h' : Keeps place' place'') :
    Keeps place place'' where
  ready t ht := h'.ready t (h.ready t ht)
  parked t r hr := (h'.parked t r hr).trans (h.parked t r hr)

/-- A slot that is not ready moves off an event or between other places. -/
theorem update (hs : place s ≠ .ready) (hold : ∀ r, (∀ e, r ≠ .event e) → place s ≠ .parked r)
    (hnew : ∀ r, (∀ e, r ≠ .event e) → p ≠ .parked r) :
    Keeps place (Function.update place s p) where
  ready t ht := by
    have hts : t ≠ s := fun he => hs (he ▸ ht)
    simpa [hts] using ht
  parked t r hr := update_parked_iff (hold r hr) (hnew r hr)

/-- The running slot goes to a place that is no registration with a queue or a flag. -/
theorem running (hs : place s = .running) (p : Place N)
    (hp : ∀ r, (∀ e, r ≠ .event e) → p ≠ .parked r) : Keeps place (Function.update place s p) :=
  update (by simp [hs]) (by simp [hs]) hp

end Keeps

theorem Receiving.keeps {queue : ℕ → Queue N T} {receiving : Fin N → Option (ℕ × ℕ)}
    (h : Receiving queue receiving place) (hkeeps : Keeps place place') :
    Receiving queue receiving place' where
  parked t q a ht := h.parked t q a ((hkeeps.parked t _ (by simp)).mp ht)
  held t q a ht := by
    rcases h.held t q a ht with hplace | ⟨hready, hresult⟩
    · exact Or.inl ((hkeeps.parked t _ (by simp)).mpr hplace)
    · exact Or.inr ⟨hkeeps.ready t hready, hresult⟩
  injective := h.injective

namespace Core

/-- Steps of the scheduler and the events. -/
theorem keeps (h : Core cfg w L) {w' : World N T} {v : View N}
    (hsound : Sound w'.sched (fun e => (w'.event e).waiters) v) (hkeeps : Keeps L.place v.place)
    (hqueue : w'.queue = w.queue) (hsent : w'.sent = w.sent)
    (hreceiving : w'.receiving = w.receiving) (hflags : w'.flags = w.flags) :
    Core cfg w' { L with toView := v } where
  sound := hsound
  channel q := by rw [hqueue, hsent]; exact h.channel q
  senders q := by
    rw [hqueue]
    exact (h.senders q).congr (fun _ _ => rfl) fun a t => hkeeps.parked t _ (by simp)
  receivers q := by
    rw [hqueue]
    exact (h.receivers q).congr (fun _ _ => rfl) fun a t => hkeeps.parked t _ (by simp)
  receiving := by
    rw [hqueue, hreceiving]
    exact h.receiving.keeps hkeeps
  armed := by
    rw [hflags]
    exact h.armed.congr rfl (fun _ => rfl) (fun _ => rfl) fun t f => hkeeps.parked t _ (by simp)

/-- Steps that change only what the core does not look at. -/
theorem congr (h : Core cfg w L) {w' : World N T} (hsched : w'.sched = w.sched)
    (hevent : w'.event = w.event) (hqueue : w'.queue = w.queue) (hsent : w'.sent = w.sent)
    (hreceiving : w'.receiving = w.receiving) (hflags : w'.flags = w.flags) : Core cfg w' L :=
  h.keeps (v := L.toView) (by rw [hsched, hevent]; exact h.sound) (Keeps.refl _) hqueue hsent
    hreceiving hflags

/-- Steps of the flags that leave the armed list alone. -/
theorem signal (h : Core cfg w L) {w' : World N T} (hsched : w'.sched = w.sched)
    (hevent : w'.event = w.event) (hqueue : w'.queue = w.queue) (hsent : w'.sent = w.sent)
    (hreceiving : w'.receiving = w.receiving) (hhead : w'.flags.armedHead = w.flags.armedHead)
    (hnext : ∀ f, (w'.flags.flag f).armedNext = (w.flags.flag f).armedNext)
    (hwaiter : ∀ f, (w'.flags.flag f).waiter = (w.flags.flag f).waiter) : Core cfg w' L where
  sound := by rw [hsched, hevent]; exact h.sound
  channel q := by rw [hqueue, hsent]; exact h.channel q
  senders q := by rw [hqueue]; exact h.senders q
  receivers q := by rw [hqueue]; exact h.receivers q
  receiving := by rw [hqueue, hreceiving]; exact h.receiving
  armed := h.armed.congr hhead hnext hwaiter fun _ _ => Iff.rfl

/-! ### Queue operations -/

theorem sender_injective (q : ℕ) : Function.Injective (Registration.sender q) := by
  intro a b h
  cases h
  rfl

theorem receiver_injective (q : ℕ) : Function.Injective (Registration.receiver q) := by
  intro a b h
  cases h
  rfl

/-- A value goes to the oldest parked receiver of queue `k`; see `Channel.doSend`. -/
theorem hand (h : Core cfg w L) {k a : ℕ} {rest : List ℕ} {q' : Queue N T} {v : T}
    (hrcv : L.receivers k = a :: rest) (hsenders : q'.senders = (w.queue k).senders)
    (hslot : ∀ b, (q'.receivers b).slot = ((w.queue k).receivers b).slot)
    (hself : (q'.receivers a).hasResult = true)
    (hother : ∀ b ≠ a, (q'.receivers b).hasResult = ((w.queue k).receivers b).hasResult)
    (hchannel : Channel (cfg.capacity k) q' (L.senders k) rest (w.sent k ++ [v])) :
    ∃ t, L.place t = .parked (.receiver k a) ∧
      Core cfg ((w.withQueue k (w.sched.wakeSlot ((w.queue k).receivers a).slot) q').recordSent k v)
        { L with toView := L.toView.enqueue t, receivers := Function.update L.receivers k rest } := by
  have hparked := hrcv ▸ h.receivers k
  obtain ⟨t, ht⟩ := hparked.slot a (by simp)
  have hplace : L.place t = .parked (.receiver k a) := (hparked.place a t).mp ⟨by simp, ht⟩
  have hnodup : a ∉ rest := (List.nodup_cons.mp (hrcv ▸ (h.channel k).recv.linked.nodup)).1
  have hplain : (L.place t).Plain := hplace ▸ Place.plain_parked (by simp)
  refine ⟨t, hplace, ?_⟩
  exact {
    sound := by
      rw [ht]
      exact h.sound.wakeSlot hplain
    channel := fun q => by
      by_cases hq : q = k
      · subst hq
        simpa using hchannel
      · simpa [hq] using h.channel q
    senders := fun q => by
      refine (h.senders q).congr (fun b _ => ?_) fun b u =>
        update_parked_iff (by simp [hplace]) (by simp)
      by_cases hq : q = k
      · simp [hq, hsenders]
      · simp [hq]
    receivers := fun q => by
      by_cases hq : q = k
      · subst hq
        simp only [Function.update_self]
        exact (hparked.pop hnodup ht (receiver_injective q) (by simp)).congr
          (fun b _ => by simp [hslot]) fun b u => Iff.rfl
      · simp only [Function.update_of_ne hq]
        refine (h.receivers q).congr (fun b _ => by simp [hq]) fun b u =>
          update_parked_iff (by simp [hplace, Ne.symm hq]) (by simp)
    receiving := by
      refine h.receiving.hand hplace (by simp [hself]) fun u q b _ hresult => ?_
      by_cases hq : q = k
      · subst hq
        by_cases hb : b = a
        · simp [hb, hself]
        · simpa [hother b hb] using hresult
      · simpa [hq] using hresult
    armed := h.armed.congr rfl (fun _ => rfl) (fun _ => rfl) fun u f =>
      update_parked_iff (by simp [hplace]) (by simp) }

/-- The oldest parked sender of queue `k` is admitted; see `Channel.admitOldestSender`. -/
theorem admitSender (h : Core cfg w L) {k a : ℕ} {rest : List ℕ} {q' : Queue N T}
    (hsnd : L.senders k = a :: rest)
    (hslot : ∀ b, (q'.senders b).slot = ((w.queue k).senders b).slot)
    (hreceivers : ∀ b ∈ L.receivers k, (q'.receivers b).slot = ((w.queue k).receivers b).slot)
    (hresult : ∀ t b, w.receiving t = some (k, b) → ((w.queue k).receivers b).hasResult = true →
      (q'.receivers b).hasResult = true)
    (hchannel : Channel (cfg.capacity k) q' rest (L.receivers k) (w.sent k)) :
    ∃ t, L.place t = .parked (.sender k a) ∧
      Core cfg (w.withQueue k (w.sched.wakeSlot ((w.queue k).senders a).slot) q')
        { L with toView := L.toView.enqueue t, senders := Function.update L.senders k rest } := by
  have hparked := hsnd ▸ h.senders k
  obtain ⟨t, ht⟩ := hparked.slot a (by simp)
  have hplace : L.place t = .parked (.sender k a) := (hparked.place a t).mp ⟨by simp, ht⟩
  have hnodup : a ∉ rest := (List.nodup_cons.mp (hsnd ▸ (h.channel k).send.linked.nodup)).1
  have hplain : (L.place t).Plain := hplace ▸ Place.plain_parked (by simp)
  have hreceiving : w.receiving t = none := h.receiving.eq_none (by simp [hplace])
  refine ⟨t, hplace, ?_⟩
  exact {
    sound := by
      rw [ht]
      exact h.sound.wakeSlot hplain
    channel := fun q => by
      by_cases hq : q = k
      · subst hq
        simpa using hchannel
      · simpa [hq] using h.channel q
    senders := fun q => by
      by_cases hq : q = k
      · subst hq
        simp only [Function.update_self]
        exact (hparked.pop hnodup ht (sender_injective q) (by simp)).congr
          (fun b _ => by simp [hslot]) fun b u => Iff.rfl
      · simp only [Function.update_of_ne hq]
        refine (h.senders q).congr (fun b _ => by simp [hq]) fun b u =>
          update_parked_iff (by simp [hplace, Ne.symm hq]) (by simp)
    receivers := fun q => by
      refine (h.receivers q).congr (fun b hb => ?_) fun b u =>
        update_parked_iff (by simp [hplace]) (by simp)
      by_cases hq : q = k
      · subst hq
        simp [hreceivers b hb]
      · simp [hq]
    receiving := by
      refine (h.receiving.congr fun u q b hu hold => ?_).update hreceiving (by simp)
      by_cases hq : q = k
      · subst hq
        simpa using hresult u b hu hold
      · simpa [hq] using hold
    armed := h.armed.congr rfl (fun _ => rfl) (fun _ => rfl) fun u f =>
      update_parked_iff (by simp [hplace]) (by simp) }

/-- Queue `k` changes, but no awaiter is parked or unparked. -/
theorem channelOnly (h : Core cfg w L) {k : ℕ} (q' : Queue N T) (sent : List T)
    {w' : World N T} (hw' : w' = { w.setQueue k q' with sent := Function.update w.sent k sent })
    (hsenders : ∀ b ∈ L.senders k, (q'.senders b).slot = ((w.queue k).senders b).slot)
    (hreceivers : ∀ b ∈ L.receivers k, (q'.receivers b).slot = ((w.queue k).receivers b).slot)
    (hresult : ∀ t b, w.receiving t = some (k, b) → ((w.queue k).receivers b).hasResult = true →
      (q'.receivers b).hasResult = true)
    (hchannel : Channel (cfg.capacity k) q' (L.senders k) (L.receivers k) sent) :
    Core cfg w' L := by
  have hqueue : ∀ q, w'.queue q = if q = k then q' else w.queue q := by
    intro q
    simp [hw', World.setQueue, Function.update_apply]
  have hsent : ∀ q, w'.sent q = if q = k then sent else w.sent q := by
    intro q
    simp [hw', Function.update_apply]
  exact {
    sound := by rw [hw']; exact h.sound
    channel := fun q => by
      rw [hqueue, hsent]
      by_cases hq : q = k
      · subst hq
        simpa using hchannel
      · simpa [hq] using h.channel q
    senders := fun q => by
      refine (h.senders q).congr (fun b hb => ?_) fun b u => Iff.rfl
      rw [hqueue]
      by_cases hq : q = k
      · subst hq
        simp [hsenders b hb]
      · simp [hq]
    receivers := fun q => by
      refine (h.receivers q).congr (fun b hb => ?_) fun b u => Iff.rfl
      rw [hqueue]
      by_cases hq : q = k
      · subst hq
        simp [hreceivers b hb]
      · simp [hq]
    receiving := by
      have hreceiving : w'.receiving = w.receiving := by rw [hw']; rfl
      rw [hreceiving]
      refine h.receiving.congr fun u q b hu hold => ?_
      rw [hqueue]
      by_cases hq : q = k
      · subst hq
        simpa using hresult u b hu hold
      · simpa [hq] using hold
    armed := by rw [hw']; exact h.armed }

end Core

end SimpleAwait
