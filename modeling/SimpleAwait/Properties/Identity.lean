import SimpleAwait.Properties.Consistency
import SimpleAwait.System.Trace

/-!
# Identities never alias

The acquisitions of a slot have the generations `1, 2, 3, …` (`Chronicle.acquired`), so no two
acquisitions share an identity, and the generation in the slot tells which of them was the last.
A handle is compared with that generation, hence it is valid until the slot is acquired again.
-/

namespace SimpleAwait

open Transition

variable {N : ℕ} {T : Type} {cfg : Config N} {w w' : World N T} {s : Fin N} {id : TaskId}

/-- The identities given out by `acquire_slot`, in order. -/
def acquiredTasks (trace : List (Obs N)) : List (Fin N × UInt32) :=
  trace.filterMap fun | .acquired s g => some (s, g) | _ => none

/-- A handle that user code is given when the world is `w`: `create_task` has just returned it,
or `current_task` would. -/
inductive Issued (cfg : Config N) (id : TaskId) : World N T → Prop
  | created {u w : World N T} {task : Handle} (hu : u.Reachable cfg)
      (hstep : u.step cfg (.createTask task) = some w)
      (hreturned : (u.sched.schedule task).handle = some id) : Issued cfg id w
  | current {w : World N T} (hw : w.Reachable cfg) (hcurrent : w.sched.currentTask = some id) :
      Issued cfg id w

/-! ## Acquisitions of one slot -/

theorem acquiredTasks_cons (o : Obs N) (trace : List (Obs N)) : acquiredTasks (o :: trace) =
    match o with | .acquired s g => (s, g) :: acquiredTasks trace | _ => acquiredTasks trace := by
  cases o <;> rfl

/-- The identities are distinct if those of every slot are. -/
theorem nodup_acquiredTasks {trace : List (Obs N)}
    (h : ∀ s, (acquisitions s trace).Nodup) : (acquiredTasks trace).Nodup := by
  induction trace with
  | nil => exact List.nodup_nil
  | cons o trace ih =>
      have htail : ∀ s, (acquisitions s trace).Nodup := by
        intro s
        have := h s
        rw [← List.singleton_append, acquisitions_append] at this
        exact (List.nodup_append.mp this).2.1
      rw [acquiredTasks_cons]
      cases o with
      | acquired t g =>
          refine List.nodup_cons.mpr ⟨fun hmem => ?_, ih htail⟩
          obtain ⟨o, ho, heq⟩ := List.mem_filterMap.mp hmem
          cases o <;> cases heq
          have hfirst := h t
          rw [acquisitions_cons] at hfirst
          simp only [if_true, List.nodup_cons] at hfirst
          exact hfirst.1 (mem_acquisitions.mpr ⟨g, rfl, ho⟩)
      | error | enqueued | resumed | completed | destroyed => exact ih htail

/-! ## One slot along a run -/

theorem World.Reachable.chronicle (hw : w.Reachable cfg) : Chronicle w.sched := by
  obtain ⟨L, hinv⟩ := hw.inv
  exact hinv.core.sound.chronicle

/-! ## Handles -/

theorem indexOf_toNat (cfg : Config N) (s : Fin N) :
    (Scheduler.indexOf s).toNat = s.val := by
  have := cfg.maxTasks_le
  rw [Scheduler.indexOf, UInt16.toNat_ofNat']
  exact Nat.mod_eq_of_lt (by omega)

/-- A handle names a task that has not completed when it is issued. -/
theorem Issued.tenant (h : Issued cfg id w) : ∃ s : Fin N, s.val = id.slot.toNat ∧
    (w.sched.slots s).generation = id.generation ∧ w.sched.Occupied s := by
  cases h with
  | @created u _ task hu hstep hreturned =>
      have hsched : w.sched = (u.sched.schedule task).sched := by
        obtain ⟨-, rfl⟩ := World.user_eq_some.mp hstep
        rfl
      rw [hsched]
      unfold Scheduler.schedule at hreturned ⊢
      split at hreturned
      · cases hreturned
      rename_i hshutting
      rw [if_neg hshutting]
      cases task with
      | none => cases hreturned
      | some frame =>
          dsimp only at hreturned ⊢
          cases hacquire : u.sched.acquireSlot with
          | none => simp [hacquire] at hreturned
          | some r =>
              obtain ⟨s, claimed⟩ := r
              simp only [hacquire, Option.some.injEq] at hreturned ⊢
              refine ⟨s, ?_, ?_, ?_⟩
              · rw [← hreturned]
                exact (indexOf_toNat cfg s).symm
              · rw [← hreturned]
                rfl
              · simp [Scheduler.Occupied, Scheduler.adopt]
  | current hw hcurrent =>
      obtain ⟨L, hinv⟩ := hw.inv
      obtain ⟨s, hs, rfl⟩ := Option.map_eq_some_iff.mp hcurrent
      refine ⟨s, (indexOf_toNat cfg s).symm, rfl, ?_⟩
      have hrunning : L.place s = .running := by
        rw [hinv.staged.running]
        have := hinv.staged.current.symm.trans hs
        cases hctl : w.control <;> simp_all [Control.current, Control.running]
      have hstate := hinv.core.sound.threaded.state s
      rw [hrunning] at hstate
      simp [Scheduler.Occupied, hstate]

theorem valid_iff {c : Scheduler N} (hs : s.val = id.slot.toNat) : c.valid (some id) = true ↔
    (c.slots s).generation = id.generation ∧ (c.slots s).state ≠ .free := by
  have hlt : id.slot.toNat < N := hs ▸ s.isLt
  have hindex : (⟨id.slot.toNat, hlt⟩ : Fin N) = s := Fin.ext hs.symm
  simp [Scheduler.valid, Scheduler.handleValid, hlt, hindex]

theorem done_iff {c : Scheduler N} (hs : s.val = id.slot.toNat) : c.done (some id) = true ↔
    (c.slots s).generation = id.generation ∧ (c.slots s).state = .completed := by
  have hlt : id.slot.toNat < N := hs ▸ s.isLt
  have hindex : (⟨id.slot.toNat, hlt⟩ : Fin N) = s := Fin.ext hs.symm
  simp [Scheduler.done, Scheduler.handleDone, hlt, hindex]

/-- No two acquisitions share an identity, and an exhausted slot is not acquired again.  A handle
is valid from when it is issued until its slot is acquired again and never after that; it is done
exactly from the completion of its own task until then. -/
theorem identities_never_alias {actions : List (Action T)} (hw : w.Reachable cfg)
    (hrun : run (World.step cfg) w actions = some w') :
    ∃ obs, w'.sched.trace = w.sched.trace ++ obs ∧
      (acquiredTasks w'.sched.trace).Nodup ∧
      (∀ s, (w.sched.slots s).generation = maxGeneration → ∀ g, Obs.acquired s g ∉ obs) ∧
      ∀ id, Issued cfg id w → ∃ s : Fin N, s.val = id.slot.toNat ∧
        Obs.acquired s id.generation ∈ w.sched.trace ∧
        (w'.sched.valid (some id) = true ↔ ∀ g, Obs.acquired s g ∉ obs) ∧
        (w'.sched.done (some id) = true ↔
          Obs.completed s id.generation ∈ w'.sched.trace ∧ ∀ g, Obs.acquired s g ∉ obs) := by
  have hw' : w'.Reachable cfg := hw.append hrun
  obtain ⟨obs, htrace⟩ := World.run_trace hw hrun
  have h := hw.chronicle
  have h' := hw'.chronicle
  refine ⟨obs, htrace, nodup_acquiredTasks fun s => ?_, fun s hmax => h.retired h' htrace hmax, ?_⟩
  · rw [h'.acquired s]
    exact List.nodup_range'
  intro id hissued
  obtain ⟨s, hs, hgeneration, hoccupied⟩ := hissued.tenant
  have hsame := h.same_iff h' htrace s
  have hpos : (w.sched.slots s).generation ≠ 0 := (h.free s).not.mp hoccupied.1
  have hkept : (w'.sched.slots s).generation = (w.sched.slots s).generation →
      (w'.sched.slots s).state ≠ .free := fun heq => (h'.free s).not.mpr (heq ▸ hpos)
  refine ⟨s, hs, ?_, ?_, ?_⟩
  · have hlast : (w.sched.slots s).generation.toNat ∈ acquisitions s w.sched.trace := by
      rw [h.acquired s, List.mem_range'_1]
      have : (w.sched.slots s).generation.toNat ≠ 0 := fun he =>
        hpos (UInt32.toNat_inj.mp he)
      omega
    obtain ⟨g, hg, hmem⟩ := mem_acquisitions.mp hlast
    rw [← hgeneration, ← UInt32.toNat_inj.mp hg]
    exact hmem
  · rw [valid_iff hs, ← hsame, ← hgeneration]
    exact ⟨And.left, fun heq => ⟨heq, hkept heq⟩⟩
  · rw [done_iff hs, ← hsame, ← hgeneration]
    constructor
    · rintro ⟨heq, hcompleted⟩
      refine ⟨mem_lifecycle_completed.mp ((Chronicle.completed h' s _).mpr
        ⟨?_, Or.inr ⟨heq.symm, hcompleted⟩⟩), heq⟩
      exact Nat.pos_of_ne_zero fun he => hpos (UInt32.toNat_inj.mp he)
    · rintro ⟨hcompleted, heq⟩
      refine ⟨heq, ?_⟩
      rcases ((Chronicle.completed h' s _).mp (mem_lifecycle_completed.mpr hcompleted)).2 with hlt | hnow
      · rw [heq] at hlt
        exact absurd hlt (lt_irrefl _)
      · exact hnow.2

/-- The first of three slots is taken, completed and, once the others are taken, taken again: the
handle of its first task goes from valid to done to neither. -/
theorem identities_never_alias_small :
    let first : Action ℕ := .createTask (some 1)
    let ended := [.poll false 0, .checkPending, .startPass, .passPop, .finish, .destroyed]
    let reused := ended ++ [.endPass 0, .createTask (some 2), .createTask (some 3),
      .createTask (some 4)]
    Issued .small ⟨0, 1⟩ (World.after .small [first]) ∧
      (acquiredTasks (World.after .small (first :: reused)).sched.trace).Nodup ∧
      acquiredTasks (World.after .small (first :: reused)).sched.trace =
        [(0, 1), (1, 1), (2, 1), (0, 2)] ∧
      (World.after .small (first :: ended)).sched.done (some ⟨0, 1⟩) = true ∧
      (World.after .small (first :: reused)).sched.valid (some ⟨0, 1⟩) = false := by
  intro first ended reused
  have hstart : (World.initial : World 3 ℕ).Reachable .small := Reachable.refl
  have hstep : (World.initial : World 3 ℕ).step .small first = some (World.after .small [first]) :=
    run_singleton.mp (World.run_after .small [] [first] (by decide))
  have hissued : Issued .small ⟨0, 1⟩ (World.after .small [first]) :=
    .created hstart hstep (by decide)
  obtain ⟨-, -, hnodup, -, -⟩ := identities_never_alias (.after .small (by decide))
    (World.run_after .small [first] reused (by decide))
  exact ⟨hissued, hnodup, by decide, by decide, by decide⟩

end SimpleAwait
