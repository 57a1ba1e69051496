import SimpleAwait.System.Vacancy
import SimpleAwait.Teardown.Step

/-!
# What holds during the teardown

Whatever the destructors call, no handle changes and no slot becomes completed: their calls only
wake.  So the loop finds every slot as `~Scheduler` found it.
-/

namespace SimpleAwait

variable {N : ℕ} {T : Type} {cfg : Config N} {w w' : World N T}

namespace Scheduler.Wakes

variable (c : Scheduler N)

theorem destroyEvent (e : Event N) : c.Wakes (e.destroy c) := by
  unfold Event.destroy
  split
  · exact report c _
  · exact refl c

theorem destroyFlag (F : Flags N) (f : ℕ) : c.Wakes (F.destroy f c).1 := by
  unfold Flags.destroy
  split
  · exact report c _
  · exact refl c

theorem destroyQueue (q : Queue N T) (cap : ℕ) : c.Wakes (q.destroy cap c).1 := by
  unfold Queue.destroy
  dsimp only
  split
  · exact report c _
  · exact refl c

end Scheduler.Wakes

/-- The frames destroyed, in order. -/
def destroyedFrames (trace : List (Obs N)) : List Handle :=
  trace.filterMap fun | .destroyed frame => some frame | _ => none

@[simp] theorem destroyedFrames_append (trace obs : List (Obs N)) :
    destroyedFrames (trace ++ obs) = destroyedFrames trace ++ destroyedFrames obs :=
  List.filterMap_append ..

/-- Reports and wakes destroy nothing. -/
theorem Scheduler.Wakes.destroyedFrames {c c' : Scheduler N} (h : c.Wakes c') :
    destroyedFrames c'.trace = destroyedFrames c.trace := by
  obtain ⟨obs, htrace, hobs⟩ := h.trace
  have hnone : SimpleAwait.destroyedFrames obs = [] := by
    refine List.filterMap_eq_nil_iff.mpr fun o ho => ?_
    have hharmless := hobs o ho
    cases o <;> simp_all [Obs.Harmless]
  rw [htrace, destroyedFrames_append, hnone, List.append_nil]

/-! ## The calls of the destructors -/

/-- While the scheduler shuts down, no step of the system starts a pass, and each of them does no
more than wake. -/
theorem World.step_wakes {a : Action T} (hcontrol : w.control = .loop)
    (hdown : w.sched.shuttingDown = true) (hstep : w.step cfg a = some w') :
    w'.control = .loop ∧ w.sched.Wakes w'.sched := by
  cases World.steps_of_step hstep with
  | createTask =>
      simp only [Scheduler.schedule, hdown, if_true]
      exact ⟨hcontrol, .refl _⟩
  | poll _ andWait clock =>
      obtain ⟨wake, ⟨-, hpoll⟩ | ⟨hup, -⟩ | ⟨hup, -⟩⟩ := w.poll_cases andWait clock
      · rw [hpoll]
        exact ⟨hcontrol, .refl _⟩
      · simp [hdown] at hup
      · simp [hdown] at hup
  | eventSet => exact ⟨hcontrol, .wakeAll _ _⟩
  | eventClear => exact ⟨hcontrol, .refl _⟩
  | trySend =>
      rw [World.afterSend_control, World.afterSend_sched]
      exact ⟨hcontrol, .doSend _ _ _ _ _⟩
  | tryReceive => exact ⟨hcontrol, .tryReceive _ _ _⟩
  | flagClear | flagIsSet | setFlag | give => exact ⟨hcontrol, .refl _⟩
  -- every other step belongs to a pass
  | flagTaken _ _ _ hpass | flagNotReady _ _ _ hpass | coAwait _ _ _ hpass | flagPark _ _ _ hpass
  | finish _ _ hpass | destroyed _ _ hpass | walkStarts hpass | nothingPending hpass
  | walkStep _ _ hpass | startPass hpass | passPop _ _ hpass | endPass hpass
  | tokenTaken _ _ hpass | timedOut _ _ hpass => simp [hcontrol] at hpass

namespace Teardown

/-- The frame of a slot in the world in which the teardown began. -/
def owned (w : World N T) (s : Fin N) : Option (Fin N × Frame) :=
  (w.sched.slots s).handle.map fun frame => (s, frame)

/-- An entry of the trace that the teardown leaves. -/
def Expected (o : Obs N) : Prop := o.Harmless ∨ ∃ frame, o = .destroyed frame

/-- The loop has visited the slots `visited`. -/
structure Inv (w : World N T) (t : Teardown N T) (visited : List (Fin N)) : Prop where
  control : t.world.control = .loop
  shuttingDown : t.world.sched.shuttingDown = true
  order : List.finRange N = visited ++ t.left
  torn : t.torn = visited.filterMap (owned w)
  detached : ∀ s ∈ visited, (t.world.sched.slots s).handle = none
  kept : ∀ s ∈ t.left, (t.world.sched.slots s).handle = (w.sched.slots s).handle ∧
    ((w.sched.slots s).handle ≠ none → (t.world.sched.slots s).state ≠ .completed)
  dying : ∀ s frame, .slot s frame ∈ t.dying → s ∈ visited
  trace : ∃ obs, t.world.sched.trace = w.sched.trace ++ obs ∧ ∀ o ∈ obs, Expected o

variable {t t' : Teardown N T} {visited : List (Fin N)}

theorem Inv.start (hw : w.Reachable cfg) (hloop : w.control = .loop) :
    Inv w (Teardown.start w) [] where
  control := hloop
  shuttingDown := rfl
  order := rfl
  torn := rfl
  detached := by simp
  kept s _ := by
    refine ⟨rfl, fun hhandle hcompleted => hhandle (hw.vacant s fun hoccupied => ?_)⟩
    exact hoccupied.2 hcompleted
  dying := by simp [Teardown.start]
  trace := ⟨[], by simp [Teardown.start], by simp⟩

/-- The destructors call something that only wakes. -/
theorem Inv.wakes (h : Inv w t visited) (hcontrol : t'.world.control = .loop)
    (hwakes : t.world.sched.Wakes t'.world.sched) (hleft : t'.left = t.left)
    (htorn : t'.torn = t.torn) (hdying : ∀ d ∈ t'.dying, d ∈ t.dying) : Inv w t' visited where
  control := hcontrol
  shuttingDown := hwakes.shuttingDown.trans h.shuttingDown
  order := by rw [hleft, h.order]
  torn := htorn.trans h.torn
  detached s hs := (hwakes.handle s).trans (h.detached s hs)
  kept s hs := by
    rw [hleft] at hs
    obtain ⟨hhandle, hstate⟩ := h.kept s hs
    refine ⟨(hwakes.handle s).trans hhandle, fun hne => ?_⟩
    rcases hwakes.state s with hsame | hready
    · rw [hsame]
      exact hstate hne
    · simp [hready]
  dying s frame hs := h.dying s frame (hdying _ hs)
  trace := by
    obtain ⟨obs, htrace, hobs⟩ := h.trace
    obtain ⟨obs', htrace', hobs'⟩ := hwakes.trace
    refine ⟨obs ++ obs', by rw [htrace', htrace, List.append_assoc], fun o ho => ?_⟩
    rcases List.mem_append.mp ho with ho | ho
    · exact hobs o ho
    · exact Or.inl (hobs' o ho)

/-- The loop skips a slot that owns no frame. -/
theorem Inv.skip (h : Inv w t visited) {s : Fin N} {left : List (Fin N)} (hleft : t.left = s :: left)
    (hnone : t.world.sched.ownedFrame s = none) :
    Inv w { t with left := left } (visited ++ [s]) := by
  obtain ⟨hhandle, hstate⟩ := h.kept s (by simp [hleft])
  have hempty : (w.sched.slots s).handle = none := by
    by_contra hne
    rw [Scheduler.ownedFrame, if_neg (hstate hne), hhandle] at hnone
    exact hne hnone
  exact {
    control := h.control
    shuttingDown := h.shuttingDown
    order := by simp [h.order, hleft]
    torn := by simp [h.torn, owned, hempty]
    detached := fun u hu => by
      rcases List.mem_append.mp hu with hu | hu
      · exact h.detached u hu
      · rw [List.mem_singleton.mp hu, hhandle, hempty]
    kept := fun u hu => h.kept u (by simp [hleft, hu])
    dying := fun u frame hu => List.mem_append_left _ (h.dying u frame hu)
    trace := h.trace }

/-- The loop destroys the frame of a slot. -/
theorem Inv.tear (h : Inv w t visited) {s : Fin N} {left : List (Fin N)} {frame : Frame}
    (hleft : t.left = s :: left) (hsome : t.world.sched.ownedFrame s = some frame) :
    Inv w { t.withSched (t.world.sched.detach s frame) with
      left := left
      dying := [.slot s frame]
      torn := t.torn ++ [(s, frame)] } (visited ++ [s]) := by
  obtain ⟨hhandle, -⟩ := h.kept s (by simp [hleft])
  have howned : (w.sched.slots s).handle = some frame := by
    unfold Scheduler.ownedFrame at hsome
    split at hsome
    · cases hsome
    · exact hhandle.symm.trans hsome
  have hnodup : (visited ++ s :: left).Nodup := by
    rw [← hleft, ← h.order]
    exact List.nodup_finRange N
  have hother : ∀ u ∈ left, u ≠ s := by
    rintro u hu rfl
    exact (List.nodup_cons.mp (List.nodup_append.mp hnodup).2.1).1 hu
  exact {
    control := h.control
    shuttingDown := h.shuttingDown
    order := by simp [h.order, hleft]
    torn := by simp [h.torn, owned, howned]
    detached := fun u hu => by
      by_cases hus : u = s
      · simp [withSched, Scheduler.detach, hus]
      · have hmem : u ∈ visited := by simpa [hus] using hu
        simpa [withSched, Scheduler.detach, hus] using h.detached u hmem
    kept := fun u hu => by
      have hkept := h.kept u (by simp [hleft, hu])
      simpa [withSched, Scheduler.detach, hother u hu] using hkept
    dying := fun u frame' hu => by
      cases List.mem_singleton.mp hu
      simp
    trace := by
      obtain ⟨obs, htrace, hobs⟩ := h.trace
      refine ⟨obs ++ [.destroyed (some frame)], ?_, fun o ho => ?_⟩
      · simp [withSched, Scheduler.detach, htrace]
      · rcases List.mem_append.mp ho with ho | ho
        · exact hobs o ho
        · exact Or.inr ⟨_, List.mem_singleton.mp ho⟩ }

/-- The destructor of a `Task` destroys its frame. -/
theorem Inv.destroyTask (h : Inv w t visited) (frame : Frame) :
    Inv w { t.withSched (t.world.sched.record (.destroyed (some frame))) with
      dying := .task frame :: t.dying } visited where
  control := h.control
  shuttingDown := h.shuttingDown
  order := h.order
  torn := h.torn
  detached := h.detached
  kept := h.kept
  dying u frame' hu := by
    rcases List.mem_cons.mp hu with hu | hu
    · cases hu
    · exact h.dying u frame' hu
  trace := by
    obtain ⟨obs, htrace, hobs⟩ := h.trace
    refine ⟨obs ++ [.destroyed (some frame)], by simp [withSched, htrace], fun o ho => ?_⟩
    rcases List.mem_append.mp ho with ho | ho
    · exact hobs o ho
    · exact Or.inr ⟨_, List.mem_singleton.mp ho⟩

theorem run_eq {u : Teardown N T} (hrun : t.run u = some t') : u = t' := by
  unfold Teardown.run at hrun
  split at hrun
  · cases hrun
  · exact Option.some.inj hrun

/-- Every step keeps the invariant. -/
theorem Inv.step (h : Inv w t visited) {a : TeardownAction T} (hstep : t.step cfg a = some t') :
    ∃ visited', Inv w t' visited' := by
  cases a with
  | next =>
      simp only [Teardown.step] at hstep
      split at hstep
      · rename_i s left hleft hdying
        split at hstep <;> cases hstep
        · exact ⟨_, h.skip hleft ‹_›⟩
        · exact ⟨_, h.tear hleft ‹_›⟩
      · cases hstep
  | returned =>
      obtain rfl := run_eq hstep
      exact ⟨_, h.wakes h.control (.refl _) rfl rfl fun d hd => List.mem_of_mem_tail hd⟩
  | act a =>
      simp only [Teardown.step] at hstep
      split at hstep
      · obtain ⟨u, hu, rfl⟩ := Option.map_eq_some_iff.mp hstep
        obtain ⟨hcontrol, hwakes⟩ := World.step_wakes h.control h.shuttingDown hu
        exact ⟨_, h.wakes hcontrol hwakes rfl rfl fun _ hd => hd⟩
      · cases hstep
  | destroyTask task =>
      cases task with
      | none =>
          obtain rfl := run_eq hstep
          exact ⟨_, h⟩
      | some frame =>
          simp only [Teardown.step] at hstep
          split at hstep
          · obtain rfl := run_eq hstep
            exact ⟨_, h.destroyTask frame⟩
          · cases hstep
  | destroyEvent e =>
      obtain rfl := run_eq hstep
      exact ⟨_, h.wakes h.control (.destroyEvent _ _) rfl rfl fun _ hd => hd⟩
  | destroyQueue q =>
      obtain rfl := run_eq hstep
      have hwakes := Scheduler.Wakes.destroyQueue t.world.sched (t.world.queue q) (cfg.capacity q)
      exact ⟨_, h.wakes h.control hwakes rfl rfl fun _ hd => hd⟩
  | destroySender q a =>
      obtain rfl := run_eq hstep
      exact ⟨_, h.wakes h.control (.refl _) rfl rfl fun _ hd => hd⟩
  | destroyReceiver q a =>
      obtain rfl := run_eq hstep
      exact ⟨_, h.wakes h.control (.refl _) rfl rfl fun _ hd => hd⟩
  | destroyFlag f =>
      obtain rfl := run_eq hstep
      exact ⟨_, h.wakes h.control (.destroyFlag _ _ _) rfl rfl fun _ hd => hd⟩

/-- A step of the loop destroys the frame that it writes to `torn`, `~Task` the frame that it owned,
which is not that of a slot, and no other step destroys anything. -/
structure Destroys (a : TeardownAction T) (t t' : Teardown N T) (freed : List (Fin N × Frame)) :
    Prop where
  torn : t'.torn = t.torn ++ freed
  next : a ≠ .next → freed = []
  trace : destroyedFrames t'.world.sched.trace =
    destroyedFrames t.world.sched.trace ++ freed.map (fun p => some p.2) ++ a.destroys
  foreign : ∀ frame ∈ a.destroys, ∀ s, (t.world.sched.slots s).handle ≠ frame

theorem Destroys.of_wakes {a : TeardownAction T} (hwakes : t.world.sched.Wakes t'.world.sched)
    (htorn : t'.torn = t.torn) (ha : a.destroys = []) : Destroys a t t' [] where
  torn := by rw [htorn, List.append_nil]
  next _ := rfl
  trace := by rw [hwakes.destroyedFrames, ha, List.map_nil, List.append_nil, List.append_nil]
  foreign := by simp [ha]

theorem Inv.step_destroys (h : Inv w t visited) {a : TeardownAction T}
    (hstep : t.step cfg a = some t') : ∃ freed, Destroys a t t' freed := by
  cases a with
  | next =>
      simp only [Teardown.step] at hstep
      split at hstep
      · split at hstep <;> cases hstep
        · exact ⟨_, .of_wakes (.refl _) rfl rfl⟩
        · -- the frame of a slot
          refine ⟨_, rfl, fun hne => absurd rfl hne, ?_, by simp [TeardownAction.destroys]⟩
          simp [withSched, Scheduler.detach, TeardownAction.destroys, destroyedFrames]
      · cases hstep
  | act a =>
      simp only [Teardown.step] at hstep
      split at hstep
      · obtain ⟨u, hu, rfl⟩ := Option.map_eq_some_iff.mp hstep
        exact ⟨_, .of_wakes (World.step_wakes h.control h.shuttingDown hu).2 rfl rfl⟩
      · cases hstep
  | destroyTask task =>
      cases task with
      | none =>
          obtain rfl := run_eq hstep
          exact ⟨_, .of_wakes (.refl _) rfl rfl⟩
      | some frame =>
          simp only [Teardown.step] at hstep
          split at hstep
          · -- a frame that a `Task` owns is not that of a slot
            rename_i hforeign
            obtain rfl := run_eq hstep
            refine ⟨[], (List.append_nil _).symm, fun _ => rfl, ?_, ?_⟩
            · simp [withSched, TeardownAction.destroys, destroyedFrames]
            · simpa [TeardownAction.destroys] using hforeign.1
          · cases hstep
  | destroyEvent e =>
      obtain rfl := run_eq hstep
      exact ⟨_, .of_wakes (.destroyEvent _ _) rfl rfl⟩
  | destroyQueue q =>
      obtain rfl := run_eq hstep
      exact ⟨_, .of_wakes (.destroyQueue _ (t.world.queue q) (cfg.capacity q)) rfl rfl⟩
  | destroyFlag f =>
      obtain rfl := run_eq hstep
      exact ⟨_, .of_wakes (.destroyFlag _ _ _) rfl rfl⟩
  | returned | destroySender | destroyReceiver =>
      obtain rfl := run_eq hstep
      exact ⟨_, .of_wakes (.refl _) rfl rfl⟩

theorem Reachable.inv (hw : w.Reachable cfg) (hloop : w.control = .loop)
    (ht : Teardown.Reachable cfg w t) : ∃ visited, Inv w t visited := by
  refine Transition.Reachable.induction (P := fun u => ∃ visited, Inv w u visited) ht
    ⟨[], Inv.start hw hloop⟩ ?_
  rintro u a u' ⟨visited, hinv⟩ hstep
  exact hinv.step hstep

end Teardown

end SimpleAwait
