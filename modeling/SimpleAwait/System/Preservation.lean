import SimpleAwait.System.Awaits
import SimpleAwait.System.Calls
import SimpleAwait.System.Inversion
import SimpleAwait.System.Stages

/-!
# Every step keeps the invariant

The lemmas about the single actions are put together, and induction over the run carries the
invariant to every reachable world.
-/

namespace SimpleAwait

variable {N : ℕ} {T : Type} {cfg : Config N} {w w' : World N T} {L : Layout N}

namespace Inv

/-- A pass goes on with the task at the head of the ready FIFO. -/
theorem pops {left : ℕ} (h : Inv cfg w L) (hcontrol : w.control = .pass (left + 1))
    (hpops : w.Pops left w') : ∃ s rest, L.ready = s :: rest ∧
      w' = w.resume s ((w.sched.unlinkFront s).enter s) left ∧
      Inv cfg (w.resume s ((w.sched.unlinkFront s).enter s) left)
        { L with toView := L.toView.run s rest } := by
  obtain ⟨s, rest, hready, hpop, hinv⟩ := h.passPop hcontrol
  cases hpops with
  | exhausted hnone => simp [hpop] at hnone
  | skipped c hskip => simp [hpop] at hskip
  | resume t c hresume =>
      rw [hpop] at hresume
      cases hresume
      exact ⟨s, rest, hready, rfl, hinv⟩

/-- Every step keeps the invariant. -/
theorem step (h : Inv cfg w L) {a : Action T} (hstep : w.step cfg a = some w') :
    ∃ L', Inv cfg w' L' := by
  cases World.steps_of_step hstep with
  | createTask hcall task => exact h.createTask hcall task
  | poll hcall andWait clock => exact ⟨L, h.poll hcall andWait clock⟩
  | eventSet hcall e => exact h.eventSet hcall e
  | eventClear hcall e => exact ⟨L, h.eventClear hcall e⟩
  | trySend hcall q v => exact h.trySend hcall q v
  | tryReceive hcall q => exact h.tryReceive hcall q
  | flagClear _ f => exact ⟨L, h.flagClear f⟩
  | flagIsSet => exact ⟨L, h⟩
  | flagTaken s left f hcontrol hsignaled =>
      have hready := h.flagReady hcontrol f
      rw [World.flagReady_eq, if_pos hsignaled] at hready
      exact ⟨L, hready⟩
  | flagNotReady s left f hcontrol hsignaled =>
      have hready := h.flagReady hcontrol f
      rw [World.flagReady_eq, hsignaled] at hready
      exact ⟨L, hready⟩
  | coAwait s left awaitable hcontrol hflag =>
      have hcurrent : w.sched.current = some s := by rw [h.staged.current, hcontrol]; rfl
      have hs : L.place s = .running := (h.staged.running s).mpr (by rw [hcontrol]; rfl)
      by_cases hknown : awaitable = .unknown
      · subst hknown
        exact ⟨_, h.awaitUnknown hcontrol⟩
      · exact h.afterAwait hcontrol (h.core.coAwait hcurrent hs awaitable hflag hknown)
  | flagPark s f left hcontrol => exact h.flagPark hcontrol
  | finish s left hcontrol => exact ⟨L, h.finish hcontrol⟩
  | destroyed s left hcontrol => exact h.destroyed hcontrol
  | walkStarts hcontrol hpending =>
      have hcheck := h.checkPending hcontrol
      simp only [Flags.takePending, hpending, if_true] at hcheck
      exact hcheck
  | nothingPending hcontrol hpending =>
      have hcheck := h.checkPending hcontrol
      simp only [Flags.takePending, hpending, Bool.false_eq_true, if_false] at hcheck
      exact hcheck
  | walkStep prev f hcontrol =>
      obtain ⟨rest, -, ⟨-, hinv⟩ | ⟨t, -, -, hinv⟩⟩ := h.walkStep hcontrol <;> exact ⟨_, hinv⟩
  | startPass hcontrol =>
      obtain ⟨due, -, hinv⟩ := h.startPass hcontrol
      exact ⟨_, hinv⟩
  | passPop left w' hcontrol hpops =>
      obtain ⟨s, rest, -, rfl, hinv⟩ := h.pops hcontrol hpops
      exact ⟨_, hinv⟩
  | endPass hcontrol clock => exact ⟨L, h.endPass hcontrol clock⟩
  | tokenTaken now timeout hcontrol => exact ⟨L, h.wakeUp hcontrol _⟩
  | timedOut now timeout hcontrol => exact ⟨L, h.wakeUp hcontrol w.wake⟩
  | setFlag f => exact ⟨L, h.setFlag f⟩
  | give f => exact ⟨L, h.give f⟩

end Inv

/-- Every reachable world stores some layout. -/
theorem World.Reachable.inv (h : World.Reachable cfg w) : ∃ L, Inv cfg w L :=
  Transition.Reachable.induction (P := fun w => ∃ L, Inv cfg w L) h ⟨_, Inv.initial⟩
    fun _ _ _ ⟨_, hinv⟩ hstep => hinv.step hstep

end SimpleAwait
