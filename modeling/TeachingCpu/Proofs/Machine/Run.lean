import TeachingCpu.Machine.Run
/-!
# TeachingCpu.Proofs.Machine.Run

**Runs are iterated cycles.** Between its cycles a run does nothing to the engine, so what holds of
a run is shown by the induction `Engine.runFrom_induction`, which leaves out why a run stops and
what it logs.
-/

set_option autoImplicit false

namespace TeachingCpu

namespace Engine

/-- A run stops where it is, fails as its next cycle fails, or goes on after its next cycle. -/
theorem runFrom_induction {motive : Engine → Reply RunOutcome → Prop}
    (stop : ∀ e outcome log, motive e ⟨.ok outcome, e, log⟩)
    (fail : ∀ e fault log, e.cycle.answer = .error fault →
      motive e ⟨.error fault, e.cycle.engine, log⟩)
    (next : ∀ e reply, e.cycle.answer = .ok () → motive e.cycle.engine reply → motive e reply)
    (c : Cancellation) (remaining done : Nat) (log : Array Event) (e : Engine) :
    motive e (runFrom c remaining done log e) := by
  induction remaining generalizing done log e with
  | zero =>
      rw [runFrom]
      split
      · exact stop e _ _
      · split <;> exact stop e _ _
  | succ remaining ih =>
      rw [runFrom]
      split
      · exact stop e _ _
      · split
        · exact stop e _ _
        · dsimp only
          split
          · next fault hfault => exact fail e fault _ hfault
          · next hok => exact next e _ hok (ih _ _ _)

end Engine

end TeachingCpu
