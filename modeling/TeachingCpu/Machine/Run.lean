import TeachingCpu.Machine.Engine
/-!
# TeachingCpu.Machine.Run

**Runs**: instruction cycles in a row until the machine halts, the run is cancelled, or a limit
is reached.

The three reasons to stop are looked at between cycles only, in this order, so no instruction is
ever seen half done. When a run is cancelled is part of the question (`Cancellation`): after how
many events of the run the wish to stop is expressed.
-/

set_option autoImplicit false

namespace TeachingCpu

/-- When a run is asked to stop: as soon as it has logged so many events, if at all. -/
structure Cancellation where
  afterEvents : Option Nat := none
deriving DecidableEq, Repr

namespace Cancellation

/-- A run that nobody asks to stop. -/
def never : Cancellation := ⟨none⟩

/-- A run that was asked to stop before it started. -/
def beforehand : Cancellation := ⟨some 0⟩

/-- Whether a run has been asked to stop by the time it has logged so many events. -/
def requested (c : Cancellation) (logged : Nat) : Bool :=
  match c.afterEvents with
  | none => false
  | some n => n ≤ logged

end Cancellation

/-- Why a run ended without a fault, and after how many cycles. -/
inductive RunOutcome
  | halted (cycles : Nat)
  | cancelled (cycles : Nat)
  | limitReached (cycles : Nat)
deriving DecidableEq, Repr

namespace Engine

/-- The rest of a run of which `done` cycles are complete and `remaining` are allowed, when it
has logged `log` so far. -/
def runFrom (c : Cancellation) : (remaining done : Nat) → Array Event → Engine → Reply RunOutcome
  | remaining, done, log, e =>
    if e.halted then ⟨.ok (.halted done), e, log.toList⟩
    else if c.requested log.size then ⟨.ok (.cancelled done), e, log.toList⟩
    else match remaining with
      | 0 => ⟨.ok (.limitReached done), e, log.toList⟩
      | remaining + 1 =>
        let r := e.cycle
        let log := log.appendList r.log
        match r.answer with
        | .error fault => ⟨.error fault, r.engine, log.toList⟩
        | .ok () => runFrom c remaining (done + 1) log r.engine

/-- Cycles until the machine halts, the run is cancelled, or `limit` cycles are done. -/
def run (e : Engine) (limit : Nat) (c : Cancellation) : Reply RunOutcome :=
  if e.isIdle then runFrom c limit 0 #[] e else e.refuse .busy

/-- The limit of a run for which none is given: the most cycles that can be counted. -/
def unlimited : Nat := 0xFFFFFFFFFFFFFFFF

end Engine

end TeachingCpu
