import TeachingCpu.Machine.Run
import TeachingCpu.Proofs.Machine.Request
/-!
# TeachingCpu.Proofs.Machine.Iteration

**Cycles in a row**, and how far a run gets with them.

The states and reports of cycles in a row (`Engine.afterCycles`, `Engine.cyclesLog`) are counted
without a run: nothing in them says when to stop. A run passes through these states and no others
(`Engine.run_eq_runFrom`), so what is left to say about a run is where it stops
(`Engine.exists_stop`), and what it answers there is read off one turn of its loop.
-/

set_option autoImplicit false

namespace TeachingCpu

namespace Engine

variable {e : Engine} {c : Cancellation} {k limit remaining done : Nat} {log : List Event}

/-! ### States and reports -/

/-- The engine after a number of cycles in a row, whatever they answer. -/
def afterCycles (e : Engine) : Nat → Engine
  | 0 => e
  | k + 1 => (e.afterCycles k).cycle.engine

/-- What a number of cycles in a row report. -/
def cyclesLog (e : Engine) : Nat → List Event
  | 0 => []
  | k + 1 => e.cyclesLog k ++ (e.afterCycles k).cycle.log

/-- A number of cycles in a row all succeed. -/
def Completes (e : Engine) (k : Nat) : Prop :=
  ∀ j < k, (e.afterCycles j).cycle.answer = .ok ()

/-- A run gets through a number of cycles: they all succeed, and the machine is not halted before
any of them. -/
structure GetsThrough (e : Engine) (k : Nat) : Prop where
  completes : e.Completes k
  running : ∀ j < k, (e.afterCycles j).halted = false

theorem GetsThrough.zero (e : Engine) : e.GetsThrough 0 := ⟨nofun, nofun⟩

theorem GetsThrough.succ (h : e.GetsThrough k) (hrunning : (e.afterCycles k).halted = false)
    (hok : (e.afterCycles k).cycle.answer = .ok ()) : e.GetsThrough (k + 1) where
  completes j hj := by
    rcases Nat.lt_succ_iff_lt_or_eq.mp hj with hj | rfl
    · exact h.completes j hj
    · exact hok
  running j hj := by
    rcases Nat.lt_succ_iff_lt_or_eq.mp hj with hj | rfl
    · exact h.running j hj
    · exact hrunning

theorem GetsThrough.of_le {j : Nat} (h : e.GetsThrough k) (hj : j ≤ k) : e.GetsThrough j :=
  ⟨fun i hi => h.completes i (Nat.lt_of_lt_of_le hi hj),
    fun i hi => h.running i (Nat.lt_of_lt_of_le hi hj)⟩

/-! ### An activity leaves an idle engine idle -/

theorem complete_phase (hidle : e.phase = none) (a : Activity) :
    (e.complete a).engine.phase = none := by
  rcases complete_cases e a with hengine | ⟨program, -, hcomplete⟩
  · rw [hengine, hidle]
  · rw [hcomplete, wholePhase_eq hidle]
    exact remainder_phase _ _

theorem cycle_phase (hidle : e.phase = none) : e.cycle.engine.phase = none := by
  have hfetched : e.fetch.engine.phase = none := complete_phase hidle .fetch
  have hdecoded : e.fetch.engine.decode.engine.phase = none := complete_phase hfetched .decode
  have hexecuted := complete_phase hdecoded .execute
  cases hfetch : e.fetch.answer with
  | error _ => rwa [cycle, Reply.andThen_of_error hfetch]
  | ok _ =>
      rw [cycle, Reply.andThen_of_ok hfetch]
      cases hdecode : e.fetch.engine.decode.answer with
      | error _ => rwa [Reply.andThen_of_error hdecode]
      | ok _ => rwa [Reply.andThen_of_ok hdecode]

theorem afterCycles_phase (hidle : e.phase = none) (k : Nat) : (e.afterCycles k).phase = none := by
  induction k with
  | zero => exact hidle
  | succ k ih => exact cycle_phase ih

/-! ### One turn of the loop -/

theorem runFrom_of_halted (hhalted : e.halted = true) :
    runFrom c remaining done log.toArray e = ⟨.ok (.halted done), e, log⟩ := by
  unfold runFrom
  rw [if_pos hhalted]

theorem runFrom_of_requested (hrunning : e.halted = false)
    (hrequested : c.requested log.length = true) :
    runFrom c remaining done log.toArray e = ⟨.ok (.cancelled done), e, log⟩ := by
  unfold runFrom
  rw [if_neg (by simp [hrunning]), if_pos (by simpa using hrequested)]

theorem runFrom_zero (hrunning : e.halted = false) (hquiet : c.requested log.length = false) :
    runFrom c 0 done log.toArray e = ⟨.ok (.limitReached done), e, log⟩ := by
  rw [runFrom, if_neg (by simp [hrunning]), if_neg (by simp [hquiet])]

theorem runFrom_succ_of_error {fault : Fault} (hrunning : e.halted = false)
    (hquiet : c.requested log.length = false) (hfault : e.cycle.answer = .error fault) :
    runFrom c (remaining + 1) done log.toArray e =
      ⟨.error fault, e.cycle.engine, log ++ e.cycle.log⟩ := by
  rw [runFrom, if_neg (by simp [hrunning]), if_neg (by simp [hquiet])]
  simp [hfault]

theorem runFrom_succ_of_ok (hrunning : e.halted = false)
    (hquiet : c.requested log.length = false) (hok : e.cycle.answer = .ok ()) :
    runFrom c (remaining + 1) done log.toArray e =
      runFrom c remaining (done + 1) (log ++ e.cycle.log).toArray e.cycle.engine := by
  rw [runFrom, if_neg (by simp [hrunning]), if_neg (by simp [hquiet])]
  simp [hok]

/-! ### A run among cycles in a row -/

/-- A run that nobody stops before then is, after some cycles that it gets through, where these
cycles in a row lead. -/
theorem run_eq_runFrom (hidle : e.phase = none) (h : e.GetsThrough k) (hk : k ≤ limit)
    (hquiet : ∀ j < k, c.requested (e.cyclesLog j).length = false) :
    e.run limit c =
      runFrom c (limit - k) k (e.cyclesLog k).toArray (e.afterCycles k) := by
  induction k with
  | zero => simp [run, isIdle, hidle, cyclesLog, afterCycles]
  | succ k ih =>
      have hbefore := ih (h.of_le (Nat.le_succ k)) (Nat.le_of_succ_le hk)
        fun j hj => hquiet j (Nat.lt_succ_of_lt hj)
      have hremaining : limit - k = limit - (k + 1) + 1 := by omega
      rw [hbefore, hremaining, runFrom_succ_of_ok (h.running k (Nat.lt_succ_self k))
        (hquiet k (Nat.lt_succ_self k)) (h.completes k (Nat.lt_succ_self k))]
      rfl

/-- A run that was not asked to stop before it meets a halted machine ends there. -/
theorem run_of_halted (hidle : e.phase = none) (h : e.GetsThrough k) (hk : k ≤ limit)
    (hhalted : (e.afterCycles k).halted = true)
    (hquiet : ∀ j < k, c.requested (e.cyclesLog j).length = false) :
    e.run limit c = ⟨.ok (.halted k), e.afterCycles k, e.cyclesLog k⟩ := by
  rw [run_eq_runFrom hidle h hk hquiet, runFrom_of_halted hhalted]

theorem run_of_requested (hidle : e.phase = none) (h : e.GetsThrough k) (hk : k ≤ limit)
    (hrunning : (e.afterCycles k).halted = false)
    (hquiet : ∀ j < k, c.requested (e.cyclesLog j).length = false)
    (hrequested : c.requested (e.cyclesLog k).length = true) :
    e.run limit c = ⟨.ok (.cancelled k), e.afterCycles k, e.cyclesLog k⟩ := by
  rw [run_eq_runFrom hidle h hk hquiet, runFrom_of_requested hrunning hrequested]

theorem run_of_limit (hidle : e.phase = none) (h : e.GetsThrough limit)
    (hrunning : (e.afterCycles limit).halted = false)
    (hquiet : ∀ j < limit + 1, c.requested (e.cyclesLog j).length = false) :
    e.run limit c = ⟨.ok (.limitReached limit), e.afterCycles limit, e.cyclesLog limit⟩ := by
  rw [run_eq_runFrom hidle h (Nat.le_refl limit) fun j hj => hquiet j (Nat.lt_succ_of_lt hj),
    Nat.sub_self, runFrom_zero hrunning (hquiet limit (Nat.lt_succ_self limit))]

theorem run_of_fault {fault : Fault} (hidle : e.phase = none) (h : e.GetsThrough k)
    (hk : k < limit) (hrunning : (e.afterCycles k).halted = false)
    (hfault : (e.afterCycles k).cycle.answer = .error fault)
    (hquiet : ∀ j < k + 1, c.requested (e.cyclesLog j).length = false) :
    e.run limit c = ⟨.error fault, e.afterCycles (k + 1), e.cyclesLog (k + 1)⟩ := by
  have hremaining : limit - k = limit - (k + 1) + 1 := by omega
  rw [run_eq_runFrom hidle h (Nat.le_of_lt hk) fun j hj => hquiet j (Nat.lt_succ_of_lt hj),
    hremaining, runFrom_succ_of_error hrunning (hquiet k (Nat.lt_succ_self k)) hfault]
  rfl

theorem never_quiet : ∀ j < k, Cancellation.never.requested (e.cyclesLog j).length = false :=
  fun _ _ => rfl

/-- Where a run stops that nobody cancels: as soon as the machine is halted, else with its last
cycle, or with one that fails before. -/
theorem exists_stop (e : Engine) (limit : Nat) :
    ∃ k ≤ limit, e.GetsThrough k ∧
      ((e.afterCycles k).halted = true ∨
        (e.afterCycles k).halted = false ∧
          (k = limit ∨ k < limit ∧ ∃ fault, (e.afterCycles k).cycle.answer = .error fault)) := by
  induction limit with
  | zero =>
      refine ⟨0, Nat.le_refl 0, .zero e, ?_⟩
      cases hhalted : (e.afterCycles 0).halted with
      | true => exact .inl rfl
      | false => exact .inr ⟨rfl, .inl rfl⟩
  | succ limit ih =>
      obtain ⟨k, hk, hthrough, hhalted | ⟨hrunning, rfl | ⟨hlt, hfault⟩⟩⟩ := ih
      · exact ⟨k, Nat.le_succ_of_le hk, hthrough, .inl hhalted⟩
      · -- the limit was all that stopped the shorter run
        cases hanswer : (e.afterCycles k).cycle.answer with
        | error fault =>
            exact ⟨k, Nat.le_succ k, hthrough,
              .inr ⟨hrunning, .inr ⟨Nat.lt_succ_self k, fault, hanswer⟩⟩⟩
        | ok _ =>
            refine ⟨k + 1, Nat.le_refl _, hthrough.succ hrunning hanswer, ?_⟩
            cases hhalted : (e.afterCycles (k + 1)).halted with
            | true => exact .inl rfl
            | false => exact .inr ⟨rfl, .inl rfl⟩
      · exact ⟨k, Nat.le_succ_of_le hk, hthrough,
          .inr ⟨hrunning, .inr ⟨Nat.lt_succ_of_lt hlt, hfault⟩⟩⟩

end Engine

end TeachingCpu
