import TeachingCpu.Proofs.Console.Session
import TeachingCpu.Proofs.Machine.Idle
import TeachingCpu.Proofs.Machine.Invariant
/-!
# TeachingCpu.Proofs.Console.Recovery

**A session recovers from every error.** Between its commands the engine of a session is at rest,
so no command finds it busy. A command that reports an error leaves the engine as it met it, unless
it carries out cycles in a row; then it leaves what the cycles and phases that were completed lead
to.

Every command either only shows something or is the report of one reply of the engine
(`Session.perform_cases`), and an error is reported where that reply is a fault
(`Session.exists_fault_of_mem_turn`). So what is known of replies carries over.
-/

set_option autoImplicit false

namespace TeachingCpu

/-- No phase is under way, and no micro-instruction is to come. -/
def Engine.AtRest (e : Engine) : Prop := e.stage? = none ∧ e.pending = []

theorem Engine.atRest_of_idle {e : Engine} (hidle : e.phase = none) : e.AtRest := by
  simp [AtRest, stage?, pending, hidle]

/-- The entry that reports a fault. -/
def Fault.entry (fault : Fault) : Entry := ⟨.error, fault.message⟩

/-- Whether a turn reports an error. -/
def Turn.ReportsError (turn : Turn) : Prop := ∃ entry ∈ turn.log, entry.level = .error

instance (turn : Turn) : Decidable turn.ReportsError :=
  inferInstanceAs (Decidable (∃ entry ∈ turn.log, entry.level = .error))

/-! ### No other message says that the engine is busy

The first letters differ. The messages are unfolded as a whole, since it takes long to derive an
equation for each of them. -/

theorem Fault.head?_message_busy : Fault.busy.message.toList.head? = some 'E' := by
  unfold message
  simp

theorem Fault.head?_message {fault : Fault} (h : fault ≠ .busy) :
    fault.message.toList.head? ≠ some 'E' := by
  unfold message
  cases fault with
  | busy => exact absurd rfl h
  | memory error =>
      unfold MemoryError.message
      cases error <;> simp [toString]
  | divisionByZero =>
      unfold WordError.message
      simp
  | _ => simp [toString]

theorem CommandError.head?_message (error : CommandError) :
    error.message.toList.head? ≠ some 'E' := by
  unfold message
  cases error with
  | invalidCommand name suggestion => cases suggestion <;> simp [toString]
  | _ => simp [toString]

theorem Fault.entry_ne_busy {fault : Fault} (h : fault ≠ .busy) : fault.entry ≠ busy.entry := by
  intro hsame
  have hmessage : fault.message = busy.message := congrArg Entry.message hsame
  refine head?_message h ?_
  rw [hmessage, head?_message_busy]

theorem CommandError.entry_ne_busy (error : CommandError) :
    (⟨.error, error.message⟩ : Entry) ≠ Fault.busy.entry := by
  intro hsame
  have hmessage : error.message = Fault.busy.message := congrArg Entry.message hsame
  refine error.head?_message ?_
  rw [hmessage, Fault.head?_message_busy]

namespace Session

variable {limit : Nat} {e : Engine} {line : Text} {entry : Entry}

/-! ### Commands and replies -/

/-- The number of cycles that a command carries out in a row, fewer if the machine halts. -/
def rowOf (limit : Nat) : Command → Option Nat
  | .cycle count => some count
  | .run => some limit
  | _ => none

/-- What is asked of a reply that a command reports: it is all or nothing, unless the command
carries out cycles in a row. -/
structure Suits (limit : Nat) (e : Engine) (command : Command) {α : Type} (r : Reply α) :
    Prop where
  settled : r.Settled
  undoes : rowOf limit command = none → r.Undoes e
  abandons : ∀ n, rowOf limit command = some n → ∀ fault, r.answer = .error fault →
    e.AbandonsWithin n fault r.engine

theorem Suits.single {command : Command} {α : Type} {r : Reply α}
    (h : r.Settled ∧ r.Undoes e) (hrow : rowOf limit command = none) :
    Suits limit e command r where
  settled := h.1
  undoes _ := h.2
  abandons n hn := by rw [hrow] at hn; cases hn

theorem Suits.row {command : Command} {α : Type} {r : Reply α} {n : Nat} (hidle : e.phase = none)
    (h : e.CyclesSettled n r) (hrow : rowOf limit command = some n) :
    Suits limit e command r where
  settled := h.settled hidle
  undoes hnone := by rw [hrow] at hnone; cases hnone
  abandons m hm := by
    rw [hrow] at hm
    cases hm
    exact h.abandons

theorem level_event (event : Event) : event.entry.level ≠ .error := by
  cases event <;> exact nofun

theorem level_outcome (outcome : RunOutcome) : outcome.entry.level ≠ .error := by
  cases outcome <;> simp [RunOutcome.entry]

theorem level_of_mem_plain {lines : List String} (hentry : entry ∈ plain lines) :
    entry.level ≠ .error := by
  obtain ⟨line, -, rfl⟩ := List.mem_map.mp hentry
  simp

theorem level_currentInstruction (e : Engine) (lead absent : String) :
    (currentInstruction e lead absent).level ≠ .error := by
  unfold currentInstruction
  split <;> simp

/-- An error that is reported with a reply is its fault. -/
theorem exists_fault_of_mem_turn {α : Type} {r : Reply α} {success : α → Engine → List Entry}
    (hsuccess : ∀ a e, ∀ entry ∈ success a e, entry.level ≠ .error)
    (hentry : entry ∈ (r.turn success).log) (herror : entry.level = .error) :
    ∃ fault, r.answer = .error fault ∧ entry = fault.entry := by
  have hevents : entry ∉ r.log.map Event.entry := by
    intro hmem
    obtain ⟨event, -, rfl⟩ := List.mem_map.mp hmem
    exact level_event event herror
  unfold Reply.turn at hentry
  split at hentry
  · rcases List.mem_append.mp hentry with hmem | hmem
    · exact absurd hmem hevents
    · exact absurd herror (hsuccess _ _ entry hmem)
  · next fault hfault =>
      rcases List.mem_append.mp hentry with hmem | hmem
      · exact absurd hmem hevents
      · exact ⟨fault, hfault, List.mem_singleton.mp hmem⟩

/-- A command shows something of the engine, or reports one reply of it. -/
theorem perform_cases (limit : Nat) (hidle : e.phase = none) (command : Command) :
    ((perform limit e command).engine = e ∧
      ∀ entry ∈ (perform limit e command).log, entry.level ≠ .error) ∨
    ∃ (α : Type) (r : Reply α) (success : α → Engine → List Entry),
      perform limit e command = r.turn success ∧
      (∀ a e, ∀ entry ∈ success a e, entry.level ≠ .error) ∧ Suits limit e command r := by
  have activity (a : Activity) : (e.complete a).Settled ∧ (e.complete a).Undoes e :=
    ⟨Engine.complete_settled hidle a, e.complete_undoes a⟩
  have silent (_ : Unit) (_ : Engine) : ∀ entry ∈ ([] : List Entry), entry.level ≠ .error :=
    List.forall_mem_nil _
  -- commands that only show something, then those of one reply, then the rows of cycles
  cases command with
  | help => exact .inl ⟨rfl, fun _ => level_of_mem_plain⟩
  | registers => exact .inl ⟨rfl, fun _ => level_of_mem_plain⟩
  | flags => exact .inl ⟨rfl, fun _ => level_of_mem_plain⟩
  | memory address count => exact .inl ⟨rfl, fun _ => level_of_mem_plain⟩
  | quit => exact .inl ⟨rfl, List.forall_mem_nil _⟩
  | fetch =>
      refine .inr ⟨_, e.fetch, fun _ e => [fetched e], rfl, ?_, .single (activity .fetch) rfl⟩
      simp [fetched]
  | decode =>
      refine .inr ⟨_, e.decode, fun _ e => [currentInstruction e _ _], rfl, ?_,
        .single (activity .decode) rfl⟩
      simp [level_currentInstruction]
  | execute =>
      exact .inr ⟨_, e.execute, fun _ _ => [], rfl, silent, .single (activity .execute) rfl⟩
  | circuit circuit =>
      refine .inr ⟨_, e.operate circuit, fun _ e => [joined circuit e], rfl, ?_,
        .single (activity (.operate circuit)) rfl⟩
      simp [joined]
  | reset =>
      refine .inr ⟨_, e.reset, fun _ _ => [⟨.info, "Reset"⟩], rfl, ?_,
        .single (Engine.reset_settled hidle) rfl⟩
      simp
  | set register value =>
      exact .inr ⟨_, e.setRegister register value, fun _ _ => [], rfl, silent,
        .single (Engine.setRegister_settled hidle register value) rfl⟩
  | poke address value =>
      exact .inr ⟨_, e.poke (Word.ofByte address) value, fun _ _ => [], rfl, silent,
        .single (Engine.poke_settled hidle _ value) rfl⟩
  | instruction id =>
      refine .inr ⟨_, e.setCurrent id, fun _ e => [currentInstruction e _ _], rfl, ?_,
        .single (Engine.setCurrent_settled hidle id) rfl⟩
      simp [level_currentInstruction]
  | cycle count =>
      let success (early : Bool) (e : Engine) : List Entry :=
        (if early then [⟨.warning, "Program has halted"⟩] else []) ++ [⟨.info, Display.status e⟩]
      refine .inr ⟨_, e.cycles count, success, rfl, fun early e entry hentry => ?_,
        .row hidle (Engine.cycles_settled hidle count) rfl⟩
      rcases List.mem_append.mp hentry with hwarning | hstatus
      · cases early with
        | true => simp [List.mem_singleton.mp hwarning]
        | false => cases hwarning
      · simp [List.mem_singleton.mp hstatus]
  | run =>
      refine .inr ⟨_, e.run limit .never, fun outcome _ => [outcome.entry], rfl, ?_,
        .row hidle (Engine.run_settled hidle limit) rfl⟩
      intro outcome e entry hentry
      rw [List.mem_singleton.mp hentry]
      exact level_outcome outcome

/-! ### Lines -/

/-- The number of cycles in a row that a line asks for, if it asks for cycles in a row. -/
def rowOfLine (limit : Nat) (line : Text) : Option Nat :=
  match Command.ofLine line with
  | .ok command => rowOf limit command
  | .error _ => none

/-- What a line leaves of an idle engine. -/
structure Recovers (limit : Nat) (line : Text) (met : Engine) (turn : Turn) : Prop where
  idle : turn.engine.phase = none
  notBusy : Fault.busy.entry ∉ turn.log
  undoes : turn.ReportsError → rowOfLine limit line = none → turn.engine = met
  abandons : turn.ReportsError → ∀ n, rowOfLine limit line = some n →
    ∃ fault : Fault, fault.entry ∈ turn.log ∧ met.AbandonsWithin n fault turn.engine

/-- No line leaves an idle engine busy or half-way through what it asked for. -/
theorem carryOut_recovers (hidle : e.phase = none) (limit : Nat) (line : Text) :
    Recovers limit line e (carryOut limit line e) := by
  cases hline : Command.ofLine line with
  | error error =>
      have hturn : carryOut limit line e = ⟨e, [⟨.error, error.message⟩]⟩ := by
        simp [carryOut, hline]
      rw [hturn]
      -- nothing was carried out, and such a line asks for no row of cycles
      refine ⟨hidle, fun hbusy => ?_, fun _ _ => rfl, fun _ n hn => ?_⟩
      · exact error.entry_ne_busy (List.mem_singleton.mp hbusy).symm
      · simp [rowOfLine, hline] at hn
  | ok command =>
      have hturn : carryOut limit line e = perform limit e command := by simp [carryOut, hline]
      have hrow : rowOfLine limit line = rowOf limit command := by simp [rowOfLine, hline]
      rw [hturn]
      rcases perform_cases limit hidle command with
        ⟨hengine, hlog⟩ | ⟨α, r, success, hperform, hsuccess, hsuits⟩
      · -- without an error entry there is nothing to recover from
        refine ⟨?_, fun hbusy => hlog _ hbusy rfl, fun _ _ => hengine, ?_⟩
        · rw [hengine]
          exact hidle
        · rintro ⟨entry, hentry, herror⟩
          exact absurd herror (hlog entry hentry)
      · -- an error entry can only be that of the fault of the reply
        rw [hperform]
        refine ⟨?_, fun hbusy => ?_, ?_, ?_⟩
        · rw [Reply.turn_engine]
          exact hsuits.settled.idle
        · obtain ⟨fault, hfault, hentry⟩ := exists_fault_of_mem_turn hsuccess hbusy rfl
          have hne : fault ≠ .busy := fun h => hsuits.settled.notBusy (h ▸ hfault)
          exact Fault.entry_ne_busy hne hentry.symm
        · rintro ⟨entry, hentry, herror⟩ hnone
          obtain ⟨fault, hfault, -⟩ := exists_fault_of_mem_turn hsuccess hentry herror
          rw [Reply.turn_engine]
          exact hsuits.undoes (hrow ▸ hnone) fault hfault
        · rintro ⟨entry, hentry, herror⟩ n hn
          obtain ⟨fault, hfault, rfl⟩ := exists_fault_of_mem_turn hsuccess hentry herror
          rw [Reply.turn_engine]
          exact ⟨fault, hentry, hsuits.abandons n (hrow ▸ hn) fault hfault⟩

/-! ### Sessions -/

theorem echo_ne_busy (line : Text) : echo line ≠ Fault.busy.entry := by
  intro h
  simpa [echo, Fault.entry] using congrArg Entry.level h

theorem run_idle_and_not_busy (hidle : e.phase = none) (limit : Nat) (ps : List Text) :
    (run limit ps e).engine.phase = none ∧ Fault.busy.entry ∉ (run limit ps e).log := by
  induction ps generalizing e with
  | nil => exact ⟨hidle, List.not_mem_nil⟩
  | cons piece ps ih =>
      cases hblank : (Text.trim piece).isEmpty with
      | true =>
          rw [run_cons_of_blank hblank]
          exact ih hidle
      | false =>
          cases hquits : quits piece with
          | true =>
              rw [run_cons_of_quits hquits]
              refine ⟨hidle, fun hbusy => ?_⟩
              exact echo_ne_busy _ (List.mem_singleton.mp hbusy).symm
          | false =>
              have hline := carryOut_recovers hidle limit (Text.trim piece)
              obtain ⟨hphase, hlater⟩ := ih hline.idle
              rw [run_cons hblank hquits]
              refine ⟨hphase, ?_⟩
              simp [Turn.andThen, hline.notBusy, hlater, (echo_ne_busy _).symm]

/-- The last line that a session gets to comes to what it comes to by itself. -/
theorem run_append_singleton {before : List Text} {piece : Text}
    (hbefore : ∀ earlier ∈ before, quits earlier = false)
    (hblank : (Text.trim piece).isEmpty = false) (e : Engine) :
    run limit (before ++ [piece]) e =
      (run limit before e).andThen fun met =>
        Turn.andThen ⟨met, [echo (Text.trim piece)]⟩ (carryOut limit (Text.trim piece)) := by
  rw [run_append hbefore]
  refine congrArg _ (funext fun met => ?_)
  cases hquits : quits piece with
  | true =>
      rw [run_cons_of_quits hquits]
      simp [Turn.andThen, carryOut, quits_iff.mp hquits, perform]
  | false =>
      rw [run_cons hblank hquits]
      simp [Turn.andThen, run]

/-- **A session recovers from every error.** Whatever is typed, the engine is at rest before and
after each line, and no line reports that it is busy. A line that reports an error leaves the
engine as it met it. If it asks for cycles in a row, it leaves the engine after the cycles before
the failing one and those phases of that one which were completed. -/
theorem session_recovers (limit : Nat) (hidle : e.phase = none) :
    (∀ ps : List Text,
      (run limit ps e).engine.AtRest ∧ Fault.busy.entry ∉ (run limit ps e).log) ∧
    ∀ (before : List Text) (piece line : Text),
      (∀ earlier ∈ before, quits earlier = false) → Text.Surrounds piece line → line ≠ [] →
      let met := (run limit before e).engine
      let turn := carryOut limit line met
      (run limit (before ++ [piece]) e).engine = turn.engine ∧
      (run limit (before ++ [piece]) e).log =
        (run limit before e).log ++ ⟨.plain, "> " ++ String.ofList line⟩ :: turn.log ∧
      met.AtRest ∧ turn.engine.AtRest ∧
      (turn.ReportsError →
        (rowOfLine limit line = none → turn.engine = met) ∧
        ∀ n, rowOfLine limit line = some n → ∃ fault : Fault,
          fault.entry ∈ turn.log ∧ met.AbandonsWithin n fault turn.engine) := by
  refine ⟨fun ps => ?_, fun before piece line hbefore hpiece hsome => ?_⟩
  · obtain ⟨hphase, hlog⟩ := run_idle_and_not_busy hidle limit ps
    exact ⟨Engine.atRest_of_idle hphase, hlog⟩
  · intro met turn
    obtain rfl : Text.trim piece = line := hpiece.trim_eq
    have hmet : met.phase = none := (run_idle_and_not_busy hidle limit before).1
    have hline := carryOut_recovers hmet limit (Text.trim piece)
    rw [run_append_singleton hbefore (by simpa using hsome)]
    exact ⟨rfl, rfl, Engine.atRest_of_idle hmet, Engine.atRest_of_idle hline.idle,
      fun herror => ⟨hline.undoes herror, hline.abandons herror⟩⟩

/-- The second of three cycles stores to no address, and leaves the machine where it had decoded
that. The line before names no instruction, and leaves it where it was. -/
theorem session_recovers_from_a_stray_store :
    let e : Engine := { table := .builtIn }
    let setup := ["poke 0 1", "poke 1 1A10", "poke 10 200"].map String.toList
    let met := (run 5 setup e).engine
    let failed := run 5 ((setup ++ ["instruction 99".toList]) ++ ["cycle 3".toList]) e
    e.phase = none ∧ failed.engine.AtRest ∧ Fault.busy.entry ∉ failed.log ∧
      (run 5 (setup ++ ["instruction 99".toList]) e).engine = met ∧
      (∃ fault, met.AbandonsWithin 3 fault failed.engine) ∧
      failed.engine.cpu.registers.gpa = 1#16 ∧ failed.engine.cpu.registers.pc = 2#16 := by
  intro e setup met failed
  obtain ⟨hsession, hlines⟩ := session_recovers (e := e) 5 rfl
  obtain ⟨hfirst, -, -, -, hundoes⟩ := hlines setup "instruction 99".toList _
    (by decide +kernel) (Text.surrounds_trim _) (by decide +kernel)
  obtain ⟨hsecond, -, -, -, habandons⟩ := hlines (setup ++ ["instruction 99".toList])
    "cycle 3".toList _ (by decide +kernel) (Text.surrounds_trim _) (by decide +kernel)
  have hmet : (run 5 (setup ++ ["instruction 99".toList]) e).engine = met :=
    hfirst.trans ((hundoes (by decide +kernel)).1 (by decide +kernel))
  obtain ⟨fault, -, habandoned⟩ := (habandons (by decide +kernel)).2 3 (by decide +kernel)
  have hfailed : met.AbandonsWithin 3 fault failed.engine := by
    rw [← hmet, hsecond]
    exact habandoned
  obtain ⟨hrest, hlog⟩ := hsession ((setup ++ ["instruction 99".toList]) ++ ["cycle 3".toList])
  exact ⟨rfl, hrest, hlog, hmet, ⟨fault, hfailed⟩, by decide +kernel, by decide +kernel⟩

end Session

end TeachingCpu
