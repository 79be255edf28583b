import TeachingCpu.Console.Session
import TeachingCpu.InstructionSet.BuiltIn
import TeachingCpu.Proofs.Console.Pieces
import TeachingCpu.Proofs.Text.Trim
/-!
# TeachingCpu.Proofs.Console.Session

**A session is its commands, one after the other.** All that one command leaves to the next is the
engine. So a session on two texts with a delimiter between them is a session on the one and then
one on the other (`Turn.andThen`), unless the first text says to quit.

The log of a session falls into one part for each line that is heard, its echo and what the line
reports by itself. Nothing that a command shows begins like an echo (`Entry.isEcho`), so the
echoes in a log are the lines that were heard.
-/

set_option autoImplicit false

namespace TeachingCpu

/-! ### Turns in a row -/

/-- A turn, and then another on the engine that it leaves. -/
def Turn.andThen (turn : Turn) (next : Engine → Turn) : Turn where
  engine := (next turn.engine).engine
  log := turn.log ++ (next turn.engine).log

theorem Turn.andThen_assoc (turn : Turn) (next last : Engine → Turn) :
    (turn.andThen next).andThen last = turn.andThen fun e => (next e).andThen last := by
  simp [andThen]

/-- Whether an entry looks like the echo of a line. -/
def Entry.isEcho (entry : Entry) : Bool :=
  entry.level == .plain && "> ".toList.isPrefixOf entry.message.toList

theorem Entry.isEcho_eq_decide (entry : Entry) :
    entry.isEcho = decide (entry.level = .plain ∧ "> ".toList <+: entry.message.toList) := by
  rw [Bool.eq_iff_iff, decide_eq_true_iff, isEcho, Bool.and_eq_true, beq_iff_eq,
    List.isPrefixOf_iff_prefix]

namespace Session

/-- Whether a piece of input says that the session is over. -/
def quits (piece : Text) : Bool :=
  match Command.ofLine (Text.trim piece) with
  | .ok command => command == .quit
  | .error _ => false

/-- The lines that a session gets to: those that are not blank, up to the first that says to
quit. -/
def heard : List Text → List Text
  | [] => []
  | piece :: rest =>
    if (Text.trim piece).isEmpty then heard rest
    else if quits piece then [Text.trim piece]
    else Text.trim piece :: heard rest

/-- Pieces of input have lines: what white space surrounds in them, but for those that are nothing
else, up to the first that says to quit. -/
inductive Hears : List Text → List Text → Prop
  | nothing : Hears [] []
  | blank {piece : Text} {ps lines : List Text} (hpiece : Text.Surrounds piece [])
      (hrest : Hears ps lines) : Hears (piece :: ps) lines
  | last {piece line : Text} {ps : List Text} (hpiece : Text.Surrounds piece line)
      (hsome : line ≠ []) (hquit : Command.ofLine line = .ok .quit) : Hears (piece :: ps) [line]
  | next {piece line : Text} {ps lines : List Text} (hpiece : Text.Surrounds piece line)
      (hsome : line ≠ []) (hgoesOn : Command.ofLine line ≠ .ok .quit) (hrest : Hears ps lines) :
      Hears (piece :: ps) (line :: lines)

/-- What a line comes to, its echo aside. -/
def carryOut (limit : Nat) (line : Text) (e : Engine) : Turn :=
  match Command.ofLine line with
  | .ok command => perform limit e command
  | .error error => ⟨e, [⟨.error, error.message⟩]⟩

/-- What lines in a row come to, each on the engine that the one before it leaves. -/
def exchanges (limit : Nat) : List Text → Engine → List (Text × Turn)
  | [], _ => []
  | line :: rest, e =>
    (line, carryOut limit line e) :: exchanges limit rest (carryOut limit line e).engine

/-! ### One piece -/

variable {limit : Nat} {piece : Text} {ps : List Text} {e : Engine}

theorem quits_iff : quits piece = true ↔ Command.ofLine (Text.trim piece) = .ok .quit := by
  unfold quits
  split
  · next h => simp [h]
  · next h => simp [h]

theorem hears_heard (ps : List Text) : Hears ps (heard ps) := by
  induction ps with
  | nil => exact .nothing
  | cons piece ps ih =>
      have hpiece := Text.surrounds_trim piece
      unfold heard
      split
      · next hblank =>
          rw [List.isEmpty_iff.mp hblank] at hpiece
          exact .blank hpiece ih
      · next hsome =>
          rw [List.isEmpty_iff] at hsome
          split
          · next hquits => exact .last hpiece hsome (quits_iff.mp hquits)
          · next hquits => exact .next hpiece hsome (hquits ∘ quits_iff.mpr) ih

theorem quits_of_blank (hblank : (Text.trim piece).isEmpty = true) : quits piece = false := by
  rw [quits, List.isEmpty_iff.mp hblank]
  rfl

theorem run_cons_of_blank (hblank : (Text.trim piece).isEmpty = true) (ps : List Text)
    (e : Engine) : run limit (piece :: ps) e = run limit ps e := by
  rw [run]
  exact if_pos hblank

theorem run_cons_of_quits (hquits : quits piece = true) (ps : List Text) (e : Engine) :
    run limit (piece :: ps) e = ⟨e, [echo (Text.trim piece)]⟩ := by
  have hblank : (Text.trim piece).isEmpty = false := by
    cases h : (Text.trim piece).isEmpty with
    | false => rfl
    | true => rw [quits_of_blank h] at hquits; cases hquits
  simp [run, hblank, quits_iff.mp hquits]

/-- A line that does not end the session is echoed and carried out, and the session goes on. -/
theorem run_cons (hblank : (Text.trim piece).isEmpty = false) (hquits : quits piece = false)
    (ps : List Text) (e : Engine) :
    run limit (piece :: ps) e =
      Turn.andThen ⟨e, [echo (Text.trim piece)]⟩ fun e =>
        (carryOut limit (Text.trim piece) e).andThen (run limit ps) := by
  have hline : Command.ofLine (Text.trim piece) ≠ .ok .quit := fun h => by
    rw [quits_iff.mpr h] at hquits
    cases hquits
  simp only [run, carryOut, hblank]
  cases h : Command.ofLine (Text.trim piece) with
  | error error => simp [Turn.andThen]
  | ok command =>
      rw [h] at hline
      cases command with
      | quit => exact absurd rfl hline
      | _ => simp [Turn.andThen]

/-! ### Pieces in a row -/

theorem run_append (h : ∀ piece ∈ ps, quits piece = false) (qs : List Text) (e : Engine) :
    run limit (ps ++ qs) e = (run limit ps e).andThen (run limit qs) := by
  induction ps generalizing e with
  | nil => rfl
  | cons piece ps ih =>
      rw [List.forall_mem_cons] at h
      rw [List.cons_append]
      cases hblank : (Text.trim piece).isEmpty with
      | true => rw [run_cons_of_blank hblank, run_cons_of_blank hblank, ih h.2]
      | false =>
          rw [run_cons hblank h.1, run_cons hblank h.1, Turn.andThen_assoc]
          refine congrArg _ (funext fun e => ?_)
          rw [Turn.andThen_assoc]
          exact congrArg _ (funext (ih h.2))

/-- Nothing after a piece that says to quit is looked at. -/
theorem run_append_of_quits (h : ∃ piece ∈ ps, quits piece = true) (qs : List Text)
    (e : Engine) : run limit (ps ++ qs) e = run limit ps e := by
  induction ps generalizing e with
  | nil => simp at h
  | cons piece ps ih =>
      rw [List.cons_append]
      cases hquits : quits piece with
      | true => rw [run_cons_of_quits hquits, run_cons_of_quits hquits]
      | false =>
          have hrest : ∃ piece ∈ ps, quits piece = true := by simpa [hquits] using h
          cases hblank : (Text.trim piece).isEmpty with
          | true => rw [run_cons_of_blank hblank, run_cons_of_blank hblank, ih hrest]
          | false =>
              rw [run_cons hblank hquits, run_cons hblank hquits]
              exact congrArg _ (funext fun e => congrArg _ (funext (ih hrest)))

/-! ### What a command reports -/

theorem isEcho_echo (line : Text) : (echo line).isEcho = true := by
  simp [echo, Entry.isEcho]

theorem isEcho_of_level {entry : Entry} (h : entry.level ≠ .plain) : entry.isEcho = false := by
  simp [Entry.isEcho, h]

/-- Lines that are shown are no echoes as long as none begins like one. -/
theorem isEcho_of_mem_plain {lines : List String}
    (h : ∀ line ∈ lines, line.toList.head? ≠ some '>') :
    ∀ entry ∈ plain lines, entry.isEcho = false := by
  intro entry hentry
  obtain ⟨line, hline, rfl⟩ := List.mem_map.mp hentry
  have hhead := h line hline
  cases hlist : line.toList with
  | nil => simp [Entry.isEcho, hlist]
  | cons c rest =>
      have hc : '>' ≠ c := by simpa [hlist, eq_comm] using hhead
      simp [Entry.isEcho, hlist, List.isPrefixOf, hc]

theorem head?_helpLines : ∀ line ∈ Command.helpLines, line.toList.head? ≠ some '>' := by
  -- the lines are known, but it would take long to read them to their ends
  have hcapital (t : Text) : (String.ofList ('C' :: t)).toList.head? ≠ some '>' := by simp
  have hblank (t : Text) : (String.ofList (' ' :: t)).toList.head? ≠ some '>' := by simp
  simp only [Command.helpLines, List.forall_mem_cons]
  exact ⟨hcapital _, hblank _, hblank _, hblank _, hblank _, hblank _, hblank _, hblank _, hblank _,
    hblank _, hblank _, hblank _, hblank _, hblank _, hblank _, hblank _, by simp, hcapital _,
    nofun⟩

theorem head?_row {name : Text} (h : name.head? ≠ some '>') (word unsigned signed : Text) :
    (Display.row name word unsigned signed).toList.head? ≠ some '>' := by
  cases name with
  | nil => simp [Display.row, Text.padRight]
  | cons c name => simpa [Display.row, Text.padRight] using h

theorem head?_wordRow {name : String} (h : name.toList.head? ≠ some '>') (w : Word) :
    (Display.wordRow name w).toList.head? ≠ some '>' := head?_row h _ _ _

theorem head?_registers (e : Engine) :
    ∀ line ∈ Display.registers e, line.toList.head? ≠ some '>' := by
  intro line hline
  simp only [Display.registers, List.cons_append, List.mem_cons, List.mem_append, List.mem_map,
    List.not_mem_nil, or_false] at hline
  rcases hline with rfl | ⟨r, -, rfl⟩ | rfl | rfl | rfl | rfl
  · exact head?_row (by decide) _ _ _
  · exact head?_wordRow (by cases r <;> decide) _
  · exact head?_wordRow (by decide) _
  · exact head?_wordRow (by decide) _
  · exact head?_wordRow (by decide) _
  · simp [toString]

theorem head?_flags (e : Engine) : (Display.flags e).toList.head? ≠ some '>' := by
  simp [Display.flags, Flag.all, Flag.letter, String.join, toString]

theorem head?_memory (e : Engine) (address : Byte) (count : Nat) :
    ∀ line ∈ Display.memory e address count, line.toList.head? ≠ some '>' := by
  intro line hline
  obtain ⟨a, -, rfl⟩ := List.mem_map.mp hline
  simp [toString]

theorem isEcho_event (event : Event) : event.entry.isEcho = false := by
  cases event <;> exact isEcho_of_level nofun

theorem isEcho_of_mem_turn {α : Type} (r : Reply α) {success : α → Engine → List Entry}
    (h : ∀ a e, ∀ entry ∈ success a e, entry.isEcho = false) :
    ∀ entry ∈ (r.turn success).log, entry.isEcho = false := by
  have hevents : ∀ entry ∈ r.log.map Event.entry, entry.isEcho = false := by
    intro entry hentry
    obtain ⟨event, -, rfl⟩ := List.mem_map.mp hentry
    exact isEcho_event event
  intro entry hentry
  unfold Reply.turn at hentry
  split at hentry <;> rcases List.mem_append.mp hentry with hentry | hentry
  · exact hevents entry hentry
  · exact h _ _ entry hentry
  · exact hevents entry hentry
  · rw [List.mem_singleton.mp hentry]
    exact isEcho_of_level nofun

theorem isEcho_currentInstruction (e : Engine) (lead absent : String) :
    (currentInstruction e lead absent).isEcho = false := by
  unfold currentInstruction
  split <;> exact isEcho_of_level nofun

theorem isEcho_of_mem_perform (limit : Nat) (e : Engine) (command : Command) :
    ∀ entry ∈ (perform limit e command).log, entry.isEcho = false := by
  cases command with
  | help => exact isEcho_of_mem_plain head?_helpLines
  | registers => exact isEcho_of_mem_plain (head?_registers e)
  | flags =>
      refine isEcho_of_mem_plain fun line hline => ?_
      rw [List.mem_singleton.mp hline]
      exact head?_flags e
  | memory address count => exact isEcho_of_mem_plain (head?_memory e address count)
  | quit => exact fun entry hentry => absurd hentry List.not_mem_nil
  | decode =>
      refine isEcho_of_mem_turn _ fun _ e => ?_
      simp [isEcho_currentInstruction]
  | instruction id =>
      refine isEcho_of_mem_turn _ fun _ e => ?_
      simp [isEcho_currentInstruction]
  | cycle count =>
      refine isEcho_of_mem_turn _ fun early e => ?_
      cases early <;> simp [Entry.isEcho]
  | run =>
      refine isEcho_of_mem_turn _ fun outcome e => ?_
      cases outcome <;> simp [Entry.isEcho, RunOutcome.entry]
  | _ =>
      refine isEcho_of_mem_turn _ fun _ e => ?_
      simp [Entry.isEcho, fetched, joined]

theorem isEcho_of_mem_carryOut (limit : Nat) (line : Text) (e : Engine) :
    ∀ entry ∈ (carryOut limit line e).log, entry.isEcho = false := by
  unfold carryOut
  split
  · exact isEcho_of_mem_perform limit e _
  · simp [Entry.isEcho]

/-! ### The log of a session -/

theorem isEcho_of_mem_exchanges {lines : List Text} {x : Text × Turn}
    (hx : x ∈ exchanges limit lines e) : ∀ entry ∈ x.2.log, entry.isEcho = false := by
  induction lines generalizing e with
  | nil => cases hx
  | cons line lines ih =>
      rcases List.mem_cons.mp hx with rfl | hx
      · exact isEcho_of_mem_carryOut limit line e
      · exact ih hx

/-- Each line that is heard is echoed, and what it reports follows. -/
theorem log_run (limit : Nat) (ps : List Text) (e : Engine) :
    (run limit ps e).log =
      (exchanges limit (heard ps) e).flatMap fun x => echo x.1 :: x.2.log := by
  induction ps generalizing e with
  | nil => rfl
  | cons piece ps ih =>
      cases hblank : (Text.trim piece).isEmpty with
      | true => rw [run_cons_of_blank hblank, ih, heard, if_pos hblank]
      | false =>
          rw [heard, if_neg (by simp [hblank])]
          cases hquits : quits piece with
          | true =>
              rw [run_cons_of_quits hquits, if_pos rfl]
              simp [exchanges, carryOut, quits_iff.mp hquits, perform]
          | false =>
              rw [run_cons hblank hquits, if_neg (by simp)]
              simp [exchanges, Turn.andThen, ih]

/-- The echoes in a log are the lines that were heard. -/
theorem filter_log_run (limit : Nat) (ps : List Text) (e : Engine) :
    (run limit ps e).log.filter Entry.isEcho = (heard ps).map echo := by
  rw [log_run]
  induction heard ps generalizing e with
  | nil => rfl
  | cons line lines ih =>
      have hown : (carryOut limit line e).log.filter Entry.isEcho = [] :=
        List.filter_eq_nil_iff.mpr fun entry hentry => by
          simp [isEcho_of_mem_carryOut limit line e entry hentry]
      rw [exchanges, List.flatMap_cons, List.filter_append, ih,
        List.filter_cons_of_pos (isEcho_echo line), hown]
      rfl

/-- **A session is the sequential composition of its commands.** With a delimiter between two
texts, a session on both is one on the first and then one on the second, on the engine that the
first leaves; and if the first says to quit, the second is not looked at. The log is made of an
entry that repeats each line of the text, behind `> `, and what the line reports by itself. No
entry of the latter looks like that, so each line is repeated once and before what it reports. -/
theorem commands_compose (limit : Nat) (e : Engine) :
    let session (t : Text) (e : Engine) : Turn := run limit (ArgumentReader.pieces t) e
    (∀ (a b : Text) (d : Char), d = ';' ∨ d = '\n' →
      ((∀ piece ∈ ArgumentReader.pieces a, quits piece = false) →
        session (a ++ d :: b) e = (session a e).andThen (session b)) ∧
      ((∃ piece ∈ ArgumentReader.pieces a, quits piece = true) →
        session (a ++ d :: b) e = session a e)) ∧
    ∀ t : Text,
      let lines := heard (ArgumentReader.pieces t)
      let parts := exchanges limit lines e
      let repeated (line : Text) : Entry := ⟨.plain, "> " ++ String.ofList line⟩
      Hears (ArgumentReader.pieces t) lines ∧
      (session t e).log = parts.flatMap (fun part => repeated part.1 :: part.2.log) ∧
      (∀ part ∈ parts, ∀ entry ∈ part.2.log,
        ¬(entry.level = .plain ∧ "> ".toList <+: entry.message.toList)) ∧
      (session t e).log.filter
        (fun entry => entry.level = .plain ∧ "> ".toList <+: entry.message.toList) =
          lines.map repeated := by
  intro session
  refine ⟨fun a b d hd => ?_, fun t =>
    ⟨hears_heard _, log_run limit _ e, fun part hpart entry hentry => ?_, ?_⟩⟩
  · -- the pieces of the two texts are those of each, but for an empty one at the delimiter
    have hd : Text.endsPiece d = true := Text.endsPiece_iff.mpr hd.symm
    simp only [session, ArgumentReader.pieces_eq]
    constructor
    · intro hquits
      rcases Text.pieces_append hd a b with h | h <;> rw [h, run_append hquits]
      rfl
    · intro hquits
      rcases Text.pieces_append hd a b with h | h <;> rw [h, run_append_of_quits hquits]
  · have hecho := isEcho_of_mem_exchanges hpart entry hentry
    rwa [Entry.isEcho_eq_decide, decide_eq_false_iff_not] at hecho
  · rw [← funext Entry.isEcho_eq_decide]
    exact filter_log_run limit _ e

/-- A line that is no command, an empty one and a fault do not end a session, but `quit` does. -/
theorem commands_compose_up_to_quit :
    let e : Engine := { table := .builtIn }
    let session (t : Text) (e : Engine) : Turn := run 5 (ArgumentReader.pieces t) e
    let a := "set a 3;;jump 4".toList
    let b := "instruction 99\n quit".toList
    let c := "reset".toList
    session (a ++ ';' :: b) e = (session a e).andThen (session b) ∧
      session ((a ++ ';' :: b) ++ '\n' :: c) e = session (a ++ ';' :: b) e ∧
      (session ((a ++ ';' :: b) ++ '\n' :: c) e).engine.cpu.registers.gpa = 3#16 := by
  intro e session a b c
  have hcompose := ((commands_compose 5 e).1 a b ';' (.inl rfl)).1 (by decide +kernel)
  have hquit := ((commands_compose 5 e).1 (a ++ ';' :: b) c '\n' (.inr rfl)).2
    (by decide +kernel)
  exact ⟨hcompose, hquit, by decide +kernel⟩

end Session

end TeachingCpu
