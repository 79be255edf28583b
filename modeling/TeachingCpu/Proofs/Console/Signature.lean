import TeachingCpu.Proofs.Console.Parameters
/-!
# TeachingCpu.Proofs.Console.Signature

**What a line must be to be a command.** A command has the same parameters on every line
(`CommandName.signature`). A line is a command if its first word calls one and the other words fit
its parameters. The values that they give are those of the command (`Command.values`), which
consists of them (`Command.eq_of_values`). Otherwise the leftmost problem is the error.

The reader of arguments has a branch of its own for each command. All of them read the parameters
one after the other (`Arguments.readAll`), and each branch is shown to do that, one parameter at a
time (`Arguments.Reads`).

Words that are left over are counted with all the others. Their number is known modulo 256 only,
so that the error can name fewer words than the command takes.
-/

set_option autoImplicit false

namespace TeachingCpu

/-! ### Commands and their parameters -/

/-- The parameters of a command. -/
def CommandName.signature : CommandName → List Parameter
  | .cycle => [.count]
  | .memory => [.address, .count]
  | .set => [.register, .value]
  | .poke => [.address, .value]
  | .circuit => [.circuit]
  | .instruction => [.id]
  | .help | .fetch | .decode | .execute | .run | .reset | .registers | .flags | .quit => []

/-- A word is the name of a command or one of its other names, ASCII letter case aside. -/
def CommandName.CalledBy (c : CommandName) (word : Text) : Prop :=
  ∃ n ∈ c.name :: c.aliases, Text.lower word = Text.lower n.toList

instance (c : CommandName) (word : Text) : Decidable (c.CalledBy word) :=
  inferInstanceAs (Decidable (∃ n ∈ c.name :: c.aliases, Text.lower word = Text.lower n.toList))

namespace Command

/-- The name of a command. -/
def name : Command → CommandName
  | .help => .help
  | .fetch => .fetch
  | .decode => .decode
  | .execute => .execute
  | .cycle _ => .cycle
  | .run => .run
  | .reset => .reset
  | .registers => .registers
  | .flags => .flags
  | .memory _ _ => .memory
  | .set _ _ => .set
  | .poke _ _ => .poke
  | .circuit _ => .circuit
  | .instruction _ => .instruction
  | .quit => .quit

/-- What a command was given. -/
def values : Command → List Value
  | .cycle count => [.count count]
  | .memory address count => [.byte address, .count count]
  | .set register value => [.register register, .word value]
  | .poke address value => [.byte address, .word value]
  | .circuit selected => [.circuit selected]
  | .instruction id => [.byte id]
  | .help | .fetch | .decode | .execute | .run | .reset | .registers | .flags | .quit => []

/-- The first word of the line calls the command, and these are the other words. -/
def Invokes (line : Text) (c : CommandName) (words : List Text) : Prop :=
  ∃ first, Text.words line = first :: words ∧ c.CalledBy first

/-- A command is its name and what it was given. -/
theorem eq_of_values {a b : Command} (hname : a.name = b.name) (hvalues : a.values = b.values) :
    a = b := by
  cases a <;> cases b <;> simp_all [name, values]

end Command

/-! ### Names -/

namespace CommandName

theorem mem_all (c : CommandName) : c ∈ all := by cases c <;> decide

theorem lower_of_mem_names : ∀ c ∈ all, ∀ n ∈ c.name :: c.aliases,
    Text.lower n.toList = n.toList := by decide

/-- No two commands share a name. -/
theorem ofText?_of_mem_names : ∀ c ∈ all, ∀ n ∈ c.name :: c.aliases,
    ofText? n.toList = some c := by decide

theorem ofText?_congr {s t : Text} (h : Text.lower s = Text.lower t) : ofText? s = ofText? t := by
  rw [ofText?, h, ← ofText?]

theorem ofText?_eq_some_iff {word : Text} {c : CommandName} :
    ofText? word = some c ↔ c.CalledBy word := by
  constructor
  · intro h
    rw [ofText?] at h
    have hnames := List.find?_some h
    obtain ⟨n, hn, heq⟩ := List.any_eq_true.mp hnames
    refine ⟨n, hn, ?_⟩
    rw [lower_of_mem_names c c.mem_all n hn, beq_iff_eq.mp heq]
  · intro h
    obtain ⟨n, hn, hlower⟩ := h
    rw [ofText?_congr hlower, ofText?_of_mem_names c c.mem_all n hn]

theorem ofText?_eq_none_iff {word : Text} :
    ofText? word = none ↔ ∀ c : CommandName, ¬c.CalledBy word := by
  simp only [← ofText?_eq_some_iff, Option.eq_none_iff_forall_ne_some, ne_eq]

end CommandName

/-! ### Reading the parameters in order -/

namespace Arguments

open Parameter

variable {args : Arguments} {p : Parameter} {ps : List Parameter} {words : List Text}
  {vs earlier : List Value}

/-- What the words that are left come to for the parameters that are left: the values of these, or
the leftmost problem. -/
def readAll : List Parameter → Arguments → Except CommandError (List Value)
  | [], args =>
    if args.words.isEmpty then .ok []
    else .error (.tooManyArguments args.command args.command.signature.length (args.given % 256))
  | p :: ps, args =>
    match args.words with
    | [] =>
      match p.absent with
      | none => .error (.missingArgument args.command p.name)
      | some v => (readAll ps args).map (v :: ·)
    | word :: words =>
      match p.read word with
      | none => .error (.invalidValue args.command p.name word)
      | some v => (readAll ps { args with words }).map (v :: ·)

/-- A part of the reader does for the parameters that are left what they ask for, and the values
`earlier` were read before. -/
def Reads (x : Except CommandError Command) (earlier : List Value) (ps : List Parameter)
    (args : Arguments) : Prop :=
  x.map (fun command => (command.name, command.values)) =
    (readAll ps args).map fun vs => (args.command, earlier ++ vs)

theorem readAll_cons_of_nil (hwords : args.words = []) :
    readAll (p :: ps) args = match p.absent with
      | none => .error (.missingArgument args.command p.name)
      | some v => (readAll ps args).map (v :: ·) := by
  rw [readAll, hwords]

theorem readAll_cons_of_cons {word : Text} (hwords : args.words = word :: words) :
    readAll (p :: ps) args = match p.read word with
      | none => .error (.invalidValue args.command p.name word)
      | some v => (readAll ps { args with words }).map (v :: ·) := by
  rw [readAll, hwords]

theorem reads_finish {command : Command} {expected : Nat} (hcommand : args.command = command.name)
    (hexpected : expected = command.name.signature.length) :
    Reads (args.finish expected command) command.values [] args := by
  unfold Reads finish readAll
  rw [hcommand, hexpected]
  split
  · simp [Except.map]
  · rfl

theorem reads_error {error : CommandError} (h : readAll ps args = .error error) :
    Reads (.error error) earlier ps args := by
  rw [Reads, h]
  rfl

/-- One more value was read before. -/
theorem Reads.of_read {x : Except CommandError Command} {rest : Arguments} {v : Value}
    (h : Reads x (earlier ++ [v]) ps rest) (hcommand : rest.command = args.command)
    (hall : readAll (p :: ps) args = (readAll ps rest).map (v :: ·)) :
    Reads x earlier (p :: ps) args := by
  rw [Reads] at h ⊢
  rw [h, hall, hcommand]
  cases readAll ps rest with
  | error error => rfl
  | ok vs => simp [Except.map]

variable {α : Type} {read : Text → Option α} {value : α → Value}
  {next : α × Arguments → Except CommandError Command}

/-- A parameter with a word for it. -/
theorem reads_word {word : Text} (hwords : args.words = word :: words)
    (hread : ∀ word, p.read word = (read word).map value)
    (hnext : ∀ a rest, rest.command = args.command →
      Reads (next (a, rest)) (earlier ++ [value a]) ps rest) :
    Reads ((args.value p.name read word).map (fun a => (a, { args with words })) >>= next) earlier
      (p :: ps) args := by
  rw [Arguments.value]
  cases ha : read word with
  | none =>
      refine reads_error ?_
      rw [readAll_cons_of_cons hwords, hread, ha]
      rfl
  | some a =>
      refine (hnext a { args with words } rfl).of_read rfl ?_
      rw [readAll_cons_of_cons hwords, hread, ha]
      rfl

/-- A parameter that must be given. -/
theorem reads_required (hread : ∀ word, p.read word = (read word).map value)
    (habsent : p.absent = none)
    (hnext : ∀ a rest, rest.command = args.command →
      Reads (next (a, rest)) (earlier ++ [value a]) ps rest) :
    Reads (args.required p.name read >>= next) earlier (p :: ps) args := by
  rw [required]
  cases hwords : args.words with
  | nil =>
      refine reads_error ?_
      rw [readAll_cons_of_nil hwords, habsent]
  | cons word words => exact reads_word hwords hread hnext

/-- A parameter that need not be given. -/
theorem reads_optional {absent : α} (hread : ∀ word, p.read word = (read word).map value)
    (habsent : p.absent = some (value absent))
    (hnext : ∀ a rest, rest.command = args.command →
      Reads (next (a, rest)) (earlier ++ [value a]) ps rest) :
    Reads (args.optional p.name read absent >>= next) earlier (p :: ps) args := by
  rw [optional]
  cases hwords : args.words with
  | nil =>
      refine (hnext absent args rfl).of_read rfl ?_
      rw [readAll_cons_of_nil hwords, habsent]
  | cons word words => exact reads_word hwords hread hnext

/-- Every command reads its parameters in order. -/
theorem reads_signature (args : Arguments) :
    Reads (Command.ofArguments args) [] args.command.signature args := by
  obtain ⟨command, given, words⟩ := args
  -- Whatever was read, the words that are left are those of the same command.
  cases command with
  | cycle =>
      refine reads_optional (p := .count) (fun _ => rfl) rfl fun count rest hrest => ?_
      exact reads_finish hrest rfl
  | memory =>
      refine reads_required (p := .address) (fun _ => rfl) rfl fun address rest hrest => ?_
      refine reads_optional (p := .count) (fun _ => rfl) rfl fun count last hlast => ?_
      exact reads_finish (hlast.trans hrest) rfl
  | set =>
      refine reads_required (p := .register) (fun _ => rfl) rfl fun register rest hrest => ?_
      refine reads_required (p := .value) (fun _ => rfl) rfl fun value last hlast => ?_
      exact reads_finish (hlast.trans hrest) rfl
  | poke =>
      refine reads_required (p := .address) (fun _ => rfl) rfl fun address rest hrest => ?_
      refine reads_required (p := .value) (fun _ => rfl) rfl fun value last hlast => ?_
      exact reads_finish (hlast.trans hrest) rfl
  | circuit =>
      refine reads_required (p := .circuit) (fun _ => rfl) rfl fun circuit rest hrest => ?_
      exact reads_finish hrest rfl
  | instruction =>
      refine reads_required (p := .id) (fun _ => rfl) rfl fun id rest hrest => ?_
      exact reads_finish hrest rfl
  | _ => exact reads_finish rfl rfl

/-! ### The leftmost problem -/

/-- The error is about the leftmost problem of the words for the parameters. -/
def Blames (args : Arguments) (ps : List Parameter) : CommandError → Prop
  | .invalidCommand _ _ => False
  | .missingArgument c argument => c = args.command ∧ Lacks ps args.words argument
  | .invalidValue c argument word => c = args.command ∧ Refuses ps args.words argument word
  | .tooManyArguments c expected actual =>
    c = args.command ∧ expected = c.signature.length ∧ actual = args.given % 256 ∧
      Exceeds ps args.words

theorem map_eq_ok_iff {α β : Type} {x : Except CommandError α} {f : α → β} {b : β} :
    x.map f = .ok b ↔ ∃ a, x = .ok a ∧ b = f a := by
  cases x <;> simp [Except.map, eq_comm]

variable {error : CommandError} {word : Text}

theorem map_eq_error_iff {α β : Type} {x : Except CommandError α} {f : α → β} :
    x.map f = .error error ↔ x = .error error := by
  cases x <;> simp [Except.map]

theorem readAll_eq_ok_iff : readAll ps args = .ok vs ↔ Fits ps args.words vs := by
  induction ps generalizing args vs with
  | nil =>
      rw [readAll, fits_nil_iff]
      cases args.words <;> simp [eq_comm]
  | cons p ps ih =>
      -- Without words the arguments stay as they are; otherwise one word less is left.
      cases hwords : args.words with
      | nil =>
          rw [readAll_cons_of_nil hwords, fits_cons_nil_iff]
          cases p.absent <;> simp [map_eq_ok_iff, ih, hwords]
      | cons word words =>
          rw [readAll_cons_of_cons hwords, fits_cons_cons_iff]
          cases p.read word <;> simp [map_eq_ok_iff, ih]

theorem blames_nil_iff : args.Blames [] error ↔ args.words ≠ [] ∧
    error = .tooManyArguments args.command args.command.signature.length (args.given % 256) := by
  cases error with
  | invalidCommand => simp [Blames]
  | missingArgument => simp [Blames, not_lacks_nil]
  | invalidValue => simp [Blames, not_refuses_nil]
  | tooManyArguments =>
      simp only [Blames, exceeds_nil_iff, CommandError.tooManyArguments.injEq]
      grind

theorem blames_cons_of_nil (hwords : args.words = []) : args.Blames (p :: ps) error ↔
    (p.absent = none ∧ error = .missingArgument args.command p.name) ∨
      (p.absent ≠ none ∧ args.Blames ps error) := by
  cases error with
  | invalidCommand => simp [Blames]
  | missingArgument =>
      simp only [Blames, hwords, lacks_cons_nil_iff, CommandError.missingArgument.injEq]
      grind
  | invalidValue => simp [Blames, hwords, not_refuses_nil_right]
  | tooManyArguments => simp [Blames, hwords, not_exceeds_nil_right]

theorem blames_cons_of_cons (hwords : args.words = word :: words) :
    args.Blames (p :: ps) error ↔
      (p.read word = none ∧ error = .invalidValue args.command p.name word) ∨
        (p.Takes word ∧ Blames { args with words } ps error) := by
  cases error with
  | invalidCommand => simp [Blames]
  | missingArgument => simp [Blames, hwords, lacks_cons_cons_iff, and_left_comm]
  | invalidValue =>
      simp only [Blames, hwords, refuses_cons_cons_iff, CommandError.invalidValue.injEq]
      grind
  | tooManyArguments =>
      simp only [Blames, hwords, exceeds_cons_cons_iff, reduceCtorEq, and_false, false_or]
      grind

theorem readAll_eq_error_iff : readAll ps args = .error error ↔ args.Blames ps error := by
  induction ps generalizing args with
  | nil =>
      rw [readAll, blames_nil_iff]
      cases args.words <;> simp [eq_comm]
  | cons p ps ih =>
      cases hwords : args.words with
      | nil =>
          rw [readAll_cons_of_nil hwords, blames_cons_of_nil hwords]
          cases p.absent with
          | none => simp [eq_comm]
          | some => simp [map_eq_error_iff, ih]
      | cons word words =>
          rw [readAll_cons_of_cons hwords, blames_cons_of_cons hwords, Takes]
          cases p.read word with
          | none => simp [eq_comm]
          | some => simp [map_eq_error_iff, ih]

end Arguments

/-! ### Lines -/

theorem Text.addToWords_eq_nil_iff {c : Char} {state : Bool × List Text} :
    (addToWords c state).2 = [] ↔ isBlank c = true ∧ state.2 = [] := by
  obtain ⟨growing, words⟩ := state
  unfold addToWords
  by_cases hc : isBlank c = true
  · simp [hc]
  · cases growing <;> cases words <;> simp [hc]

/-- A text without words is blank. -/
theorem Text.words_eq_nil_iff {t : Text} : words t = [] ↔ ∀ c ∈ t, isBlank c = true := by
  induction t with
  | nil => simp [words]
  | cons c t ih =>
      rw [words, List.foldr_cons, addToWords_eq_nil_iff, ← words, ih, List.forall_mem_cons]

namespace Command

open Parameter

variable {args : Arguments} {line first : Text} {words : List Text} {command : Command}
  {error : CommandError} {c : CommandName}

theorem ofArguments_eq_ok_iff : ofArguments args = .ok command ↔
    command.name = args.command ∧ Fits args.command.signature args.words command.values := by
  -- The reader agrees with `readAll` on the name and the values, and these determine the command.
  have hreads := args.reads_signature
  rw [Arguments.Reads] at hreads
  constructor
  · intro h
    rw [h] at hreads
    obtain ⟨vs, hall, hvalues⟩ := Arguments.map_eq_ok_iff.mp hreads.symm
    obtain ⟨hname, rfl⟩ := Prod.mk.inj hvalues
    exact ⟨hname, Arguments.readAll_eq_ok_iff.mp hall⟩
  · intro h
    obtain ⟨hname, hfits⟩ := h
    rw [Arguments.readAll_eq_ok_iff.mpr hfits] at hreads
    obtain ⟨other, hother, hvalues⟩ := Arguments.map_eq_ok_iff.mp hreads
    obtain ⟨hsame, hgiven⟩ := Prod.mk.inj hvalues
    rw [hother, eq_of_values (hname.trans hsame) hgiven]

theorem ofArguments_eq_error_iff :
    ofArguments args = .error error ↔ args.Blames args.command.signature error := by
  rw [← Arguments.readAll_eq_error_iff, ← Arguments.map_eq_error_iff, args.reads_signature,
    Arguments.map_eq_error_iff]

theorem ofLine_of_blank (hblank : Text.words line = []) :
    ofLine line = .error (.invalidCommand [] none) := by
  rw [ofLine, hblank]

theorem ofLine_of_not_called (hwords : Text.words line = first :: words)
    (hcalled : ∀ c : CommandName, ¬c.CalledBy first) :
    ofLine line = .error (.invalidCommand first (CommandName.suggest first)) := by
  rw [ofLine, hwords]
  dsimp only
  rw [CommandName.ofText?_eq_none_iff.mpr hcalled]

theorem ofLine_of_invokes (h : Invokes line c words) :
    ofLine line = ofArguments { command := c, given := words.length, words } := by
  obtain ⟨first, hwords, hcalled⟩ := h
  rw [ofLine, hwords]
  dsimp only
  rw [CommandName.ofText?_eq_some_iff.mpr hcalled]

theorem ofArguments_ne_invalidCommand {name : Text} {suggestion : Option CommandName} :
    ofArguments args ≠ .error (.invalidCommand name suggestion) :=
  fun h => ofArguments_eq_error_iff.mp h

/-- The first word decides which parameters are read. -/
theorem ofLine_eq_iff {result : Except CommandError Command}
    (hresult : ∀ name suggestion, result ≠ .error (.invalidCommand name suggestion)) :
    ofLine line = result ↔ ∃ c words, Invokes line c words ∧
      ofArguments { command := c, given := words.length, words } = result := by
  constructor
  · intro h
    cases hwords : Text.words line with
    | nil => exact absurd (h.symm.trans (ofLine_of_blank hwords)) (hresult _ _)
    | cons first words =>
        by_cases hcalled : ∃ c, CommandName.CalledBy c first
        · obtain ⟨c, hc⟩ := hcalled
          have hinvokes : Invokes line c words := ⟨first, hwords, hc⟩
          exact ⟨c, words, hinvokes, (ofLine_of_invokes hinvokes).symm.trans h⟩
        · exact absurd (h.symm.trans (ofLine_of_not_called hwords (not_exists.mp hcalled)))
            (hresult _ _)
  · intro h
    obtain ⟨c, words, hinvokes, hargs⟩ := h
    exact (ofLine_of_invokes hinvokes).trans hargs

theorem ofLine_eq_ok_iff : ofLine line = .ok command ↔
    ∃ words, Invokes line command.name words ∧ Fits command.name.signature words command.values := by
  rw [ofLine_eq_iff (by simp)]
  simp only [ofArguments_eq_ok_iff]
  constructor
  · intro h
    obtain ⟨c, words, hinvokes, rfl, hfits⟩ := h
    exact ⟨words, hinvokes, hfits⟩
  · intro h
    obtain ⟨words, hinvokes, hfits⟩ := h
    exact ⟨command.name, words, hinvokes, rfl, hfits⟩

/-- The errors that are not about the first word. -/
theorem ofLine_eq_error_iff
    (herror : ∀ name suggestion, error ≠ .invalidCommand name suggestion) :
    ofLine line = .error error ↔ ∃ c words, Invokes line c words ∧
      Arguments.Blames { command := c, given := words.length, words } c.signature error := by
  rw [ofLine_eq_iff (by simpa using herror)]
  simp only [ofArguments_eq_error_iff]

theorem ofLine_eq_tooManyArguments_iff {expected actual : Nat} :
    ofLine line = .error (.tooManyArguments c expected actual) ↔
      ∃ words, Invokes line c words ∧ expected = c.signature.length ∧
        actual = words.length % 256 ∧ Exceeds c.signature words := by
  rw [ofLine_eq_error_iff (by simp)]
  simp [Arguments.Blames]

theorem ofLine_eq_invalidCommand_iff {name : Text} {suggestion : Option CommandName} :
    ofLine line = .error (.invalidCommand name suggestion) ↔
      ((∀ c ∈ line, Text.isBlank c = true) ∧ name = [] ∧ suggestion = none) ∨
      ((∃ words, Text.words line = name :: words) ∧ (∀ c, ¬CommandName.CalledBy c name) ∧
        suggestion = CommandName.suggest name) := by
  rw [← Text.words_eq_nil_iff]
  cases hwords : Text.words line with
  | nil => simp [ofLine_of_blank hwords, eq_comm]
  | cons first words =>
      by_cases hcalled : ∃ c, CommandName.CalledBy c first
      · obtain ⟨c, hc⟩ := hcalled
        rw [ofLine_of_invokes ⟨first, hwords, hc⟩]
        refine iff_of_false ofArguments_ne_invalidCommand fun h => ?_
        obtain ⟨hnil, -⟩ | ⟨⟨_, hcons⟩, hnot, -⟩ := h
        · cases hnil
        · cases hcons
          exact hnot c hc
      · rw [ofLine_of_not_called hwords (not_exists.mp hcalled)]
        constructor
        · intro h
          cases h
          exact .inr ⟨⟨words, rfl⟩, not_exists.mp hcalled, rfl⟩
        · intro h
          obtain ⟨hnil, -⟩ | ⟨⟨_, hcons⟩, -, rfl⟩ := h
          · cases hnil
          · cases hcons
            rfl

/-- A line is read as a command just if its first word calls one and the other words fit its
parameters, of which it then has the values; and the error of any other line is about its leftmost
problem. -/
theorem ofLine_follows_signature (line : Text) :
    (∀ command, ofLine line = .ok command ↔ ∃ words, Invokes line command.name words ∧
      Fits command.name.signature words command.values) ∧
    (∀ name, (∃ suggestion, ofLine line = .error (.invalidCommand name suggestion)) ↔
      ((∀ c ∈ line, Text.isBlank c = true) ∧ name = []) ∨
      ((∃ words, Text.words line = name :: words) ∧ ∀ c, ¬CommandName.CalledBy c name)) ∧
    (∀ c argument, ofLine line = .error (.missingArgument c argument) ↔
      ∃ words, Invokes line c words ∧ Lacks c.signature words argument) ∧
    (∀ c argument word, ofLine line = .error (.invalidValue c argument word) ↔
      ∃ words, Invokes line c words ∧ Refuses c.signature words argument word) ∧
    (∀ c, (∃ expected actual, ofLine line = .error (.tooManyArguments c expected actual)) ↔
      ∃ words, Invokes line c words ∧ Exceeds c.signature words) := by
  refine ⟨fun _ => ofLine_eq_ok_iff, fun name => ?_, fun c argument => ?_,
    fun c argument word => ?_, fun c => ?_⟩
  · simp [ofLine_eq_invalidCommand_iff, exists_or]
  · rw [ofLine_eq_error_iff (by simp)]
    simp [Arguments.Blames]
  · rw [ofLine_eq_error_iff (by simp)]
    simp [Arguments.Blames]
  · simp only [ofLine_eq_tooManyArguments_iff]
    grind

example : ofLine "  MEM $1f ".toList = .ok (.memory 0x1F 1) := by decide

/-! ### Surplus words -/

/-- A surplus is reported with the number of parameters, which is exceeded, and with the number of
words, which is true just if it is less than 256. -/
theorem ofLine_surplus_count {expected actual : Nat}
    (h : ofLine line = .error (.tooManyArguments c expected actual)) :
    ∃ words, Invokes line c words ∧ expected = c.signature.length ∧ expected < words.length ∧
      actual = words.length % 256 ∧ (actual = words.length ↔ words.length < 256) := by
  obtain ⟨words, hinvokes, rfl, rfl, hexceeds⟩ := ofLine_eq_tooManyArguments_iff.mp h
  exact ⟨words, hinvokes, rfl, hexceeds.length_lt, rfl, Nat.mod_eq_iff_lt (by decide)⟩

theorem ofLine_surplus_count_memory :
    ofLine "mem 1F 4 5".toList = .error (.tooManyArguments .memory 2 3) ∧
      ∃ words, Invokes "mem 1F 4 5".toList .memory words ∧
        2 = (CommandName.signature .memory).length ∧ 2 < words.length ∧ 3 = words.length % 256 ∧
        (3 = words.length ↔ words.length < 256) :=
  ⟨by decide, ofLine_surplus_count (by decide)⟩

/-- A command without parameters, with 256 words behind it, is said to have been given none. -/
theorem ofLine_surplus_count_wraps :
    let line := "help".toList ++ (List.replicate 256 " a".toList).flatten
    ofLine line = .error (.tooManyArguments .help 0 0) ∧
      ∃ words, Invokes line .help words ∧ words.length = 256 :=
  ⟨by decide +kernel, List.replicate 256 "a".toList,
    ⟨"help".toList, by decide +kernel, by decide⟩, List.length_replicate⟩

end Command

end TeachingCpu
