import TeachingCpu.Assembly.Encoder
import TeachingCpu.Proofs.Machine.Word
import TeachingCpu.Proofs.Text.Numeral
/-!
# TeachingCpu.Proofs.Assembly.Language

The **language of single lines**: which lines have a word, and what the word says.

The grammar stands on its own. `Operand.IsNumber` are the numbers, `Operand.Supplies` and
`Operand.Leads` the operands that give a value and those that name a place to go, and
`Encoder.Accepts` the lines; none of them mentions how a line is read. A line says a `Sentence`,
and a word is the word of a sentence by the tables of the machine (`Sentence.WrittenAs`): its
high byte decodes to the operation, and its low byte is the operand.
-/

set_option autoImplicit false

namespace TeachingCpu

/-! ### Numbers and operands -/

/-- The text is a number below 256: `$` and hexadecimal digits, or `^` and decimal digits. -/
inductive Operand.IsNumber : Text → Byte → Prop
  | hex {digits : Text} {n : Byte} (h : Numeral.Writes 16 digits n) : IsNumber ('$' :: digits) n
  | decimal {digits : Text} {n : Byte} (h : Numeral.Writes 10 digits n) :
      IsNumber ('^' :: digits) n

/-- The letter of a general purpose register. -/
def Accumulator.letter : Accumulator → Text
  | .a => ['A']
  | .b => ['B']

/-- The text gives the register `dest` a value in a mode, with an operand byte. -/
inductive Operand.Supplies (dest : Accumulator) : Text → Mode → Byte → Prop
  | immediate {t : Text} {n : Byte} (h : IsNumber t n) : Supplies dest ('#' :: t) .immediate n
  | direct {t : Text} {n : Byte} (h : IsNumber t n) : Supplies dest t .direct n
  | register : Supplies dest dest.other.letter .register 0

/-- The text names where to go, with an operand byte. -/
inductive Operand.Leads : Text → Target → Byte → Prop
  | immediate {t : Text} {n : Byte} (h : IsNumber t n) : Leads ('#' :: t) .immediate n
  | direct {t : Text} {n : Byte} (h : IsNumber t n) : Leads t .direct n

/-! ### Lines -/

/-- What a line of the language says. -/
inductive Sentence
  /-- The program is loaded from an address on. -/
  | origin (address : Byte)
  /-- An operation is carried out with an operand. -/
  | instruction (op : Operation) (operand : Byte)

/-- A word stands for a sentence. -/
def Sentence.WrittenAs (w : Word) : Sentence → Prop
  | .origin address => w.high = 0x00 ∧ w.low = address
  | .instruction op operand => Operation.decode? w.high = some op ∧ w.low = operand

/-- The names of the branches that are taken if a flag is in a state. -/
def Mnemonic.branchNames : Flag → Bool → List String
  | .carry, true => ["BCS"]
  | .carry, false => ["BCC"]
  | .negative, true => ["BNS", "BMI"]
  | .negative, false => ["BNC", "BPL"]
  | .zero, true => ["BZS", "BEQ"]
  | .zero, false => ["BZC", "BNE"]
  | .overflow, true => ["BVS"]
  | .overflow, false => ["BVC"]

/-- A statement is a line of the language and says the sentence, to an encoder that knows the
last line and whether an origin was given before. -/
inductive Encoder.Accepts (enc : Encoder) (s : Statement) : Sentence → Prop
  | add {src : Text} {mode : Mode} {dest : Accumulator} {n : Byte}
      (hcommand : s.command = "ADD".toList) (hparams : s.params = [src, dest.letter])
      (hsrc : Operand.Supplies dest src mode n) :
      Accepts enc s (.instruction (.compute .add mode dest) n)
  | sub {src : Text} {mode : Mode} {dest : Accumulator} {n : Byte}
      (hcommand : s.command = "SUB".toList) (hparams : s.params = [src, dest.letter])
      (hsrc : Operand.Supplies dest src mode n) :
      Accepts enc s (.instruction (.compute .sub mode dest) n)
  | cmp {src : Text} {mode : Mode} {dest : Accumulator} {n : Byte}
      (hcommand : s.command = "CMP".toList) (hparams : s.params = [src, dest.letter])
      (hsrc : Operand.Supplies dest src mode n) :
      Accepts enc s (.instruction (.compare mode dest) n)
  | load {src : Text} {mode : Mode} {dest : Accumulator} {n : Byte}
      (hcommand : s.command = "MOVE".toList) (hparams : s.params = [src, dest.letter])
      (hsrc : Operand.Supplies dest src mode n) :
      Accepts enc s (.instruction (.load mode dest) n)
  | store {src : Accumulator} {place : Text} {n : Byte}
      (hcommand : s.command = "MOVE".toList) (hparams : s.params = [src.letter, place])
      (hplace : Operand.IsNumber place n) :
      Accepts enc s (.instruction (.store false src) n)
  | storeIndirect {src : Accumulator} {place : Text} {n : Byte}
      (hcommand : s.command = "MOVE".toList)
      (hparams : s.params = [src.letter, '(' :: place ++ [')']])
      (hplace : Operand.IsNumber place n) :
      Accepts enc s (.instruction (.store true src) n)
  | jump {token : Text} {target : Target} {n : Byte}
      (hcommand : s.command = "JMP".toList) (hparams : s.params = [token])
      (htoken : Operand.Leads token target n) :
      Accepts enc s (.instruction (.jump target) n)
  | branch {name : String} {flag : Flag} {state : Bool} {token : Text} {target : Target} {n : Byte}
      (hname : name ∈ Mnemonic.branchNames flag state)
      (hcommand : s.command = name.toList) (hparams : s.params = [token])
      (htoken : Operand.Leads token target n) :
      Accepts enc s (.instruction (.branch flag state target) n)
  | halt (hcommand : s.command = "HALT".toList) (hparams : s.params = [])
      (hlast : ∀ last ∈ enc.last, s.position = last.position) :
      Accepts enc s (.instruction .halt 0)
  | origin {token : Text} {n : Byte} (hcommand : s.command = "ORG".toList)
      (hparams : s.params = [token]) (htoken : Operand.IsNumber token n)
      (hposition : s.position = 1) (hfirst : enc.orgDeclared = false) :
      Accepts enc s (.origin n)

/-! ### Reading numbers and operands -/

theorem Except.bind_eq_ok_iff {α β : Type} {x : Except Defect α} {f : α → Except Defect β} {b : β} :
    (x >>= f) = .ok b ↔ ∃ a, x = .ok a ∧ f a = .ok b := by
  cases x <;> simp [bind, Except.bind]

theorem Except.map_eq_ok_iff {α β : Type} {x : Except Defect α} {f : α → β} {b : β} :
    x.map f = .ok b ↔ ∃ a, x = .ok a ∧ f a = b := by
  cases x <;> simp [Except.map]

namespace Operand

theorem ofDigits_eq_ok_iff {base : Nat} {digits : Text} {n : Byte} :
    ofDigits base digits = .ok n ↔ Numeral.Writes base digits n := by
  rw [ofDigits, ← Numeral.read?_eq_some_iff]
  cases Numeral.read? base digits with
  | none => simp
  | some m =>
      dsimp only
      rw [Option.some.injEq, ← Byte.ofNat?_eq_some_iff]
      cases Byte.ofNat? m <;> simp

theorem number_eq_ok_iff {t : Text} {n : Byte} : number t = .ok n ↔ IsNumber t n := by
  constructor
  · intro h
    unfold number at h
    split at h
    · exact .hex (ofDigits_eq_ok_iff.mp h)
    · exact .decimal (ofDigits_eq_ok_iff.mp h)
    · simp at h
  · intro h
    cases h with
    | hex h => exact ofDigits_eq_ok_iff.mpr h
    | decimal h => exact ofDigits_eq_ok_iff.mpr h

/-- The text of an operand, by addressing mode. -/
def WrittenAs (t : Text) : Operand → Prop
  | .immediate n => ∃ number, t = '#' :: number ∧ IsNumber number n
  | .direct n => IsNumber t n
  | .indirect n => ∃ number, t = '(' :: number ++ [')'] ∧ IsNumber number n
  | .register r => t = r.letter

theorem ofText_eq_ok_iff {t : Text} {o : Operand} : ofText t = .ok o ↔ WrittenAs t o := by
  constructor
  · intro h
    unfold ofText at h
    split at h
    · cases h; rfl
    · cases h; rfl
    · obtain ⟨n, hn, rfl⟩ := Except.map_eq_ok_iff.mp h
      exact ⟨_, rfl, number_eq_ok_iff.mp hn⟩
    · obtain ⟨n, hn, rfl⟩ := Except.map_eq_ok_iff.mp h
      exact number_eq_ok_iff.mp hn
    · obtain ⟨n, hn, rfl⟩ := Except.map_eq_ok_iff.mp h
      exact number_eq_ok_iff.mp hn
    · next rest =>
        -- the number stands between the first and the last character
        split at h
        · next hlast =>
            obtain ⟨n, hn, rfl⟩ := Except.map_eq_ok_iff.mp h
            obtain ⟨inner, rfl⟩ := List.getLast?_eq_some_iff.mp hlast
            rw [List.dropLast_concat] at hn
            exact ⟨inner, rfl, number_eq_ok_iff.mp hn⟩
        · simp at h
    · simp at h
  · intro h
    cases o with
    | immediate n =>
        obtain ⟨number, rfl, hn⟩ := h
        exact Except.map_eq_ok_iff.mpr ⟨n, number_eq_ok_iff.mpr hn, rfl⟩
    | direct n =>
        have hn := number_eq_ok_iff.mpr h
        cases h with
        | hex _ => exact Except.map_eq_ok_iff.mpr ⟨n, hn, rfl⟩
        | decimal _ => exact Except.map_eq_ok_iff.mpr ⟨n, hn, rfl⟩
    | indirect n =>
        obtain ⟨number, rfl, hn⟩ := h
        simp only [ofText, List.cons_append, List.getLast?_append, List.getLast?_singleton,
          Option.some_or, if_true, List.dropLast_concat]
        exact Except.map_eq_ok_iff.mpr ⟨n, number_eq_ok_iff.mpr hn, rfl⟩
    | register r =>
        cases h
        cases r <;> rfl

/-- The mode and the operand byte of an operand that gives a value. -/
def supply? : Operand → Option (Mode × Byte)
  | .immediate n => some (.immediate, n)
  | .direct n => some (.direct, n)
  | .indirect _ => none
  | .register _ => some (.register, 0)

/-- What gives a register a value is every operand but the indirect ones and the register
itself: texts that differ name registers that differ. -/
theorem supplies_iff {dest : Accumulator} {t : Text} {mode : Mode} {n : Byte} :
    Supplies dest t mode n ↔
      t ≠ dest.letter ∧ ∃ o, ofText t = .ok o ∧ o.supply? = some (mode, n) := by
  simp only [ofText_eq_ok_iff]
  constructor
  · intro h
    cases h with
    | immediate h =>
        exact ⟨by cases dest <;> simp [Accumulator.letter], .immediate n, ⟨_, rfl, h⟩, rfl⟩
    | direct h =>
        exact ⟨by cases h <;> cases dest <;> simp [Accumulator.letter], .direct n, h, rfl⟩
    | register =>
        exact ⟨by cases dest <;> decide, .register dest.other, rfl, rfl⟩
  · intro h
    obtain ⟨hne, o, hwritten, hsupply⟩ := h
    cases o with
    | immediate m =>
        cases hsupply
        obtain ⟨number, rfl, hm⟩ := hwritten
        exact .immediate hm
    | direct m =>
        cases hsupply
        exact .direct hwritten
    | indirect m => simp [supply?] at hsupply
    | register r =>
        cases hsupply
        obtain rfl : t = r.letter := hwritten
        -- texts that differ name registers that differ, and there are two
        obtain rfl : r = dest.other := by cases r <;> cases dest <;> first | rfl | simp at hne
        exact .register

/-- The target and the operand byte of an operand that names a place to go. -/
def lead? : Operand → Option (Target × Byte)
  | .immediate n => some (.immediate, n)
  | .direct n => some (.direct, n)
  | _ => none

theorem leads_iff {t : Text} {target : Target} {n : Byte} :
    Leads t target n ↔ ∃ o, ofText t = .ok o ∧ o.lead? = some (target, n) := by
  simp only [ofText_eq_ok_iff]
  constructor
  · intro h
    cases h with
    | immediate h => exact ⟨.immediate n, ⟨_, rfl, h⟩, rfl⟩
    | direct h => exact ⟨.direct n, h, rfl⟩
  · intro h
    obtain ⟨o, hwritten, hlead⟩ := h
    cases o with
    | immediate m =>
        cases hlead
        obtain ⟨number, rfl, hm⟩ := hwritten
        exact .immediate hm
    | direct m =>
        cases hlead
        exact .direct hwritten
    | _ => simp [lead?] at hlead

end Operand

/-! ### Reading statements -/

namespace Statement

variable {s : Statement} {n : Byte}

theorem single_eq_ok_iff {token : Text} : s.single = .ok token ↔ s.params = [token] := by
  unfold single
  split <;> simp_all

theorem pair_eq_ok_iff {src dest : Text} :
    s.pair = .ok (src, dest) ↔ s.params = [src, dest] ∧ src ≠ dest := by
  unfold pair
  split
  · next a b h =>
      rw [h]
      split
      · next hab =>
          simp only [reduceCtorEq, false_iff, not_and, Decidable.not_not]
          intro heq
          cases heq
          exact hab
      · next hab =>
          simp only [Except.ok.injEq, Prod.mk.injEq, List.cons.injEq, and_true]
          exact ⟨fun ⟨ha, hb⟩ => ⟨⟨ha, hb⟩, ha ▸ hb ▸ hab⟩, And.left⟩
  · next h => simpa using fun heq => (h src dest heq).elim

theorem arithmetic_eq_ok_iff {make : Mode → Accumulator → Operation} {op : Operation} :
    s.arithmetic make = .ok (op, n) ↔
      ∃ src mode dest, s.params = [src, dest.letter] ∧ Operand.Supplies dest src mode n ∧
        op = make mode dest := by
  simp only [arithmetic, Except.bind_eq_ok_iff, Operand.supplies_iff]
  constructor
  · intro h
    obtain ⟨⟨src, dest⟩, hpair, place, hplace, h⟩ := h
    obtain ⟨hparams, hne⟩ := pair_eq_ok_iff.mp hpair
    cases place with
    | register d =>
        obtain rfl : dest = d.letter := Operand.ofText_eq_ok_iff.mp hplace
        obtain ⟨value, hvalue, h⟩ := Except.bind_eq_ok_iff.mp h
        cases value <;> simp only [Except.ok.injEq, Prod.mk.injEq, reduceCtorEq] at h <;>
          obtain ⟨rfl, rfl⟩ := h <;> exact ⟨_, _, d, hparams, ⟨hne, _, hvalue, rfl⟩, rfl⟩
    | _ => simp at h
  · intro h
    obtain ⟨src, mode, dest, hparams, ⟨hne, value, hvalue, hsupply⟩, rfl⟩ := h
    refine ⟨(src, dest.letter), pair_eq_ok_iff.mpr ⟨hparams, hne⟩, .register dest,
      Operand.ofText_eq_ok_iff.mpr rfl, Except.bind_eq_ok_iff.mpr ⟨value, hvalue, ?_⟩⟩
    cases value <;> cases hsupply <;> rfl

theorem moving_eq_ok_iff {op : Operation} :
    s.moving = .ok (op, n) ↔
      (∃ src mode dest, s.params = [src, dest.letter] ∧ Operand.Supplies dest src mode n ∧
        op = .load mode dest) ∨
      (∃ src place, s.params = [src.letter, place] ∧ Operand.IsNumber place n ∧
        op = .store false src) ∨
      (∃ src place, s.params = [src.letter, '(' :: place ++ [')']] ∧ Operand.IsNumber place n ∧
        op = .store true src) := by
  simp only [moving, Except.bind_eq_ok_iff, Operand.supplies_iff]
  constructor
  · intro h
    obtain ⟨⟨src, dest⟩, hpair, value, hvalue, place, hplace, h⟩ := h
    -- where it is moved to decides which of the three forms it is
    obtain ⟨hparams, hne⟩ := pair_eq_ok_iff.mp hpair
    have hdest := Operand.ofText_eq_ok_iff.mp hplace
    cases place with
    | register d =>
        left
        obtain rfl : dest = d.letter := hdest
        cases value <;> simp only [Except.ok.injEq, Prod.mk.injEq, reduceCtorEq] at h <;>
          obtain ⟨rfl, rfl⟩ := h <;> exact ⟨_, _, d, hparams, ⟨hne, _, hvalue, rfl⟩, rfl⟩
    | direct a =>
        cases value <;> simp only [Except.ok.injEq, Prod.mk.injEq, reduceCtorEq] at h
        obtain ⟨rfl, rfl⟩ := h
        obtain rfl : src = _ := Operand.ofText_eq_ok_iff.mp hvalue
        exact .inr (.inl ⟨_, _, hparams, hdest, rfl⟩)
    | indirect a =>
        cases value <;> simp only [Except.ok.injEq, Prod.mk.injEq, reduceCtorEq] at h
        obtain ⟨rfl, rfl⟩ := h
        obtain rfl : src = _ := Operand.ofText_eq_ok_iff.mp hvalue
        obtain ⟨number, rfl, hn⟩ := hdest
        exact .inr (.inr ⟨_, _, hparams, hn, rfl⟩)
    | immediate a => cases value <;> simp at h
  · rintro (⟨src, mode, dest, hparams, ⟨hne, value, hvalue, hsupply⟩, rfl⟩ |
      ⟨src, place, hparams, hplace, rfl⟩ | ⟨src, place, hparams, hplace, rfl⟩)
    · refine ⟨(src, dest.letter), pair_eq_ok_iff.mpr ⟨hparams, hne⟩, value, hvalue,
        .register dest, Operand.ofText_eq_ok_iff.mpr rfl, ?_⟩
      cases value <;> cases hsupply <;> rfl
    · have hne : src.letter ≠ place := by cases hplace <;> cases src <;> simp [Accumulator.letter]
      exact ⟨(src.letter, place), pair_eq_ok_iff.mpr ⟨hparams, hne⟩, .register src,
        Operand.ofText_eq_ok_iff.mpr rfl, .direct n, Operand.ofText_eq_ok_iff.mpr hplace, rfl⟩
    · have hne : src.letter ≠ '(' :: place ++ [')'] := by cases src <;> simp [Accumulator.letter]
      exact ⟨(src.letter, _), pair_eq_ok_iff.mpr ⟨hparams, hne⟩, .register src,
        Operand.ofText_eq_ok_iff.mpr rfl, .indirect n,
        Operand.ofText_eq_ok_iff.mpr ⟨place, rfl, hplace⟩, rfl⟩

theorem going_eq_ok_iff {make : Target → Operation} {op : Operation} :
    s.going make = .ok (op, n) ↔
      ∃ token target, s.params = [token] ∧ Operand.Leads token target n ∧ op = make target := by
  simp only [going, Except.bind_eq_ok_iff, Operand.leads_iff]
  constructor
  · intro h
    obtain ⟨token, hsingle, place, hplace, h⟩ := h
    have hparams := single_eq_ok_iff.mp hsingle
    cases place <;> simp only [Except.ok.injEq, Prod.mk.injEq, reduceCtorEq] at h <;>
      obtain ⟨rfl, rfl⟩ := h <;> exact ⟨_, _, hparams, ⟨_, hplace, rfl⟩, rfl⟩
  · intro h
    obtain ⟨token, target, hparams, ⟨place, hplace, hlead⟩, rfl⟩ := h
    refine ⟨token, single_eq_ok_iff.mpr hparams, place, hplace, ?_⟩
    cases place <;> cases hlead <;> rfl

end Statement

/-! ### Names of commands -/

namespace Mnemonic

/-- The names of a command. -/
def names : Mnemonic → List String
  | .org => ["ORG"]
  | .halt => ["HALT"]
  | .add => ["ADD"]
  | .sub => ["SUB"]
  | .cmp => ["CMP"]
  | .move => ["MOVE"]
  | .jmp => ["JMP"]
  | .branch flag state => branchNames flag state

theorem ofText?_eq_some_iff {t : Text} {m : Mnemonic} :
    ofText? t = some m ↔ ∃ name ∈ m.names, t = name.toList := by
  constructor
  · intro h
    obtain ⟨row, hrow, rfl⟩ := Option.map_eq_some_iff.mp h
    have hnames : ∀ row ∈ table, row.1 ∈ row.2.names := by decide
    have hname : (row.1.toList == t) = true :=
      List.find?_some (p := fun row : String × Mnemonic => row.1.toList == t) hrow
    exact ⟨row.1, hnames row (List.mem_of_find?_eq_some hrow), (eq_of_beq hname).symm⟩
  · intro h
    obtain ⟨name, hname, rfl⟩ := h
    revert name
    cases m with
    | branch flag state => cases flag <;> cases state <;> decide
    | _ => decide

end Mnemonic

/-! ### Words of statements -/

/-- The word of a sentence. -/
def Sentence.word : Sentence → Word
  | .origin address => Word.ofBytes originOpcode address
  | .instruction op operand => Word.ofBytes op.opcode operand

namespace Encoder

variable {enc : Encoder} {s : Statement}

theorem origin_eq_ok_iff {w : Word} :
    enc.origin s = .ok w ↔
      enc.orgDeclared = false ∧ s.position = 1 ∧
        ∃ token n, s.params = [token] ∧ Operand.IsNumber token n ∧
          Word.ofBytes originOpcode n = w := by
  unfold origin
  split
  · next h => simp [h]
  · next h =>
      split
      · next hposition => simp [hposition]
      · next hposition =>
          simp only [Except.bind_eq_ok_iff, Statement.single_eq_ok_iff, Operand.number_eq_ok_iff]
          simp only [Bool.not_eq_true] at h
          simp only [ne_eq, Decidable.not_not] at hposition
          simp only [h, hposition, true_and, pure, Except.pure, Except.ok.injEq]
          exact ⟨fun ⟨token, hparams, n, hn, hw⟩ => ⟨token, n, hparams, hn, hw⟩,
            fun ⟨token, n, hparams, hn, hw⟩ => ⟨token, hparams, n, hn, hw⟩⟩

theorem halt_eq_ok_iff {w : Word} :
    enc.halt s = .ok w ↔
      (∀ last ∈ enc.last, s.position = last.position) ∧ s.params = [] ∧
        Word.ofBytes haltOpcode 0 = w := by
  have hparams : ∀ d : Unit, s.expectParams 0 = .ok d ↔ s.params = [] := by
    intro d
    simp [Statement.expectParams]
  unfold halt
  split
  · next last hlast =>
      simp only [hlast, Option.mem_def, Option.some.injEq, forall_eq']
      split
      · next h => simp [h]
      · next h =>
          simp only [ne_eq, Decidable.not_not] at h
          simp [Except.map_eq_ok_iff, hparams, h]
  · next hlast => simp [hlast, Except.map_eq_ok_iff, hparams]

/-- A command other than an origin or a halt is encoded by its operation. -/
theorem encode_of_operation (m : Mnemonic) {name : String} (hname : name ∈ m.names)
    (hcommand : s.command = name.toList) (horg : m ≠ .org) (hhalt : m ≠ .halt) {op : Operation}
    {n : Byte} (hop : operation s m = .ok (op, n)) :
    enc.encode s = .ok (Word.ofBytes op.opcode n) := by
  rw [encode, Mnemonic.ofText?_eq_some_iff.mpr ⟨name, hname, hcommand⟩]
  cases m with
  | org => exact absurd rfl horg
  | halt => exact absurd rfl hhalt
  | _ => exact Except.map_eq_ok_iff.mpr ⟨_, hop, rfl⟩

/-- A line is encoded as the word of what it says. -/
theorem encode_eq_ok_iff {w : Word} :
    enc.encode s = .ok w ↔ ∃ m, enc.Accepts s m ∧ m.word = w := by
  constructor
  · intro h
    unfold encode at h
    split at h
    · simp at h
    · next hm =>
        obtain ⟨hfirst, hposition, token, n, hparams, hn, rfl⟩ := origin_eq_ok_iff.mp h
        obtain ⟨name, hname, hcommand⟩ := Mnemonic.ofText?_eq_some_iff.mp hm
        obtain rfl : name = "ORG" := List.mem_singleton.mp hname
        exact ⟨_, .origin hcommand hparams hn hposition hfirst, rfl⟩
    · next hm =>
        obtain ⟨hlast, hparams, rfl⟩ := halt_eq_ok_iff.mp h
        obtain ⟨name, hname, hcommand⟩ := Mnemonic.ofText?_eq_some_iff.mp hm
        obtain rfl : name = "HALT" := List.mem_singleton.mp hname
        exact ⟨_, .halt hcommand hparams hlast, rfl⟩
    · next m horg hhalt hm =>
        obtain ⟨⟨op, n⟩, hop, rfl⟩ := Except.map_eq_ok_iff.mp h
        obtain ⟨name, hname, hcommand⟩ := Mnemonic.ofText?_eq_some_iff.mp hm
        refine ⟨.instruction op n, ?_, rfl⟩
        -- all commands but the branches have one name
        cases m with
        | org => exact absurd rfl horg
        | halt => exact absurd rfl hhalt
        | add =>
            obtain ⟨src, mode, dest, hparams, hsrc, rfl⟩ := Statement.arithmetic_eq_ok_iff.mp hop
            obtain rfl : name = "ADD" := List.mem_singleton.mp hname
            exact .add hcommand hparams hsrc
        | sub =>
            obtain ⟨src, mode, dest, hparams, hsrc, rfl⟩ := Statement.arithmetic_eq_ok_iff.mp hop
            obtain rfl : name = "SUB" := List.mem_singleton.mp hname
            exact .sub hcommand hparams hsrc
        | cmp =>
            obtain ⟨src, mode, dest, hparams, hsrc, rfl⟩ := Statement.arithmetic_eq_ok_iff.mp hop
            obtain rfl : name = "CMP" := List.mem_singleton.mp hname
            exact .cmp hcommand hparams hsrc
        | move =>
            obtain rfl : name = "MOVE" := List.mem_singleton.mp hname
            rcases Statement.moving_eq_ok_iff.mp hop with
              ⟨src, mode, dest, hparams, hsrc, rfl⟩ | ⟨src, place, hparams, hplace, rfl⟩ |
                ⟨src, place, hparams, hplace, rfl⟩
            · exact .load hcommand hparams hsrc
            · exact .store hcommand hparams hplace
            · exact .storeIndirect hcommand hparams hplace
        | jmp =>
            obtain ⟨token, target, hparams, htoken, rfl⟩ := Statement.going_eq_ok_iff.mp hop
            obtain rfl : name = "JMP" := List.mem_singleton.mp hname
            exact .jump hcommand hparams htoken
        | branch flag state =>
            obtain ⟨token, target, hparams, htoken, rfl⟩ := Statement.going_eq_ok_iff.mp hop
            exact .branch hname hcommand hparams htoken
  · intro h
    obtain ⟨m, hm, rfl⟩ := h
    cases hm with
    | add hcommand hparams hsrc =>
        exact encode_of_operation .add (List.mem_singleton_self _) hcommand nofun nofun
          (Statement.arithmetic_eq_ok_iff.mpr ⟨_, _, _, hparams, hsrc, rfl⟩)
    | sub hcommand hparams hsrc =>
        exact encode_of_operation .sub (List.mem_singleton_self _) hcommand nofun nofun
          (Statement.arithmetic_eq_ok_iff.mpr ⟨_, _, _, hparams, hsrc, rfl⟩)
    | cmp hcommand hparams hsrc =>
        exact encode_of_operation .cmp (List.mem_singleton_self _) hcommand nofun nofun
          (Statement.arithmetic_eq_ok_iff.mpr ⟨_, _, _, hparams, hsrc, rfl⟩)
    | load hcommand hparams hsrc =>
        exact encode_of_operation .move (List.mem_singleton_self _) hcommand nofun nofun
          (Statement.moving_eq_ok_iff.mpr (.inl ⟨_, _, _, hparams, hsrc, rfl⟩))
    | store hcommand hparams hplace =>
        exact encode_of_operation .move (List.mem_singleton_self _) hcommand nofun nofun
          (Statement.moving_eq_ok_iff.mpr (.inr (.inl ⟨_, _, hparams, hplace, rfl⟩)))
    | storeIndirect hcommand hparams hplace =>
        exact encode_of_operation .move (List.mem_singleton_self _) hcommand nofun nofun
          (Statement.moving_eq_ok_iff.mpr (.inr (.inr ⟨_, _, hparams, hplace, rfl⟩)))
    | jump hcommand hparams htoken =>
        exact encode_of_operation .jmp (List.mem_singleton_self _) hcommand nofun nofun
          (Statement.going_eq_ok_iff.mpr ⟨_, _, hparams, htoken, rfl⟩)
    | branch hname hcommand hparams htoken =>
        exact encode_of_operation (.branch _ _) hname hcommand nofun nofun
          (Statement.going_eq_ok_iff.mpr ⟨_, _, hparams, htoken, rfl⟩)
    | halt hcommand hparams hlast =>
        have hm : Mnemonic.ofText? s.command = some .halt :=
          Mnemonic.ofText?_eq_some_iff.mpr ⟨_, List.mem_singleton_self _, hcommand⟩
        rw [encode, hm]
        exact halt_eq_ok_iff.mpr ⟨hlast, hparams, rfl⟩
    | origin hcommand hparams hn hposition hfirst =>
        have hm : Mnemonic.ofText? s.command = some .org :=
          Mnemonic.ofText?_eq_some_iff.mpr ⟨_, List.mem_singleton_self _, hcommand⟩
        rw [encode, hm]
        exact origin_eq_ok_iff.mpr ⟨hfirst, hposition, _, _, hparams, hn, rfl⟩

/-- The operations that lines say are the ones with opcodes of their own. -/
theorem Accepts.decode?_opcode {op : Operation} {n : Byte}
    (h : enc.Accepts s (.instruction op n)) : Operation.decode? op.opcode = some op := by
  cases h with
  | @add _ mode dest => cases mode <;> cases dest <;> rfl
  | @sub _ mode dest => cases mode <;> cases dest <;> rfl
  | @cmp _ mode dest => cases mode <;> cases dest <;> rfl
  | @load _ mode dest => cases mode <;> cases dest <;> rfl
  | @store src => cases src <;> rfl
  | @storeIndirect src => cases src <;> rfl
  | @jump _ target => cases target <;> rfl
  | @branch _ flag state _ target => cases flag <;> cases state <;> cases target <;> rfl
  | halt => rfl

theorem Accepts.writtenAs {m : Sentence} (h : enc.Accepts s m) : m.WrittenAs m.word := by
  cases m with
  | origin address => exact ⟨Word.high_ofBytes _ _, Word.low_ofBytes _ _⟩
  | instruction op n =>
      exact ⟨by rw [Sentence.word, Word.high_ofBytes, h.decode?_opcode], Word.low_ofBytes _ _⟩

/-- An origin statement is accepted as an origin or not at all. -/
theorem isOk_encode_origin_iff :
    (s.isOrigin && (enc.encode s).isOk) = true ↔ ∃ address, enc.Accepts s (.origin address) := by
  simp only [Bool.and_eq_true]
  constructor
  · intro h
    obtain ⟨horigin, hok⟩ := h
    have hcommand : s.command = "ORG".toList := eq_of_beq horigin
    have hencode : enc.encode s = enc.origin s := by
      have horg : Mnemonic.ofText? s.command = some .org :=
        Mnemonic.ofText?_eq_some_iff.mpr ⟨"ORG", List.mem_singleton_self _, hcommand⟩
      rw [encode, horg]
    rw [hencode] at hok
    cases h : enc.origin s with
    | error defect => simp [h, Except.isOk, Except.toBool] at hok
    | ok w =>
        obtain ⟨hfirst, hposition, token, n, hparams, hn, -⟩ := origin_eq_ok_iff.mp h
        exact ⟨n, .origin hcommand hparams hn hposition hfirst⟩
  · intro h
    obtain ⟨address, h⟩ := h
    have hok := encode_eq_ok_iff.mpr ⟨_, h, rfl⟩
    cases h with
    | origin hcommand => exact ⟨beq_iff_eq.mpr hcommand, by rw [hok]; rfl⟩

/-- **The encoder accepts exactly the language,** and the words of lines say what the lines say.
An encoder remembers of the lines it has tried whether an origin was among those accepted. -/
theorem encode_accepts_language (enc : Encoder) (s : Statement) :
    ((∃ w, enc.encode s = .ok w) ↔ ∃ m, enc.Accepts s m) ∧
      (∀ w m, enc.encode s = .ok w → enc.Accepts s m → m.WrittenAs w) ∧
      (enc.after s).last = enc.last ∧
      ((enc.after s).orgDeclared = true ↔
        enc.orgDeclared = true ∨ ∃ address, enc.Accepts s (.origin address)) := by
  refine ⟨⟨?_, ?_⟩, ?_, rfl, ?_⟩
  · intro h
    obtain ⟨w, hw⟩ := h
    obtain ⟨m, hm, -⟩ := encode_eq_ok_iff.mp hw
    exact ⟨m, hm⟩
  · intro h
    obtain ⟨m, hm⟩ := h
    exact ⟨m.word, encode_eq_ok_iff.mpr ⟨m, hm, rfl⟩⟩
  · intro w m hw hm
    have hword : enc.encode s = .ok m.word := encode_eq_ok_iff.mpr ⟨m, hm, rfl⟩
    obtain rfl : m.word = w := Except.ok.inj (hword.symm.trans hw)
    exact hm.writtenAs
  · rw [after, Bool.or_eq_true, isOk_encode_origin_iff]

/-- A store through a pointer is a line of the language. -/
theorem encode_accepts_language_store_indirect :
    let enc : Encoder := { last := none }
    let s : Statement :=
      ⟨2, 2, {}, none, "MOVE".toList, ["B".toList, "($041)".toList]⟩
    enc.encode s = .ok 0x1B41#16 ∧
      (Sentence.instruction (.store true .b) 0x41).WrittenAs 0x1B41#16 := by
  intro enc s
  have hword : enc.encode s = .ok 0x1B41#16 := by decide
  have hnumber : Operand.IsNumber "$041".toList 0x41 := Operand.number_eq_ok_iff.mp (by decide)
  have hline : enc.Accepts s (.instruction (.store true .b) 0x41) :=
    .storeIndirect rfl rfl hnumber
  exact ⟨hword, (encode_accepts_language enc s).2.1 _ _ hword hline⟩

end Encoder

end TeachingCpu
