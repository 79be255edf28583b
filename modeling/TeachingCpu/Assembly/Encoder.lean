import TeachingCpu.Assembly.Layout
/-!
# TeachingCpu.Assembly.Encoder

**Encoding**: the word of a statement.

What a command takes is decided by its mnemonic and the operands alone, except for two commands
whose place matters: an origin is accepted once and on the first line, and a halt only on the
last line that is not blank, kept in the program or not.
-/

set_option autoImplicit false

namespace TeachingCpu

/-- A command of the assembly language. -/
inductive Mnemonic
  | org
  | halt
  | add
  | sub
  | cmp
  | move
  | jmp
  /-- Goes to an address if a flag is in a state. -/
  | branch (flag : Flag) (state : Bool)
deriving DecidableEq, Repr

namespace Mnemonic

/-- The commands by name. Four branches have a second name that says what a comparison found. -/
def table : List (String × Mnemonic) :=
  [("ORG", .org), ("HALT", .halt), ("ADD", .add), ("SUB", .sub), ("CMP", .cmp),
   ("MOVE", .move), ("JMP", .jmp),
   ("BCS", .branch .carry true), ("BCC", .branch .carry false),
   ("BNS", .branch .negative true), ("BNC", .branch .negative false),
   ("BZS", .branch .zero true), ("BZC", .branch .zero false),
   ("BVS", .branch .overflow true), ("BVC", .branch .overflow false),
   ("BMI", .branch .negative true), ("BPL", .branch .negative false),
   ("BEQ", .branch .zero true), ("BNE", .branch .zero false)]

/-- The command with a name, letter case included. -/
def ofText? (t : Text) : Option Mnemonic :=
  (table.find? fun row => row.1.toList == t).map Prod.snd

end Mnemonic

namespace Statement

/-- Requires a number of parameters. -/
def expectParams (s : Statement) (expected : Nat) : Except Defect Unit :=
  if s.params.length = expected then .ok () else .error (.parameterCount expected)

/-- The one parameter of a statement. -/
def single (s : Statement) : Except Defect Text :=
  match s.params with
  | [param] => .ok param
  | _ => .error (.parameterCount 1)

/-- The two parameters of a statement, which must differ. -/
def pair (s : Statement) : Except Defect (Text × Text) :=
  match s.params with
  | [src, dest] => if src = dest then .error .identicalParameters else .ok (src, dest)
  | _ => .error (.parameterCount 2)

/-- The operation that joins a value with a register, and its operand byte. -/
def arithmetic (make : Mode → Accumulator → Operation) (s : Statement) :
    Except Defect (Operation × Byte) := do
  let (src, dest) ← s.pair
  match ← Operand.ofText dest with
  | .register d =>
    match ← Operand.ofText src with
    | .immediate n => .ok (make .immediate d, n)
    | .direct a => .ok (make .direct d, a)
    | .register _ => .ok (make .register d, 0)
    | .indirect _ => .error (.invalidOperand src)
  | _ => .error (.invalidOperand dest)

/-- The operation that moves a value into a register or a register into memory, and its operand
byte. -/
def moving (s : Statement) : Except Defect (Operation × Byte) := do
  let (src, dest) ← s.pair
  let value ← Operand.ofText src
  let place ← Operand.ofText dest
  match value, place with
  | .immediate n, .register d => .ok (.load .immediate d, n)
  | .direct a, .register d => .ok (.load .direct d, a)
  | .register _, .register d => .ok (.load .register d, 0)
  | .register r, .direct a => .ok (.store false r, a)
  | .register r, .indirect a => .ok (.store true r, a)
  | _, .immediate _ => .error (.invalidOperand dest)
  | _, _ => .error (.invalidOperand src)

/-- The operation that goes somewhere, and its operand byte. -/
def going (make : Target → Operation) (s : Statement) : Except Defect (Operation × Byte) := do
  let token ← s.single
  match ← Operand.ofText token with
  | .immediate a => .ok (make .immediate, a)
  | .direct a => .ok (make .direct, a)
  | _ => .error (.invalidOperand token)

end Statement

/-- What the encoding of a statement depends on besides the statement. -/
structure Encoder where
  /-- The last line of the program, if it has any. -/
  last : Option LastLine
  /-- Whether an origin has been accepted. -/
  orgDeclared : Bool := false
deriving DecidableEq, Repr

namespace Encoder

/-- The word of an origin: its high byte is zero. -/
def origin (enc : Encoder) (s : Statement) : Except Defect Word :=
  if enc.orgDeclared then .error .orgRedeclared
  else if s.position ≠ 1 then .error .orgNotFirst
  else do
    let address ← Operand.number (← s.single)
    return Word.ofBytes originOpcode address

/-- The word of a halt. -/
def halt (enc : Encoder) (s : Statement) : Except Defect Word :=
  match enc.last with
  | some last =>
    if s.position ≠ last.position then .error (.haltNotLast last.line)
    else (s.expectParams 0).map fun _ => Word.ofBytes haltOpcode 0
  | none => (s.expectParams 0).map fun _ => Word.ofBytes haltOpcode 0

/-- The operation of a statement other than an origin or a halt, and its operand byte. -/
def operation (s : Statement) : Mnemonic → Except Defect (Operation × Byte)
  | .add => s.arithmetic (.compute .add)
  | .sub => s.arithmetic (.compute .sub)
  | .cmp => s.arithmetic .compare
  | .move => s.moving
  | .jmp => s.going .jump
  | .branch flag state => s.going (.branch flag state)
  | .org => .error .unknownCommand
  | .halt => .ok (.halt, 0)

/-- The word of a statement. -/
def encode (enc : Encoder) (s : Statement) : Except Defect Word :=
  match Mnemonic.ofText? s.command with
  | none => .error .unknownCommand
  | some .org => enc.origin s
  | some .halt => enc.halt s
  | some m => (operation s m).map fun (op, operand) => Word.ofBytes op.opcode operand

/-- The encoder for the statements after one that was tried. -/
def after (enc : Encoder) (s : Statement) : Encoder :=
  { enc with orgDeclared := enc.orgDeclared || s.isOrigin && (enc.encode s).isOk }

end Encoder

/-- What becomes of a placed statement. -/
inductive Encoding
  /-- It was reported already. -/
  | withheld
  /-- It has no word because of a defect. -/
  | refused (defect : Defect)
  /-- It has a word. -/
  | word (w : Word)
deriving DecidableEq, Repr

/-- The word of an encoding, if there is one. -/
def Encoding.word? : Encoding → Option Word
  | .word w => some w
  | _ => none

namespace Encoder

/-- The encodings of placed statements, in order. -/
def encodeAll (enc : Encoder) : List Placement → List (Statement × Encoding)
  | [] => []
  | p :: rest =>
    if p.encodable then
      let encoding := match enc.encode p.statement with
        | .ok w => Encoding.word w
        | .error defect => .refused defect
      (p.statement, encoding) :: encodeAll (enc.after p.statement) rest
    else (p.statement, .withheld) :: encodeAll enc rest

end Encoder

end TeachingCpu
