import TeachingCpu.InstructionSet.Table
import TeachingCpu.Json
/-!
# TeachingCpu.InstructionSet.Document

**Instruction sets in JSON**: a record with the field `instructions`, a list of records with an
`id`, a `mnemonic` and a `description`.

An id is a number below 256 written as digits alone.
-/

set_option autoImplicit false

namespace TeachingCpu

/-- Why a document is no instruction set. -/
inductive DocumentError
  /-- It is no JSON, or does not have the shape of an instruction set. -/
  | malformed
  /-- Two instructions have the same id. -/
  | duplicateId (error : DuplicateId)
deriving DecidableEq, Repr

/-- The text of an error in a document. -/
def DocumentError.message : DocumentError → String
  | .malformed => "Malformed instruction set: not a table of instructions"
  | .duplicateId error => error.message

namespace Json

/-- The byte that a value is. -/
def byte? : Json → Option Byte
  | .number spelling => (Numeral.read? 10 spelling).bind Byte.ofNat?
  | _ => none

/-- The text that a value is. -/
def text? : Json → Option String
  | .string (some text) => some (String.ofList text)
  | _ => none

/-- The items that a value has as a list. -/
def items : Json → Option (List Json)
  | .array items => some items
  | _ => none

/-- The instruction that a value is. -/
def instruction? (value : Json) : Option Instruction := do
  match ← fields? ["id", "mnemonic", "description"] value with
  | [id, mnemonic, description] =>
    return ⟨← id.byte?, ← mnemonic.text?, ← description.text?⟩
  | _ => none

/-- The instructions that a value lists as an instruction set. -/
def instructions? (value : Json) : Option (List Instruction) := do
  match ← fields? ["instructions"] value with
  | [list] => (← list.items).mapM instruction?
  | _ => none

end Json

/-- The instruction set that a document holds. -/
def InstructionSet.ofDocument (document : Text) : Except DocumentError InstructionSet :=
  match (Json.read? document).bind Json.instructions? with
  | none => .error .malformed
  | some entries =>
    match ofEntries entries with
    | .ok table => .ok table
    | .error error => .error (.duplicateId error)

end TeachingCpu
