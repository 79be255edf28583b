import TeachingCpu.Machine.Status
/-!
# TeachingCpu.Machine.Alu

The **arithmetic unit**: two input latches, an output latch and the circuit that joins them.

Computing sets all four flags of the status register; a division by zero leaves both the output
latch and the register as they were, since the failure is found before either is written.
-/

set_option autoImplicit false

namespace TeachingCpu

/-- What the arithmetic unit can be set to do. -/
inductive Circuit
  | add
  | sub
  | mul
  | div
deriving DecidableEq, Repr

namespace Circuit

/-- Every circuit. -/
def all : List Circuit := [.add, .sub, .mul, .div]

/-- The name of the operation that a circuit performs. -/
def name : Circuit → String
  | .add => "addition"
  | .sub => "subtraction"
  | .mul => "multiplication"
  | .div => "division"

/-- The sign of the operation that a circuit performs. -/
def symbol : Circuit → Char
  | .add => '+'
  | .sub => '-'
  | .mul => '×'
  | .div => '÷'

/-- The words by which a circuit is selected. -/
def keywords : Circuit → List String
  | .add => ["add", "+"]
  | .sub => ["sub", "-"]
  | .mul => ["mul", "*"]
  | .div => ["div", "/"]

/-- The circuit that a text selects, letter case aside. -/
def ofName? (t : Text) : Option Circuit :=
  all.find? fun c => c.keywords.any fun k => k.toList == t.lower

/-- What a circuit makes of two words. -/
def compute : Circuit → Word → Word → Except WordError Computed
  | .add, x, y => .ok (Word.add x y)
  | .sub, x, y => .ok (Word.subtract x y)
  | .mul, x, y => .ok (Word.multiply x y)
  | .div, x, y => Word.divide x y

end Circuit

/-- The state of the arithmetic unit. -/
structure Alu where
  /-- The left input. -/
  x : Word := 0
  /-- The right input. -/
  y : Word := 0
  /-- The output. -/
  z : Word := 0
  /-- The operation selected. -/
  circuit : Circuit := .add
deriving DecidableEq, Repr

/-- The status register after a result: every flag is set from it. -/
def Status.record (s : Status) (result : Computed) : Status :=
  (((s.set .zero (result.word == 0)).set .negative result.word.isNegative).set
    .overflow result.overflow).set .carry result.carry

namespace Alu

/-- Puts the result of the selected operation into the output and the flags. -/
def compute (alu : Alu) (status : Status) : Except WordError (Alu × Status) :=
  match alu.circuit.compute alu.x alu.y with
  | .ok result => .ok ({ alu with z := result.word }, status.record result)
  | .error error => .error error

end Alu

end TeachingCpu
