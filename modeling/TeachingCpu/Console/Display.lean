import TeachingCpu.Machine.Engine
/-!
# TeachingCpu.Console.Display

What the console **shows** of an engine.
-/

set_option autoImplicit false

namespace TeachingCpu

namespace Display

/-- A row of the table of registers: a name in a column of eight, a word in hexadecimal, and two
numbers in columns of six. -/
def row (name word unsigned signed : Text) : String :=
  String.ofList (Text.padRight 8 name ++ ' ' :: word ++ [' ', ' '] ++ Text.padLeft 6 ' ' unsigned ++
    [' ', ' '] ++ Text.padLeft 6 ' ' signed)

/-- The row of a word. -/
def wordRow (name : String) (w : Word) : String :=
  row name.toList w.hex (toString w.toNat).toList (toString w.toInt).toList

/-- The table of every register, then the latches of the arithmetic unit and its circuit. -/
def registers (e : Engine) : List String :=
  row [] "hex".toList "uint".toList "int".toList ::
  (Register.all.map fun r => wordRow r.name (e.cpu.registers.read r)) ++
  [wordRow "ALU.x" e.cpu.alu.x, wordRow "ALU.y" e.cpu.alu.y, wordRow "ALU.z" e.cpu.alu.z,
   s!"ALU circuit {e.cpu.alu.circuit.name} ({e.cpu.alu.circuit.symbol})"]

/-- The flags, then the whole status register in binary. -/
def flags (e : Engine) : String :=
  let states := Flag.all.map fun f => s!"{f.letter} {(e.cpu.status.get f).toNat}  "
  s!"{String.join states}(PSR {String.ofList e.cpu.status.binary})"

/-- The words of memory from an address on, up to `count` of them. -/
def memory (e : Engine) (address : Byte) (count : Nat) : List String :=
  let shown (a : Byte) : Bool := address ≤ a && a.val < address.val + count
  ((List.finRange 256).filter shown).map fun a =>
    let digits := String.ofList (Numeral.fixed Numeral.smallDigit 16 2 a.val)
    s!"0x{digits}  {String.ofList (e.cpu.memory.get a).hex}"

/-- What the engine is doing, the current instruction, and whether the machine has halted. -/
def status (e : Engine) : String :=
  let current := match e.cpu.current with
    | some i => s!"{String.ofList i.id.hex} {i.mnemonic}"
    | none => "none"
  let halted := if e.halted then " (halted)" else ""
  s!"{e.phaseName}, current instruction: {current}{halted}"

end Display

end TeachingCpu
