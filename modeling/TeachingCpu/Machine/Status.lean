import TeachingCpu.Machine.Word
/-!
# TeachingCpu.Machine.Status

The **processor status register** and its four flags.

The register is a byte of which the flags occupy the four low bits. Setting a flag touches its
own bit only, so the four high bits keep what they held (`Status.get_set_self`,
`Status.get_set_of_ne`).
-/

set_option autoImplicit false

namespace TeachingCpu

/-- A flag of the processor status register. -/
inductive Flag
  /-- The unsigned result did not fit. -/
  | carry
  /-- The result is zero. -/
  | zero
  /-- The result has its top bit set. -/
  | negative
  /-- The signed result did not fit. -/
  | overflow
deriving DecidableEq, Repr

namespace Flag

/-- Every flag, in the order of their bits. -/
def all : List Flag := [.carry, .zero, .negative, .overflow]

/-- The position of the bit of a flag. -/
def index : Flag → Nat
  | .carry => 0
  | .zero => 1
  | .negative => 2
  | .overflow => 3

/-- The full name of a flag. -/
def name : Flag → String
  | .carry => "CARRY"
  | .zero => "ZERO"
  | .negative => "NEGATIVE"
  | .overflow => "OVERFLOW"

/-- The letter of a flag. -/
def letter : Flag → Char
  | .carry => 'C'
  | .zero => 'Z'
  | .negative => 'N'
  | .overflow => 'V'

/-- The flag that a text names by its letter or its full name, letter case aside. -/
def ofName? (t : Text) : Option Flag :=
  all.find? fun f => [f.letter] == t.upper || f.name.toList == t.upper

end Flag

/-- The processor status register. -/
structure Status where
  /-- Its bits, of which the low four are flags. -/
  bits : BitVec 8 := 0
deriving DecidableEq, Repr

namespace Status

/-- The state of a flag. -/
def get (s : Status) (f : Flag) : Bool := s.bits.getLsbD f.index

/-- Puts a flag into a state. -/
def set (s : Status) (f : Flag) (state : Bool) : Status :=
  if s.get f = state then s else { bits := s.bits ^^^ BitVec.twoPow 8 f.index }

/-- The eight binary digits of the register. -/
def binary (s : Status) : Text := Numeral.fixed Numeral.smallDigit 2 8 s.bits.toNat

@[simp] theorem get_set_self (s : Status) (f : Flag) (state : Bool) :
    (s.set f state).get f = state := by
  unfold set
  split
  · assumption
  · next h => cases f <;> cases state <;> simp_all [get, Flag.index]

theorem get_set_of_ne (s : Status) {f g : Flag} (state : Bool) (h : f ≠ g) :
    (s.set f state).get g = s.get g := by
  unfold set
  split
  · rfl
  · cases f <;> cases g <;> simp_all [get, Flag.index]

end Status

end TeachingCpu
