import TeachingCpu.Machine.Word
/-!
# TeachingCpu.Machine.Memory

**Memory**: 256 words, and the pointer through which micro-instructions reach them.

An address arrives as a word and may be out of range; the pointer is a byte and cannot be. So
`Memory.setPointer` is the only place where a running program can miss memory, and access through
the pointer never fails.
-/

set_option autoImplicit false

namespace TeachingCpu

/-- The state of memory. -/
structure Memory where
  /-- The words, by address. -/
  slots : Vector Word 256 := Vector.replicate 256 0
  /-- The address selected last. -/
  pointer : Byte := 0
deriving DecidableEq

/-- Why memory refuses an access. -/
inductive MemoryError
  /-- The address is past the last slot. -/
  | addressOutOfRange (address : Word)
  /-- So many words do not fit at the origin. -/
  | programTooLarge (origin : Word) (length : Nat)
deriving DecidableEq, Repr

/-- The text of a memory error. -/
def MemoryError.message : MemoryError → String
  | .addressOutOfRange address =>
    let digits := String.ofList (Numeral.padded 4 address.toNat)
    s!"Address 0x{digits} exceeds memory size of 256 slots"
  | .programTooLarge origin length =>
    let digits := String.ofList (Numeral.padded 2 origin.toNat)
    s!"Not enough room in memory to load {length} words at 0x{digits}"

namespace Memory

/-- The address that a word names, or the refusal. -/
def locate (address : Word) : Except MemoryError Byte :=
  match address.address? with
  | some a => .ok a
  | none => .error (.addressOutOfRange address)

/-- The word at an address. -/
def get (m : Memory) (address : Byte) : Word := m.slots[address]

/-- The memory with the word at an address replaced. -/
def set (m : Memory) (address : Byte) (word : Word) : Memory :=
  { m with slots := m.slots.set address word }

/-- The word at the address that a word names. -/
def read (m : Memory) (address : Word) : Except MemoryError Word :=
  (locate address).map m.get

/-- Replaces the word at the address that a word names. -/
def write (m : Memory) (address word : Word) : Except MemoryError Memory :=
  (locate address).map fun a => m.set a word

/-- Points at the address that a word names. -/
def setPointer (m : Memory) (address : Word) : Except MemoryError Memory :=
  (locate address).map fun a => { m with pointer := a }

/-- The word pointed at. -/
def readAtPointer (m : Memory) : Word := m.get m.pointer

/-- Replaces the word pointed at. -/
def writeAtPointer (m : Memory) (word : Word) : Memory := m.set m.pointer word

/-- Places words from `origin` on, if all of them fit; the pointer stays. -/
def load (m : Memory) (origin : Word) (words : List Word) : Except MemoryError Memory :=
  if 256 < origin.toNat + words.length then .error (.programTooLarge origin words.length)
  else .ok { m with
    slots := Vector.ofFn fun i =>
      if origin.toNat ≤ i then words.getD (i - origin.toNat) m.slots[i] else m.slots[i] }

/-! ### Access laws -/

@[simp] theorem get_set_self (m : Memory) (a : Byte) (w : Word) : (m.set a w).get a = w := by
  simp [get, set]

theorem get_set_of_ne (m : Memory) {a b : Byte} (w : Word) (h : a ≠ b) :
    (m.set a w).get b = m.get b := by
  simp [get, set, Fin.val_ne_of_ne h]

@[simp] theorem pointer_set (m : Memory) (a : Byte) (w : Word) : (m.set a w).pointer = m.pointer :=
  rfl

end Memory

end TeachingCpu
