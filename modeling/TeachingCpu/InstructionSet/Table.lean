import TeachingCpu.InstructionSet.Operation
/-!
# TeachingCpu.InstructionSet.Table

The **instruction set**: the list of instructions that a machine can decode.

An entry says by its id that an opcode exists, and carries words for people. What the opcode does
is fixed by `Operation.decode?`; a table can leave opcodes out, or list ids that mean nothing.

The entries are kept under their ids. `InstructionSet.ofEntries` takes them up one after the other
and refuses an id that is a key already; that the keys of what it makes are ids and differ is proved
of this loop (`WellKeyed.declareAll`).
-/

set_option autoImplicit false

namespace TeachingCpu

/-- An entry of the instruction set. -/
structure Instruction where
  /-- The opcode. -/
  id : Byte
  /-- Its short name with operands. -/
  mnemonic : String
  /-- What it does, in a few words. -/
  description : String
deriving DecidableEq, Repr

/-- The line that shows an instruction: id, mnemonic and description in columns. -/
def Instruction.line (i : Instruction) : String :=
  let id := String.ofList i.id.hex
  let mnemonic := String.ofList (Text.padRight 12 i.mnemonic.toList)
  s!"{id}  {mnemonic} {i.description}"

/-- Two entries of a table have the same id. -/
structure DuplicateId where
  id : Byte
deriving DecidableEq, Repr

/-- The text of a duplicate id. -/
def DuplicateId.message (e : DuplicateId) : String :=
  let digits := String.ofList (Numeral.padded 2 e.id)
  s!"Instruction id 0x{digits} is declared more than once"

/-- Rows of a table: entries under their ids, no id twice. -/
structure WellKeyed (rows : List (Byte × Instruction)) : Prop where
  /-- The key of an entry is its id. -/
  keyed : ∀ row ∈ rows, row.1 = row.2.id
  /-- The keys differ. -/
  distinct : (rows.map Prod.fst).Nodup

/-- The instructions a machine knows under their ids, in the order of their declaration. -/
structure InstructionSet where
  rows : List (Byte × Instruction)
  wellKeyed : WellKeyed rows
deriving DecidableEq

namespace InstructionSet

/-- The instructions of a table. -/
def entries (table : InstructionSet) : List Instruction := table.rows.map Prod.snd

/-- The instruction with an opcode. -/
def lookup (table : InstructionSet) (opcode : Byte) : Option Instruction :=
  table.rows.lookup opcode

/-- The rows with one entry more, unless its id is a key already. -/
def declare (rows : List (Byte × Instruction)) (i : Instruction) :
    Except DuplicateId (List (Byte × Instruction)) :=
  if (rows.lookup i.id).isSome then .error ⟨i.id⟩ else .ok (rows ++ [(i.id, i)])

/-- The rows with more entries, taken up one after the other. -/
def declareAll (rows : List (Byte × Instruction)) :
    List Instruction → Except DuplicateId (List (Byte × Instruction))
  | [] => .ok rows
  | i :: rest =>
    match declare rows i with
    | .error error => .error error
    | .ok rows => declareAll rows rest

end InstructionSet

namespace WellKeyed

variable {rows next : List (Byte × Instruction)} {i : Instruction}

theorem nil : WellKeyed [] where
  keyed := nofun
  distinct := .nil

/-- An entry that is taken up has a key of its own. -/
theorem declare (h : WellKeyed rows) (hdeclare : InstructionSet.declare rows i = .ok next) :
    WellKeyed next := by
  unfold InstructionSet.declare at hdeclare
  split at hdeclare
  · exact nomatch hdeclare
  · next hnew =>
      obtain rfl := Except.ok.inj hdeclare
      rw [Option.not_isSome_iff_eq_none, List.lookup_eq_none_iff] at hnew
      constructor
      · intro row hrow
        cases List.mem_append.mp hrow with
        | inl hrow => exact h.keyed row hrow
        | inr hrow => rw [List.mem_singleton.mp hrow]
      · rw [List.map_append, List.nodup_append]
        refine ⟨h.distinct, by simp, fun key hkey key' hkey' => ?_⟩
        obtain ⟨row, hrow, rfl⟩ := List.mem_map.mp hkey
        rw [List.mem_singleton.mp hkey']
        exact (bne_iff_ne.mp (hnew row hrow)).symm

/-- What the loop of declarations leaves is well keyed, if what it started from was. -/
theorem declareAll {entries : List Instruction} (h : WellKeyed rows)
    (hdeclare : InstructionSet.declareAll rows entries = .ok next) : WellKeyed next := by
  induction entries generalizing rows with
  | nil => exact Except.ok.inj hdeclare ▸ h
  | cons i rest ih =>
      rw [InstructionSet.declareAll] at hdeclare
      split at hdeclare
      · exact nomatch hdeclare
      · next hfirst => exact ih (h.declare hfirst) hdeclare

/-- Entries with different ids are well keyed by them. -/
theorem ofDistinct {entries : List Instruction} (h : (entries.map (·.id)).Nodup) :
    WellKeyed (entries.map fun i => (i.id, i)) where
  keyed row hrow := by
    obtain ⟨i, -, rfl⟩ := List.mem_map.mp hrow
    rfl
  distinct := by
    rw [List.map_map]
    exact h

end WellKeyed

namespace InstructionSet

/-- The instruction set with these entries, if their ids differ. -/
def ofEntries (entries : List Instruction) : Except DuplicateId InstructionSet :=
  match h : declareAll [] entries with
  | .error error => .error error
  | .ok rows => .ok ⟨rows, WellKeyed.nil.declareAll h⟩

/-- The instruction set with entries whose ids are known to differ. -/
def ofDistinct (entries : List Instruction) (h : (entries.map (·.id)).Nodup) : InstructionSet :=
  ⟨entries.map fun i => (i.id, i), .ofDistinct h⟩

end InstructionSet

end TeachingCpu
