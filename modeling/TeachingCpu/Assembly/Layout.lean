import TeachingCpu.Assembly.Operand
import TeachingCpu.Assembly.Outline
/-!
# TeachingCpu.Assembly.Layout

The **layout** of a program in memory: which statements are kept, at which address each stands,
and what its labels stand for.

The main body comes first and the subroutines that something refers to follow, without gaps, in
the order of the source; a subroutine that nothing refers to is left out. The address of a
subroutine is the origin plus the number of words before it. A label whose address would be past
the end of memory has none, and references to it stay as they are, like those to a label that
nothing declares; a statement that still holds a label has no encoding.
-/

set_option autoImplicit false

namespace TeachingCpu

/-- The address of each label, in the order of the subroutines. -/
abbrev Symbols := List (Text × Byte)

/-- A statement with the address of its word, if it has one; the address may be past memory. -/
structure Placement where
  statement : Statement
  address : Option Nat
deriving DecidableEq, Repr

/-- Whether the word of a statement would be past the end of memory. -/
def Placement.pastMemory (p : Placement) : Bool :=
  match p.address with
  | some a => 256 ≤ a
  | none => false

namespace Outline

/-- The subroutines that some statement refers to. -/
def keptSubroutines (o : Outline) : List Subroutine :=
  o.subroutines.filter fun s => o.refersTo s.label

/-- Subroutines with the address at which each begins, the first at `next`. -/
def addressesFrom : (next : Nat) → List Subroutine → List (Subroutine × Nat)
  | _, [] => []
  | next, s :: rest => (s, next) :: addressesFrom (next + s.loadedLength) rest

/-- The kept subroutines of a program loaded at `origin`, with their addresses. -/
def addresses (o : Outline) (origin : Byte) : List (Subroutine × Nat) :=
  addressesFrom (origin + o.mainLength) o.keptSubroutines

/-- The addresses of the labels that have one. -/
def symbols (o : Outline) (origin : Byte) : Symbols :=
  (o.addresses origin).filterMap fun (s, a) => (Byte.ofNat? a).map fun b => (s.label, b)

/-- The diagnostics about subroutines that begin past the end of memory. -/
def lateSubroutines (o : Outline) (origin : Byte) : List Diagnostic :=
  ((o.addresses origin).filter fun (_, a) => 256 ≤ a).map fun (s, _) =>
    s.opening.diagnose .addressTooLarge

/-- The labels that statements refer to, in the order of their first references. -/
def referencedLabels (o : Outline) : List Text :=
  (o.statements.flatMap (·.references)).eraseDups

/-- The diagnostics about references to a label, one for each. -/
def undefinedReferences (o : Outline) (label : Text) : List Diagnostic :=
  o.statements.flatMap fun s =>
    List.replicate (s.references.count label) (s.diagnose (.undefinedLabel label))

/-- The diagnostics about references to labels that nothing declares. -/
def undefinedLabels (o : Outline) : List Diagnostic :=
  (o.referencedLabels.filter fun label => !o.declares label).flatMap o.undefinedReferences

/-- The statements that are kept, in the order of memory. -/
def keptStatements (o : Outline) : List Statement :=
  o.main ++ o.keptSubroutines.flatMap (·.statements)

end Outline

namespace Symbols

/-- A parameter with a label that has an address replaced by that address as a value. -/
def resolve (symbols : Symbols) (param : Text) : Text :=
  if isLabel param then
    match symbols.lookup param with
    | some address => Operand.immediateText address
    | none => param
  else param

end Symbols

/-- The statement with its references resolved. -/
def Statement.resolve (symbols : Symbols) (s : Statement) : Statement :=
  { s with params := s.params.map (Symbols.resolve symbols) }

/-- Statements with the addresses of their words, the first of which is at `next`. -/
def Placement.sequence : (next : Nat) → List Statement → List Placement
  | _, [] => []
  | next, s :: rest =>
    if s.isLoaded then ⟨s, some next⟩ :: sequence (next + 1) rest
    else ⟨s, none⟩ :: sequence next rest

/-- Whether a statement can be given a word: it is within memory and holds no label any more. -/
def Placement.encodable (p : Placement) : Bool :=
  !p.pastMemory && p.statement.references.isEmpty

/-- A program laid out in memory. -/
structure Layout where
  placements : List Placement
  symbols : Symbols
  diagnostics : List Diagnostic

/-- The layout of a program that is loaded at `origin`. Subroutines that begin past the end of
memory are reported; if none does, the first word past the end is. -/
def Outline.layout (o : Outline) (origin : Byte) : Layout :=
  let symbols := o.symbols origin
  let placements := Placement.sequence origin (o.keptStatements.map (·.resolve symbols))
  let late := o.lateSubroutines origin
  let overrun :=
    if late.isEmpty then
      ((placements.find? (·.pastMemory)).map fun p =>
        p.statement.diagnose .addressTooLarge).toList
    else []
  { placements, symbols, diagnostics := late ++ o.undefinedLabels ++ overrun }

end TeachingCpu
