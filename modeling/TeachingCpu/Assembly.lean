import TeachingCpu.Assembly.Encoder
import TeachingCpu.Log.Entry
/-!
# TeachingCpu.Assembly

**Assembling**: from source text to machine words.

Assembling never stops at a defect. It takes the source apart (`Outline`), lays it out in memory
(`Layout`) and encodes every statement it can (`Encoder`), and collects what every pass finds.
Two things are settled before the layout: the origin, from the first statement, and the last
line, which a halt must be on. Outlining keeps track of it: it is the last one that is not blank,
whether or not its statement is kept.
-/

set_option autoImplicit false

namespace TeachingCpu

/-- A statement with its word, if it has one. -/
structure EncodedLine where
  statement : Statement
  word : Option Word
deriving DecidableEq, Repr

/-- Whether a statement has no word because it, or what it refers to, was reported. -/
def EncodedLine.failed (l : EncodedLine) : Bool := l.word.isNone

/-- What assembling a source comes to. -/
structure Assembly where
  /-- Every defect, in the order of lines. -/
  diagnostics : List Diagnostic
  /-- The words, that of the origin first. -/
  data : List Word
  symbols : Symbols
  /-- The statements that are kept, in the order of memory, the origin first. -/
  lines : List EncodedLine
deriving DecidableEq, Repr

/-- The diagnostics about the first statement of a program. -/
def Outline.missingOrigin (o : Outline) : List Diagnostic :=
  match o.statements.head? with
  | none => [⟨1, {}, .missingOrg⟩]
  | some s => if s.isOrigin then [] else [s.diagnose .missingOrg]

/-- The origin that the first statement gives, zero if it gives none. -/
def Outline.origin (o : Outline) : Byte :=
  match o.statements.head? with
  | some s =>
    match s.isOrigin, s.params with
    | true, [param] =>
      match Operand.number param with
      | .ok address => address
      | .error _ => 0
    | _, _ => 0
  | none => 0

/-- The diagnostic about a statement that was refused. -/
def Encoding.diagnostic? (s : Statement) : Encoding → Option Diagnostic
  | .refused defect => some (s.diagnose defect)
  | _ => none

namespace Assembly

/-- Assembles a source. -/
def assemble (source : Text) : Assembly :=
  let (outline, structural) := Outline.ofLines (SourceLine.scan source)
  let layout := outline.layout outline.origin
  let encoded := ({ last := outline.last } : Encoder).encodeAll layout.placements
  { diagnostics := Diagnostic.sort
      (structural ++ outline.missingOrigin ++ layout.diagnostics ++
        encoded.filterMap fun (s, encoding) => encoding.diagnostic? s)
    data := encoded.filterMap fun (_, encoding) => encoding.word?
    symbols := layout.symbols
    lines := encoded.map fun (s, encoding) => ⟨s, encoding.word?⟩ }

/-- Whether a source was assembled: it has no defects. -/
def assembled (a : Assembly) : Bool := a.diagnostics.isEmpty

/-- The texts of the defects. -/
def messages (a : Assembly) : List String := a.diagnostics.map (·.message)

/-- What assembling reports: the defects. -/
def log (a : Assembly) : List Entry := a.messages.map (⟨.error, ·⟩)

/-- The address at which the words are to be loaded, if the origin has a word. -/
def origin (a : Assembly) : Option Byte :=
  match a.lines.find? (·.statement.isOrigin) with
  | some l => l.word.map Word.low
  | none => none

end Assembly

end TeachingCpu
