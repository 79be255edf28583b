import TeachingCpu.Assembly
import TeachingCpu.Proofs.Assembly.Lines
import TeachingCpu.Proofs.Assembly.Partition
import TeachingCpu.Proofs.Assembly.Refusal
/-!
# TeachingCpu.Proofs.Assembly.Relocation

**Relocating a source**: giving its lines other numbers and other spans, as blank lines and
comments between them do.

Assembling carries the number and the span of a line along to the diagnostics about it and looks at
neither. So every pass commutes with relocating: what it makes of the relocated source is what it
makes of the source, relocated.
-/

set_option autoImplicit false

namespace TeachingCpu

/-- Where the lines of one source stand in another: the number, and the span, that the line with a
number has there. -/
structure Relocation where
  line : Nat → Nat
  span : Nat → Span

/-! ### What has a place in the source -/

/-- A source line with its place in the other source. -/
def SourceLine.relocate (r : Relocation) (l : SourceLine) : SourceLine :=
  { l with line := r.line l.line, span := r.span l.line }

def Statement.relocate (r : Relocation) (s : Statement) : Statement :=
  { s with line := r.line s.line, span := r.span s.line }

def Subroutine.relocate (r : Relocation) (s : Subroutine) : Subroutine :=
  { s with opening := s.opening.relocate r, body := s.body.map (·.relocate r) }

def LastLine.relocate (r : Relocation) (l : LastLine) : LastLine :=
  { l with line := r.line l.line }

def Outline.relocate (r : Relocation) (o : Outline) : Outline where
  main := o.main.map (·.relocate r)
  subroutines := o.subroutines.map (·.relocate r)
  last := o.last.map (·.relocate r)

/-- The last line, which a halt must be on, has a number of its own. -/
def Defect.relocate (r : Relocation) : Defect → Defect
  | .haltNotLast last => .haltNotLast (r.line last)
  | defect => defect

def Diagnostic.relocate (r : Relocation) (d : Diagnostic) : Diagnostic :=
  ⟨r.line d.line, r.span d.line, d.defect.relocate r⟩

def Placement.relocate (r : Relocation) (p : Placement) : Placement :=
  { p with statement := p.statement.relocate r }

def Encoder.relocate (r : Relocation) (enc : Encoder) : Encoder :=
  { enc with last := enc.last.map (·.relocate r) }

def Encoding.relocate (r : Relocation) : Encoding → Encoding
  | .refused defect => .refused (defect.relocate r)
  | encoding => encoding

def EncodedLine.relocate (r : Relocation) (l : EncodedLine) : EncodedLine :=
  { l with statement := l.statement.relocate r }

variable (r : Relocation)

theorem Subroutine.statements_relocate (s : Subroutine) :
    (s.relocate r).statements = s.statements.map (·.relocate r) := rfl

/-! ### Outlining -/

theorem LastLine.track_relocate (last : Option LastLine) (position line : Nat) :
    track (last.map (·.relocate r)) position (r.line line) =
      (track last position line).map (·.relocate r) := by
  cases last with
  | none => rfl
  | some seen =>
      by_cases hlater : seen.position < position <;> simp [track, relocate, hlater]

namespace Outline

theorem follow_relocate (kept : Bool) (declared : List Text) (last : Option LastLine)
    (lines : List SourceLine) :
    follow kept declared (last.map (·.relocate r)) (lines.map (·.relocate r)) =
      ⟨(follow kept declared last lines).outline.relocate r,
        (follow kept declared last lines).diagnostics.map (·.relocate r)⟩ := by
  induction lines generalizing kept declared last with
  | nil => rfl
  | cons l rest ih =>
      -- all that is looked at, of a line, stays; its number is carried along
      have htext : (l.relocate r).text = l.text := rfl
      have hposition : (l.relocate r).position = l.position := rfl
      have hline : (l.relocate r).line = r.line l.line := rfl
      rw [List.map_cons, follow, follow, htext, hposition, hline]
      cases l.kind with
      | broken hfields hlabel =>
          simp only [hfields, LastLine.track_relocate, ih]
          rfl
      | plain fields hfields hname hlabel =>
          cases kept <;> simp only [hfields, hname, LastLine.track_relocate, ih] <;> rfl
      | misnamed fields name hfields hname hno hlabel =>
          simp only [hfields, hname, hno, LastLine.track_relocate, ih]
          rfl
      | labelled fields label hfields hname hyes hlabel =>
          by_cases hdeclared : declared.contains label = true <;>
            by_cases hfirst : l.position = 1 <;>
            simp only [hfields, hname, hyes, hdeclared, hfirst, LastLine.track_relocate, ih] <;> rfl

theorem ofLines_relocate (lines : List SourceLine) :
    ofLines (lines.map (·.relocate r)) =
      ((ofLines lines).1.relocate r, (ofLines lines).2.map (·.relocate r)) := by
  have hfollow : follow true [] none (lines.map (·.relocate r)) = _ :=
    follow_relocate r true [] none lines
  rw [ofLines, hfollow, ofLines]

/-! ### Laying out -/

theorem statements_relocate (o : Outline) :
    (o.relocate r).statements = o.statements.map (·.relocate r) := by
  simp [statements, relocate, List.map_flatMap, List.flatMap_map, Subroutine.statements,
    Subroutine.relocate]

theorem keptSubroutines_relocate (o : Outline) :
    (o.relocate r).keptSubroutines = o.keptSubroutines.map (·.relocate r) := by
  have hrefers (label : Text) : (o.relocate r).refersTo label = o.refersTo label := by
    rw [refersTo, statements_relocate, List.any_map]
    rfl
  simp only [keptSubroutines, hrefers]
  rw [relocate, List.filter_map]
  rfl

theorem keptStatements_relocate (o : Outline) :
    (o.relocate r).keptStatements = o.keptStatements.map (·.relocate r) := by
  rw [keptStatements, keptSubroutines_relocate, keptStatements, List.map_append, List.map_flatMap,
    List.flatMap_map]
  rfl

theorem addressesFrom_relocate (next : Nat) (subs : List Subroutine) :
    addressesFrom next (subs.map (·.relocate r)) =
      (addressesFrom next subs).map fun (s, a) => (s.relocate r, a) := by
  induction subs generalizing next with
  | nil => rfl
  | cons s rest ih =>
      have hlength : (s.relocate r).loadedLength = s.loadedLength := by
        rw [Subroutine.loadedLength, Subroutine.loadedLength, Subroutine.statements_relocate,
          List.countP_map]
        rfl
      rw [List.map_cons, addressesFrom, ih, hlength]
      rfl

theorem addresses_relocate (o : Outline) (origin : Byte) :
    (o.relocate r).addresses origin =
      (o.addresses origin).map fun (s, a) => (s.relocate r, a) := by
  have hlength : (o.relocate r).mainLength = o.mainLength := by
    rw [mainLength, relocate, List.countP_map]
    rfl
  rw [addresses, keptSubroutines_relocate, addressesFrom_relocate, hlength]
  rfl

theorem symbols_relocate (o : Outline) (origin : Byte) :
    (o.relocate r).symbols origin = o.symbols origin := by
  rw [symbols, addresses_relocate, List.filterMap_map]
  rfl

theorem lateSubroutines_relocate (o : Outline) (origin : Byte) :
    (o.relocate r).lateSubroutines origin =
      (o.lateSubroutines origin).map (·.relocate r) := by
  rw [lateSubroutines, addresses_relocate, lateSubroutines, List.filter_map, List.map_map,
    List.map_map]
  rfl

theorem undefinedReferences_relocate (o : Outline) (label : Text) :
    (o.relocate r).undefinedReferences label =
      (o.undefinedReferences label).map (·.relocate r) := by
  rw [undefinedReferences, statements_relocate, undefinedReferences, List.flatMap_map,
    List.map_flatMap]
  simp only [List.map_replicate]
  rfl

theorem undefinedLabels_relocate (o : Outline) :
    (o.relocate r).undefinedLabels = o.undefinedLabels.map (·.relocate r) := by
  have hlabels : (o.relocate r).referencedLabels = o.referencedLabels := by
    rw [referencedLabels, statements_relocate, List.flatMap_map]
    rfl
  have hdeclares (label : Text) : (o.relocate r).declares label = o.declares label := by
    rw [declares, relocate, List.any_map]
    rfl
  rw [undefinedLabels, hlabels, undefinedLabels, List.map_flatMap]
  simp only [hdeclares]
  exact congrArg (List.flatMap · _) (funext (undefinedReferences_relocate r o))

end Outline

theorem Placement.sequence_relocate (next : Nat) (ss : List Statement) :
    sequence next (ss.map (·.relocate r)) = (sequence next ss).map (·.relocate r) := by
  induction ss generalizing next with
  | nil => rfl
  | cons s ss ih =>
      have hloaded : (s.relocate r).isLoaded = s.isLoaded := rfl
      rw [List.map_cons, sequence, sequence, hloaded]
      split <;> rw [ih] <;> rfl

theorem Placement.overrun_relocate (ps : List Placement) :
    (((ps.map (·.relocate r)).find? (·.pastMemory)).map fun p =>
        p.statement.diagnose .addressTooLarge).toList =
      ((ps.find? (·.pastMemory)).map fun p =>
        p.statement.diagnose .addressTooLarge).toList.map (·.relocate r) := by
  have hfind : (ps.map (·.relocate r)).find? (·.pastMemory) =
      (ps.find? (·.pastMemory)).map (·.relocate r) := List.find?_map
  rw [hfind]
  cases ps.find? (·.pastMemory) <;> rfl

namespace Outline

theorem layout_relocate (o : Outline) (origin : Byte) :
    (o.relocate r).layout origin =
      { placements := (o.layout origin).placements.map (·.relocate r)
        symbols := (o.layout origin).symbols
        diagnostics := (o.layout origin).diagnostics.map (·.relocate r) } := by
  have hresolved : (o.relocate r).keptStatements.map (·.resolve (o.symbols origin)) =
      (o.keptStatements.map (·.resolve (o.symbols origin))).map (·.relocate r) := by
    rw [keptStatements_relocate, List.map_map, List.map_map]
    rfl
  simp only [layout, symbols_relocate, hresolved, Placement.sequence_relocate,
    lateSubroutines_relocate, undefinedLabels_relocate, List.map_append, List.isEmpty_map,
    Placement.overrun_relocate]
  split <;> rfl

theorem origin_relocate (o : Outline) : (o.relocate r).origin = o.origin := by
  rw [origin, statements_relocate, origin, List.head?_map]
  cases o.statements.head? <;> rfl

theorem missingOrigin_relocate {o : Outline} (h : o.statements ≠ []) :
    (o.relocate r).missingOrigin = o.missingOrigin.map (·.relocate r) := by
  obtain ⟨s, rest, hstatements⟩ := List.exists_cons_of_ne_nil h
  have horigin : (s.relocate r).isOrigin = s.isOrigin := rfl
  rw [missingOrigin, statements_relocate, missingOrigin, hstatements]
  simp only [List.map_cons, List.head?_cons, horigin]
  cases s.isOrigin <;> rfl

end Outline

/-! ### Encoding -/

/-- A computation never fails because a halt is not on the last line. This is the only way to fail
with the number of another line, and no command but a halt fails so. -/
def Placeless {α : Type} (x : Except Defect α) : Prop :=
  ∀ last, x ≠ .error (.haltNotLast last)

theorem Placeless.mapError_eq {α : Type} {x : Except Defect α} (hx : Placeless x) :
    x.mapError (Defect.relocate r) = x := by
  cases x with
  | ok a => rfl
  | error defect =>
      cases defect with
      | haltNotLast last => exact absurd rfl (hx last)
      | _ => rfl

/-- The number of another line is no word of the statement. -/
theorem FailsLocally.placeless {α : Type} {x : Except Defect α} (hx : FailsLocally x) :
    Placeless x := by
  intro last h
  cases hx _ h

namespace Encoder

theorem origin_relocate (enc : Encoder) (s : Statement) :
    (enc.relocate r).origin (s.relocate r) = (enc.origin s).mapError (Defect.relocate r) := by
  have hnumber := (originWord_failsLocally s).placeless
  have hposition : (s.relocate r).position = s.position := rfl
  have hdeclared : (enc.relocate r).orgDeclared = enc.orgDeclared := rfl
  rw [origin, origin, hdeclared, hposition]
  split
  · rfl
  · split
    · rfl
    · exact (hnumber.mapError_eq r).symm

theorem halt_relocate (enc : Encoder) (s : Statement) :
    (enc.relocate r).halt (s.relocate r) = (enc.halt s).mapError (Defect.relocate r) := by
  have hparams := (haltWord_failsLocally s).placeless
  rw [halt, halt, relocate]
  cases enc.last with
  | none => exact (hparams.mapError_eq r).symm
  | some last =>
      change (if s.position ≠ last.position then .error (.haltNotLast (r.line last.line))
        else (s.expectParams 0).map fun _ => Word.ofBytes haltOpcode 0) = _
      dsimp only
      by_cases hlast : s.position ≠ last.position
      · rw [if_pos hlast, if_pos hlast]
        rfl
      · rw [if_neg hlast, if_neg hlast, hparams.mapError_eq]

/-- A statement is encoded alike wherever it stands, but for the number of the last line. -/
theorem encode_relocate (enc : Encoder) (s : Statement) :
    (enc.relocate r).encode (s.relocate r) = (enc.encode s).mapError (Defect.relocate r) := by
  have hcommand : (s.relocate r).command = s.command := rfl
  rw [encode, encode, hcommand]
  split
  · rfl
  · exact origin_relocate r enc s
  · exact halt_relocate r enc s
  · next m _ _ _ => exact ((operation_failsLocally s m).map.placeless.mapError_eq r).symm

theorem encoding_relocate (enc : Encoder) (p : Placement) :
    (enc.relocate r).encoding (p.relocate r) = (enc.encoding p).relocate r := by
  have hencodable : (p.relocate r).encodable = p.encodable := rfl
  have hencode := encode_relocate r enc p.statement
  rw [encoding, encoding, hencodable]
  split
  · rw [show (p.relocate r).statement = p.statement.relocate r from rfl, hencode]
    cases enc.encode p.statement <;> rfl
  · rfl

theorem past_relocate (enc : Encoder) (p : Placement) :
    (enc.relocate r).past (p.relocate r) = (enc.past p).relocate r := by
  have hencodable : (p.relocate r).encodable = p.encodable := rfl
  have hafter : (enc.relocate r).after (p.statement.relocate r) =
      (enc.after p.statement).relocate r := by
    rw [after, encode_relocate, after]
    cases enc.encode p.statement <;> rfl
  rw [past, past, hencodable]
  split
  · exact hafter
  · rfl

theorem encodeAll_relocate (enc : Encoder) (ps : List Placement) :
    (enc.relocate r).encodeAll (ps.map (·.relocate r)) =
      (enc.encodeAll ps).map fun (s, encoding) => (s.relocate r, encoding.relocate r) := by
  induction ps generalizing enc with
  | nil => rfl
  | cons p ps ih =>
      rw [List.map_cons, encodeAll_cons, encodeAll_cons, encoding_relocate, past_relocate, ih]
      rfl

end Encoder

/-! ### Assembling -/

namespace Assembly

/-- What is found wrong with the lines of a source, pass by pass. That there is no line to begin
with an origin is no fault of a line. -/
def found (source : Text) : List Diagnostic :=
  (Outline.ofLines (SourceLine.scan source)).2 ++
    (if (Outline.ofSource source).statements.isEmpty then []
      else (Outline.ofSource source).missingOrigin) ++
    (layout source).diagnostics ++
    (encodings source).filterMap fun (s, encoding) => encoding.diagnostic? s

/-- The lines of one source are those of another at other places. -/
def Relocates (r : Relocation) (source source' : Text) : Prop :=
  SourceLine.scan source' = (SourceLine.scan source).map (·.relocate r)

variable {r : Relocation} {source source' : Text}

theorem Relocates.ofLines (h : Relocates r source source') :
    Outline.ofLines (SourceLine.scan source') =
      ((Outline.ofSource source).relocate r,
        (Outline.ofLines (SourceLine.scan source)).2.map (·.relocate r)) := by
  rw [h, Outline.ofLines_relocate]
  rfl

theorem Relocates.ofSource (h : Relocates r source source') :
    Outline.ofSource source' = (Outline.ofSource source).relocate r := by
  rw [Outline.ofSource, h.ofLines]

theorem Relocates.layout (h : Relocates r source source') :
    layout source' =
      { placements := (layout source).placements.map (·.relocate r)
        symbols := (layout source).symbols
        diagnostics := (layout source).diagnostics.map (·.relocate r) } := by
  rw [Assembly.layout, h.ofSource, Outline.origin_relocate, Outline.layout_relocate]
  rfl

theorem Relocates.encodings (h : Relocates r source source') :
    encodings source' =
      (encodings source).map fun (s, encoding) => (s.relocate r, encoding.relocate r) := by
  have hencoder : encoder source' = (encoder source).relocate r := by
    rw [encoder, h.ofSource]
    rfl
  rw [Assembly.encodings, hencoder, h.layout]
  exact Encoder.encodeAll_relocate r _ _

theorem Relocates.lines (h : Relocates r source source') :
    (assemble source').lines = (assemble source).lines.map (·.relocate r) := by
  have hword (encoding : Encoding) : (encoding.relocate r).word? = encoding.word? := by
    cases encoding <;> rfl
  rw [assemble_lines, h.encodings, assemble_lines, List.map_map, List.map_map]
  refine List.map_congr_left fun (s, encoding) _ => ?_
  exact congrArg (EncodedLine.mk (s.relocate r)) (hword encoding)

theorem Relocates.found (h : Relocates r source source') :
    found source' = (found source).map (·.relocate r) := by
  have hmissing : (if (Outline.ofSource source').statements.isEmpty then []
        else (Outline.ofSource source').missingOrigin) =
      (if (Outline.ofSource source).statements.isEmpty then []
        else (Outline.ofSource source).missingOrigin).map (·.relocate r) := by
    rw [h.ofSource, Outline.statements_relocate, List.isEmpty_map]
    split
    · rfl
    · next hne => exact Outline.missingOrigin_relocate r (by simpa using hne)
  have hrefused (s : Statement) (encoding : Encoding) :
      (encoding.relocate r).diagnostic? (s.relocate r) =
        (encoding.diagnostic? s).map (·.relocate r) := by
    cases encoding <;> rfl
  rw [Assembly.found, h.ofLines, hmissing, h.layout, h.encodings, Assembly.found, List.map_append,
    List.map_append, List.map_append, List.filterMap_map, List.map_filterMap]
  exact congrArg (_ ++ ·) (List.filterMap_congr fun (s, encoding) _ => hrefused s encoding)

end Assembly

end TeachingCpu
