import TeachingCpu.Proofs.Assembly.LineEnds
import TeachingCpu.Proofs.Text.Bytes
/-!
# TeachingCpu.Proofs.Assembly.Spans

**Diagnostics point at the right text, in order.** What is reported about a line, and what is stored
of it, has the number of the line and a span that covers the line without its comment and the white
space around (`SourceLine.code`). As byte offsets are kept in 32 bits and lengths in 16, this takes
a source of less than 4 GiB and, for the slice to be the whole code, a line of less than 64 KiB.

Scanning is followed line by line (`SourceLine.standsIn_of_mem_scanFrom`). The passes after it
need not be looked into, as none of them can tell where a line stands (`Assembly.exists_marking`).
-/

set_option autoImplicit false

namespace TeachingCpu

/-! ### The text of a line -/

/-- The text that a span covers, if it begins and ends between characters. -/
def Span.slice? (span : Span) (t : Text) : Option Text :=
  (t.splitAtByte? span.start).bind fun (_, rest) => (rest.splitAtByte? span.length).map Prod.fst

theorem Span.slice?_append (before text after : Text) :
    slice? ⟨Text.byteLength before, Text.byteLength text⟩ (before ++ text ++ after) =
      some text := by
  rw [slice?, List.append_assoc, Text.splitAtByte?_append, Option.bind_some]
  exact congrArg (Option.map Prod.fst) (Text.splitAtByte?_append text after)

namespace SourceLine

/-- A line without its comment and the white space around it. -/
def code (line : Text) : Text := Text.trim (line.takeWhile (· != ';'))

variable {line : Text}

theorem content_ne_nil (hkept : ¬Blank (content line)) : content line ≠ [] := by
  intro hnil
  rw [hnil] at hkept
  exact hkept nofun

/-- The content of a line is indented as the line is. -/
theorem takeWhile_isBlank_content (hline : '\n' ∉ line) (hne : content line ≠ []) :
    (content line).takeWhile Text.isBlank = line.takeWhile Text.isBlank := by
  rw [content_of_notMem hline] at hne ⊢
  rw [Text.takeWhile_isBlank_trimEnd hne, List.takeWhile_takeWhile]
  -- a comment does not begin with white space
  refine congrArg (line.takeWhile ·) (funext fun c => ?_)
  by_cases hc : c = ';'
  · subst hc
    decide
  · simp [hc]

theorem trimStart_content (hline : '\n' ∉ line) : Text.trimStart (content line) = code line := by
  rw [content_of_notMem hline, Text.trimStart_trimEnd]
  rfl

theorem code_ne_nil (hline : '\n' ∉ line) (hne : content line ≠ []) : code line ≠ [] := by
  rw [← trimStart_content hline]
  intro hnil
  have hlast := isBlank_of_getLast?_content _ (List.getLast_mem_getLast? hne)
  rw [List.dropWhile_eq_nil_iff.mp hnil _ (List.getLast_mem hne)] at hlast
  exact Bool.noConfusion hlast

/-- A line is white space, its code, and what is dropped behind that. -/
theorem exists_eq_append_code (hline : '\n' ∉ line) (hne : content line ≠ []) :
    ∃ dropped, line = line.takeWhile Text.isBlank ++ code line ++ dropped := by
  obtain ⟨trail, htrail⟩ := Text.exists_trimEnd_append (line.takeWhile (· != ';'))
  refine ⟨trail ++ line.dropWhile (· != ';'), ?_⟩
  have hcontent : line.takeWhile Text.isBlank ++ code line = content line := by
    rw [← takeWhile_isBlank_content hline hne, ← trimStart_content hline, Text.trimStart,
      List.takeWhile_append_dropWhile]
  rw [hcontent, content_of_notMem hline, ← List.append_assoc, ← htrail,
    List.takeWhile_append_dropWhile]

/-- A source line is a line of a text that is not blank. Lines are counted from `first` and bytes
from `offset` on. -/
def StandsIn (l : SourceLine) (t : Text) (first offset : Nat) : Prop :=
  ∃ number before line after, t.LineAt number before line after ∧ l.line + 1 = first + number ∧
    ¬Blank (content line) ∧ l.span = spanAt (offset + Text.byteLength before) (content line)

theorem StandsIn.next {l : SourceLine} {first offset : Nat} {rest : Text}
    (h : l.StandsIn rest (first + 1) (offset + Text.byteLength (line ++ ['\n'])))
    (hline : '\n' ∉ line) : l.StandsIn (line ++ '\n' :: rest) first offset := by
  obtain ⟨number, before, line', after, hat, hnumber, hkept, hspan⟩ := h
  refine ⟨number + 1, line ++ '\n' :: before, line', after, hat.next hline, ?_, hkept, ?_⟩
  · omega
  · rw [hspan, List.append_cons line '\n' before, Text.byteLength_append _ before, Nat.add_assoc]

theorem standsIn_of_mem_scanFrom {t : Text} {first position offset : Nat} {l : SourceLine}
    (hl : l ∈ scanFrom first position offset (Text.segments t)) : l.StandsIn t first offset := by
  induction t using Text.line_induction generalizing first position offset with
  | nil => cases hl
  | last line hne hline =>
      rw [Text.segments_of_notMem hne hline, scanFrom] at hl
      split at hl
      · cases hl
      · next hkept =>
          obtain rfl := List.mem_singleton.mp hl
          exact ⟨1, [], line, [], ⟨by simp, rfl, .inl rfl, hline, .inl rfl⟩, rfl,
            mt isVoid_normalise_iff.mpr hkept, rfl⟩
  | next line rest hline ih =>
      rw [Text.segments_append_newline hline, scanFrom, content_append_newline hline] at hl
      split at hl
      · exact (ih hl).next hline
      · next hkept =>
          rcases List.mem_cons.mp hl with rfl | hl
          · exact ⟨1, [], line, '\n' :: rest, ⟨by simp, rfl, .inl rfl, hline, .inr rfl⟩, rfl,
              mt isVoid_normalise_iff.mpr hkept, rfl⟩
          · exact (ih hl).next hline

end SourceLine

/-- A number and a span belong to a line of a source that is not blank: the span begins with the
first character of the line that is no white space, and has as many bytes as its code, up to a
multiple of 64 KiB. -/
def Span.PointsAt (source : Text) (number : Nat) (span : Span) : Prop :=
  ∃ before line after, source.LineAt number before line after ∧
    ¬SourceLine.Blank (SourceLine.content line) ∧ SourceLine.code line ≠ [] ∧
    span.start = Text.byteLength (before ++ line.takeWhile Text.isBlank) ∧
    span.length = Text.byteLength (SourceLine.code line) % 0x10000 ∧
    (Text.byteLength line < 0x10000 → span.slice? source = some (SourceLine.code line))

namespace SourceLine

theorem StandsIn.pointsAt {l : SourceLine} {source : Text} (h : l.StandsIn source 1 0)
    (hsize : Text.byteLength source < 0x100000000) : l.span.PointsAt source l.line := by
  obtain ⟨number, before, line, after, hat, hnumber, hkept, hspan⟩ := h
  obtain rfl : l.line = number := by omega
  have hne := content_ne_nil hkept
  obtain ⟨dropped, hline⟩ := exists_eq_append_code hat.single hne
  let indented := before ++ line.takeWhile Text.isBlank
  have hsource : source = indented ++ code line ++ (dropped ++ after) := by
    conv_lhs => rw [hat.split, hline]
    simp [indented]
  have hstart : l.span.start = Text.byteLength indented := by
    rw [hspan, spanAt, takeWhile_isBlank_content hat.single hne, Nat.zero_add,
      ← Text.byteLength_append]
    refine Nat.mod_eq_of_lt (Nat.lt_of_le_of_lt ?_ hsize)
    rw [hsource, List.append_assoc, Text.byteLength_append indented]
    exact Nat.le_add_right _ _
  have hlength : l.span.length = Text.byteLength (code line) % 0x10000 := by
    rw [hspan, spanAt, trimStart_content hat.single]
    rfl
  refine ⟨before, line, after, hat, hkept, code_ne_nil hat.single hne, hstart, hlength, ?_⟩
  intro hshort
  have hfits : Text.byteLength (code line) < 0x10000 := by
    rw [hline, Text.byteLength_append, Text.byteLength_append] at hshort
    omega
  have hexact : l.span = ⟨Text.byteLength indented, Text.byteLength (code line)⟩ := by
    rw [← hstart, ← Nat.mod_eq_of_lt hfits, ← hlength]
  rw [hexact, hsource]
  exact Span.slice?_append _ _ _

end SourceLine

namespace Assembly

variable {source : Text}

theorem exists_scanned_of_mem_found {d : Diagnostic} (hd : d ∈ found source) :
    ∃ l ∈ SourceLine.scan source, l.line = d.line ∧ l.span = d.span := by
  obtain ⟨r, hr, hmarked⟩ := exists_marking source
  have hfixed : d.relocate r = d := eq_self_of_map_eq hr.found hd
  obtain ⟨l, hl, hline, hspan⟩ := hmarked d.line (congrArg Diagnostic.line hfixed)
  exact ⟨l, hl, hline, hspan.trans (congrArg Diagnostic.span hfixed)⟩

theorem exists_scanned_of_mem_lines {l : EncodedLine} (hl : l ∈ (assemble source).lines) :
    ∃ m ∈ SourceLine.scan source, m.line = l.statement.line ∧ m.span = l.statement.span := by
  obtain ⟨r, hr, hmarked⟩ := exists_marking source
  have hfixed : (l.relocate r).statement = l.statement :=
    congrArg EncodedLine.statement (eq_self_of_map_eq hr.lines hl)
  obtain ⟨m, hm, hline, hspan⟩ := hmarked l.statement.line (congrArg Statement.line hfixed)
  exact ⟨m, hm, hline, hspan.trans (congrArg Statement.span hfixed)⟩

/-- A diagnostic is about a line, unless it says that there is no line to begin with an origin. -/
theorem mem_found_or_missingOrg {d : Diagnostic} (hd : d ∈ (assemble source).diagnostics) :
    d ∈ found source ∨
      (Outline.ofSource source).statements = [] ∧ d = ⟨1, {}, .missingOrg⟩ := by
  by_cases hnone : (Outline.ofSource source).statements = []
  · rw [(diagnostics_of_no_statements hnone).2] at hd
    rcases List.mem_append.mp ((Diagnostic.sort_perm _).subset hd) with hd | hd
    · exact .inl hd
    · exact .inr ⟨hnone, List.mem_singleton.mp hd⟩
  · left
    have hfound : (assemble source).diagnostics = Diagnostic.sort (found source) := by
      rw [found, if_neg (by simpa using hnone)]
      rfl
    exact (Diagnostic.sort_perm _).subset (hfound ▸ hd)

/-- **Diagnostics point at the right text, in order.** They are sorted by line and reported one by
one, and each of them, as well as each line that is laid out, points at its line in the source.
Only where nothing is stored does the diagnostic that an origin is missing point nowhere. -/
theorem diagnostics_point_at_source (hsize : Text.byteLength source < 0x100000000) :
    let a := assemble source
    a.diagnostics.Pairwise (·.line ≤ ·.line) ∧
    a.log = a.diagnostics.map (fun d => ⟨.error, s!"Line {d.line}: {d.defect.message}"⟩) ∧
    (∀ d ∈ a.diagnostics, d.span.PointsAt source d.line ∨
      (Outline.ofSource source).statements = [] ∧ d = ⟨1, {}, .missingOrg⟩) ∧
    ∀ l ∈ a.lines, l.statement.span.PointsAt source l.statement.line := by
  intro a
  have hpoints {l : SourceLine} (hl : l ∈ SourceLine.scan source) : l.span.PointsAt source l.line :=
    (SourceLine.standsIn_of_mem_scanFrom hl).pointsAt hsize
  refine ⟨Diagnostic.sort_increasing _, List.map_map, fun d hd => ?_, fun l hl => ?_⟩
  · refine (mem_found_or_missingOrg hd).imp_left fun hfound => ?_
    obtain ⟨l, hl, hline, hspan⟩ := exists_scanned_of_mem_found hfound
    rw [← hline, ← hspan]
    exact hpoints hl
  · obtain ⟨m, hm, hline, hspan⟩ := exists_scanned_of_mem_lines hl
    rw [← hline, ← hspan]
    exact hpoints hm

/-- Carriage returns, indentation, and characters of two and three bytes before and within what is
pointed at. -/
theorem diagnostics_point_at_source_multibyte :
    let source := "; ä\r\n\t ORG $00 ; ö\r\n\tJMP _ü\u2003\r\n\u00A0HALT".toList
    let a := assemble source
    (∀ d ∈ a.diagnostics, d.span.PointsAt source d.line) ∧
      a.diagnostics.map (fun d => (d.line, d.span.slice? source)) =
        [(3, some "JMP _ü".toList), (4, some "HALT".toList)] := by
  intro source a
  have hsize : Text.byteLength source < 0x100000000 := by decide
  obtain ⟨-, -, hdiagnostics, -⟩ := diagnostics_point_at_source hsize
  refine ⟨fun d hd => (hdiagnostics d hd).resolve_right fun h => ?_, by decide⟩
  exact absurd h.1 (by decide)

end Assembly

end TeachingCpu
