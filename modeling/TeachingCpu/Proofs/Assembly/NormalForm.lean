import TeachingCpu.Proofs.Assembly.Relocation
/-!
# TeachingCpu.Proofs.Assembly.NormalForm

**Only the normal forms of lines matter.** Two sources whose lines have the same normal forms, in
the same order, differ by a relocation (`Assembly.exists_relocates`), and assembling commutes with
relocating. Since a relocation keeps the order of lines, it also commutes with sorting the
diagnostics.

That no diagnostic has any other number than that of a line needs no look into the passes: there is
a relocation that leaves the lines where they are and moves all other numbers, so a number that it
leaves in its place is that of a line (`Assembly.exists_line_of_mem_found`).
-/

set_option autoImplicit false

namespace TeachingCpu

/-! ### Numbers of lines -/

/-- Two numbers belong to lines at the same place among the lines of two sources. -/
def SourceLine.SamePlace (source source' : Text) (n n' : Nat) : Prop :=
  ∃ l ∈ scan source, ∃ l' ∈ scan source', l.position = l'.position ∧ l.line = n ∧ l'.line = n'

/-- Two defects are the same, but for the number of a line. -/
inductive Defect.Corresponds (source source' : Text) : Defect → Defect → Prop
  | same {defect : Defect} (h : ∀ last, defect ≠ .haltNotLast last) :
      Corresponds source source' defect defect
  | halt {last last' : Nat} (h : SourceLine.SamePlace source source' last last') :
      Corresponds source source' (.haltNotLast last) (.haltNotLast last')

/-- Two diagnostics say the same about lines at the same place. -/
structure Diagnostic.Corresponds (source source' : Text) (d d' : Diagnostic) : Prop where
  line : SourceLine.SamePlace source source' d.line d'.line
  defect : d.defect.Corresponds source source' d'.defect

/-- What a line that is laid out holds, apart from where it stood in the source. -/
def EncodedLine.content (l : EncodedLine) :
    Nat × Option Text × Text × List Text × Option Word × Bool :=
  (l.statement.position, l.statement.label, l.statement.command, l.statement.params, l.word,
    l.failed)

namespace Assembly

/-- The diagnostics about the lines of a source. If no line is stored, the diagnostic that an
origin is missing is about none. -/
def aboutLines (source : Text) : List Diagnostic :=
  if (Outline.ofSource source).statements.isEmpty then
    (assemble source).diagnostics.filter (·.defect ≠ .missingOrg)
  else (assemble source).diagnostics

/-! ### Sources with the same normal forms -/

variable {r : Relocation} {source source' : Text}

/-- Lines that differ in their numbers and spans alone differ by a relocation. -/
theorem exists_relocation {lines lines' : List SourceLine} (hnodup : (lines.map (·.line)).Nodup)
    (htexts : lines.map (·.text) = lines'.map (·.text))
    (hpositions : lines.map (·.position) = lines'.map (·.position)) :
    ∃ r : Relocation, lines' = lines.map (·.relocate r) := by
  induction lines generalizing lines' with
  | nil =>
      rw [List.map_nil, eq_comm, List.map_eq_nil_iff] at htexts
      exact ⟨⟨id, fun _ => {}⟩, htexts⟩
  | cons l lines ih =>
      obtain ⟨l', rest, rfl, htext, htexts⟩ := List.map_eq_cons_iff.mp htexts.symm
      obtain ⟨hposition, hpositions⟩ := List.cons.inj hpositions
      obtain ⟨hnew, hnodup⟩ := List.nodup_cons.mp hnodup
      obtain ⟨r, rfl⟩ := ih hnodup htexts.symm hpositions
      refine ⟨⟨fun n => if n = l.line then l'.line else r.line n,
        fun n => if n = l.line then l'.span else r.span n⟩, ?_⟩
      rw [List.map_cons]
      refine congrArg₂ List.cons ?_ (List.map_congr_left fun m hm => ?_)
      · simp [SourceLine.relocate, hposition, ← htext]
      · -- the numbers of the other lines are not that of the first
        have hne : m.line ≠ l.line := fun h => hnew (List.mem_map.mpr ⟨m, hm, h⟩)
        simp [SourceLine.relocate, hne]

theorem scan_lines_nodup (source : Text) : ((SourceLine.scan source).map (·.line)).Nodup :=
  List.pairwise_map.mpr ((SourceLine.scan_increasing source).imp Nat.ne_of_lt)

theorem exists_relocates
    (h : (SourceLine.scan source).map (·.text) = (SourceLine.scan source').map (·.text)) :
    ∃ r, Relocates r source source' := by
  have hlength : (SourceLine.scan source).length = (SourceLine.scan source').length := by
    simpa using congrArg List.length h
  refine exists_relocation (scan_lines_nodup source) h ?_
  rw [SourceLine.scan_positions, SourceLine.scan_positions, hlength]

theorem Relocates.samePlace (h : Relocates r source source') {l : SourceLine}
    (hl : l ∈ SourceLine.scan source) :
    SourceLine.SamePlace source source' l.line (r.line l.line) := by
  refine ⟨l, hl, l.relocate r, ?_, rfl, rfl, rfl⟩
  rw [h]
  exact List.mem_map_of_mem hl

/-- Relocating a source keeps the order of its lines. -/
theorem Relocates.line_le_iff (h : Relocates r source source') {l m : SourceLine}
    (hl : l ∈ SourceLine.scan source) (hm : m ∈ SourceLine.scan source) :
    l.line ≤ m.line ↔ r.line l.line ≤ r.line m.line := by
  have hincreasing := SourceLine.scan_increasing source'
  rw [h, List.pairwise_map] at hincreasing
  have hboth := (SourceLine.scan_increasing source).and hincreasing
  exact List.Pairwise.forall_of_forall_of_flip
    (R := fun l m => l.line ≤ m.line ↔ r.line l.line ≤ r.line m.line)
    (fun _ _ => iff_of_true (Nat.le_refl _) (Nat.le_refl _))
    (hboth.imp fun h => iff_of_true (Nat.le_of_lt h.1) (Nat.le_of_lt h.2))
    (hboth.imp fun h => iff_of_false (Nat.not_le.mpr h.1) (Nat.not_le.mpr h.2)) hl hm

/-! ### The numbers in diagnostics -/

theorem eq_self_of_map_eq {α : Type} {f : α → α} {as : List α} (h : as = as.map f) {a : α}
    (ha : a ∈ as) : f a = a :=
  List.map_inj_left.mp (h.symm.trans (List.map_id _).symm) a ha

/-- The lines of a source tell their numbers and spans from all others: there is a relocation that
leaves the lines where they are and moves all other numbers. -/
theorem exists_marking (source : Text) :
    ∃ r, Relocates r source source ∧
      ∀ n, r.line n = n → ∃ l ∈ SourceLine.scan source, l.line = n ∧ l.span = r.span n := by
  obtain ⟨r, hr⟩ : ∃ r, Relocates r source source := exists_relocates rfl
  have hspan {l : SourceLine} (hl : l ∈ SourceLine.scan source) : r.span l.line = l.span :=
    congrArg SourceLine.span (eq_self_of_map_eq hr hl)
  let away : Relocation :=
    { r with line := fun n => if ∃ l ∈ SourceLine.scan source, l.line = n then n else n + 1 }
  refine ⟨away, ?_, fun n hn => ?_⟩
  · refine (List.map_id _).symm.trans (List.map_congr_left fun l hl => ?_)
    have hline : away.line l.line = l.line := if_pos ⟨l, hl, rfl⟩
    rw [SourceLine.relocate, hline, show away.span l.line = l.span from hspan hl]
    rfl
  · by_cases hmem : ∃ l ∈ SourceLine.scan source, l.line = n
    · obtain ⟨l, hl, rfl⟩ := hmem
      exact ⟨l, hl, rfl, (hspan hl).symm⟩
    · have hmoved : away.line n = n + 1 := if_neg hmem
      omega

/-- The numbers in a diagnostic are those of lines. -/
theorem exists_line_of_mem_found {d : Diagnostic} (hd : d ∈ found source) :
    (∃ l ∈ SourceLine.scan source, l.line = d.line) ∧
      ∀ last, d.defect = .haltNotLast last → ∃ l ∈ SourceLine.scan source, l.line = last := by
  obtain ⟨r, hr, hmarked⟩ := exists_marking source
  have hstays {n : Nat} (h : r.line n = n) : ∃ l ∈ SourceLine.scan source, l.line = n := by
    obtain ⟨l, hl, hline, -⟩ := hmarked n h
    exact ⟨l, hl, hline⟩
  have hfixed : d.relocate r = d := eq_self_of_map_eq hr.found hd
  refine ⟨hstays (congrArg Diagnostic.line hfixed), fun last hlast => ?_⟩
  have hdefect : d.defect.relocate r = d.defect := congrArg Diagnostic.defect hfixed
  rw [hlast] at hdefect
  exact hstays (Defect.haltNotLast.inj hdefect)

theorem Relocates.corresponds (h : Relocates r source source') {d : Diagnostic}
    (hd : d ∈ Assembly.found source) : d.Corresponds source source' (d.relocate r) := by
  obtain ⟨⟨l, hl, hline⟩, hlast⟩ := exists_line_of_mem_found hd
  obtain ⟨n, span, defect⟩ := d
  obtain rfl : l.line = n := hline
  refine ⟨h.samePlace hl, ?_⟩
  cases defect with
  | haltNotLast last =>
      obtain ⟨m, hm, rfl⟩ := hlast last rfl
      exact .halt (h.samePlace hm)
  | _ => exact .same nofun

/-! ### The diagnostics about lines -/

theorem layout_of_no_statements (hnone : (Outline.ofSource source).statements = []) :
    (Outline.ofSource source).missingOrigin = [⟨1, {}, .missingOrg⟩] ∧
      layout source = ⟨[], [], []⟩ := by
  obtain ⟨hmain, hsubs⟩ := List.append_eq_nil_iff.mp hnone
  have hsubs : (Outline.ofSource source).subroutines = [] := by
    cases h : (Outline.ofSource source).subroutines with
    | nil => rfl
    | cons sub subs =>
        rw [h, List.flatMap_cons, Subroutine.statements] at hsubs
        cases hsubs
  obtain ⟨last, hempty⟩ : ∃ last, Outline.ofSource source = { last } := by
    generalize Outline.ofSource source = o at hmain hsubs
    obtain ⟨main, subs, last⟩ := o
    cases hmain
    cases hsubs
    exact ⟨last, rfl⟩
  rw [layout, hempty]
  exact ⟨rfl, rfl⟩

theorem diagnostics_of_no_statements (hnone : (Outline.ofSource source).statements = []) :
    found source = (Outline.ofLines (SourceLine.scan source)).2 ∧
      (assemble source).diagnostics = Diagnostic.sort (found source ++ [⟨1, {}, .missingOrg⟩]) := by
  obtain ⟨hmissing, hlayout⟩ := layout_of_no_statements hnone
  have hencodings : encodings source = [] := by
    rw [encodings, hlayout]
    rfl
  have hfound : found source = (Outline.ofLines (SourceLine.scan source)).2 := by
    simp [found, hnone, hlayout, hencodings]
  refine ⟨hfound, ?_⟩
  change Diagnostic.sort ((Outline.ofLines (SourceLine.scan source)).2 ++
    (Outline.ofSource source).missingOrigin ++ (layout source).diagnostics ++
    (encodings source).filterMap _) = _
  rw [hfound, hmissing, hlayout, hencodings]
  simp

theorem defect_ne_missingOrg {d : Diagnostic}
    (hd : d ∈ (Outline.ofLines (SourceLine.scan source)).2) : d.defect ≠ .missingOrg := by
  intro hdefect
  have hstructural := Outline.isStructural_of_mem hd
  rw [hdefect] at hstructural
  cases hstructural

/-- Where no line is stored, an origin is missing, once and on the first line. -/
theorem missingOrg_of_no_statements (hnone : (Outline.ofSource source).statements = []) :
    (assemble source).diagnostics.filter (·.defect = .missingOrg) = [⟨1, {}, .missingOrg⟩] := by
  obtain ⟨hfound, hdiagnostics⟩ := diagnostics_of_no_statements hnone
  have hnot : (found source).filter (·.defect = .missingOrg) = [] :=
    List.filter_eq_nil_iff.mpr fun d hd => by
      simpa using defect_ne_missingOrg (hfound ▸ hd)
  rw [hdiagnostics, Diagnostic.filter_sort, List.filter_append, hnot]
  rfl

theorem aboutLines_eq (source : Text) : aboutLines source = Diagnostic.sort (found source) := by
  unfold aboutLines
  split
  · next hempty =>
      obtain ⟨hfound, hdiagnostics⟩ := diagnostics_of_no_statements (List.isEmpty_iff.mp hempty)
      have hall : (found source).filter (·.defect ≠ .missingOrg) = found source :=
        List.filter_eq_self.mpr fun d hd => by
          simpa using defect_ne_missingOrg (hfound ▸ hd)
      rw [hdiagnostics, Diagnostic.filter_sort, List.filter_append, hall]
      simp
  · next hsome =>
      rw [found, if_neg hsome]
      rfl

/-- **Only the normal forms of lines matter.** Sources whose lines that are not blank have the same
normal forms, in the same order, assemble to the same words, symbols and lines, whatever comments,
blank lines, white space and line ends they have besides. Their diagnostics are the same in the
same order, about lines at the same place, and so is the line that a halt should be on. Only the
diagnostic that there is no line to begin with an origin is about no line; it is always on the
first. -/
theorem only_normal_forms_matter (source source' : Text)
    (h : (SourceLine.scan source).map (·.text) = (SourceLine.scan source').map (·.text)) :
    let a := assemble source
    let a' := assemble source'
    a.data = a'.data ∧ a.symbols = a'.symbols ∧ a.origin = a'.origin ∧
    a.lines.map (·.content) = a'.lines.map (·.content) ∧
    List.Forall₂ (Diagnostic.Corresponds source source') (aboutLines source)
      (aboutLines source') ∧
    ((Outline.ofSource source).statements = [] →
      a.diagnostics.filter (·.defect = .missingOrg) = [⟨1, {}, .missingOrg⟩] ∧
      a'.diagnostics.filter (·.defect = .missingOrg) = [⟨1, {}, .missingOrg⟩]) := by
  intro a a'
  obtain ⟨r, hr⟩ := exists_relocates h
  have hlines : a'.lines = a.lines.map (·.relocate r) := hr.lines
  refine ⟨?_, ?_, ?_, ?_, ?_, ?_⟩
  · rw [assemble_data, assemble_data, hr.lines, List.filterMap_map]
    rfl
  · exact (congrArg Layout.symbols hr.layout).symm
  · -- relocating a line does not change whether it gives the origin
    have hfind : (a.lines.map (·.relocate r)).find? (·.statement.isOrigin) =
        (a.lines.find? (·.statement.isOrigin)).map (·.relocate r) := List.find?_map
    rw [Assembly.origin, Assembly.origin, hlines, hfind]
    cases a.lines.find? (·.statement.isOrigin) <;> rfl
  · rw [hlines, List.map_map]
    rfl
  · -- sorting comes last, and commutes with a relocation as it keeps the order of lines
    rw [aboutLines_eq, aboutLines_eq, hr.found, ← Diagnostic.map_sort]
    · exact List.forall₂_map_right_iff.mpr (List.forall₂_same.mpr fun d hd =>
        hr.corresponds ((Diagnostic.sort_perm _).subset hd))
    · intro d hd e he
      obtain ⟨⟨l, hl, hlineD⟩, -⟩ := exists_line_of_mem_found hd
      obtain ⟨⟨m, hm, hlineE⟩, -⟩ := exists_line_of_mem_found he
      have hiff := hr.line_le_iff hl hm
      rw [hlineD, hlineE] at hiff
      exact hiff
  · intro hnone
    have hnone' : (Outline.ofSource source').statements = [] := by
      rw [hr.ofSource, Outline.statements_relocate, hnone]
      rfl
    exact ⟨missingOrg_of_no_statements hnone, missingOrg_of_no_statements hnone'⟩

/-- A halt before the last line and a label that nothing declares, with and without comments, blank
lines and carriage returns around them. -/
theorem only_normal_forms_matter_for_diagnostics :
    let source := "ORG $00\nHALT\nJMP _x".toList
    let source' := "; start\r\n\nORG \t$00 ; origin\r\nHALT\r\n\r\nJMP  _x\n".toList
    let a := assemble source
    let a' := assemble source'
    a.data = a'.data ∧
      List.Forall₂ (Diagnostic.Corresponds source source') (aboutLines source)
        (aboutLines source') ∧
      a.diagnostics.map (fun d => (d.line, d.defect)) =
        [(2, .haltNotLast 3), (3, .undefinedLabel "_x".toList)] ∧
      a'.diagnostics.map (fun d => (d.line, d.defect)) =
        [(4, .haltNotLast 6), (6, .undefinedLabel "_x".toList)] := by
  intro source source' a a'
  obtain ⟨hdata, -, -, -, hdiagnostics, -⟩ :=
    only_normal_forms_matter source source' (by decide)
  exact ⟨hdata, hdiagnostics, by decide, by decide⟩

end Assembly

end TeachingCpu
