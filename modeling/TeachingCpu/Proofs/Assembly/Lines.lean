import TeachingCpu.Assembly
import TeachingCpu.Proofs.Assembly.Diagnostics
import TeachingCpu.Proofs.Assembly.Language
import TeachingCpu.Proofs.Assembly.Layout
/-!
# TeachingCpu.Proofs.Assembly.Lines

**The lines of an assembly**, one by one: from which statement each comes, which address counts
for it, and why it has a word or has none.

The main tool is `exists_of_lines_eq`. It opens the lines at any place, and says in one step what
placing, resolving and encoding made of the statement there.
-/

set_option autoImplicit false

namespace TeachingCpu

/-! ### Encoding in order -/

/-- A statement is left without a word before encoding for one of two reasons. -/
theorem Placement.encodable_eq_false_iff {p : Placement} :
    p.encodable = false ↔ p.pastMemory = true ∨ p.statement.references ≠ [] := by
  cases h : p.pastMemory <;> simp [encodable, h]

namespace Encoder

variable {enc : Encoder} {p : Placement}

/-- What becomes of one placed statement. -/
def encoding (enc : Encoder) (p : Placement) : Encoding :=
  if p.encodable then
    match enc.encode p.statement with
    | .ok w => .word w
    | .error defect => .refused defect
  else .withheld

/-- The encoder for the statements after a placed one. -/
def past (enc : Encoder) (p : Placement) : Encoder :=
  if p.encodable then enc.after p.statement else enc

theorem encodeAll_cons (enc : Encoder) (p : Placement) (rest : List Placement) :
    enc.encodeAll (p :: rest) = (p.statement, enc.encoding p) :: (enc.past p).encodeAll rest := by
  rw [encodeAll, encoding, past]
  split <;> rfl

theorem encodeAll_append (enc : Encoder) (ps qs : List Placement) :
    enc.encodeAll (ps ++ qs) = enc.encodeAll ps ++ (ps.foldl past enc).encodeAll qs := by
  induction ps generalizing enc with
  | nil => rfl
  | cons p ps ih => rw [List.cons_append, encodeAll_cons, encodeAll_cons, ih]; rfl

@[simp] theorem encodeAll_map_fst (enc : Encoder) (ps : List Placement) :
    (enc.encodeAll ps).map Prod.fst = ps.map (·.statement) := by
  induction ps generalizing enc with
  | nil => rfl
  | cons p ps ih => rw [encodeAll_cons, List.map_cons, ih, List.map_cons]

theorem encoding_eq_word_iff {w : Word} :
    enc.encoding p = .word w ↔ p.encodable = true ∧ enc.encode p.statement = .ok w := by
  unfold encoding
  split
  · next h =>
      simp only [h, true_and]
      cases enc.encode p.statement <;> simp
  · next h => simp [h]

theorem encoding_eq_withheld_iff : enc.encoding p = .withheld ↔ p.encodable = false := by
  unfold encoding
  split
  · next h =>
      simp only [h]
      cases enc.encode p.statement <;> simp
  · next h => simpa using h

theorem encoding_eq_refused_iff {defect : Defect} :
    enc.encoding p = .refused defect ↔
      p.encodable = true ∧ enc.encode p.statement = .error defect := by
  unfold encoding
  split
  · next h =>
      simp only [h, true_and]
      cases enc.encode p.statement <;> simp
  · next h => simp [h]

/-- What becomes of a placed statement is decided by some encoder. -/
theorem exists_encoding_of_mem {ps : List Placement} {s : Statement} {encoding : Encoding}
    (h : (s, encoding) ∈ enc.encodeAll ps) :
    ∃ (enc' : Encoder) (p : Placement), p.statement = s ∧ enc'.encoding p = encoding := by
  induction ps generalizing enc with
  | nil => cases h
  | cons p ps ih =>
      rw [encodeAll_cons] at h
      rcases List.mem_cons.mp h with hfirst | hrest
      · cases hfirst
        exact ⟨enc, p, rfl, rfl⟩
      · exact ih hrest

end Encoder

/-! ### The origin of a program -/

namespace Outline

/-- The address that a program is loaded at: the number of a well-formed origin on the first
stored line, and zero without one. -/
inductive LoadsAt (o : Outline) : Byte → Prop
  | given {s : Statement} {rest : List Statement} {token : Text} {n : Byte}
      (hfirst : o.statements = s :: rest) (hcommand : s.command = "ORG".toList)
      (hparams : s.params = [token]) (htoken : Operand.IsNumber token n) : LoadsAt o n
  | missing (h : ∀ s rest token n, o.statements = s :: rest → s.command = "ORG".toList →
      s.params = [token] → ¬Operand.IsNumber token n) : LoadsAt o 0

theorem origin_of_first {o : Outline} {s : Statement} {rest : List Statement} {token : Text}
    {n : Byte} (hfirst : o.statements = s :: rest) (horigin : s.isOrigin = true)
    (hparams : s.params = [token]) (htoken : Operand.IsNumber token n) : o.origin = n := by
  unfold origin
  rw [hfirst, List.head?_cons]
  dsimp only
  rw [horigin, hparams]
  dsimp only
  rw [Operand.number_eq_ok_iff.mpr htoken]

theorem loadsAt_origin (o : Outline) : o.LoadsAt o.origin := by
  by_cases h : ∃ s rest token n, o.statements = s :: rest ∧ s.command = "ORG".toList ∧
      s.params = [token] ∧ Operand.IsNumber token n
  · obtain ⟨s, rest, token, n, hfirst, hcommand, hparams, htoken⟩ := h
    rw [origin_of_first hfirst (beq_iff_eq.mpr hcommand) hparams htoken]
    exact .given hfirst hcommand hparams htoken
  · have hzero : o.origin = 0 := by
      unfold origin
      split
      · next s hhead =>
          obtain ⟨rest, hfirst⟩ := List.head?_eq_some_iff.mp hhead
          split
          · next token horigin hparams =>
              split
              · next n hn =>
                  exact absurd ⟨s, rest, token, n, hfirst, eq_of_beq horigin, hparams,
                    Operand.number_eq_ok_iff.mp hn⟩ h
              · rfl
          · rfl
      · rfl
    rw [hzero]
    exact .missing fun s rest token n hfirst hcommand hparams htoken =>
      h ⟨s, rest, token, n, hfirst, hcommand, hparams, htoken⟩

end Outline

theorem Outline.defect_of_mem_missingOrigin {o : Outline} {d : Diagnostic}
    (hd : d ∈ o.missingOrigin) : d.defect = .missingOrg := by
  unfold missingOrigin at hd
  split at hd
  · rw [List.mem_singleton.mp hd]
  · split at hd
    · cases hd
    · rw [List.mem_singleton.mp hd]
      rfl

/-! ### The assembly of a source -/

namespace Assembly

variable {source : Text}

/-- The layout of a source at the origin that it gives. -/
def layout (source : Text) : Layout :=
  (Outline.ofSource source).layout (Outline.ofSource source).origin

/-- The encoder for the first statement of a source. -/
def encoder (source : Text) : Encoder := { last := (Outline.ofSource source).last }

/-- What becomes of the placed statements of a source. -/
def encodings (source : Text) : List (Statement × Encoding) :=
  (encoder source).encodeAll (layout source).placements

theorem assemble_lines (source : Text) :
    (assemble source).lines = (encodings source).map fun (s, encoding) => ⟨s, encoding.word?⟩ :=
  rfl

theorem assemble_data (source : Text) :
    (assemble source).data = (assemble source).lines.filterMap (·.word) := by
  rw [assemble_lines, List.filterMap_map]
  rfl

/-- What is reported, pass by pass. -/
theorem mem_diagnostics_iff {d : Diagnostic} :
    d ∈ (assemble source).diagnostics ↔
      d ∈ (Outline.ofLines (SourceLine.scan source)).2 ∨
      d ∈ (Outline.ofSource source).missingOrigin ∨ d ∈ (layout source).diagnostics ∨
      ∃ s encoding, (s, encoding) ∈ encodings source ∧
        Encoding.diagnostic? s encoding = some d := by
  refine (Diagnostic.sort_perm _).mem_iff.trans ?_
  simp only [List.mem_append, List.mem_filterMap, Prod.exists, or_assoc]
  rfl

theorem diagnostics_ne_nil_of_layout (h : (layout source).diagnostics ≠ []) :
    (assemble source).diagnostics ≠ [] := by
  obtain ⟨d, hd⟩ := List.exists_mem_of_ne_nil _ h
  exact List.ne_nil_of_mem (mem_diagnostics_iff.mpr (.inr (.inr (.inl hd))))

theorem lines_map_statement (source : Text) :
    (assemble source).lines.map (·.statement) =
      (Outline.ofSource source).keptStatements.map (·.resolve (assemble source).symbols) := by
  calc (assemble source).lines.map (·.statement)
      = (encodings source).map Prod.fst := by rw [assemble_lines, List.map_map]; rfl
    _ = (layout source).placements.map (·.statement) := Encoder.encodeAll_map_fst _ _
    _ = _ := Placement.sequence_map_statement _ _

theorem layout_placements (source : Text) :
    (layout source).placements = Placement.sequence (Outline.ofSource source).origin
      ((Outline.ofSource source).keptStatements.map (·.resolve (assemble source).symbols)) :=
  rfl

/-- The lines of an assembly are stored lines, in the order of the source, with all that
resolving keeps of them. -/
theorem lines_sublist (source : Text) {α : Type} {f : Statement → α}
    (hf : ∀ symbols s, f (Statement.resolve symbols s) = f s) :
    ((assemble source).lines.map (f ·.statement)).Sublist
      ((Outline.ofSource source).statements.map f) := by
  have hlines := congrArg (List.map f) (lines_map_statement source)
  simp only [List.map_map, Function.comp_def, hf] at hlines
  rw [hlines]
  exact (Outline.keptStatements_sublist _).map _

/-- The placement of the statement of a line that comes after others. -/
def placement (source : Text) (before : List EncodedLine) (l : EncodedLine) : Placement :=
  .behind (Outline.ofSource source).origin (before.map (·.statement)) l.statement

theorem pastMemory_placement_iff {before : List EncodedLine} {l : EncodedLine} :
    (placement source before l).pastMemory = true ↔
      l.statement.isLoaded = true ∧
        256 ≤ (Outline.ofSource source).origin + before.countP (·.statement.isLoaded) := by
  rw [placement, Placement.pastMemory_behind_iff, List.countP_map]
  rfl

/-- **What a line is.** Its statement is a stored one that is kept, with its labels resolved, and
what becomes of it is decided with the address that the lines before it leave to it. -/
theorem exists_of_lines_eq {before after : List EncodedLine} {l : EncodedLine}
    (h : (assemble source).lines = before ++ l :: after) :
    ∃ (s : Statement) (enc : Encoder),
      s ∈ (Outline.ofSource source).keptStatements ∧
      l.statement = s.resolve (assemble source).symbols ∧
      placement source before l ∈ (layout source).placements ∧
      (l.statement, enc.encoding (placement source before l)) ∈ encodings source ∧
      l.word = (enc.encoding (placement source before l)).word? := by
  have hstatements : before.map (·.statement) ++ l.statement :: after.map (·.statement) =
      (Outline.ofSource source).keptStatements.map (·.resolve (assemble source).symbols) := by
    rw [← lines_map_statement, h, List.map_append, List.map_cons]
  -- the placements split where the lines do, and the encodings where the placements do
  obtain ⟨next, hsequence⟩ := Placement.sequence_eq_append_cons (Outline.ofSource source).origin
    (before.map (·.statement)) l.statement (after.map (·.statement))
  have hplacements := (layout_placements source).trans (hstatements ▸ hsequence)
  have hencodings := (congrArg (encoder source).encodeAll hplacements).trans
    (Encoder.encodeAll_append _ _ _)
  rw [Encoder.encodeAll_cons] at hencodings
  have hlines := h.symm.trans
    ((assemble_lines source).trans (congrArg (List.map _) hencodings))
  rw [List.map_append, List.map_cons] at hlines
  obtain ⟨-, hline⟩ := List.append_inj hlines (by
    rw [List.length_map, ← List.length_map Prod.fst, Encoder.encodeAll_map_fst,
      Placement.sequence_map_statement, List.length_map])
  obtain ⟨s, hs, hresolve⟩ := List.mem_map.mp
    (hstatements ▸ List.mem_append_right _ List.mem_cons_self)
  refine ⟨s, _, hs, hresolve.symm, ?_, ?_, congrArg EncodedLine.word (List.cons.inj hline).1⟩
  · rw [hplacements]
    exact List.mem_append_right _ List.mem_cons_self
  · rw [encodings, hencodings]
    exact List.mem_append_right _ List.mem_cons_self

/-! ### Lines with and without a word -/

variable {before after : List EncodedLine} {l : EncodedLine}

theorem exists_encode_of_word {w : Word} (hl : l ∈ (assemble source).lines)
    (hw : l.word = some w) : ∃ enc : Encoder, enc.encode l.statement = .ok w := by
  obtain ⟨before, after, h⟩ := List.append_of_mem hl
  obtain ⟨s, enc, -, -, -, -, hword⟩ := exists_of_lines_eq h
  cases hcase : enc.encoding (placement source before l) with
  | word v =>
      obtain rfl : w = v := Option.some.inj (hw.symm.trans (hword.trans (by rw [hcase]; rfl)))
      exact ⟨enc, (Encoder.encoding_eq_word_iff.mp hcase).2⟩
  | _ =>
      rw [hcase, hw] at hword
      simp [Encoding.word?] at hword

/-- A loaded line past the end of memory has no word. -/
theorem word_eq_none_of_past (h : (assemble source).lines = before ++ l :: after)
    (hloaded : l.statement.isLoaded = true)
    (hpast : 256 ≤ (Outline.ofSource source).origin + before.countP (·.statement.isLoaded)) :
    l.word = none := by
  obtain ⟨s, enc, -, -, -, -, hword⟩ := exists_of_lines_eq h
  have hpast := pastMemory_placement_iff.mpr ⟨hloaded, hpast⟩
  rw [hword, Encoder.encoding_eq_withheld_iff.mpr
    (Placement.encodable_eq_false_iff.mpr (.inl hpast))]
  rfl

/-- A loaded line past the end of memory is reported. -/
theorem addressTooLarge_of_past (h : (assemble source).lines = before ++ l :: after)
    (hloaded : l.statement.isLoaded = true)
    (hpast : 256 ≤ (Outline.ofSource source).origin + before.countP (·.statement.isLoaded)) :
    ∃ d ∈ (assemble source).diagnostics, d.defect = .addressTooLarge := by
  obtain ⟨s, enc, -, -, hplaced, -, -⟩ := exists_of_lines_eq h
  obtain ⟨d, hd, hdefect⟩ := Outline.exists_addressTooLarge hplaced
    (pastMemory_placement_iff.mpr ⟨hloaded, hpast⟩)
  exact ⟨d, mem_diagnostics_iff.mpr (.inr (.inr (.inl hd))), hdefect⟩

/-- The line that a stored statement became has the labels of that statement resolved. -/
theorem resolve_of_line_eq (hl : l ∈ (assemble source).lines) {s : Statement}
    (hs : s ∈ (Outline.ofSource source).statements) (hsame : s.line = l.statement.line) :
    l.statement = s.resolve (assemble source).symbols := by
  obtain ⟨before, after, h⟩ := List.append_of_mem hl
  obtain ⟨t, enc, ht, hresolve, -, -, -⟩ := exists_of_lines_eq h
  have ht := (Outline.keptStatements_sublist _).subset ht
  rw [hresolve] at hsame ⊢
  rw [Outline.eq_of_line_eq hs ht hsame]

/-- A line that refers to a label without an address has no word. -/
theorem word_eq_none_of_reference (hl : l ∈ (assemble source).lines) {s : Statement}
    (hs : s ∈ (Outline.ofSource source).statements) (hsame : s.line = l.statement.line)
    {label : Text} (hlabel : label ∈ s.references)
    (hnone : (assemble source).symbols.lookup label = none) : l.word = none := by
  have hreferences : label ∈ l.statement.references :=
    resolve_of_line_eq hl hs hsame ▸ Statement.mem_references_resolve_iff.mpr ⟨hlabel, hnone⟩
  obtain ⟨before, after, h⟩ := List.append_of_mem hl
  obtain ⟨t, enc, -, -, -, -, hword⟩ := exists_of_lines_eq h
  rw [hword, Encoder.encoding_eq_withheld_iff.mpr
    (Placement.encodable_eq_false_iff.mpr (.inr (List.ne_nil_of_mem hreferences)))]
  rfl

/-- **A line has no word only for a reason that is reported.** -/
theorem diagnostics_ne_nil_of_word_eq_none (hl : l ∈ (assemble source).lines)
    (hnone : l.word = none) : (assemble source).diagnostics ≠ [] := by
  obtain ⟨before, after, h⟩ := List.append_of_mem hl
  obtain ⟨s, enc, hs, hresolve, hplaced, hencoding, hword⟩ := exists_of_lines_eq h
  cases hcase : enc.encoding (placement source before l) with
  | word w =>
      rw [hcase, hnone] at hword
      simp [Encoding.word?] at hword
  | refused defect =>
      have hd : Encoding.diagnostic? l.statement (.refused defect) =
          some (l.statement.diagnose defect) := rfl
      exact List.ne_nil_of_mem
        (mem_diagnostics_iff.mpr (.inr (.inr (.inr ⟨_, _, hcase ▸ hencoding, hd⟩))))
  | withheld =>
      refine diagnostics_ne_nil_of_layout ?_
      rcases Placement.encodable_eq_false_iff.mp (Encoder.encoding_eq_withheld_iff.mp hcase) with
        hpast | hreferences
      · obtain ⟨d, hd, -⟩ := Outline.exists_addressTooLarge hplaced hpast
        exact List.ne_nil_of_mem hd
      · obtain ⟨label, hlabel⟩ := List.exists_mem_of_ne_nil _ hreferences
        have hlabel : label ∈ (s.resolve (assemble source).symbols).references :=
          hresolve ▸ hlabel
        obtain ⟨hlabel, hlookup⟩ := Statement.mem_references_resolve_iff.mp hlabel
        exact Outline.diagnostics_ne_nil_of_reference (Outline.ofSource_wellFormed source)
          ((Outline.keptStatements_sublist _).subset hs) hlabel hlookup

/-- Without defects every line has a word. -/
theorem exists_word (h : (assemble source).diagnostics = []) (hl : l ∈ (assemble source).lines) :
    ∃ w, l.word = some w := by
  cases hword : l.word with
  | none => exact absurd h (diagnostics_ne_nil_of_word_eq_none hl hword)
  | some w => exact ⟨w, rfl⟩

end Assembly

end TeachingCpu
