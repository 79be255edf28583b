import Mathlib.Data.List.Pairwise
import Mathlib.Data.List.Perm.Subperm
import TeachingCpu.Proofs.Assembly.Labels
import TeachingCpu.Proofs.Assembly.Partition
/-!
# TeachingCpu.Proofs.Assembly.FallThrough

**What control runs into.** A processor that does not jump goes on with the next word, so a line
runs into the one behind it in the layout, be that the first of a labelled block. The layout drops
the blocks whose labels nothing mentions, and with them what stood behind the line before
(`Assembly.dropping_breaks_fallThrough`). Everywhere else lines that follow one another in the
source do so in the layout.

Two lines in a row, the second without a label, are in one block (`Outline.same_block`), which is
kept or dropped as a whole; a line with a label is kept if the label is mentioned. Kept lines keep
their order, so two kept lines in a row stay in a row.
-/

set_option autoImplicit false

namespace TeachingCpu

namespace Outline

variable {o : Outline} {s t : Statement} {declared : List Text} {before after : List Statement}

/-! ### Statements in a row -/

/-- Two statements in a row, the second of which carries no label, are in one block. -/
theorem same_block {main : List Statement} {subs : List Subroutine}
    (hopening : ∀ sub ∈ subs, sub.opening.label = some sub.label)
    (h : main ++ subs.flatMap (·.statements) = before ++ s :: t :: after)
    (hlabel : t.label = none) :
    (s ∈ main ∧ t ∈ main) ∨ ∃ sub ∈ subs, s ∈ sub.statements ∧ t ∈ sub.statements := by
  induction subs generalizing main before with
  | nil =>
      rw [List.flatMap_nil, List.append_nil] at h
      exact .inl (by simp [h])
  | cons sub subs ih =>
      rw [List.flatMap_cons] at h
      -- both are behind the first block, or it ends between the two, or both are in it
      have hbehind (before : List Statement)
          (h : sub.statements ++ subs.flatMap (·.statements) = before ++ s :: t :: after) :
          ∃ sub' ∈ sub :: subs, s ∈ sub'.statements ∧ t ∈ sub'.statements := by
        rcases ih (List.forall_mem_cons.mp hopening).2 h with hboth | ⟨sub', hsub', hboth⟩
        · exact ⟨sub, List.mem_cons_self, hboth⟩
        · exact ⟨sub', List.mem_cons_of_mem _ hsub', hboth⟩
      rcases List.append_eq_append_iff.mp h with ⟨rest, -, hrest⟩ | ⟨rest, rfl, hrest⟩
      · exact .inr (hbehind _ hrest)
      · match rest with
        | [] => exact .inr (hbehind [] hrest.symm)
        | [_] =>
            obtain ⟨rfl, hnext⟩ := List.cons.inj hrest
            obtain ⟨rfl, -⟩ := List.cons.inj hnext
            rw [hopening sub List.mem_cons_self] at hlabel
            cases hlabel
        | _ :: _ :: _ =>
            obtain ⟨rfl, hnext⟩ := List.cons.inj hrest
            obtain ⟨rfl, -⟩ := List.cons.inj hnext
            exact .inl (by simp)

/-- A statement is in one block only. -/
theorem mem_keptSubroutines_of_mem {sub : Subroutine} (hnodup : o.statements.Nodup)
    (hs : s ∈ o.keptStatements) (hsub : sub ∈ o.subroutines) (hmem : s ∈ sub.statements) :
    sub ∈ o.keptSubroutines := by
  obtain ⟨-, hblocks, hdisjoint⟩ := List.nodup_append.mp hnodup
  rcases List.mem_append.mp hs with hmain | hkept
  · exact absurd rfl (hdisjoint s hmain s (List.mem_flatMap.mpr ⟨sub, hsub, hmem⟩))
  · obtain ⟨sub', hsub', hmem'⟩ := List.mem_flatMap.mp hkept
    have hstored := (mem_keptSubroutines_iff.mp hsub').1
    by_cases hsame : sub = sub'
    · exact hsame ▸ hsub'
    · have : Std.Symm (Function.onFun List.Disjoint Subroutine.statements) :=
        ⟨fun _ _ h => List.disjoint_symm h⟩
      have happart := (List.nodup_flatMap.mp hblocks).2.forall hsub hstored hsame
      exact absurd hmem' (happart hmem)

/-- What carries a label is kept if the label is mentioned. -/
theorem WellFormed.mem_keptStatements_iff {label : Text} (h : o.WellFormed declared)
    (hs : s ∈ o.statements) (hlabel : s.label = some label) :
    s ∈ o.keptStatements ↔ o.Mentions label := by
  constructor
  · intro hkept
    rcases List.mem_append.mp hkept with hmain | hkept
    · rw [h.main_label s hmain] at hlabel
      cases hlabel
    · obtain ⟨sub, hsub, hs⟩ := List.mem_flatMap.mp hkept
      obtain ⟨hsub, hrefers⟩ := mem_keptSubroutines_iff.mp hsub
      rcases List.mem_cons.mp hs with rfl | hbody
      · rw [h.opening_label sub hsub] at hlabel
        cases hlabel
        exact mentions_of_refersTo hrefers
      · rw [h.body_label sub hsub s hbody] at hlabel
        cases hlabel
  · intro hmentions
    obtain ⟨sub, hsub, rfl, rfl⟩ := h.exists_subroutine hs hlabel
    have hkept := mem_keptSubroutines_iff.mpr
      ⟨hsub, refersTo_of_mentions (h.sigil sub hsub) hmentions⟩
    exact List.mem_append_right _ (List.mem_flatMap.mpr ⟨sub, hkept, List.mem_cons_self⟩)

/-- What follows a kept statement is kept unless it carries a label that nothing mentions. -/
theorem WellFormed.mem_keptStatements_next_iff (h : o.WellFormed declared)
    (hnodup : o.statements.Nodup) (hsplit : o.statements = before ++ s :: t :: after)
    (hs : s ∈ o.keptStatements) :
    t ∈ o.keptStatements ↔ ∀ label, t.label = some label → o.Mentions label := by
  have ht : t ∈ o.statements := by simp [hsplit]
  cases hlabel : t.label with
  | some label => simp [h.mem_keptStatements_iff ht hlabel]
  | none =>
      refine iff_of_true ?_ nofun
      rcases same_block h.opening_label hsplit hlabel with ⟨-, hmain⟩ | ⟨sub, hsub, hmem, hnext⟩
      · exact List.mem_append_left _ hmain
      · have hkept := mem_keptSubroutines_of_mem hnodup hs hsub hmem
        exact List.mem_append_right _ (List.mem_flatMap.mpr ⟨sub, hkept, hnext⟩)

/-- Kept are those statements that are kept, in their order. -/
theorem keptStatements_eq_filter (hnodup : o.statements.Nodup) :
    o.keptStatements = o.statements.filter (· ∈ o.keptStatements) := by
  have hself : o.keptStatements.filter (· ∈ o.keptStatements) = o.keptStatements :=
    List.filter_eq_self.mpr fun s hs => decide_eq_true hs
  have hsub := o.keptStatements_sublist.filter (· ∈ o.keptStatements)
  rw [hself] at hsub
  have hsubset : o.statements.filter (· ∈ o.keptStatements) ⊆ o.keptStatements :=
    fun s hs => of_decide_eq_true (List.mem_filter.mp hs).2
  exact hsub.eq_of_length_le (List.Nodup.subperm (hnodup.filter _) hsubset).length_le

/-- Two kept statements in a row stay in a row, with what is kept of the others around them. -/
theorem keptStatements_eq_of_split (hnodup : o.statements.Nodup)
    (hsplit : o.statements = before ++ s :: t :: after) (hs : s ∈ o.keptStatements)
    (ht : t ∈ o.keptStatements) :
    ∃ before', o.keptStatements =
      before' ++ s :: t :: after.filter (· ∈ o.keptStatements) := by
  have hkept := keptStatements_eq_filter hnodup
  rw [hsplit, List.filter_append, List.filter_cons_of_pos (by simpa using hs),
    List.filter_cons_of_pos (by simpa using ht)] at hkept
  exact ⟨_, hkept⟩

theorem statements_nodup (source : Text) : (ofSource source).statements.Nodup :=
  List.Nodup.of_map _ ((statements_increasing source).imp Nat.ne_of_lt)

end Outline

/-! ### Lines in a row -/

/-- The command of a line, if the line can be taken apart. -/
def SourceLine.command? (l : SourceLine) : Option Text :=
  (Fields.ofText? l.text).map (·.command)

/-- A line from which control may go on to the next: no jump, and no halt. -/
def SourceLine.FallsThrough (l : SourceLine) : Prop :=
  l.command? ≠ some "JMP".toList ∧ l.command? ≠ some "HALT".toList

namespace Assembly

/-- A line of the source is among the lines that are laid out. -/
def Emits (a : Assembly) (l : SourceLine) : Prop := ∃ x ∈ a.lines, x.statement.line = l.line

instance (a : Assembly) (l : SourceLine) : Decidable (a.Emits l) :=
  inferInstanceAs (Decidable (∃ x ∈ a.lines, x.statement.line = l.line))

/-- A line of the source is laid out directly behind another. -/
def Follows (a : Assembly) (l l' : SourceLine) : Prop :=
  ∃ before x y after, a.lines = before ++ x :: y :: after ∧ x.statement.line = l.line ∧
    y.statement.line = l'.line

/-- The image that is loaded ends with the word of a halt. -/
def EndsInHalt (a : Assembly) : Prop :=
  ∃ origin image, a.Lays origin image ∧ image.getLast? = some 0xFF00#16

variable {source : Text} {before after : List SourceLine} {l l' : SourceLine}

/-- A stored line is a line of the source, with its label and its command. -/
theorem fields_eq_of_line_eq {s : Statement} (hs : s ∈ (Outline.ofSource source).statements)
    (hl : l ∈ SourceLine.scan source) (hline : s.line = l.line) :
    s.label = l.label? ∧ some s.command = l.command? := by
  obtain ⟨before, m, after, hscan, hstored⟩ := Outline.mem_statements_ofSource_iff.mp hs
  obtain ⟨fields, hfields, -, rfl⟩ := Outline.Context.exists_fields_of_stored?_eq_some hstored
  obtain ⟨before', after', hscan'⟩ := List.append_of_mem hl
  obtain ⟨-, rfl⟩ :=
    SourceLine.split_unique (SourceLine.scan_increasing source) hscan hscan' hline
  exact ⟨rfl, by rw [SourceLine.command?, hfields]; rfl⟩

/-- Without defects lines in a row are stored as statements in a row. -/
theorem exists_statements_of_scan (hclean : (assemble source).diagnostics = [])
    (hscan : SourceLine.scan source = before ++ l :: l' :: after) :
    ∃ earlier s t later, (Outline.ofSource source).statements = earlier ++ s :: t :: later ∧
      s.line = l.line ∧ t.line = l'.line ∧ later.length = after.length := by
  have hplaces := (Outline.follow_complete [] none _ (outline_clean hclean)).1
  rw [hscan, List.map_append, List.map_cons, List.map_cons] at hplaces
  obtain ⟨earlier, rest, hsplit, -, hrest⟩ := List.map_eq_append_iff.mp hplaces
  obtain ⟨s, rest, rfl, hs, hrest⟩ := List.map_eq_cons_iff.mp hrest
  obtain ⟨t, later, rfl, ht, hlater⟩ := List.map_eq_cons_iff.mp hrest
  refine ⟨earlier, s, t, later, ?_, congrArg Prod.fst hs, congrArg Prod.fst ht, ?_⟩
  · rw [← hsplit, ← hscan]
    rfl
  · simpa using congrArg List.length hlater

/-- A line is laid out if its statement is kept. -/
theorem emits_iff {s : Statement} (hs : s ∈ (Outline.ofSource source).statements)
    (hline : s.line = l.line) :
    (assemble source).Emits l ↔ s ∈ (Outline.ofSource source).keptStatements := by
  have hlines := congrArg (List.map (·.line)) (lines_map_statement source)
  simp only [List.map_map, Function.comp_def, Statement.resolve_line] at hlines
  have hemits : (assemble source).Emits l ↔
      ∃ t ∈ (Outline.ofSource source).keptStatements, t.line = s.line := by
    rw [hline, ← List.mem_map, ← hlines, List.mem_map]
    rfl
  rw [hemits]
  constructor
  · rintro ⟨t, ht, hsame⟩
    have hstored := (Outline.keptStatements_sublist _).subset ht
    exact Outline.eq_of_line_eq hstored hs hsame ▸ ht
  · intro hkept
    exact ⟨s, hkept, rfl⟩

/-- Kept statements in a row are laid out as lines in a row, at the end if nothing is stored behind
them. -/
theorem exists_lines_of_statements {earlier later : List Statement} {s t : Statement}
    (hsplit : (Outline.ofSource source).statements = earlier ++ s :: t :: later)
    (hs : s ∈ (Outline.ofSource source).keptStatements)
    (ht : t ∈ (Outline.ofSource source).keptStatements) :
    ∃ front x y back, (assemble source).lines = front ++ x :: y :: back ∧
      x.statement = s.resolve (assemble source).symbols ∧
      y.statement = t.resolve (assemble source).symbols ∧ (later = [] → back = []) := by
  obtain ⟨kept, hrow⟩ :=
    Outline.keptStatements_eq_of_split (Outline.statements_nodup source) hsplit hs ht
  have hlines := lines_map_statement source
  rw [hrow, List.map_append, List.map_cons, List.map_cons] at hlines
  obtain ⟨front, rest, hlines, -, hrest⟩ := List.map_eq_append_iff.mp hlines
  obtain ⟨x, rest, rfl, hx, hrest⟩ := List.map_eq_cons_iff.mp hrest
  obtain ⟨y, back, rfl, hy, hback⟩ := List.map_eq_cons_iff.mp hrest
  refine ⟨front, x, y, back, hlines, hx, hy, fun hlast => ?_⟩
  rw [hlast] at hback
  exact List.map_eq_nil_iff.mp hback

/-- Without defects, the line behind one that is laid out is laid out exactly if its label, if it
carries one, is mentioned, and then directly behind it. -/
theorem follows_of_emits (hclean : (assemble source).diagnostics = [])
    (hscan : SourceLine.scan source = before ++ l :: l' :: after) (hl : (assemble source).Emits l) :
    ((assemble source).Emits l' ↔
      ∀ label, l'.label? = some label → (Outline.ofSource source).Mentions label) ∧
    ((assemble source).Emits l' → ∃ front x y back,
      (assemble source).lines = front ++ x :: y :: back ∧ x.statement.line = l.line ∧
        y.statement.line = l'.line ∧ some y.statement.command = l'.command? ∧
        (after = [] → back = [])) := by
  obtain ⟨earlier, s, t, later, hsplit, hsl, htl, hlength⟩ := exists_statements_of_scan hclean hscan
  have hs : s ∈ (Outline.ofSource source).statements := by simp [hsplit]
  have ht : t ∈ (Outline.ofSource source).statements := by simp [hsplit]
  have hl' : l' ∈ SourceLine.scan source := by simp [hscan]
  obtain ⟨hlabel, hcommand⟩ := fields_eq_of_line_eq ht hl' htl
  rw [emits_iff hs hsl] at hl
  rw [emits_iff ht htl, ← hlabel]
  constructor
  · exact (Outline.ofSource_wellFormed source).mem_keptStatements_next_iff
      (Outline.statements_nodup source) hsplit hl
  · intro hkept
    obtain ⟨front, x, y, back, hlines, hx, hy, hback⟩ := exists_lines_of_statements hsplit hl hkept
    refine ⟨front, x, y, back, hlines, by rw [hx, Statement.resolve_line, hsl],
      by rw [hy, Statement.resolve_line, htl], by rw [hy, ← hcommand]; rfl, fun hlast => ?_⟩
    exact hback (List.length_eq_zero_iff.mp (by rw [hlength, hlast]; rfl))

/-- A halt that has a word has the word of a halt. -/
theorem word_of_halt {x : EncodedLine} {w : Word} (hx : x ∈ (assemble source).lines)
    (hcommand : x.statement.command = "HALT".toList) (hw : x.word = some w) :
    w = 0xFF00#16 := by
  obtain ⟨enc, hencode⟩ := exists_encode_of_word hx hw
  have hhalt : Mnemonic.ofText? x.statement.command = some .halt := by rw [hcommand]; decide
  rw [Encoder.encode, hhalt] at hencode
  exact (Encoder.halt_eq_ok_iff.mp hencode).2.2.symm

/-- Where the last of several lines is a halt, the image ends with its word. -/
theorem endsInHalt_of_lines {earlier : List EncodedLine} {x y : EncodedLine}
    (hclean : (assemble source).diagnostics = [])
    (hlines : (assemble source).lines = earlier ++ [x, y])
    (hcommand : y.statement.command = "HALT".toList) : (assemble source).EndsInHalt := by
  obtain ⟨image, hlays⟩ := exists_lays hclean
  refine ⟨_, image, hlays, ?_⟩
  obtain ⟨first, rest, hsplit, -, -, -, hwords⟩ := hlays.lines
  have hy : y ∈ (assemble source).lines := by simp [hlines]
  obtain ⟨w, hw⟩ := exists_word hclean hy
  have hword := word_of_halt hy hcommand hw
  -- the last of the loaded lines is the last of all
  have hlast : rest.getLast? = some y := by
    have hall := congrArg List.getLast? (hsplit.symm.trans hlines)
    rw [List.getLast?_append, List.getLast?_cons_cons] at hall
    have hlength := congrArg List.length (hsplit.symm.trans hlines)
    cases rest with
    | nil => simp at hlength
    | cons next rest =>
        rw [List.getLast?_cons_cons] at hall
        simpa using hall
  have hend := congrArg List.getLast? hwords
  rw [List.getLast?_map, List.getLast?_map, hlast, Option.map_some, hw] at hend
  obtain ⟨v, hv, hsame⟩ := Option.map_eq_some_iff.mp hend.symm
  rw [hv, Option.some.inj hsame, hword]

/-! ### Falling through -/

/-- Control that runs off the end of a line reaches the next line of the source. -/
def PreservesFallThrough (source : Text) : Prop :=
  let a := assemble source
  a.diagnostics = [] →
    (∀ before l l' after, SourceLine.scan source = before ++ l :: l' :: after → a.Emits l →
      l.FallsThrough → a.Emits l' ∧ a.Follows l l') ∧
    ∀ before l l', SourceLine.scan source = before ++ [l, l'] → a.Emits l → l.FallsThrough →
      l'.command? = some "HALT".toList → a.EndsInHalt

/-- Control may run off the end of a line into a block that is dropped, because nothing mentions
its label: here past the end of the program, whose halt is dropped. -/
theorem dropping_breaks_fallThrough :
    ¬PreservesFallThrough "ORG $00\nADD #$01,A\n_end HALT".toList := by
  intro h
  obtain ⟨hrow, -⟩ := h (by decide)
  obtain ⟨hemitted, -⟩ := hrow [⟨1, 1, "ORG@$00".toList, ⟨0, 7⟩⟩]
    ⟨2, 2, "ADD@#$01,A".toList, ⟨8, 10⟩⟩ ⟨3, 3, "_end@HALT".toList, ⟨19, 9⟩⟩ [] (by decide)
    (by decide) ⟨by decide, by decide⟩
  revert hemitted
  decide

/-- **Dropping blocks keeps what control runs into, but for labels that nothing mentions.** Without
defects, and whether or not control can run off its end, the line behind one that is laid out is
laid out directly behind it, unless it carries a label that no stored line mentions; then it is
dropped. So a halt on the last line that is not dropped in this way ends the image. -/
theorem fallThrough_kept (source : Text) (hclean : (assemble source).diagnostics = []) :
    let a := assemble source
    let o := Outline.ofSource source
    (∀ before l l' after, SourceLine.scan source = before ++ l :: l' :: after → a.Emits l →
      (a.Emits l' ↔ ∀ label, l'.label? = some label → o.Mentions label) ∧
      (a.Emits l' → a.Follows l l')) ∧
    ∀ before l l', SourceLine.scan source = before ++ [l, l'] → a.Emits l →
      l'.command? = some "HALT".toList → (∀ label, l'.label? = some label → o.Mentions label) →
      a.EndsInHalt := by
  intro a o
  constructor
  · intro before l l' after hscan hl
    obtain ⟨hiff, hrow⟩ := follows_of_emits hclean hscan hl
    refine ⟨hiff, fun hl' => ?_⟩
    obtain ⟨earlier, x, y, later, hlines, hx, hy, -, -⟩ := hrow hl'
    exact ⟨earlier, x, y, later, hlines, hx, hy⟩
  · intro before l l' hscan hl hhalt hmentions
    obtain ⟨hiff, hrow⟩ := follows_of_emits hclean hscan hl
    obtain ⟨earlier, x, y, later, hlines, -, -, hcommand, hlast⟩ := hrow (hiff.mpr hmentions)
    rw [hlast rfl] at hlines
    exact endsInHalt_of_lines hclean hlines (Option.some.inj (hcommand.trans hhalt))

/-- A loop that control runs into keeps its place, and the halt behind it ends the image. -/
theorem fallThrough_kept_into_a_loop :
    let a := assemble "ORG $00\nMOVE #$03,A\n_loop SUB #$01,A\nBNE _loop\nHALT".toList
    a.Follows ⟨2, 2, "MOVE@#$03,A".toList, ⟨8, 11⟩⟩ ⟨3, 3, "_loop@SUB@#$01,A".toList, ⟨20, 16⟩⟩ ∧
      a.EndsInHalt := by
  intro a
  obtain ⟨hrow, hend⟩ := fallThrough_kept
    "ORG $00\nMOVE #$03,A\n_loop SUB #$01,A\nBNE _loop\nHALT".toList (by decide)
  have hunlabelled : SourceLine.label? ⟨5, 5, "HALT".toList, ⟨47, 4⟩⟩ = none := by decide
  refine ⟨?_, ?_⟩
  · exact (hrow [⟨1, 1, "ORG@$00".toList, ⟨0, 7⟩⟩] _ _
      [⟨4, 4, "BNE@_loop".toList, ⟨37, 9⟩⟩, ⟨5, 5, "HALT".toList, ⟨47, 4⟩⟩] (by decide)
      (by decide)).2 (by decide)
  · exact hend
      [⟨1, 1, "ORG@$00".toList, ⟨0, 7⟩⟩, ⟨2, 2, "MOVE@#$03,A".toList, ⟨8, 11⟩⟩,
        ⟨3, 3, "_loop@SUB@#$01,A".toList, ⟨20, 16⟩⟩]
      ⟨4, 4, "BNE@_loop".toList, ⟨37, 9⟩⟩ ⟨5, 5, "HALT".toList, ⟨47, 4⟩⟩ (by decide) (by decide)
      (by decide) fun label hlabel => by
        rw [hunlabelled] at hlabel
        cases hlabel

end Assembly

end TeachingCpu
