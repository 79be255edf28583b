import TeachingCpu.Proofs.Assembly.Loading
/-!
# TeachingCpu.Proofs.Assembly.Boundaries

**An origin comes first and a halt comes last,** or not at all. Both are checked by the encoder, one
line at a time, by comparing the place of the line with 1 and with that of the last line of the
source. The lines of an assembly are not those of the source: subroutines are dropped, and refused
lines are left out. But the places of the lines increase all the same
(`Assembly.lines_places_sublist`), so the line with the last place of the source is the last of all
(`Assembly.getLast?_of_position`).

No other instruction has the opcode of a halt, so its word says where it comes from.
-/

set_option autoImplicit false

namespace TeachingCpu

/-! ### The word of a halt -/

namespace Encoder

variable {enc : Encoder} {s : Statement} {ps : List Placement}

/-- What becomes of a placed statement is decided by an encoder that knows the same last line. -/
theorem exists_encoding_with_last_of_mem {encoding : Encoding}
    (h : (s, encoding) ∈ enc.encodeAll ps) :
    ∃ (enc' : Encoder) (p : Placement), enc'.last = enc.last ∧ p.statement = s ∧
      enc'.encoding p = encoding := by
  induction ps generalizing enc with
  | nil => cases h
  | cons p ps ih =>
      rw [encodeAll_cons] at h
      rcases List.mem_cons.mp h with hfirst | hrest
      · cases hfirst
        exact ⟨enc, p, rfl, rfl, rfl⟩
      · obtain ⟨enc', q, hlast, hstatement, hencoding⟩ := ih hrest
        have hpast : (enc.past p).last = enc.last := by
          unfold past
          split <;> rfl
        exact ⟨enc', q, hlast.trans hpast, hstatement, hencoding⟩

/-- A word with the opcode of a halt is that of a halt, which stands on the last line. -/
theorem accepts_halt_of_encode {w : Word} (h : enc.encode s = .ok w) (hw : w.high = haltOpcode) :
    w = Word.ofBytes haltOpcode 0 ∧ s.command = "HALT".toList ∧
      ∀ last ∈ enc.last, s.position = last.position := by
  obtain ⟨m, haccepts, rfl⟩ := encode_eq_ok_iff.mp h
  cases m with
  | origin address =>
      rw [Sentence.word, Word.high_ofBytes] at hw
      exact absurd hw (by decide)
  | instruction op n =>
      rw [Sentence.word, Word.high_ofBytes] at hw
      have hdecode := haccepts.decode?_opcode
      rw [hw] at hdecode
      obtain rfl : Operation.halt = op := Option.some.inj hdecode
      cases haccepts with
      | halt hcommand hparams hlast => exact ⟨rfl, hcommand, hlast⟩

end Encoder

namespace Assembly

variable {source : Text}

/-! ### The last line -/

/-- The lines of an assembly stand where lines of the source do, in their order. -/
theorem lines_places_sublist (source : Text) :
    ((assemble source).lines.map (·.statement.place)).Sublist
      ((SourceLine.scan source).map (·.place)) :=
  (lines_sublist source fun _ _ => rfl).trans (Outline.follow_places_sublist true [] none _)

theorem places_increasing (source : Text) :
    ((SourceLine.scan source).map (·.place)).Pairwise (·.2 < ·.2) := by
  have hpositions : ((SourceLine.scan source).map (·.position)).Pairwise (· < ·) := by
    rw [SourceLine.scan_positions]
    exact List.pairwise_lt_range' 1
  exact List.pairwise_map.mpr (List.pairwise_map.mp hpositions)

/-- The line of an assembly that has the last place of the source is the last line of both. -/
theorem last_of_position {before after : List EncodedLine} {l : EncodedLine} {m : SourceLine}
    (hlines : (assemble source).lines = before ++ l :: after)
    (hlast : (SourceLine.scan source).getLast? = some m)
    (hposition : l.statement.position = m.position) :
    after = [] ∧ l.statement.line = m.line := by
  obtain ⟨earlier, hscan⟩ := List.getLast?_eq_some_iff.mp hlast
  have hincreasing := places_increasing source
  have hplaces := lines_places_sublist source
  -- lines of the assembly are lines of the source, none of which stands behind the last
  have hgreatest : ∀ place ∈ (SourceLine.scan source).map (·.place),
      place.2 < m.position ∨ place = m.place := by
    rw [hscan, List.map_append] at hincreasing ⊢
    intro place hplace
    rcases List.mem_append.mp hplace with hearlier | hplace
    · exact .inl ((List.pairwise_append.mp hincreasing).2.2 place hearlier m.place (by simp))
    · exact .inr (List.mem_singleton.mp hplace)
  rw [hlines, List.map_append, List.map_cons] at hplaces
  have hbehind := (List.pairwise_append.mp (hincreasing.sublist hplaces)).2.1
  constructor
  · cases after with
    | nil => rfl
    | cons x after =>
        have hlt : l.statement.place.2 < x.statement.place.2 :=
          List.rel_of_pairwise_cons hbehind (by simp)
        rcases hgreatest x.statement.place (hplaces.subset (by simp)) with hless | hsame
        · exact absurd (hposition ▸ hlt) (Nat.lt_asymm hless)
        · rw [hsame] at hlt
          exact absurd hposition (Nat.ne_of_lt hlt)
  · rcases hgreatest l.statement.place (hplaces.subset (by simp)) with hless | hsame
    · exact absurd hposition (Nat.ne_of_lt hless)
    · exact congrArg Prod.fst hsame

/-- A line whose word has the opcode of a halt is a halt on the last line of the source, and the
last line of the assembly. -/
theorem halt_of_high {before after : List EncodedLine} {l : EncodedLine} {w : Word}
    (hlines : (assemble source).lines = before ++ l :: after) (hword : l.word = some w)
    (hw : w.high = haltOpcode) :
    w = Word.ofBytes haltOpcode 0 ∧ l.statement.command = "HALT".toList ∧ after = [] ∧
      ∃ m, (SourceLine.scan source).getLast? = some m ∧ l.statement.line = m.line ∧
        l.statement.position = m.position := by
  obtain ⟨-, enc, -, -, -, hmem, hcase⟩ := exists_of_lines_eq hlines
  have hencoding : enc.encoding (placement source before l) = .word w := by
    rw [hword] at hcase
    cases hword : enc.encoding (placement source before l) <;> simp_all [Encoding.word?]
  rw [hencoding] at hmem
  -- of the encoder that decided, it matters which last line it knows
  obtain ⟨enc', p, hlast, hstatement, hencoding'⟩ := Encoder.exists_encoding_with_last_of_mem hmem
  have hencode := (Encoder.encoding_eq_word_iff.mp hencoding').2
  rw [hstatement] at hencode
  obtain ⟨hhalt, hcommand, hposition⟩ := Encoder.accepts_halt_of_encode hencode hw
  have hplace : l.statement.place ∈ (SourceLine.scan source).map (·.place) :=
    (lines_places_sublist source).subset (List.mem_map_of_mem (by simp [hlines]))
  cases hscan : (SourceLine.scan source).getLast? with
  | none => simp [List.getLast?_eq_none_iff.mp hscan] at hplace
  | some m =>
      have hposition : l.statement.position = m.position := by
        refine hposition ⟨m.position, m.line⟩ ?_
        rw [hlast, encoder, Outline.ofSource_last, hscan]
        rfl
      obtain ⟨hafter, hline⟩ := last_of_position hlines hscan hposition
      exact ⟨hhalt, hcommand, hafter, m, rfl, hline, hposition⟩

/-! ### Images -/

/-- An assembly begins with an origin that is its only one. Its word is the first of the data, and
the image is what follows. -/
structure OpensWithOrigin (a : Assembly) (first : EncodedLine) (rest : List EncodedLine)
    (origin : Byte) (image : List Word) : Prop where
  lines : a.lines = first :: rest
  command : first.statement.command = "ORG".toList
  position : first.statement.position = 1
  unlabelled : first.statement.label = none
  only : ∀ l ∈ rest, l.statement.command ≠ "ORG".toList
  word : first.word = some (Word.ofBytes 0x00 origin)
  data : a.data = Word.ofBytes 0x00 origin :: image
  image : rest.map (·.word) = image.map some

/-- A word is that of a halt, the last of an image, and comes from the last line of the source. -/
structure ClosesWithHalt (source : Text) (rest : List EncodedLine) (image : List Word) (w : Word) :
    Prop where
  word : w = 0xFF00#16
  last : image.getLast? = some w
  line : ∃ l m, rest.getLast? = some l ∧ l.word = some w ∧ l.statement.command = "HALT".toList ∧
    (SourceLine.scan source).getLast? = some m ∧ l.statement.line = m.line ∧
    l.statement.position = m.position

theorem closesWithHalt_of_high {first : EncodedLine} {rest : List EncodedLine}
    {image before after : List Word} {w : Word} (hlines : (assemble source).lines = first :: rest)
    (hwords : rest.map (·.word) = image.map some) (himage : image = before ++ w :: after)
    (hw : w.high = haltOpcode) : after = [] ∧ ClosesWithHalt source rest image w := by
  subst himage
  rw [List.map_append, List.map_cons] at hwords
  obtain ⟨earlier, tail, rfl, -, htail⟩ := List.map_eq_append_iff.mp hwords
  obtain ⟨l, later, rfl, hword, hlater⟩ := List.map_eq_cons_iff.mp htail
  have hsplit : (assemble source).lines = (first :: earlier) ++ l :: later := hlines
  obtain ⟨hhalt, hcommand, rfl, m, hscan, hline, hposition⟩ := halt_of_high hsplit hword hw
  obtain rfl : after = [] := by simpa using hlater
  exact ⟨rfl, hhalt, by simp, l, m, by simp, hword, hcommand, hscan, hline, hposition⟩

/-- What can only be last is there at most once. -/
theorem countP_le_one_of_last {α : Type} {xs : List α} {p : α → Bool}
    (h : ∀ before x after, xs = before ++ x :: after → p x = true → after = []) :
    xs.countP p ≤ 1 := by
  rcases List.eq_nil_or_concat xs with rfl | ⟨init, last, rfl⟩
  · simp
  · have hinit : init.countP p = 0 := by
      refine List.countP_eq_zero.mpr fun x hx hp => ?_
      obtain ⟨before, after, rfl⟩ := List.append_of_mem hx
      exact List.append_ne_nil_of_right_ne_nil after (List.cons_ne_nil last [])
        (h before x (after ++ [last]) (by simp) hp)
    rw [List.concat_eq_append, List.countP_append, hinit, Nat.zero_add]
    exact List.countP_le_length

/-- Without defects the words that are laid out open with an origin. -/
theorem exists_opensWithOrigin (h : (assemble source).diagnostics = []) :
    ∃ first rest origin image, (assemble source).OpensWithOrigin first rest origin image ∧
      (assemble source).Lays origin image := by
  obtain ⟨image, hlays⟩ := exists_lays h
  obtain ⟨first, rest, hlines, hfirst, hword, hloaded, hwords⟩ := hlays.lines
  obtain ⟨first', rest', hlines', -, hposition, -⟩ := exists_origin_line h
  obtain ⟨rfl, rfl⟩ := List.cons.inj (hlines.symm.trans hlines')
  have hlabel : first.statement.label = none := by
    obtain ⟨s, -, hs, hresolve, -, -, -⟩ :=
      @exists_of_lines_eq source [] rest first hlines
    rw [hresolve, Statement.resolve_position] at hposition
    rw [hresolve, Statement.resolve_label]
    exact (Outline.follow_complete [] none _ (outline_clean h)).2 s
      ((Outline.keptStatements_sublist _).subset hs) hposition
  have hcommand : first.statement.command = "ORG".toList := by
    by_contra hother
    rw [Statement.isLoaded_iff.mpr hother] at hfirst
    exact Bool.noConfusion hfirst
  exact ⟨first, rest, _, image, ⟨hlines, hcommand, hposition, hlabel,
    fun l hl => Statement.isLoaded_iff.mp (hloaded l hl), hword, hlays.data, hwords⟩, hlays⟩

/-- **An origin comes first and a halt comes last.** Without defects the first line is an origin,
alone and without a label, and its word is not loaded. Of the words that are loaded at most one has
the opcode of a halt. It is that of a halt, the last of all, and comes from the last line of the
source that is not blank. -/
theorem origin_first_halt_last (h : (assemble source).diagnostics = []) :
    let a := assemble source
    ∃ first rest origin image, a.OpensWithOrigin first rest origin image ∧
      (∀ e : Engine, e.isIdle = true → (e.load a.data).engine.cpu.Holds origin image) ∧
      image.countP (·.high == 0xFF) ≤ 1 ∧
      ∀ w ∈ image, w.high = 0xFF → ClosesWithHalt source rest image w := by
  intro a
  obtain ⟨first, rest, origin, image, hopens, hlays⟩ := exists_opensWithOrigin h
  have hcloses {before after : List Word} {w : Word} (himage : image = before ++ w :: after)
      (hw : w.high = 0xFF) : after = [] ∧ ClosesWithHalt source rest image w :=
    closesWithHalt_of_high hopens.lines hopens.image himage hw
  refine ⟨first, rest, origin, image, hopens, fun e hidle => ?_, ?_, fun w hmem hw => ?_⟩
  · rw [hlays.data]
    exact (Engine.load_holds hidle hlays.fits).2
  · exact countP_le_one_of_last fun before w after himage hw =>
      (hcloses himage (eq_of_beq hw)).1
  · obtain ⟨before, after, himage⟩ := List.append_of_mem hmem
    exact (hcloses himage hw).2

/-- A halt behind a subroutine that nothing refers to. -/
theorem origin_first_halt_last_behind_dropped :
    let source := "ORG $FE\nJMP _end\n_unused ADD #$01,A\n_end HALT\n\n".toList
    (assemble source).data = [0x00FE#16, 0x1CFF#16, 0xFF00#16] ∧
      ∃ rest, ClosesWithHalt source rest [0x1CFF#16, 0xFF00#16] 0xFF00#16 := by
  intro source
  have hdata : (assemble source).data = [0x00FE#16, 0x1CFF#16, 0xFF00#16] := by decide
  obtain ⟨first, rest, origin, image, hopens, -, -, hcloses⟩ :=
    @origin_first_halt_last source (by decide)
  obtain ⟨-, rfl⟩ := List.cons.inj (hopens.data.symm.trans hdata)
  exact ⟨hdata, rest, hcloses 0xFF00#16 (by simp) (by decide)⟩

end Assembly

end TeachingCpu
