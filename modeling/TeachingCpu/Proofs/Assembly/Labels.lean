import TeachingCpu.Proofs.Assembly.Loading
/-!
# TeachingCpu.Proofs.Assembly.Labels

**Labels stand for where their subroutines begin.** The addresses behind symbols are counted over
subroutines before anything is placed; the lines of an assembly are counted after resolving and
placing. Both come to the same: the address of a label is the origin plus the number of loaded
lines before the line that carries the label.

A label of a subroutine past the end of memory has no address. It is counted with the others
nevertheless, so that the addresses behind it do not move.
-/

set_option autoImplicit false

namespace TeachingCpu

namespace Outline

/-- Some stored line has the label as a parameter. -/
def Mentions (o : Outline) (label : Text) : Prop := ∃ s ∈ o.statements, label ∈ s.params

theorem refersTo_of_mentions {o : Outline} {label : Text} (hlabel : isLabel label = true)
    (h : o.Mentions label) : o.refersTo label = true := by
  obtain ⟨s, hs, hparam⟩ := h
  exact refersTo_iff.mpr ⟨s, hs, Statement.mem_references_iff.mpr ⟨hparam, hlabel⟩⟩

theorem mentions_of_refersTo {o : Outline} {label : Text} (h : o.refersTo label = true) :
    o.Mentions label := by
  obtain ⟨s, hs, hlabel⟩ := refersTo_iff.mp h
  exact ⟨s, hs, (Statement.mem_references_iff.mp hlabel).1⟩

/-- Where every label is mentioned, every subroutine is kept. -/
theorem WellFormed.keptSubroutines_eq_of_mentions {declared : List Text} {o : Outline}
    (h : o.WellFormed declared)
    (hall : ∀ s ∈ o.statements, ∀ name, s.label = some name → o.Mentions name) :
    o.keptSubroutines = o.subroutines := by
  refine List.filter_eq_self.mpr fun sub hsub => refersTo_of_mentions (h.sigil sub hsub) ?_
  exact hall sub.opening (opening_mem_statements hsub) sub.label (h.opening_label sub hsub)

end Outline

namespace Operand

/-- The capital hexadecimal digit of a number below 16. -/
def hexDigit (d : Fin 16) : Char :=
  ['0', '1', '2', '3', '4', '5', '6', '7', '8', '9', 'A', 'B', 'C', 'D', 'E', 'F'].get d

/-- An address is written as a value of two capital digits, the sixteens first. -/
theorem immediateText_eq {b : Byte} {high low : Fin 16} (h : 16 * high.val + low.val = b) :
    immediateText b = ['#', '$', hexDigit high, hexDigit low] := by
  have hdigit : ∀ d : Fin 16, Numeral.capitalDigit d = hexDigit d := by decide
  have hhigh : (b : Nat) / 16 % 16 = high := by omega
  have hlow : (b : Nat) % 16 = low := by omega
  simp only [immediateText, Byte.hex, Numeral.fixed, hhigh, hlow, hdigit, List.nil_append,
    List.cons_append]

end Operand

namespace Assembly

variable {source : Text}

/-- What a label comes to whose subroutine begins at an address with a stored line. -/
structure Resolves (a : Assembly) (o : Outline) (label : Text) (opening : Statement)
    (address : Nat) : Prop where
  /-- Within memory the label stands for the address, which is written in two capital digits in
  every line that has the label. -/
  within : ∀ b : Byte, b.val = address → a.symbols.lookup label = some b ∧
    ∀ high low : Fin 16, 16 * high.val + low.val = address →
      ∀ l ∈ a.lines, ∀ s ∈ o.statements, s.line = l.statement.line →
        ∀ i : Nat, s.params[i]? = some label →
          l.statement.params[i]? = some ['#', '$', Operand.hexDigit high, Operand.hexDigit low]
  /-- Past memory the label stands for nothing, which is reported where it is declared, and no
  line that has it gets a word. -/
  past : 256 ≤ address → label ∉ a.symbols.map Prod.fst ∧
    ⟨opening.line, opening.span, .addressTooLarge⟩ ∈ a.diagnostics ∧
    ∀ l ∈ a.lines, ∀ s ∈ o.statements, s.line = l.statement.line → label ∈ s.params →
      l.word = none

/-- The line that opens a kept subroutine, and the address that symbols are made of. -/
theorem exists_opening_line {sub : Subroutine}
    (hsub : sub ∈ (Outline.ofSource source).keptSubroutines) :
    ∃ before line after, (assemble source).lines = before ++ line :: after ∧
      line.statement = sub.opening.resolve (assemble source).symbols ∧
      (sub, (Outline.ofSource source).origin.val + before.countP (·.statement.isLoaded)) ∈
        (Outline.ofSource source).addresses (Outline.ofSource source).origin := by
  obtain ⟨earlier, later, hkept⟩ := List.append_of_mem hsub
  obtain ⟨rest, hstatements⟩ := Outline.keptStatements_eq_append_cons hkept
  have hlines := lines_map_statement source
  rw [hstatements, List.map_append, List.map_cons] at hlines
  obtain ⟨before, tail, hsplit, hbefore, htail⟩ := List.map_eq_append_iff.mp hlines
  obtain ⟨line, after, rfl, hline, -⟩ := List.map_eq_cons_iff.mp htail
  refine ⟨before, line, after, hsplit, hline,
    Outline.mem_addresses_iff.mpr ⟨earlier, later, hkept, ?_⟩⟩
  -- resolving does not change which statements are loaded
  have hcount := congrArg (List.countP (·.isLoaded)) hbefore
  simp only [List.countP_map, Function.comp_def, Statement.resolve_isLoaded] at hcount
  rw [hcount]

theorem resolves_of_mem_addresses {sub : Subroutine} {address : Nat}
    (hsub : sub ∈ (Outline.ofSource source).subroutines)
    (haddress : (sub, address) ∈
      (Outline.ofSource source).addresses (Outline.ofSource source).origin) :
    (assemble source).Resolves (Outline.ofSource source) sub.label sub.opening address := by
  have hwell := Outline.ofSource_wellFormed source
  have hlabel := hwell.sigil sub hsub
  refine ⟨?_, ?_⟩
  · rintro b rfl
    have hlookup : (assemble source).symbols.lookup sub.label = some b :=
      Outline.lookup_symbols_of_lt hwell haddress
    refine ⟨hlookup, fun high low hb l hl s hs hsame i hi => ?_⟩
    rw [resolve_of_line_eq hl hs hsame, Statement.resolve, List.getElem?_map, hi, Option.map_some,
      Symbols.resolve_of_lookup hlabel hlookup, Operand.immediateText_eq hb]
  · intro hpast
    -- a symbol for the label would come from this subroutine, whose address is no byte
    have hunbound : sub.label ∉ (assemble source).symbols.map Prod.fst := by
      intro hmem
      obtain ⟨⟨label, b⟩, hb, rfl⟩ := List.mem_map.mp hmem
      obtain ⟨sub', haddress', hsame⟩ := Outline.mem_symbols_iff.mp hb
      have hunique := Outline.address_unique hwell haddress haddress' hsame.symm
      have := b.isLt
      omega
    have hlate := Outline.mem_lateSubroutines_iff.mpr ⟨sub, address, haddress, hpast, rfl⟩
    refine ⟨hunbound, ?_, fun l hl s hs hsame hparam => ?_⟩
    · exact mem_diagnostics_iff.mpr
        (.inr (.inr (.inl (List.mem_append_left _ (List.mem_append_left _ hlate)))))
    · exact word_eq_none_of_reference hl hs hsame
        (Statement.mem_references_iff.mpr ⟨hparam, hlabel⟩)
        (Symbols.lookup_eq_none_iff.mpr hunbound)

/-- Only labels that are declared and mentioned are symbols. -/
theorem exists_opening_of_symbol {label : Text}
    (h : label ∈ (assemble source).symbols.map Prod.fst) :
    (Outline.ofSource source).Mentions label ∧
      ∃ opening ∈ (Outline.ofSource source).statements, opening.label = some label := by
  obtain ⟨⟨label, b⟩, hmem, rfl⟩ := List.mem_map.mp h
  obtain ⟨sub, haddress, rfl⟩ := Outline.mem_symbols_iff.mp hmem
  obtain ⟨hsub, hrefers⟩ :=
    Outline.mem_keptSubroutines_iff.mp (Outline.mem_keptSubroutines_of_mem_addresses haddress)
  exact ⟨Outline.mentions_of_refersTo hrefers, sub.opening, Outline.opening_mem_statements hsub,
    (Outline.ofSource_wellFormed source).opening_label sub hsub⟩

/-! ### Labels of a program without defects -/

/-- Without defects no label stands on the first line. -/
theorem label_eq_none_of_first (h : (assemble source).diagnostics = []) {line : EncodedLine}
    {after : List EncodedLine} (hlines : (assemble source).lines = line :: after)
    {opening : Statement} (hopening : opening ∈ (Outline.ofSource source).statements)
    (hline : line.statement = opening.resolve (assemble source).symbols) :
    opening.label = none := by
  obtain ⟨first, rest, hfirst, -, hposition, -⟩ := exists_origin_line h
  rw [hlines] at hfirst
  obtain ⟨rfl, -⟩ := List.cons.inj hfirst
  rw [hline, Statement.resolve_position] at hposition
  exact (Outline.follow_complete [] none _ (outline_clean h)).2 opening hopening hposition

/-- Without defects the lines before one that carries a label are the origin and loaded lines, and
the word of the line is where their number says. -/
theorem word_eq_of_label (h : (assemble source).diagnostics = []) {image : List Word}
    (hlays : (assemble source).Lays (Outline.ofSource source).origin image)
    {before after : List EncodedLine} {line : EncodedLine}
    (hlines : (assemble source).lines = before ++ line :: after) {opening : Statement}
    (hopening : opening ∈ (Outline.ofSource source).statements) (hlabel : opening.label ≠ none)
    (hline : line.statement = opening.resolve (assemble source).symbols) :
    before.length = before.countP (·.statement.isLoaded) + 1 ∧
      line.word = image[before.countP (·.statement.isLoaded)]? := by
  obtain ⟨first, rest, hsplit, hfirst, -, hloaded, hwords⟩ := hlays.lines
  cases before with
  | nil => exact absurd (label_eq_none_of_first h hlines hopening hline) hlabel
  | cons t before =>
      rw [hsplit, List.cons_append] at hlines
      obtain ⟨rfl, rfl⟩ := List.cons.inj hlines
      have hcount : (first :: before).countP (·.statement.isLoaded) = before.length := by
        rw [List.countP_cons_of_neg (by simp [hfirst]), List.countP_eq_length]
        exact fun l hl => hloaded l (List.mem_append_left _ hl)
      have hword : ((before ++ line :: after).map (·.word))[before.length]? = some line.word := by
        simp
      rw [hwords, List.getElem?_map] at hword
      obtain ⟨w, hw, hword⟩ := Option.map_eq_some_iff.mp hword
      rw [hcount]
      exact ⟨rfl, by rw [hw, hword]⟩

/-- Without defects, and with every subroutine kept, every line of the source is laid out. -/
theorem lines_positions (h : (assemble source).diagnostics = [])
    (hkept : (Outline.ofSource source).keptSubroutines = (Outline.ofSource source).subroutines) :
    (assemble source).lines.map (·.statement.position) =
      List.range' 1 (Outline.ofSource source).statements.length := by
  have hlines := congrArg (List.map Statement.position) (lines_map_statement source)
  simp only [List.map_map, Function.comp_def, Statement.resolve_position] at hlines
  rw [hlines, Outline.keptStatements, hkept]
  exact Outline.statements_positions (outline_clean h)

/-- Then a line stands in the layout where it stands in the source. -/
theorem position_eq_of_lines (h : (assemble source).diagnostics = [])
    (hkept : (Outline.ofSource source).keptSubroutines = (Outline.ofSource source).subroutines)
    {before after : List EncodedLine} {line : EncodedLine}
    (hlines : (assemble source).lines = before ++ line :: after) :
    line.statement.position = before.length + 1 := by
  have hposition : ((before ++ line :: after).map (·.statement.position))[before.length]? =
      some line.statement.position := by simp
  rw [← hlines, lines_positions h hkept] at hposition
  obtain ⟨hlt, hposition⟩ := List.getElem?_eq_some_iff.mp hposition
  rw [← hposition, List.getElem_range']
  omega

/-! ### Labels and their lines -/

/-- **Labels resolve to where their subroutines land.** A label that is declared and mentioned has
its line in the layout, and resolves to the address that the loaded lines before it leave to it;
no other label is a symbol. Without defects memory has the word of that line at the address, and
where the program begins at zero and is kept as a whole the address is the place of the line in
the source less two.

Stored lines and lines of the layout are matched by their numbers, which increase. -/
theorem labels_resolve (source : Text) :
    let o := Outline.ofSource source
    let a := assemble source
    (o.statements.map (·.line)).Pairwise (· < ·) ∧
    (a.lines.map (·.statement.line)).Sublist (o.statements.map (·.line)) ∧
    (a.symbols.map Prod.fst).Nodup ∧
    (∀ label ∈ a.symbols.map Prod.fst,
      o.Mentions label ∧ ∃ opening ∈ o.statements, opening.label = some label) ∧
    ∃ origin, o.LoadsAt origin ∧
      ∀ opening ∈ o.statements, ∀ label, opening.label = some label → o.Mentions label →
        ∃ before line after, a.lines = before ++ line :: after ∧
          line.statement.label = some label ∧ line.statement.line = opening.line ∧
          let address := origin.val + before.countP (·.statement.isLoaded)
          a.Resolves o label opening address ∧
          (a.diagnostics = [] →
            (∀ e : Engine, e.isIdle = true → (e.load a.data).answer = .ok () ∧
              ∃ b, a.symbols.lookup label = some b ∧
                line.word = some ((e.load a.data).engine.cpu.memory.get b)) ∧
            (origin = 0 → (∀ s ∈ o.statements, ∀ name, s.label = some name → o.Mentions name) →
              address + 2 = opening.position)) := by
  intro o a
  have hwell : o.WellFormed [] := Outline.ofSource_wellFormed source
  refine ⟨Outline.statements_increasing source, lines_sublist source fun _ _ => rfl,
    Outline.symbols_nodup hwell _, ?_, o.origin, o.loadsAt_origin, ?_⟩
  · exact fun label hlabel => exists_opening_of_symbol hlabel
  · intro opening hopening label hlabel hmentions
    obtain ⟨sub, hsub, rfl, rfl⟩ := hwell.exists_subroutine hopening hlabel
    have hkept := Outline.mem_keptSubroutines_iff.mpr
      ⟨hsub, Outline.refersTo_of_mentions (hwell.sigil sub hsub) hmentions⟩
    obtain ⟨before, line, after, hlines, hline, haddress⟩ := exists_opening_line hkept
    have hresolves := resolves_of_mem_addresses hsub haddress
    refine ⟨before, line, after, hlines, by rw [hline, Statement.resolve_label, hlabel],
      by rw [hline, Statement.resolve_line], hresolves, fun hclean => ?_⟩
    obtain ⟨image, hlays⟩ := exists_lays hclean
    obtain ⟨hlength, hword⟩ := word_eq_of_label hclean hlays hlines hopening (by simp [hlabel]) hline
    refine ⟨fun e hidle => ?_, fun hzero hall => ?_⟩
    · -- the opening line has a word, so its place is within the image, and within memory
      obtain ⟨hanswer, hholds⟩ := Engine.load_holds hidle hlays.fits
      rw [← hlays.data] at hanswer hholds
      refine ⟨hanswer, ?_⟩
      have hmem : line ∈ a.lines := hlines ▸ List.mem_append_right _ List.mem_cons_self
      obtain ⟨w, hcase⟩ := exists_word hclean hmem
      obtain ⟨b, hb, hget⟩ := hholds.words _ w (hword.symm.trans hcase)
      exact ⟨b, (hresolves.within b hb).1, by rw [hget, hcase]⟩
    · -- nothing is dropped: the line of the origin and the counting from one make two
      have hposition := position_eq_of_lines hclean
        (hwell.keptSubroutines_eq_of_mentions hall) hlines
      rw [hline, Statement.resolve_position] at hposition
      have horigin : o.origin.val = 0 := congrArg Fin.val hzero
      omega

/-- A subroutine that nothing refers to takes no room, and does not move the one after it. -/
theorem labels_resolve_behind_dropped :
    let a := assemble "ORG $FE\nJMP _end\n_unused ADD #$01,A\n_end HALT".toList
    a.symbols = [("_end".toList, 0xFF)] ∧
      ∀ e : Engine, e.isIdle = true →
        (e.load a.data).engine.cpu.memory.get 0xFF = 0xFF00#16 := by
  intro a
  have hsymbols : a.symbols = [("_end".toList, 0xFF)] := by decide
  refine ⟨hsymbols, fun e hidle => ?_⟩
  obtain ⟨-, -, -, -, origin, -, hlabels⟩ :=
    labels_resolve "ORG $FE\nJMP _end\n_unused ADD #$01,A\n_end HALT".toList
  obtain ⟨before, line, after, hlines, hlabel, -, -, hclean⟩ :=
    hlabels ⟨4, 4, ⟨36, 9⟩, some "_end".toList, "HALT".toList, []⟩ (by decide) "_end".toList rfl
      ⟨⟨2, 2, ⟨8, 8⟩, none, "JMP".toList, ["_end".toList]⟩, by decide, by decide⟩
  obtain ⟨-, b, hb, hword⟩ := (hclean (by decide)).1 e hidle
  have hmem : line ∈ a.lines := hlines ▸ List.mem_append_right _ List.mem_cons_self
  have hhalt : ∀ l ∈ a.lines, l.statement.label = some "_end".toList → l.word = some 0xFF00#16 := by
    decide
  have hlast : a.symbols.lookup "_end".toList = some 0xFF := by decide
  obtain rfl : b = 0xFF := Option.some.inj (hb.symm.trans hlast)
  exact Option.some.inj (hword.symm.trans (hhalt line hmem hlabel))

end Assembly

end TeachingCpu
