import TeachingCpu.Proofs.Assembly.FallThrough
/-!
# TeachingCpu.Proofs.Assembly.Overrun

**Where a program that does not fit is reported.** Two passes look for it: the one that gives
addresses to subroutines reports each that begins past the end of memory, on its opening line; the
one that checks the layout reports the first word there, on the line of that word, but only if the
other has reported nothing. So the first word past the end of memory is reported on its own line
unless it is inside of a block while a later block begins past the end as well
(`Assembly.first_overrun_reported`, `Assembly.first_overrun_unreported`).
-/

set_option autoImplicit false

namespace TeachingCpu

/-! ### Placements one by one -/

/-- A placement in a sequence is that of its statement behind those before it. -/
theorem Placement.exists_behind_of_mem {next : Nat} {ss : List Statement} {p : Placement}
    (hp : p ∈ sequence next ss) :
    ∃ before after, ss = before ++ p.statement :: after ∧ p = behind next before p.statement := by
  obtain ⟨earlier, later, hsplit⟩ := List.append_of_mem hp
  have hstatements := congrArg (List.map Placement.statement) hsplit
  rw [sequence_map_statement, List.map_append, List.map_cons] at hstatements
  refine ⟨_, _, hstatements, ?_⟩
  obtain ⟨next', hsequence⟩ := sequence_eq_append_cons next (earlier.map (·.statement))
    p.statement (later.map (·.statement))
  rw [← hstatements, hsplit] at hsequence
  obtain ⟨-, hrest⟩ := List.append_inj hsequence (by
    rw [← List.length_map Placement.statement, ← List.length_map Placement.statement,
      sequence_map_statement])
  exact (List.cons.inj hrest).1

namespace Assembly

variable {source : Text} {before after : List EncodedLine} {l : EncodedLine}

/-! ### Lines are told apart by their numbers -/

theorem lines_nodup (source : Text) :
    ((assemble source).lines.map (·.statement.line)).Nodup :=
  ((Outline.statements_increasing source).imp Nat.ne_of_lt).sublist
    (lines_sublist source fun _ _ => rfl)

theorem encodings_nodup (source : Text) : ((encodings source).map (·.1.line)).Nodup := by
  have hlines := lines_nodup source
  rw [assemble_lines, List.map_map] at hlines
  exact hlines

/-! ### Lines past the end of memory -/

/-- A loaded line, with the lines before it, whose word would be past the end of memory. -/
def Overruns (source : Text) (before : List EncodedLine) (l : EncodedLine) : Prop :=
  l.statement.isLoaded = true ∧
    256 ≤ (Outline.ofSource source).origin.val + before.countP (·.statement.isLoaded)

/-- The first loaded line, in the order of memory, whose word would be past the end of memory. -/
structure FirstOverrun (source : Text) (before : List EncodedLine) (l : EncodedLine)
    (after : List EncodedLine) : Prop where
  lines : (assemble source).lines = before ++ l :: after
  overruns : Overruns source before l
  first : ∀ earlier m rest, before = earlier ++ m :: rest → ¬Overruns source earlier m

/-- Some line that carries a label, and so opens a block, is past the end of memory. -/
def OpensPastMemory (source : Text) : Prop :=
  ∃ before line after, (assemble source).lines = before ++ line :: after ∧
    line.statement.label ≠ none ∧
    256 ≤ (Outline.ofSource source).origin.val + before.countP (·.statement.isLoaded)

/-- Memory is filled word by word, so the first word past its end is the one just behind it. -/
theorem FirstOverrun.of_eq (h : (assemble source).lines = before ++ l :: after)
    (hloaded : l.statement.isLoaded = true)
    (haddress : (Outline.ofSource source).origin.val + before.countP (·.statement.isLoaded) = 256) :
    FirstOverrun source before l after where
  lines := h
  overruns := ⟨hloaded, Nat.le_of_eq haddress.symm⟩
  first := by
    rintro earlier m rest rfl ⟨hm, hpast⟩
    simp only [List.countP_append, List.countP_cons, hm, if_true] at haddress
    omega

/-- It is the first placement past the end of memory. -/
theorem FirstOverrun.find?_placements (h : FirstOverrun source before l after) :
    (layout source).placements.find? (·.pastMemory) = some (placement source before l) := by
  have hstatements := lines_map_statement source
  rw [h.lines, List.map_append, List.map_cons] at hstatements
  obtain ⟨next, hsequence⟩ := Placement.sequence_eq_append_cons
    (Outline.ofSource source).origin.val (before.map (·.statement)) l.statement
    (after.map (·.statement))
  have hpast : (placement source before l).pastMemory = true :=
    pastMemory_placement_iff.mpr h.overruns
  rw [layout_placements, ← hstatements, hsequence, List.find?_append, List.find?_eq_none.mpr]
  · exact List.find?_cons_of_pos hpast
  · intro p hp hearlier
    obtain ⟨_, _, hsplit, hbehind⟩ := Placement.exists_behind_of_mem hp
    obtain ⟨earlier, tail, rfl, rfl, htail⟩ := List.map_eq_append_iff.mp hsplit
    obtain ⟨m, rest, rfl, hm, -⟩ := List.map_eq_cons_iff.mp htail
    rw [hbehind, ← hm] at hearlier
    exact h.first earlier m rest rfl (pastMemory_placement_iff.mp hearlier)

/-! ### Blocks past the end of memory -/

/-- A line that carries a label opens a kept subroutine, which begins where the line stands. -/
theorem exists_subroutine_of_label (h : (assemble source).lines = before ++ l :: after)
    (hlabel : l.statement.label ≠ none) :
    ∃ sub, l.statement = sub.opening.resolve (assemble source).symbols ∧
      (sub, (Outline.ofSource source).origin.val + before.countP (·.statement.isLoaded)) ∈
        (Outline.ofSource source).addresses (Outline.ofSource source).origin := by
  obtain ⟨s, enc, hs, hresolve, -, -, -⟩ := exists_of_lines_eq h
  have hstored := (Outline.keptStatements_sublist _).subset hs
  obtain ⟨label, hlabel⟩ := Option.ne_none_iff_exists'.mp hlabel
  rw [hresolve, Statement.resolve_label] at hlabel
  obtain ⟨sub, hsub, rfl, -⟩ :=
    (Outline.ofSource_wellFormed source).exists_subroutine hstored hlabel
  have hkept := Outline.mem_keptSubroutines_of_mem (Outline.statements_nodup source) hs hsub
    List.mem_cons_self
  obtain ⟨before', l', after', h', hresolve', haddress⟩ := exists_opening_line hkept
  have hnodup := lines_nodup source
  rw [h] at hnodup h'
  obtain ⟨rfl, -⟩ := append_cons_unique hnodup h' (by rw [hresolve, hresolve'])
  exact ⟨sub, hresolve, haddress⟩

theorem lateSubroutines_ne_nil_iff :
    (Outline.ofSource source).lateSubroutines (Outline.ofSource source).origin ≠ [] ↔
      OpensPastMemory source := by
  constructor
  · intro hne
    obtain ⟨d, hd⟩ := List.exists_mem_of_ne_nil _ hne
    obtain ⟨sub, a, haddress, hpast, -⟩ := Outline.mem_lateSubroutines_iff.mp hd
    have hkept := Outline.mem_keptSubroutines_of_mem_addresses haddress
    obtain ⟨before, line, after, h, hline, haddress'⟩ := exists_opening_line hkept
    have hwell := Outline.ofSource_wellFormed source
    refine ⟨before, line, after, h, ?_, ?_⟩
    · rw [hline, Statement.resolve_label,
        hwell.opening_label sub (Outline.mem_keptSubroutines_iff.mp hkept).1]
      simp
    · rw [Outline.address_unique hwell haddress' haddress rfl]
      exact hpast
  · rintro ⟨before, line, after, h, hlabel, hpast⟩
    obtain ⟨sub, -, haddress⟩ := exists_subroutine_of_label h hlabel
    exact List.ne_nil_of_mem (Outline.mem_lateSubroutines_iff.mpr ⟨sub, _, haddress, hpast, rfl⟩)

/-- A block past the end of memory is reported on the line that opens it. -/
theorem addressTooLarge_of_label (h : (assemble source).lines = before ++ l :: after)
    (hlabel : l.statement.label ≠ none)
    (hpast : 256 ≤ (Outline.ofSource source).origin.val + before.countP (·.statement.isLoaded)) :
    l.statement.diagnose .addressTooLarge ∈ (assemble source).diagnostics := by
  obtain ⟨sub, hresolve, haddress⟩ := exists_subroutine_of_label h hlabel
  have hlate := Outline.mem_lateSubroutines_iff.mpr ⟨sub, _, haddress, hpast, rfl⟩
  rw [hresolve]
  exact mem_diagnostics_iff.mpr
    (.inr (.inr (.inl (List.mem_append_left _ (List.mem_append_left _ hlate)))))

/-! ### Reports about one line -/

/-- A line past the end of memory is not encoded, so only the layout can report it as being
there. -/
theorem mem_layout_of_addressTooLarge (h : (assemble source).lines = before ++ l :: after)
    (hpast : Overruns source before l) {d : Diagnostic} (hd : d ∈ (assemble source).diagnostics)
    (hdefect : d.defect = .addressTooLarge) (hline : d.line = l.statement.line) :
    d ∈ (layout source).diagnostics := by
  rcases mem_diagnostics_iff.mp hd with hd | hd | hd | ⟨s, encoding, hmem, hdiagnostic⟩
  · have hstructural := Outline.isStructural_of_mem hd
    rw [hdefect] at hstructural
    cases hstructural
  · rw [Outline.defect_of_mem_missingOrigin hd] at hdefect
    cases hdefect
  · exact hd
  · -- the line itself was withheld from encoding
    obtain ⟨t, enc, -, -, -, hencoding, -⟩ := exists_of_lines_eq h
    rw [Encoder.encoding_eq_withheld_iff.mpr (Placement.encodable_eq_false_iff.mpr
      (.inl (pastMemory_placement_iff.mpr hpast)))] at hencoding
    cases encoding with
    | refused defect =>
        obtain rfl : s.diagnose defect = d := Option.some.inj hdiagnostic
        have hsame := List.inj_on_of_nodup_map (encodings_nodup source) hmem hencoding hline
        cases hsame
    | _ => cases hdiagnostic

/-- The layout reports a line if it opens a block past the end of memory, or no block does. -/
theorem label_or_not_opens_of_mem_layout (hl : l ∈ (assemble source).lines) {d : Diagnostic}
    (hd : d ∈ (layout source).diagnostics) (hdefect : d.defect = .addressTooLarge)
    (hline : d.line = l.statement.line) : l.statement.label ≠ none ∨ ¬OpensPastMemory source := by
  rw [← lateSubroutines_ne_nil_iff]
  rcases List.mem_append.mp hd with hd | hoverrun
  · rcases List.mem_append.mp hd with hlate | hundefined
    · -- the line has the number of the opening that was reported, so it is that opening
      left
      obtain ⟨sub, a, haddress, -, rfl⟩ := Outline.mem_lateSubroutines_iff.mp hlate
      have hkept := Outline.mem_keptSubroutines_of_mem_addresses haddress
      have hsub := (Outline.mem_keptSubroutines_iff.mp hkept).1
      rw [resolve_of_line_eq hl (Outline.opening_mem_statements hsub) hline,
        Statement.resolve_label, (Outline.ofSource_wellFormed source).opening_label sub hsub]
      simp
    · obtain ⟨s, -, label, -, -, rfl⟩ := Outline.mem_undefinedLabels_iff.mp hundefined
      cases hdefect
  · right
    split at hoverrun
    · next hnone => simpa using hnone
    · cases hoverrun

theorem FirstOverrun.mem_diagnostics (h : FirstOverrun source before l after)
    (hnone : ¬OpensPastMemory source) :
    l.statement.diagnose .addressTooLarge ∈ (assemble source).diagnostics := by
  rw [← lateSubroutines_ne_nil_iff, not_not] at hnone
  refine mem_diagnostics_iff.mpr (.inr (.inr (.inl (List.mem_append_right _ ?_))))
  have hfind := h.find?_placements
  simp only [layout, Outline.layout] at hfind
  rw [hnone, hfind]
  simp [placement, Placement.behind]

/-- **The first word past the end of memory is reported where it is, or behind a block that is.**
It is reported on its own line exactly if it opens a block, or no block begins past the end of
memory. Every block that does is reported on the line that opens it. And no line past the end of
memory has a word. -/
theorem first_overrun_reported (h : FirstOverrun source before l after) :
    ((∃ d ∈ (assemble source).diagnostics,
        d.defect = .addressTooLarge ∧ d.line = l.statement.line) ↔
      l.statement.label ≠ none ∨ ¬OpensPastMemory source) ∧
    (∀ earlier m later, (assemble source).lines = earlier ++ m :: later →
      m.statement.label ≠ none →
      256 ≤ (Outline.ofSource source).origin.val + earlier.countP (·.statement.isLoaded) →
      ⟨m.statement.line, m.statement.span, .addressTooLarge⟩ ∈ (assemble source).diagnostics) ∧
    ∀ earlier m later, (assemble source).lines = earlier ++ m :: later →
      Overruns source earlier m → m.word = none := by
  refine ⟨⟨?_, ?_⟩, fun _ _ _ => addressTooLarge_of_label,
    fun _ _ _ h hpast => word_eq_none_of_past h hpast.1 hpast.2⟩
  · rintro ⟨d, hd, hdefect, hline⟩
    have hmem : l ∈ (assemble source).lines := h.lines ▸ List.mem_append_right _ List.mem_cons_self
    exact label_or_not_opens_of_mem_layout hmem
      (mem_layout_of_addressTooLarge h.lines h.overruns hd hdefect hline) hdefect hline
  · rintro (hlabel | hnone)
    · exact ⟨_, addressTooLarge_of_label h.lines hlabel h.overruns.2, rfl, rfl⟩
    · exact ⟨_, h.mem_diagnostics hnone, rfl, rfl⟩

/-- The third of four lines is the first that does not fit, and no block begins behind it. -/
theorem first_overrun_reported_in_main :
    let source := "ORG $FF\nADD #$01,A\nADD #$02,A\nHALT".toList
    ∃ before l after, FirstOverrun source before l after ∧ l.statement.line = 3 ∧
      ∃ d ∈ (assemble source).diagnostics, d.defect = .addressTooLarge ∧ d.line = 3 := by
  intro source
  let line (n start length : Nat) (command : Text) (params : List Text) : Statement :=
    ⟨n, n, ⟨start, length⟩, none, command, params⟩
  have hfirst : FirstOverrun source
      [⟨line 1 0 7 "ORG".toList ["$FF".toList], some 0x00FF#16⟩,
        ⟨line 2 8 10 "ADD".toList ["#$01".toList, "A".toList], some 0x0001#16⟩]
      ⟨line 3 19 10 "ADD".toList ["#$02".toList, "A".toList], none⟩
      [⟨line 4 30 4 "HALT".toList [], none⟩] := .of_eq (by decide) (by decide) (by decide)
  have hplain : ¬OpensPastMemory source := by
    rintro ⟨before, m, after, h, hlabel, -⟩
    have hnone : ∀ x ∈ (assemble source).lines, x.statement.label = none := by decide
    exact hlabel (hnone m (h ▸ List.mem_append_right _ List.mem_cons_self))
  exact ⟨_, _, _, hfirst, rfl, (first_overrun_reported hfirst).1.mpr (.inr hplain)⟩

/-- With a block behind it, the third of four lines is the first that does not fit, and is not
reported. The block is. -/
theorem first_overrun_unreported :
    let source := "ORG $FF\nJMP _end\nADD #$01,A\n_end HALT".toList
    ∃ before l after, FirstOverrun source before l after ∧ l.statement.line = 3 ∧
      (assemble source).diagnostics = [⟨4, ⟨28, 9⟩, .addressTooLarge⟩] := by
  intro source
  let line (n start length : Nat) (label : Option Text) (command : Text) (params : List Text) :
      Statement := ⟨n, n, ⟨start, length⟩, label, command, params⟩
  have hfirst : FirstOverrun source
      [⟨line 1 0 7 none "ORG".toList ["$FF".toList], some 0x00FF#16⟩,
        ⟨line 2 8 8 none "JMP".toList ["_end".toList], none⟩]
      ⟨line 3 17 10 none "ADD".toList ["#$01".toList, "A".toList], none⟩
      [⟨line 4 28 9 (some "_end".toList) "HALT".toList [], none⟩] :=
    .of_eq (by decide) (by decide) (by decide)
  exact ⟨_, _, _, hfirst, rfl, by decide⟩

end Assembly

end TeachingCpu
