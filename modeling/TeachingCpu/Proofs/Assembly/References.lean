import Mathlib.Algebra.BigOperators.Group.List.Basic
import TeachingCpu.Proofs.Assembly.Overrun
import TeachingCpu.Proofs.Assembly.Refusal
/-!
# TeachingCpu.Proofs.Assembly.References

**No undefined label is encoded or left unreported.** References are collected by label, and
reported label by label, each on the statements that hold it. Statements differ in their lines and
the labels collected differ, so what is reported about one label on one line comes from one place
(`countP_flatMap_of_unique`), once for each parameter there.

Whether a line has a word is decided apart from that, by the labels that its statement still holds
after resolving. Both are brought together in `Assembly.undefined_labels_reported`.
-/

set_option autoImplicit false

namespace TeachingCpu

/-! ### Counting -/

/-- Only one of distinct items contributes what is counted. -/
theorem countP_flatMap_of_unique {α β : Type} [DecidableEq α] {f : α → List β} {p : β → Bool}
    {xs : List α} {a : α} (hnodup : xs.Nodup) (ha : a ∈ xs)
    (hother : ∀ x ∈ xs, x ≠ a → ∀ y ∈ f x, p y = false) :
    (xs.flatMap f).countP p = (f a).countP p := by
  have hzero : ∀ x, x ≠ a → x ∈ xs → (List.countP p ∘ f) x = 0 := fun x hne hx =>
    List.countP_eq_zero.mpr fun y hy => by simp [hother x hx hne y hy]
  rw [List.countP_flatMap, List.sum_map_eq_nsmul_single a _ hzero,
    List.count_eq_one_of_mem hnodup ha, one_nsmul]
  rfl

theorem nodup_eraseDups {α : Type} [BEq α] [LawfulBEq α] (xs : List α) : xs.eraseDups.Nodup := by
  match xs with
  | [] => exact List.nodup_nil
  | x :: xs =>
    rw [List.eraseDups_cons, List.nodup_cons]
    exact ⟨by simp [List.mem_eraseDups], nodup_eraseDups _⟩
termination_by xs.length
decreasing_by exact Nat.lt_succ_of_le (List.length_filter_le _ _)

/-! ### Reports about references -/

namespace Outline

variable {o : Outline} {s : Statement} {label : Text} {d : Diagnostic}

theorem mem_referencedLabels_iff : label ∈ o.referencedLabels ↔ o.refersTo label = true := by
  rw [referencedLabels, List.mem_eraseDups, List.mem_flatMap, refersTo_iff]

/-- On one line a label is reported as often as the statement of the line holds it. -/
theorem countP_undefinedReferences (hnodup : (o.statements.map (·.line)).Nodup)
    (hs : s ∈ o.statements) (label : Text) :
    (o.undefinedReferences label).countP (fun d =>
      d.line = s.line ∧ d.defect = .undefinedLabel label) = s.references.count label := by
  rw [undefinedReferences, countP_flatMap_of_unique (List.Nodup.of_map _ hnodup) hs]
  · simp [List.countP_replicate, Statement.diagnose]
  · intro t ht hne d hd
    rw [(List.mem_replicate.mp hd).2]
    have hline : t.line ≠ s.line := fun h => hne (List.inj_on_of_nodup_map hnodup ht hs h)
    simp [Statement.diagnose, hline]

theorem countP_undefinedLabels (hnodup : (o.statements.map (·.line)).Nodup)
    (hs : s ∈ o.statements) (hundeclared : o.declares label = false) :
    o.undefinedLabels.countP (fun d => d.line = s.line ∧ d.defect = .undefinedLabel label) =
      s.references.count label := by
  by_cases hlabel : label ∈ o.referencedLabels
  · have hmem : label ∈ o.referencedLabels.filter fun label => !o.declares label :=
      List.mem_filter.mpr ⟨hlabel, by rw [hundeclared]; rfl⟩
    have hlabels : (o.referencedLabels.filter fun label => !o.declares label).Nodup :=
      (nodup_eraseDups _).filter _
    rw [undefinedLabels, countP_flatMap_of_unique hlabels hmem,
      countP_undefinedReferences hnodup hs]
    intro other _ hne d hd
    obtain ⟨t, -, -, rfl⟩ := mem_undefinedReferences_iff.mp hd
    simp [Statement.diagnose, hne]
  · -- nothing refers to the label, neither this statement nor one that is reported
    rw [mem_referencedLabels_iff, refersTo_iff] at hlabel
    have hnot : label ∉ s.references := fun href => hlabel ⟨s, hs, href⟩
    rw [List.count_eq_zero.mpr hnot, List.countP_eq_zero]
    intro d hd
    obtain ⟨t, ht, other, href, -, rfl⟩ := mem_undefinedLabels_iff.mp hd
    have hne : other ≠ label := by
      rintro rfl
      exact hlabel ⟨t, ht, href⟩
    simp [Statement.diagnose, hne]

theorem declares_eq_false_iff :
    o.declares label = false ↔ ∀ sub ∈ o.subroutines, sub.label ≠ label := by
  simp [← Bool.not_eq_true, declares_iff]

end Outline

/-! ### Reports of other passes -/

/-- Whether a defect is that nothing declares a label. -/
def Defect.isUndefinedLabel : Defect → Bool
  | .undefinedLabel _ => true
  | _ => false

theorem Defect.isUndefinedLabel_of_isStructural {defect : Defect}
    (h : defect.isStructural = true) : defect.isUndefinedLabel = false := by
  cases defect with
  | undefinedLabel label => cases h
  | _ => rfl

theorem Encoder.isUndefinedLabel_of_encode {enc : Encoder} {s : Statement} {defect : Defect}
    (h : enc.encode s = .error defect) : defect.isUndefinedLabel = false := by
  rcases encode_eq_error_cases h with hlocal | rfl | rfl | ⟨last, rfl⟩
  · cases defect with
    | undefinedLabel label => cases hlocal
    | _ => rfl
  all_goals rfl

theorem filter_isUndefinedLabel_eq_nil {ds : List Diagnostic}
    (h : ∀ d ∈ ds, d.defect.isUndefinedLabel = false) :
    ds.filter (·.defect.isUndefinedLabel) = [] :=
  List.filter_eq_nil_iff.mpr fun d hd => by simp [h d hd]

theorem Outline.filter_layout_diagnostics (o : Outline) (origin : Byte) :
    (o.layout origin).diagnostics.filter (·.defect.isUndefinedLabel) = o.undefinedLabels := by
  have hlate : (o.lateSubroutines origin).filter (·.defect.isUndefinedLabel) = [] := by
    refine filter_isUndefinedLabel_eq_nil fun d hd => ?_
    obtain ⟨sub, a, -, -, rfl⟩ := mem_lateSubroutines_iff.mp hd
    rfl
  have hundefined : o.undefinedLabels.filter (·.defect.isUndefinedLabel) = o.undefinedLabels := by
    refine List.filter_eq_self.mpr fun d hd => ?_
    obtain ⟨s, -, label, -, -, rfl⟩ := mem_undefinedLabels_iff.mp hd
    rfl
  rw [layout, List.filter_append, List.filter_append, hlate, hundefined, List.nil_append,
    List.append_right_eq_self]
  -- what is left is the report of a word past the end of memory, if there is one
  refine filter_isUndefinedLabel_eq_nil fun d hd => ?_
  split at hd
  · obtain ⟨p, -, rfl⟩ := Option.map_eq_some_iff.mp (Option.mem_toList.mp hd)
    rfl
  · cases hd

namespace Assembly

variable {source : Text} {label : Text} {l : EncodedLine}

theorem isUndefinedLabel_of_mem_encodings {d : Diagnostic}
    (hd : d ∈ (encodings source).filterMap fun (s, encoding) => encoding.diagnostic? s) :
    d.defect.isUndefinedLabel = false := by
  obtain ⟨⟨s, encoding⟩, hmem, hdiagnostic⟩ := List.mem_filterMap.mp hd
  obtain ⟨enc, p, -, hplaced⟩ := Encoder.exists_encoding_of_mem hmem
  cases encoding with
  | refused defect =>
      cases hdiagnostic
      exact Encoder.isUndefinedLabel_of_encode (Encoder.encoding_eq_refused_iff.mp hplaced).2
  | _ => cases hdiagnostic

/-- What is reported about undefined labels is what the layout finds, in the order of lines. -/
theorem filter_diagnostics (source : Text) :
    (assemble source).diagnostics.filter (·.defect.isUndefinedLabel) =
      Diagnostic.sort (Outline.ofSource source).undefinedLabels := by
  have hstructural : (Outline.ofLines (SourceLine.scan source)).2.filter
      (·.defect.isUndefinedLabel) = [] :=
    filter_isUndefinedLabel_eq_nil fun _ hd =>
      Defect.isUndefinedLabel_of_isStructural (Outline.isStructural_of_mem hd)
  have horigin : (Outline.ofSource source).missingOrigin.filter
      (·.defect.isUndefinedLabel) = [] :=
    filter_isUndefinedLabel_eq_nil fun _ hd => by
      rw [Outline.defect_of_mem_missingOrigin hd]
      rfl
  have hencodings : ((encodings source).filterMap fun (s, encoding) =>
      encoding.diagnostic? s).filter (·.defect.isUndefinedLabel) = [] :=
    filter_isUndefinedLabel_eq_nil fun _ => isUndefinedLabel_of_mem_encodings
  calc (assemble source).diagnostics.filter (·.defect.isUndefinedLabel)
      = Diagnostic.sort (((Outline.ofLines (SourceLine.scan source)).2 ++
          (Outline.ofSource source).missingOrigin ++ (layout source).diagnostics ++
          (encodings source).filterMap fun (s, encoding) => encoding.diagnostic? s).filter
            (·.defect.isUndefinedLabel)) := Diagnostic.filter_sort _ _
    _ = Diagnostic.sort (Outline.ofSource source).undefinedLabels := by
        rw [List.filter_append, List.filter_append, List.filter_append, hstructural, horigin,
          hencodings, layout, Outline.filter_layout_diagnostics, List.nil_append, List.nil_append,
          List.append_nil]

theorem mem_diagnostics_undefinedLabel_iff {d : Diagnostic}
    (hdefect : d.defect = .undefinedLabel label) :
    d ∈ (assemble source).diagnostics ↔ d ∈ (Outline.ofSource source).undefinedLabels := by
  rw [← (Diagnostic.sort_perm (Outline.ofSource source).undefinedLabels).mem_iff,
    ← filter_diagnostics, List.mem_filter, hdefect]
  simp [Defect.isUndefinedLabel]

theorem countP_diagnostics_undefinedLabel (source : Text) (line : Nat) (label : Text) :
    (assemble source).diagnostics.countP (fun d =>
        d.line = line ∧ d.defect = .undefinedLabel label) =
      (Outline.ofSource source).undefinedLabels.countP fun d =>
        d.line = line ∧ d.defect = .undefinedLabel label := by
  rw [← (Diagnostic.sort_perm (Outline.ofSource source).undefinedLabels).countP_eq,
    ← filter_diagnostics, List.countP_filter]
  refine List.countP_congr fun d _ => ?_
  cases hdefect : d.defect <;> simp [Defect.isUndefinedLabel]

/-! ### Labels without an address -/

/-- A label that nothing resolves. -/
inductive Unresolved (source : Text) (label : Text) : Prop
  /-- No subroutine has it. -/
  | undefined (h : ∀ sub ∈ (Outline.ofSource source).subroutines, sub.label ≠ label)
  /-- The line that carries it is past the end of memory. -/
  | past {before after : List EncodedLine} {l : EncodedLine}
      (h : (assemble source).lines = before ++ l :: after) (hlabel : l.statement.label = some label)
      (hpast : 256 ≤ (Outline.ofSource source).origin.val +
        before.countP (·.statement.isLoaded))

theorem Unresolved.lookup_eq_none (h : Unresolved source label) :
    (assemble source).symbols.lookup label = none := by
  have hwell := Outline.ofSource_wellFormed source
  refine Symbols.lookup_eq_none_iff.mpr ?_
  cases h with
  | undefined hundeclared =>
      intro hmem
      obtain ⟨-, opening, hopening, hlabel⟩ := exists_opening_of_symbol hmem
      obtain ⟨sub, hsub, -, hsame⟩ := hwell.exists_subroutine hopening hlabel
      exact hundeclared sub hsub hsame
  | past h hlabel hpast =>
      obtain ⟨sub, hopening, haddress⟩ := exists_subroutine_of_label h (by simp [hlabel])
      have hsub := (Outline.mem_keptSubroutines_iff.mp
        (Outline.mem_keptSubroutines_of_mem_addresses haddress)).1
      rw [hopening, Statement.resolve_label, hwell.opening_label sub hsub] at hlabel
      obtain rfl := Option.some.inj hlabel
      exact ((resolves_of_mem_addresses hsub haddress).past hpast).1

/-- What a stored line refers to is unresolved exactly if no symbol stands for it. -/
theorem unresolved_iff {s : Statement} (hs : s ∈ (Outline.ofSource source).statements)
    (href : label ∈ s.references) :
    Unresolved source label ↔ (assemble source).symbols.lookup label = none := by
  refine ⟨Unresolved.lookup_eq_none, fun hnone => ?_⟩
  by_cases hdeclared : ∃ sub ∈ (Outline.ofSource source).subroutines, sub.label = label
  · obtain ⟨sub, hsub, rfl⟩ := hdeclared
    have hkept := Outline.mem_keptSubroutines_iff.mpr
      ⟨hsub, Outline.refersTo_iff.mpr ⟨s, hs, href⟩⟩
    have hwell := Outline.ofSource_wellFormed source
    obtain ⟨before, line, after, h, hline, haddress⟩ := exists_opening_line hkept
    refine .past h (by rw [hline, Statement.resolve_label, hwell.opening_label sub hsub])
      (Nat.le_of_not_lt fun hlt => ?_)
    -- within memory the label would have an address
    have hwithin := (resolves_of_mem_addresses hsub haddress).within ⟨_, hlt⟩ rfl
    rw [hnone] at hwithin
    cases hwithin.1
  · exact .undefined fun sub hsub hlabel => hdeclared ⟨sub, hsub, hlabel⟩

/-- A line with a word has no label left among its parameters. -/
theorem head?_ne_of_word {w : Word} (hl : l ∈ (assemble source).lines)
    (hword : l.word = some w) {param : Text} (hparam : param ∈ l.statement.params) :
    param.head? ≠ some '_' := by
  obtain ⟨before, after, h⟩ := List.append_of_mem hl
  obtain ⟨s, enc, -, -, -, -, hencoded⟩ := exists_of_lines_eq h
  intro hlabel
  have hreferences : l.statement.references ≠ [] :=
    List.ne_nil_of_mem (Statement.mem_references_iff.mpr ⟨hparam, isLabel_iff.mpr hlabel⟩)
  rw [Encoder.encoding_eq_withheld_iff.mpr
    (Placement.encodable_eq_false_iff.mpr (.inr hreferences)), hword] at hencoded
  cases hencoded

/-- **No undefined label is encoded or left unreported.** On the line of a stored statement a label
that no subroutine has is reported once for each of its parameters that is the label, and nothing
else is reported as undefined. No line with a word has a label left among its parameters: where a
stored statement refers to a label that nothing resolves, its line adds no word and the source is
not assembled. -/
theorem undefined_labels_reported (source : Text) :
    let o := Outline.ofSource source
    let a := assemble source
    (∀ s ∈ o.statements, ∀ label, label.head? = some '_' →
      (∀ sub ∈ o.subroutines, sub.label ≠ label) →
      a.diagnostics.countP (fun d => d.line = s.line ∧ d.defect = .undefinedLabel label) =
        s.params.count label) ∧
    (∀ d ∈ a.diagnostics, ∀ label, d.defect = .undefinedLabel label →
      label.head? = some '_' ∧ (∀ sub ∈ o.subroutines, sub.label ≠ label) ∧
      ∃ s ∈ o.statements, label ∈ s.params ∧ d = ⟨s.line, s.span, .undefinedLabel label⟩) ∧
    a.data = a.lines.filterMap (·.word) ∧
    (∀ l ∈ a.lines, ∀ w, l.word = some w →
      ∀ param ∈ l.statement.params, param.head? ≠ some '_') ∧
    ∀ s ∈ o.statements, ∀ label ∈ s.params, label.head? = some '_' → Unresolved source label →
      (∀ l ∈ a.lines, l.statement.line = s.line → l.word = none) ∧ a.assembled = false := by
  intro o a
  have hnodup : (o.statements.map (·.line)).Nodup :=
    (Outline.statements_increasing source).imp Nat.ne_of_lt
  refine ⟨fun s hs label hlabel hundeclared => ?_, fun d hd label hdefect => ?_,
    assemble_data source, fun l hl w hword param => head?_ne_of_word hl hword,
    fun s hs label hparam hlabel hunresolved => ?_⟩
  · -- references are collected label by label, and counted here on one line
    rw [countP_diagnostics_undefinedLabel, Outline.countP_undefinedLabels hnodup hs
      (Outline.declares_eq_false_iff.mpr hundeclared)]
    exact List.count_filter (isLabel_iff.mpr hlabel)
  · obtain ⟨s, hs, other, href, hundeclared, rfl⟩ :=
      Outline.mem_undefinedLabels_iff.mp ((mem_diagnostics_undefinedLabel_iff hdefect).mp hd)
    obtain rfl : other = label := Defect.undefinedLabel.inj hdefect
    obtain ⟨hparam, hlabel⟩ := Statement.mem_references_iff.mp href
    exact ⟨isLabel_iff.mp hlabel, Outline.declares_eq_false_iff.mp hundeclared, s, hs, hparam, rfl⟩
  · have href := Statement.mem_references_iff.mpr ⟨hparam, isLabel_iff.mpr hlabel⟩
    have hnone := (unresolved_iff hs href).mp hunresolved
    have hdiagnostics := diagnostics_ne_nil_of_layout
      (Outline.diagnostics_ne_nil_of_reference (Outline.ofSource_wellFormed source) hs href hnone)
    exact ⟨fun l hl hline => word_eq_none_of_reference hl hs hline.symm href hnone,
      by simpa [assembled] using hdiagnostics⟩

/-- A label that nothing declares is reported for each of two parameters of a line that is dropped;
one that is declared past the end of memory leaves the line that jumps to it without a word. -/
theorem undefined_labels_reported_twice :
    let source := "ORG $FF\nJMP _end\n_a BNE _y,_y\n_end HALT".toList
    (assemble source).diagnostics.countP
        (fun d => d.line = 3 ∧ d.defect = .undefinedLabel "_y".toList) = 2 ∧
      (∀ l ∈ (assemble source).lines, l.statement.line = 2 → l.word = none) ∧
      (assemble source).assembled = false := by
  intro source
  let line (n start length : Nat) (label : Option Text) (command : Text) (params : List Text) :
      Statement := ⟨n, n, ⟨start, length⟩, label, command, params⟩
  obtain ⟨hcount, -, -, -, hwords⟩ := undefined_labels_reported source
  have hcount := hcount (line 3 17 12 (some "_a".toList) "BNE".toList ["_y".toList, "_y".toList])
    (by decide) "_y".toList rfl (by decide)
  have hlines : (assemble source).lines =
      [⟨line 1 0 7 none "ORG".toList ["$FF".toList], some 0x00FF#16⟩,
        ⟨line 2 8 8 none "JMP".toList ["_end".toList], none⟩] ++
      ⟨line 4 30 9 (some "_end".toList) "HALT".toList [], none⟩ :: [] := by decide
  obtain ⟨hwords, hassembled⟩ := hwords (line 2 8 8 none "JMP".toList ["_end".toList]) (by decide)
    "_end".toList (by decide) rfl (.past hlines rfl (by decide))
  exact ⟨hcount, hwords, hassembled⟩

end Assembly

end TeachingCpu
