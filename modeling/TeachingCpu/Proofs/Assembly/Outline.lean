import Mathlib.Data.List.Nodup
import TeachingCpu.Assembly.Outline
/-!
# TeachingCpu.Proofs.Assembly.Outline

**What an outline keeps** of its source.

Every step of `Outline.follow` either leaves a line out, joins it to the block before it, or opens
a subroutine with it, and tracks it; `Outline.follow_induction` says so once. From it follow the
invariants of outlines:

* the statements stand in the order of the source (`follow_places_sublist`);
* labels are labels, and no two subroutines share one (`WellFormed`);
* a line is left out of a kept block only with a diagnostic (`follow_complete`);
* the last line that was tracked is the last one, whatever became of it (`follow_last`).
-/

set_option autoImplicit false

namespace TeachingCpu

/-- What has a key of its own is found at one place only. -/
theorem append_cons_unique {α β : Type} {f : α → β} {before before' after after' : List α}
    {a a' : α} (hnodup : ((before ++ a :: after).map f).Nodup)
    (h : before ++ a :: after = before' ++ a' :: after') (hkey : f a = f a') :
    before = before' ∧ a = a' := by
  obtain rfl : a = a' := List.inj_on_of_nodup_map hnodup (by simp) (by simp [h]) hkey
  have hfresh := List.Nodup.of_map _ hnodup
  rw [List.nodup_append, List.nodup_cons] at hfresh
  obtain ⟨-, ⟨hafter, -⟩, hbefore⟩ := hfresh
  have hbefore : a ∉ before := fun ha => hbefore a ha a List.mem_cons_self rfl
  exact ⟨((List.append_cons_inj_of_notMem hbefore hafter).mp h).1, rfl⟩

/-! ### Places of lines -/

namespace SourceLine

/-- Where a line stands: its number, and its place among the lines that are not blank. -/
def place (l : SourceLine) : Nat × Nat := (l.line, l.position)

theorem le_line_of_mem_scanFrom {line position offset : Nat} {segments : List Text}
    {l : SourceLine} (h : l ∈ scanFrom line position offset segments) : line ≤ l.line := by
  induction segments generalizing line position offset with
  | nil => simp [scanFrom] at h
  | cons segment rest ih =>
      unfold scanFrom at h
      dsimp only at h
      split at h
      · exact Nat.le_of_succ_le (ih h)
      · rcases List.mem_cons.mp h with rfl | h
        · exact Nat.le_refl _
        · exact Nat.le_of_succ_le (ih h)

theorem scanFrom_increasing (line position offset : Nat) (segments : List Text) :
    (scanFrom line position offset segments).Pairwise (·.line < ·.line) := by
  induction segments generalizing line position offset with
  | nil => exact .nil
  | cons segment rest ih =>
      unfold scanFrom
      dsimp only
      split
      · exact ih _ _ _
      · exact .cons (fun l hl => le_line_of_mem_scanFrom hl) (ih _ _ _)

theorem scanFrom_positions (line position offset : Nat) (segments : List Text) :
    (scanFrom line position offset segments).map (·.position) =
      List.range' position (scanFrom line position offset segments).length := by
  induction segments generalizing line position offset with
  | nil => rfl
  | cons segment rest ih =>
      unfold scanFrom
      dsimp only
      split
      · exact ih _ _ _
      · rw [List.map_cons, ih, List.length_cons, List.range'_succ]

/-- The numbers of the lines of a source increase. -/
theorem scan_increasing (source : Text) : (scan source).Pairwise (·.line < ·.line) :=
  scanFrom_increasing _ _ _ _

/-- The lines of a source that are not blank have the places 1, 2, 3, …. -/
theorem scan_positions (source : Text) :
    (scan source).map (·.position) = List.range' 1 (scan source).length :=
  scanFrom_positions _ _ _ _

theorem scan_positions_increasing (source : Text) :
    (scan source).Pairwise (·.position < ·.position) := by
  rw [← List.pairwise_map, scan_positions]
  exact List.pairwise_lt_range' 1

end SourceLine

/-- Where the line of a statement stands. -/
def Statement.place (s : Statement) : Nat × Nat := (s.line, s.position)

/-! ### Tracking lines -/

/-- The place of a line as it is tracked. -/
def SourceLine.tracked (l : SourceLine) : LastLine := ⟨l.position, l.line⟩

namespace LastLine

/-- Further lines stand behind the last line so far, each behind those before it. -/
structure Precedes (last : Option LastLine) (lines : List SourceLine) : Prop where
  later : ∀ seen ∈ last, ∀ l ∈ lines, seen.position < l.position
  increasing : lines.Pairwise (·.position < ·.position)

namespace Precedes

variable {last : Option LastLine} {l : SourceLine} {rest : List SourceLine}

/-- The next line becomes the last one. -/
theorem track_eq (h : Precedes last (l :: rest)) :
    track last l.position l.line = some l.tracked := by
  cases last with
  | none => rfl
  | some seen => exact if_pos (h.later seen rfl l List.mem_cons_self)

theorem track (h : Precedes last (l :: rest)) :
    Precedes (LastLine.track last l.position l.line) rest := by
  obtain ⟨hbehind, hincreasing⟩ := List.pairwise_cons.mp h.increasing
  rw [h.track_eq]
  refine ⟨fun seen hseen => ?_, hincreasing⟩
  obtain rfl : l.tracked = seen := Option.some.inj hseen
  exact hbehind

theorem getLast?_cons (h : Precedes last (l :: rest)) :
    ((l :: rest).getLast?.map (·.tracked)).or last =
      (rest.getLast?.map (·.tracked)).or (LastLine.track last l.position l.line) := by
  rw [h.track_eq, List.getLast?_cons]
  cases rest.getLast? <;> rfl

end Precedes

end LastLine

namespace Outline

/-! ### One line more -/

/-- **Induction over the lines of an outline.** The continuation of a block after one line more is
that of the lines after it, with the line left out, joined, or opening a subroutine; what is left
out of a kept block is reported, and so is a label on the first line. Each time the line is
tracked first. -/
theorem follow_induction
    {motive : Bool → List Text → Option LastLine → List SourceLine → Continuation → Prop}
    (nil : ∀ kept declared last, motive kept declared last [] { outline := { last } })
    (leftOut : ∀ kept kept' declared last l rest r ds, (kept' = true → kept = true) →
      (kept = true → ds ≠ []) →
      motive kept' declared (LastLine.track last l.position l.line) rest r →
      motive kept declared last (l :: rest) ⟨r.outline, ds ++ r.diagnostics⟩)
    (joined : ∀ declared last l rest r (s : Statement), s.place = l.place → s.label = none →
      motive true declared (LastLine.track last l.position l.line) rest r →
      motive true declared last (l :: rest)
        ⟨⟨s :: r.outline.main, r.outline.subroutines, r.outline.last⟩, r.diagnostics⟩)
    (opened : ∀ kept declared last l rest r (s : Statement) label ds, s.place = l.place →
      s.label = some label → isLabel label = true → label ∉ declared →
      (l.position = 1 → ds ≠ []) →
      motive true (label :: declared) (LastLine.track last l.position l.line) rest r →
      motive kept declared last (l :: rest)
        ⟨⟨[], ⟨label, s, r.outline.main⟩ :: r.outline.subroutines, r.outline.last⟩,
          ds ++ r.diagnostics⟩)
    (kept : Bool) (declared : List Text) (last : Option LastLine) (lines : List SourceLine) :
    motive kept declared last lines (follow kept declared last lines) := by
  induction lines generalizing kept declared last with
  | nil => exact nil kept declared last
  | cons l rest ih =>
      unfold follow
      split
      · exact leftOut kept kept declared last l rest _ [_] id (by simp) (ih _ _ _)
      · next fields hfields =>
          dsimp only
          split
          · split
            · next hkept =>
                subst hkept
                exact joined declared last l rest _ _ rfl rfl (ih _ _ _)
            · next hkept =>
                exact leftOut kept kept declared last l rest _ [] id (absurd · hkept)
                  (ih _ _ _)
          · next label hlabel =>
              split
              · exact leftOut kept kept declared last l rest _ [_] id (by simp) (ih _ _ _)
              · next hsigil =>
                  have hsigil : isLabel label = true := by simpa using hsigil
                  split
                  · next hdeclared =>
                      -- the block of a label declared before is dropped
                      rw [List.append_cons]
                      exact leftOut kept false declared last l rest _ _ nofun (by simp)
                        (ih _ _ _)
                  · next hdeclared =>
                      have hnew : label ∉ declared := by simpa using hdeclared
                      exact opened kept declared last l rest _ _ label _ rfl rfl hsigil hnew
                        (by simp +contextual) (ih _ _ _)

/-! ### What outlines keep -/

/-- What holds of every outline of lines after the labels in `declared`. -/
structure WellFormed (declared : List Text) (o : Outline) : Prop where
  main_label : ∀ s ∈ o.main, s.label = none
  opening_label : ∀ sub ∈ o.subroutines, sub.opening.label = some sub.label
  body_label : ∀ sub ∈ o.subroutines, ∀ s ∈ sub.body, s.label = none
  sigil : ∀ sub ∈ o.subroutines, isLabel sub.label = true
  fresh : ∀ sub ∈ o.subroutines, sub.label ∉ declared
  nodup : (o.subroutines.map (·.label)).Nodup

variable (kept : Bool) (declared : List Text) (last : Option LastLine) (lines : List SourceLine)

theorem follow_wellFormed : (follow kept declared last lines).outline.WellFormed declared := by
  refine follow_induction (motive := fun _ declared _ _ r => r.outline.WellFormed declared)
    ?_ ?_ ?_ ?_ kept declared last lines
  · intro _ declared _
    exact ⟨nofun, nofun, nofun, nofun, nofun, .nil⟩
  · intro _ _ declared _ l rest r ds _ _ h
    exact h
  · intro declared _ l rest r s _ hlabel h
    exact { h with main_label := List.forall_mem_cons.mpr ⟨hlabel, h.main_label⟩ }
  · intro _ declared _ l rest r s label ds _ hlabel hsigil hnew _ h
    refine ⟨nofun, List.forall_mem_cons.mpr ⟨hlabel, h.opening_label⟩,
      List.forall_mem_cons.mpr ⟨h.main_label, h.body_label⟩,
      List.forall_mem_cons.mpr ⟨hsigil, h.sigil⟩,
      List.forall_mem_cons.mpr ⟨hnew, fun sub hsub => ?_⟩, List.nodup_cons.mpr ⟨?_, h.nodup⟩⟩
    · exact fun hmem => h.fresh sub hsub (List.mem_cons_of_mem _ hmem)
    · -- the label counts as declared for everything that follows
      intro hmem
      obtain ⟨sub, hsub, hsame⟩ := List.mem_map.mp hmem
      exact h.fresh sub hsub (hsame ▸ List.mem_cons_self)

/-- A statement with a label opens the subroutine of that label. -/
theorem WellFormed.exists_subroutine {declared : List Text} {o : Outline}
    (h : o.WellFormed declared) {s : Statement} {label : Text} (hs : s ∈ o.statements)
    (hlabel : s.label = some label) : ∃ sub ∈ o.subroutines, sub.opening = s ∧ sub.label = label := by
  rcases List.mem_append.mp hs with hs | hs
  · rw [h.main_label s hs] at hlabel
    simp at hlabel
  · obtain ⟨sub, hsub, hs⟩ := List.mem_flatMap.mp hs
    rcases List.mem_cons.mp hs with rfl | hs
    · rw [h.opening_label sub hsub] at hlabel
      exact ⟨sub, hsub, rfl, Option.some.inj hlabel⟩
    · rw [h.body_label sub hsub s hs] at hlabel
      simp at hlabel

theorem opening_mem_statements {o : Outline} {sub : Subroutine} (h : sub ∈ o.subroutines) :
    sub.opening ∈ o.statements :=
  List.mem_append_right _ (List.mem_flatMap.mpr ⟨sub, h, List.mem_cons_self⟩)

theorem statements_main_cons (s : Statement) (main : List Statement) (subs : List Subroutine)
    (last : Option LastLine) :
    statements ⟨s :: main, subs, last⟩ = s :: statements ⟨main, subs, last⟩ := rfl

theorem statements_subroutines_cons (label : Text) (s : Statement) (o : Outline) :
    statements ⟨[], ⟨label, s, o.main⟩ :: o.subroutines, o.last⟩ = s :: o.statements := rfl

theorem follow_places_sublist :
    ((follow kept declared last lines).outline.statements.map (·.place)).Sublist
      (lines.map (·.place)) := by
  refine follow_induction
    (motive := fun _ _ _ lines r =>
      (r.outline.statements.map (·.place)).Sublist (lines.map (·.place)))
    ?_ ?_ ?_ ?_ kept declared last lines
  · intro _ _ _
    exact .slnil
  · intro _ _ declared _ l rest r ds _ _ h
    exact h.cons _
  · intro declared _ l rest r s hplace _ h
    rw [statements_main_cons, List.map_cons, List.map_cons, hplace]
    exact h.cons_cons _
  · intro _ declared _ l rest r s label ds hplace _ _ _ _ h
    rw [statements_subroutines_cons, List.map_cons, List.map_cons, hplace]
    exact h.cons_cons _

/-- Without a diagnostic, a kept block and what follows it keep every line, and the first line
carries no label. -/
theorem follow_complete (h : (follow true declared last lines).diagnostics = []) :
    (follow true declared last lines).outline.statements.map (·.place) = lines.map (·.place) ∧
      ∀ s ∈ (follow true declared last lines).outline.statements,
        s.position = 1 → s.label = none := by
  refine follow_induction
    (motive := fun kept _ _ lines r => kept = true → r.diagnostics = [] →
      r.outline.statements.map (·.place) = lines.map (·.place) ∧
        ∀ s ∈ r.outline.statements, s.position = 1 → s.label = none)
    ?_ ?_ ?_ ?_ true declared last lines rfl h
  · intro _ _ _ _ _
    exact ⟨rfl, nofun⟩
  · -- a line left out of a kept block contradicts that nothing is reported
    intro _ _ declared _ l rest r ds _ hreported _ hkept hclean
    exact absurd (List.append_eq_nil_iff.mp hclean).1 (hreported hkept)
  · intro declared _ l rest r s hplace hlabel ih _ hclean
    obtain ⟨hplaces, hfirst⟩ := ih rfl hclean
    rw [statements_main_cons]
    exact ⟨congrArg₂ List.cons hplace hplaces,
      List.forall_mem_cons.mpr ⟨fun _ => hlabel, hfirst⟩⟩
  · intro _ declared _ l rest r s label ds hplace _ _ _ hearly ih _ hclean
    obtain ⟨hnone, hclean⟩ := List.append_eq_nil_iff.mp hclean
    obtain ⟨hplaces, hfirst⟩ := ih rfl hclean
    have hposition : s.position = l.position := congrArg Prod.snd hplace
    rw [statements_subroutines_cons]
    refine ⟨congrArg₂ List.cons hplace hplaces, List.forall_mem_cons.mpr ⟨?_, hfirst⟩⟩
    exact fun hone => absurd hnone (hearly (hposition ▸ hone))

/-- Every line is tracked on the way, whatever becomes of it. -/
theorem follow_last (h : LastLine.Precedes last lines) :
    (follow kept declared last lines).outline.last = (lines.getLast?.map (·.tracked)).or last := by
  refine follow_induction
    (motive := fun _ _ last lines r => LastLine.Precedes last lines →
      r.outline.last = (lines.getLast?.map (·.tracked)).or last)
    ?_ ?_ ?_ ?_ kept declared last lines h
  · intro _ _ _ _
    rfl
  · intro _ _ _ last l rest r ds _ _ ih h
    rw [h.getLast?_cons, ← ih h.track]
  · intro _ last l rest r s _ _ ih h
    rw [h.getLast?_cons, ← ih h.track]
  · intro _ _ last l rest r s label ds _ _ _ _ _ ih h
    rw [h.getLast?_cons, ← ih h.track]

/-! ### The outline of a source -/

/-- The outline of a source: its statements are the stored lines of the source. -/
def ofSource (source : Text) : Outline := (ofLines (SourceLine.scan source)).1

variable {source : Text}

theorem ofSource_wellFormed (source : Text) : (ofSource source).WellFormed [] :=
  follow_wellFormed _ _ _ _

/-- The stored lines stand in the order of the source. -/
theorem statements_increasing (source : Text) :
    ((ofSource source).statements.map (·.line)).Pairwise (· < ·) := by
  have hsub : ((ofSource source).statements.map (·.line)).Sublist
      ((SourceLine.scan source).map (·.line)) := by
    simpa [ofSource, ofLines, Function.comp_def, Statement.place, SourceLine.place] using
      (follow_places_sublist true [] none (SourceLine.scan source)).map Prod.fst
  exact (List.pairwise_map.mpr (SourceLine.scan_increasing source)).sublist hsub

theorem statements_positions_increasing (source : Text) :
    ((ofSource source).statements.map (·.position)).Pairwise (· < ·) := by
  have hsub : ((ofSource source).statements.map (·.position)).Sublist
      ((SourceLine.scan source).map (·.position)) := by
    simpa [ofSource, ofLines, Function.comp_def, Statement.place, SourceLine.place] using
      (follow_places_sublist true [] none (SourceLine.scan source)).map Prod.snd
  rw [SourceLine.scan_positions] at hsub
  exact (List.pairwise_lt_range' 1).sublist hsub

/-- The last line of a source is the last one that is not blank, stored or not. -/
theorem ofSource_last (source : Text) :
    (ofSource source).last = (SourceLine.scan source).getLast?.map (·.tracked) := by
  have hlast := follow_last true [] none (SourceLine.scan source)
    ⟨nofun, SourceLine.scan_positions_increasing source⟩
  rwa [Option.or_none] at hlast

/-- Stored lines are told apart by their numbers. -/
theorem eq_of_line_eq {s t : Statement} (hs : s ∈ (ofSource source).statements)
    (ht : t ∈ (ofSource source).statements) (h : s.line = t.line) : s = t :=
  List.inj_on_of_nodup_map ((statements_increasing source).imp Nat.ne_of_lt) hs ht h

/-- Without a diagnostic about the outline every line is stored. -/
theorem statements_positions (h : (ofLines (SourceLine.scan source)).2 = []) :
    (ofSource source).statements.map (·.position) =
      List.range' 1 (ofSource source).statements.length := by
  have hplaces := (follow_complete [] none _ h).1
  have hpositions : (ofSource source).statements.map (·.position) =
      (SourceLine.scan source).map (·.position) := by
    simpa [ofSource, ofLines, Function.comp_def, Statement.place, SourceLine.place] using
      congrArg (List.map Prod.snd) hplaces
  have hlength : (ofSource source).statements.length = (SourceLine.scan source).length := by
    simpa [ofSource, ofLines] using congrArg List.length hplaces
  rw [hpositions, SourceLine.scan_positions, hlength]

end Outline

end TeachingCpu
