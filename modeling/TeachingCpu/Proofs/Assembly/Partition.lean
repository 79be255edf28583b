import Mathlib.Data.List.Induction
import TeachingCpu.Assembly
import TeachingCpu.Proofs.Assembly.Outline
/-!
# TeachingCpu.Proofs.Assembly.Partition

**Outlining loses, duplicates and reorders nothing.** Every line that is not blank is either
stored, as one statement from which its text can be put together again, or left out for one of
three reasons, each of which is reported.

Whether a line is stored depends on the lines before it. `Outline.follow` carries what matters of
them along; here it is a value of its own (`Outline.Context`), so that a line anywhere in a source
can be looked at with the context that the lines before it make
(`Outline.Context.mem_statements_follow_iff`, `Outline.Context.mem_diagnostics_follow_iff`). What a
context means is said by the lines alone (`Outline.Context.mem_declared_iff`,
`Outline.Context.kept_eq_false_iff`).
-/

set_option autoImplicit false

namespace TeachingCpu

/-- Whether a defect is about how a program is made up of lines. -/
def Defect.isStructural : Defect → Bool
  | .mainAfterSubroutine | .duplicateSubroutine | .invalidLabel _ | .unknownCommand => true
  | _ => false

/-! ### Lines and their labels -/

namespace SourceLine

/-- A line whose fields do not split: one of them that is not the first is empty, or there are
more than three. -/
def Broken (l : SourceLine) : Prop :=
  [] ∈ (l.text.splitOn '@').tail ∨ 3 < (l.text.splitOn '@').length

instance (l : SourceLine) : Decidable l.Broken := inferInstanceAs (Decidable (_ ∨ _))

/-- The label that a line carries: the first of several fields, if it begins with `_`. -/
def label? (l : SourceLine) : Option Text :=
  match l.text.splitOn '@' with
  | name :: _ :: _ => if name.head? = some '_' ∧ ¬l.Broken then some name else none
  | _ => none

/-- A line of three fields with a name in the place of the label that does not begin with `_`. -/
def Misnamed (l : SourceLine) (name : Text) : Prop :=
  ∃ command params, l.text.splitOn '@' = [name, command, params] ∧ name ≠ [] ∧ command ≠ [] ∧
    params ≠ [] ∧ name.head? ≠ some '_'

/-- A line carries a label that no line before it carries. -/
def Declares (l : SourceLine) (before : List SourceLine) : Prop :=
  ∃ name, l.label? = some name ∧ ∀ m ∈ before, m.label? ≠ some name

/-- A line carries a label that a line before it carries. -/
def Repeats (l : SourceLine) (before : List SourceLine) : Prop :=
  ∃ name, l.label? = some name ∧ ∃ m ∈ before, m.label? = some name

/-- The last of some lines is in the block of a repeated label: one of the lines repeats a label,
and from there to the last none carries a label not seen before. -/
def InRepeatedBlock (lines : List SourceLine) : Prop :=
  ∃ before opening block, lines = before ++ opening :: block ∧ opening.Repeats before ∧
    ∀ earlier l later, block = earlier ++ l :: later →
      ¬l.Declares (before ++ opening :: earlier)

/-- What there is to report about a line, after the lines before it. -/
def HasDefect (l : SourceLine) (before : List SourceLine) : Defect → Prop
  | .unknownCommand => l.Broken
  | .invalidLabel name => l.Misnamed name
  | .mainAfterSubroutine => l.position = 1 ∧ l.label? ≠ none
  | .duplicateSubroutine => l.Repeats before
  | _ => False

/-! ### Blank lines -/

/-- A line is blank if it is made of blanks, tabs and `@` signs alone. -/
def Blank (t : Text) : Prop := ∀ c ∈ t, c = ' ' ∨ c = '\t' ∨ c = '@'

/-- There are three separators. -/
theorem isSeparator_iff {c : Char} : isSeparator c = true ↔ c = ' ' ∨ c = '\t' ∨ c = '@' := by
  simp [isSeparator, or_assoc]

theorem ne_at {c : Char} (h : isSeparator c = false) : c ≠ '@' := by
  rintro rfl
  exact absurd h (by decide)

theorem all_feed (done : Text) (c : Char) :
    (feed done c).all (· == '@') = (done.all (· == '@') && isSeparator c) := by
  unfold feed
  split
  · next hc => simp [hc, isSeparator]
  · split
    · next hc =>
        rw [hc, Bool.and_true]
        split <;> simp
    · next hc =>
        have hc : isSeparator c = false := Bool.eq_false_iff.mpr hc
        simp [ne_at hc, hc]

/-- A normal form is blank if there is nothing but separators to normalise. -/
theorem isVoid_normalise (t : Text) : isVoid (normalise t) = t.all isSeparator := by
  have hall (done : Text) : (t.foldl feed done).all (· == '@') =
      (done.all (· == '@') && t.all isSeparator) := by
    induction t generalizing done with
    | nil => simp
    | cons c t ih => rw [List.foldl_cons, ih, all_feed, List.all_cons, Bool.and_assoc]
  rw [isVoid, normalise, List.all_reverse, hall]
  rfl

theorem isVoid_normalise_iff {t : Text} : isVoid (normalise t) = true ↔ Blank t := by
  simp only [isVoid_normalise, List.all_eq_true, isSeparator_iff, Blank]

theorem isVoid_normalise_eq_false_iff {t : Text} : isVoid (normalise t) = false ↔ ¬Blank t := by
  rw [← isVoid_normalise_iff, Bool.not_eq_true]

/-! ### The lines of a text -/

/-- Line `number` of a source is not blank, and `text` is its normal form. -/
def InText (source : Text) (number : Nat) (text : Text) : Prop :=
  ∃ i segment, (Text.segments source)[i]? = some segment ∧ number = i + 1 ∧
    ¬Blank (content segment) ∧ text = normalise (content segment)

theorem exists_mem_scanFrom_iff {line position offset number : Nat} {segments : List Text}
    {text : Text} :
    (∃ l ∈ scanFrom line position offset segments, l.line = number ∧ l.text = text) ↔
      ∃ i segment, segments[i]? = some segment ∧ number = line + i ∧
        ¬Blank (content segment) ∧ text = normalise (content segment) := by
  induction segments generalizing line position offset with
  | nil => simp [scanFrom]
  | cons segment rest ih =>
      -- the first segment apart, the others have indices of their own in the rest
      have hindex : (∃ i s, (segment :: rest)[i]? = some s ∧ number = line + i ∧
          ¬Blank (content s) ∧ text = normalise (content s)) ↔
          (number = line ∧ ¬Blank (content segment) ∧ text = normalise (content segment)) ∨
            ∃ i s, rest[i]? = some s ∧ number = line + 1 + i ∧
              ¬Blank (content s) ∧ text = normalise (content s) := by
        constructor
        · rintro ⟨i, s, hs, hnumber, htext⟩
          cases i with
          | zero =>
              cases hs
              exact .inl ⟨hnumber, htext⟩
          | succ i => exact .inr ⟨i, s, hs, by omega, htext⟩
        · rintro (⟨hnumber, htext⟩ | ⟨i, s, hs, hnumber, htext⟩)
          · exact ⟨0, segment, rfl, hnumber, htext⟩
          · exact ⟨i + 1, s, hs, by omega, htext⟩
      rw [hindex, scanFrom]
      by_cases hblank : Blank (content segment)
      · rw [if_pos (isVoid_normalise_iff.mpr hblank), ih, or_iff_right]
        rintro ⟨-, hkept, -⟩
        exact hkept hblank
      · rw [if_neg (mt isVoid_normalise_iff.mp hblank), ← ih]
        simp only [List.mem_cons, exists_eq_or_imp]
        refine or_congr ⟨?_, ?_⟩ Iff.rfl
        · rintro ⟨rfl, rfl⟩
          exact ⟨rfl, hblank, rfl⟩
        · rintro ⟨rfl, -, rfl⟩
          exact ⟨rfl, rfl⟩

/-- Scanning finds the lines of a source that are not blank, under their numbers. -/
theorem exists_mem_scan_iff {source : Text} {number : Nat} {text : Text} :
    (∃ l ∈ scan source, l.line = number ∧ l.text = text) ↔ InText source number text := by
  simp only [scan, exists_mem_scanFrom_iff, InText, Nat.add_comm 1]

/-- A line is found at one place only. -/
theorem split_unique {lines before before' after after' : List SourceLine} {l l' : SourceLine}
    (hincreasing : lines.Pairwise (·.line < ·.line)) (h : lines = before ++ l :: after)
    (h' : lines = before' ++ l' :: after') (hline : l.line = l'.line) :
    before = before' ∧ l = l' := by
  subst h
  exact append_cons_unique (List.pairwise_map.mpr (hincreasing.imp Nat.ne_of_lt)) h' hline

/-- The last line is the one with the greatest number. -/
theorem getLast?_of_greatest {lines : List SourceLine} {l : SourceLine}
    (hincreasing : lines.Pairwise (·.line < ·.line)) (hl : l ∈ lines)
    (hgreatest : ∀ m ∈ lines, m.line ≤ l.line) : lines.getLast? = some l := by
  obtain ⟨before, after, rfl⟩ := List.append_of_mem hl
  cases after with
  | nil => exact List.getLast?_eq_some_iff.mpr ⟨before, rfl⟩
  | cons next after =>
      have hafter := (List.pairwise_append.mp hincreasing).2.1
      have hlt : l.line < next.line := List.rel_of_pairwise_cons hafter List.mem_cons_self
      have hle := hgreatest next (by simp)
      omega

end SourceLine

/-! ### Putting a line together again -/

/-- The label, the command and the parameters of a statement, as fields of a line. -/
def Statement.fields (s : Statement) : List Text :=
  s.label.toList ++ s.command :: if s.params.isEmpty then [] else [[','].intercalate s.params]

/-- The fields of a statement put together. -/
def Statement.text (s : Statement) : Text := ['@'].intercalate s.fields

namespace Fields

variable {text : Text} {fields : Fields} {s : Statement} {name : Text}

theorem fields_of_params {field : Text} (hparams : s.params = paramsOf field) :
    s.fields = s.label.toList ++ [s.command, field] := by
  have hne : (paramsOf field).isEmpty = false :=
    List.isEmpty_eq_false_iff.mpr (List.splitOn_ne_nil _ _)
  have hjoin : [','].intercalate (paramsOf field) = field := List.intercalate_splitOn _
  rw [Statement.fields, hparams, hne, hjoin]
  rfl

/-- What the parts of a line are taken for: a command alone, with a label or with parameters, or
with both, where an indented line begins with an empty part. -/
inductive Reads : List Text → Fields → Prop
  | bare (command : Text) : Reads [command] { command }
  | indented (command : Text) (hcommand : command ≠ []) : Reads [[], command] { command }
  | labelled (label command : Text) (hlabel : isLabel label = true) (hcommand : command ≠ []) :
      Reads [label, command] { label := some label, command }
  | plain (command field : Text) (hfirst : command ≠ []) (hno : isLabel command = false)
      (hfield : field ≠ []) : Reads [command, field] { command, params := paramsOf field }
  | indentedPlain (command field : Text) (hcommand : command ≠ []) (hfield : field ≠ []) :
      Reads [[], command, field] { command, params := paramsOf field }
  | full (name command field : Text) (hname : name ≠ []) (hcommand : command ≠ [])
      (hfield : field ≠ []) :
      Reads [name, command, field] { label := some name, command, params := paramsOf field }

/-- Taking a line apart reads its parts. -/
theorem reads_of_ofText? (h : ofText? text = some fields) : Reads (text.splitOn '@') fields := by
  unfold ofText? at h
  generalize text.splitOn '@' = parts at h
  -- up to three parts, of which only the first may be empty
  match parts with
  | [] => simp at h
  | [command] =>
      obtain rfl : _ = fields := by simpa using h
      exact .bare command
  | [first, second] =>
      have hsecond : second ≠ [] := by
        rintro rfl
        simp at h
      by_cases hfirst : first = []
      · obtain rfl : _ = fields := by simpa [hfirst, hsecond] using h
        exact hfirst ▸ .indented second hsecond
      · cases hlabel : isLabel first with
        | true =>
            obtain rfl : _ = fields := by simpa [hfirst, hsecond, hlabel] using h
            exact .labelled first second hlabel hsecond
        | false =>
            obtain rfl : _ = fields := by simpa [hfirst, hsecond, hlabel] using h
            exact .plain first second hfirst hlabel hsecond
  | [first, command, field] =>
      have hcommand : command ≠ [] := by
        rintro rfl
        simp at h
      have hfield : field ≠ [] := by
        rintro rfl
        simp at h
      by_cases hfirst : first = []
      · obtain rfl : _ = fields := by simpa [hfirst, hcommand, hfield] using h
        exact hfirst ▸ .indentedPlain command field hcommand hfield
      · obtain rfl : _ = fields := by simpa [hfirst, hcommand, hfield] using h
        exact .full first command field hfirst hcommand hfield
  | _ :: _ :: _ :: _ :: _ => simp at h

/-- The parts of a line are the fields of its statement, after an empty one if it is indented. -/
theorem Reads.parts {parts : List Text} (h : Reads parts fields) (hlabel : s.label = fields.label)
    (hcommand : s.command = fields.command) (hparams : s.params = fields.params) :
    parts = s.fields ∨ parts = [] :: s.fields := by
  cases h with
  | bare => exact .inl (by simp [Statement.fields, hlabel, hcommand, hparams])
  | indented => exact .inr (by simp [Statement.fields, hlabel, hcommand, hparams])
  | labelled => exact .inl (by simp [Statement.fields, hlabel, hcommand, hparams])
  | plain => exact .inl (by simp [fields_of_params hparams, hlabel, hcommand])
  | indentedPlain => exact .inr (by simp [fields_of_params hparams, hlabel, hcommand])
  | full => exact .inl (by simp [fields_of_params hparams, hlabel, hcommand])

/-- A line that can be taken apart is its fields put together, after one separator if it is
indented. -/
theorem text_of_ofText? (h : ofText? text = some fields) (hlabel : s.label = fields.label)
    (hcommand : s.command = fields.command) (hparams : s.params = fields.params) :
    text = s.text ∨ text = '@' :: s.text := by
  have hjoin : ['@'].intercalate (text.splitOn '@') = text := List.intercalate_splitOn _
  rcases (reads_of_ofText? h).parts hlabel hcommand hparams with hparts | hparts
  · left
    rw [← hjoin, hparts, Statement.text]
  · right
    obtain ⟨field, rest, hfields⟩ : ∃ field rest, s.fields = field :: rest :=
      List.exists_cons_of_ne_nil (by simp [Statement.fields])
    rw [← hjoin, hparts, Statement.text, hfields, List.intercalate_cons_cons]
    rfl

end Fields

/-! ### Kinds of lines -/

namespace SourceLine

variable {l : SourceLine} {name : Text}

/-- A line cannot be taken apart exactly if its fields do not split. -/
theorem broken_iff : l.Broken ↔ Fields.ofText? l.text = none := by
  unfold Broken Fields.ofText?
  have hempty : (l.text.splitOn '@').tail.any List.isEmpty = true ↔
      [] ∈ (l.text.splitOn '@').tail := by simp
  dsimp only
  split
  · next h => exact iff_of_true (.inl (hempty.mp h)) rfl
  · next h =>
      rw [hempty] at h
      rw [or_iff_right h]
      match hparts : l.text.splitOn '@' with
      | [] => exact absurd hparts (List.splitOn_ne_nil _ _)
      | [_] => simp
      | [_, _] => simp only [List.length_cons]; split <;> [simp; split <;> simp]
      | [_, _, _] => simp
      | _ :: _ :: _ :: _ :: _ => simp

/-- The label of a line is the one among the fields that are read of it. -/
theorem label?_eq_bind :
    l.label? = (Fields.ofText? l.text).bind fun fields => fields.label.filter isLabel := by
  -- a line whose fields do not split has no label either way
  by_cases hbroken : l.Broken
  · rw [broken_iff.mp hbroken, label?]
    split <;> simp [hbroken]
  · obtain ⟨fields, hfields⟩ := Option.ne_none_iff_exists'.mp (mt broken_iff.mpr hbroken)
    have hreads := Fields.reads_of_ofText? hfields
    rw [hfields, label?]
    generalize l.text.splitOn '@' = parts at hreads
    cases hreads with
    | bare command => rfl
    | indented command => rfl
    | indentedPlain command field => rfl
    | labelled label command hlabel =>
        simp [hbroken, isLabel_iff.mp hlabel, Option.filter_some, hlabel]
    | plain command field hfirst hno =>
        simp [isLabel_eq_false_iff.mp hno]
    | full name command field =>
        cases hname : isLabel name with
        | true => simp [hbroken, isLabel_iff.mp hname, Option.filter_some, hname]
        | false => simp [isLabel_eq_false_iff.mp hname, Option.filter_some, hname]

/-- The name in the place of the label is no label only in a line of three fields. -/
theorem misnamed_iff :
    l.Misnamed name ↔ ∃ fields, Fields.ofText? l.text = some fields ∧ fields.label = some name ∧
      isLabel name = false := by
  constructor
  · rintro ⟨command, params, hparts, hname, hcommand, hparams, hlabel⟩
    refine ⟨{ label := some name, command, params := Fields.paramsOf params }, ?_, rfl,
      isLabel_eq_false_iff.mpr hlabel⟩
    simp [Fields.ofText?, hparts, hname, hcommand, hparams]
  · rintro ⟨fields, hfields, hname, hno⟩
    have hreads := Fields.reads_of_ofText? hfields
    unfold Misnamed
    generalize l.text.splitOn '@' = parts at hreads ⊢
    cases hreads with
    | labelled _ _ hlabel _ =>
        cases hname
        rw [hlabel] at hno
        cases hno
    | full _ command field hfirst hcommand hfield =>
        cases hname
        exact ⟨command, field, rfl, hfirst, hcommand, hfield, isLabel_eq_false_iff.mp hno⟩
    | bare | indented | plain | indentedPlain => cases hname

/-- How a line is taken apart, and the label that it then carries. -/
inductive Kind (l : SourceLine) : Prop
  | broken (hfields : Fields.ofText? l.text = none) (hlabel : l.label? = none)
  | plain (fields : Fields) (hfields : Fields.ofText? l.text = some fields)
      (hname : fields.label = none) (hlabel : l.label? = none)
  | misnamed (fields : Fields) (name : Text) (hfields : Fields.ofText? l.text = some fields)
      (hname : fields.label = some name) (hno : isLabel name = false) (hlabel : l.label? = none)
  | labelled (fields : Fields) (label : Text) (hfields : Fields.ofText? l.text = some fields)
      (hname : fields.label = some label) (hyes : isLabel label = true)
      (hlabel : l.label? = some label)

theorem kind (l : SourceLine) : l.Kind := by
  cases hfields : Fields.ofText? l.text with
  | none => exact .broken hfields (by simp [label?_eq_bind, hfields])
  | some fields =>
      cases hname : fields.label with
      | none => exact .plain fields hfields hname (by simp [label?_eq_bind, hfields, hname])
      | some name =>
          cases hsigil : isLabel name with
          | false =>
              exact .misnamed fields name hfields hname hsigil
                (by simp [label?_eq_bind, hfields, hname, hsigil])
          | true =>
              exact .labelled fields name hfields hname hsigil
                (by simp [label?_eq_bind, hfields, hname, hsigil])

end SourceLine

namespace Outline

/-! ### Contexts -/

/-- What the lines read so far mean for the next one. -/
structure Context where
  /-- Whether the block under way is kept. -/
  kept : Bool := true
  /-- The labels declared. -/
  declared : List Text := []
  /-- The last line. -/
  last : Option LastLine := none

namespace Context

/-- The context after a line. -/
def past (c : Context) (l : SourceLine) : Context :=
  let last := LastLine.track c.last l.position l.line
  match l.label? with
  | none => { c with last }
  | some label =>
    if c.declared.contains label then { c with kept := false, last }
    else ⟨true, label :: c.declared, last⟩

/-- The statement that is stored for a line. -/
def stored? (c : Context) (l : SourceLine) : Option Statement :=
  match Fields.ofText? l.text with
  | none => none
  | some fields =>
    let s : Statement :=
      { line := l.line, position := l.position, span := l.span, label := fields.label,
        command := fields.command, params := fields.params }
    match fields.label with
    | none => if c.kept then some s else none
    | some label => if isLabel label && !c.declared.contains label then some s else none

/-- What is wrong with a line. -/
def defects (c : Context) (l : SourceLine) : List Defect :=
  match Fields.ofText? l.text with
  | none => [.unknownCommand]
  | some fields =>
    match fields.label with
    | none => []
    | some label =>
      if isLabel label then
        (if l.position = 1 then [.mainAfterSubroutine] else []) ++
          if c.declared.contains label then [.duplicateSubroutine] else []
      else [.invalidLabel label]

/-- What is reported about a line. -/
def reports (c : Context) (l : SourceLine) : List Diagnostic :=
  (c.defects l).map fun defect => ⟨l.line, l.span, defect⟩

variable {c : Context} {l : SourceLine} {label : Text}

theorem past_of_none (h : l.label? = none) :
    c.past l = { c with last := LastLine.track c.last l.position l.line } := by
  simp [past, h]

theorem past_of_mem (h : l.label? = some label) (hdeclared : label ∈ c.declared) :
    c.past l = ⟨false, c.declared, LastLine.track c.last l.position l.line⟩ := by
  simp [past, h, hdeclared]

theorem past_of_notMem (h : l.label? = some label) (hnew : label ∉ c.declared) :
    c.past l = ⟨true, label :: c.declared, LastLine.track c.last l.position l.line⟩ := by
  simp [past, h, hnew]

/-- The outline of further lines in a context. -/
def follow (c : Context) (lines : List SourceLine) : Continuation :=
  Outline.follow c.kept c.declared c.last lines

/-- One line more: it is stored and reported as its context says, and makes the context of the
lines after it. -/
theorem follow_cons (c : Context) (l : SourceLine) (rest : List SourceLine) :
    (c.follow (l :: rest)).outline.statements =
        (c.stored? l).toList ++ ((c.past l).follow rest).outline.statements ∧
      (c.follow (l :: rest)).diagnostics = c.reports l ++ ((c.past l).follow rest).diagnostics := by
  rw [follow, Outline.follow, stored?, reports, defects]
  cases l.kind with
  | broken hfields hlabel =>
      rw [past_of_none hlabel, hfields]
      exact ⟨rfl, rfl⟩
  | plain fields hfields hname hlabel =>
      rw [past_of_none hlabel, hfields]
      cases c.kept <;> simp [follow, hname, statements]
  | misnamed fields name hfields hname hno hlabel =>
      rw [past_of_none hlabel, hfields]
      simp [follow, hname, hno, Statement.diagnose]
  | labelled fields label hfields hname hyes hlabel =>
      rw [hfields]
      by_cases hdeclared : label ∈ c.declared
      · rw [past_of_mem hlabel hdeclared]
        by_cases hfirst : l.position = 1 <;>
          simp [follow, hname, hyes, hdeclared, hfirst, Statement.diagnose]
      · rw [past_of_notMem hlabel hdeclared]
        by_cases hfirst : l.position = 1 <;>
          simp [follow, hname, hyes, hdeclared, hfirst, Statement.diagnose,
            statements_subroutines_cons]

/-- What is made of lines one by one, each in the context that the lines before it make. -/
theorem mem_iff_of_cons {α : Type} (one : Context → SourceLine → List α)
    (all : Context → List SourceLine → List α) (hnil : ∀ c, all c [] = [])
    (hcons : ∀ c l rest, all c (l :: rest) = one c l ++ all (c.past l) rest) {a : α}
    {lines : List SourceLine} :
    a ∈ all c lines ↔
      ∃ before l after, lines = before ++ l :: after ∧ a ∈ one (before.foldl past c) l := by
  induction lines generalizing c with
  | nil => simp [hnil]
  | cons l rest ih =>
      rw [hcons, List.mem_append, ih]
      constructor
      · rintro (h | ⟨before, m, after, rfl, h⟩)
        · exact ⟨[], l, rest, rfl, h⟩
        · exact ⟨l :: before, m, after, rfl, h⟩
      · rintro ⟨before, m, after, hsplit, h⟩
        cases before with
        | nil =>
            cases hsplit
            exact .inl h
        | cons first before =>
            cases hsplit
            exact .inr ⟨before, m, after, rfl, h⟩

theorem mem_statements_follow_iff {lines : List SourceLine} {s : Statement} :
    s ∈ (c.follow lines).outline.statements ↔
      ∃ before l after, lines = before ++ l :: after ∧
        (before.foldl past c).stored? l = some s := by
  simpa using mem_iff_of_cons (fun c l => (c.stored? l).toList)
    (fun c lines => (c.follow lines).outline.statements) (fun _ => rfl)
    (fun c l rest => (follow_cons c l rest).1) (a := s)

theorem mem_diagnostics_follow_iff {lines : List SourceLine} {d : Diagnostic} :
    d ∈ (c.follow lines).diagnostics ↔
      ∃ before l after, lines = before ++ l :: after ∧ d ∈ (before.foldl past c).reports l :=
  mem_iff_of_cons reports (fun c lines => (c.follow lines).diagnostics) (fun _ => rfl)
    fun c l rest => (follow_cons c l rest).2

/-! ### What a context means -/

theorem mem_declared_past_iff :
    label ∈ (c.past l).declared ↔ label ∈ c.declared ∨ l.label? = some label := by
  cases hlabel : l.label? with
  | none => simp [past_of_none hlabel]
  | some name =>
      by_cases hdeclared : name ∈ c.declared
      · rw [past_of_mem hlabel hdeclared]
        simp only [Option.some.injEq, iff_self_or]
        rintro rfl
        exact hdeclared
      · rw [past_of_notMem hlabel hdeclared, List.mem_cons, Option.some.injEq, or_comm,
          @eq_comm _ label]

/-- The labels declared are those that the lines so far carry. -/
theorem mem_declared_iff {before : List SourceLine} :
    label ∈ (before.foldl past {}).declared ↔ ∃ m ∈ before, m.label? = some label := by
  induction before using List.reverseRecOn with
  | nil => simp
  | append_singleton before l ih =>
      rw [List.foldl_append, List.foldl_cons, List.foldl_nil, mem_declared_past_iff, ih]
      simp

end Context

end Outline

/-! ### Blocks of repeated labels -/

namespace SourceLine

variable {l : SourceLine} {before : List SourceLine}

/-- A line more is in the block of a repeated label if it repeats one, or if the line before it is
and it carries no new label. -/
theorem inRepeatedBlock_append_singleton_iff :
    InRepeatedBlock (before ++ [l]) ↔
      l.Repeats before ∨ InRepeatedBlock before ∧ ¬l.Declares before := by
  constructor
  · rintro ⟨earlier, opening, block, hsplit, hrepeats, hnone⟩
    -- the line opens the block, or the block was under way before it
    rcases List.eq_nil_or_concat block with rfl | ⟨block, last, rfl⟩
    · obtain ⟨rfl, hlast⟩ := List.append_inj' hsplit rfl
      cases hlast
      exact .inl hrepeats
    · rw [List.concat_eq_append, ← List.cons_append, ← List.append_assoc] at hsplit
      obtain ⟨rfl, hlast⟩ := List.append_inj' hsplit rfl
      cases hlast
      refine .inr ⟨⟨earlier, opening, block, rfl, hrepeats, fun first m later hblock => ?_⟩, ?_⟩
      · exact hnone first m (later ++ [l]) (by simp [hblock])
      · exact hnone block l [] (by simp)
  · rintro (hrepeats | ⟨⟨earlier, opening, block, rfl, hrepeats, hnone⟩, hnew⟩)
    · refine ⟨before, l, [], rfl, hrepeats, fun first m later hblock => ?_⟩
      simp at hblock
    · refine ⟨earlier, opening, block ++ [l], by simp, hrepeats, fun first m later hblock => ?_⟩
      rcases List.eq_nil_or_concat later with rfl | ⟨later, last, rfl⟩
      · obtain ⟨rfl, hlast⟩ := List.append_inj' hblock rfl
        cases hlast
        exact hnew
      · rw [List.concat_eq_append, ← List.cons_append, ← List.append_assoc] at hblock
        obtain ⟨rfl, -⟩ := List.append_inj' hblock rfl
        exact hnone first m later rfl

end SourceLine

namespace Outline

namespace Context

variable {c : Context} {l : SourceLine} {label : Text} {before : List SourceLine}

theorem repeats_iff (h : l.label? = some label) :
    l.Repeats before ↔ label ∈ (before.foldl past {}).declared := by
  simp [SourceLine.Repeats, h, mem_declared_iff]

theorem declares_iff (h : l.label? = some label) :
    l.Declares before ↔ label ∉ (before.foldl past {}).declared := by
  simp [SourceLine.Declares, h, mem_declared_iff]

/-- Lines are dropped in the block of a repeated label and nowhere else. -/
theorem kept_eq_false_iff :
    (before.foldl past {}).kept = false ↔ SourceLine.InRepeatedBlock before := by
  induction before using List.reverseRecOn with
  | nil => simp [SourceLine.InRepeatedBlock]
  | append_singleton before l ih =>
      rw [List.foldl_append, List.foldl_cons, List.foldl_nil,
        SourceLine.inRepeatedBlock_append_singleton_iff, ← ih]
      cases hlabel : l.label? with
      | none => simp [past_of_none hlabel, SourceLine.Repeats, SourceLine.Declares, hlabel]
      | some label =>
          rw [repeats_iff hlabel, declares_iff hlabel]
          by_cases hdeclared : label ∈ (before.foldl past {}).declared
          · simp [past_of_mem hlabel hdeclared, hdeclared]
          · simp [past_of_notMem hlabel hdeclared, hdeclared]

/-- A line is stored unless it cannot be taken apart, has a name for a label that is none, or is
dropped. -/
theorem stored?_isSome_iff :
    (c.stored? l).isSome = true ↔
      ¬(l.Broken ∨ (∃ name, l.Misnamed name) ∨ (c.past l).kept = false) := by
  simp only [SourceLine.misnamed_iff, SourceLine.broken_iff, stored?]
  cases l.kind with
  | broken hfields hlabel => simp [hfields]
  | plain fields hfields hname hlabel =>
      cases hkept : c.kept <;> simp [past_of_none hlabel, hfields, hname, hkept]
  | misnamed fields name hfields hname hno hlabel => simp [hfields, hname, hno]
  | labelled fields label hfields hname hyes hlabel =>
      by_cases hdeclared : label ∈ c.declared
      · simp [past_of_mem hlabel hdeclared, hfields, hname, hyes, hdeclared]
      · simp [past_of_notMem hlabel hdeclared, hfields, hname, hyes, hdeclared]

/-- A statement that is stored for a line has its place and its fields. -/
theorem exists_fields_of_stored?_eq_some {s : Statement} (h : c.stored? l = some s) :
    ∃ fields, Fields.ofText? l.text = some fields ∧ fields.label = l.label? ∧
      s = { line := l.line, position := l.position, span := l.span, label := l.label?,
            command := fields.command, params := fields.params } := by
  unfold stored? at h
  cases l.kind with
  | broken hfields hlabel => simp [hfields] at h
  | plain fields hfields hname hlabel =>
      simp only [hfields, hname, Option.ite_none_right_eq_some, Option.some.injEq] at h
      rw [hlabel]
      exact ⟨fields, hfields, hname, h.2.symm⟩
  | misnamed fields name hfields hname hno hlabel => simp [hfields, hname, hno] at h
  | labelled fields label hfields hname hyes hlabel =>
      simp only [hfields, hname, Option.ite_none_right_eq_some, Option.some.injEq] at h
      rw [hlabel]
      exact ⟨fields, hfields, hname, h.2.symm⟩

/-- A statement that is stored for a line keeps all of it. -/
theorem of_stored?_eq_some {s : Statement} (h : c.stored? l = some s) :
    s.line = l.line ∧ s.position = l.position ∧ s.span = l.span ∧ s.label = l.label? ∧
      (l.text = s.text ∨ l.text = '@' :: s.text) := by
  obtain ⟨fields, hfields, hlabel, rfl⟩ := exists_fields_of_stored?_eq_some h
  exact ⟨rfl, rfl, rfl, rfl, Fields.text_of_ofText? hfields hlabel.symm rfl rfl⟩

/-- What is wrong with a line is what the lines say. -/
theorem mem_defects_iff {defect : Defect} :
    defect ∈ (before.foldl past {}).defects l ↔ l.HasDefect before defect := by
  unfold defects
  cases l.kind with
  | broken hfields hlabel =>
      rw [hfields]
      cases defect <;> simp [SourceLine.HasDefect, SourceLine.broken_iff, SourceLine.misnamed_iff,
        SourceLine.Repeats, hfields, hlabel]
  | plain fields hfields hname hlabel =>
      rw [hfields]
      cases defect <;> simp [SourceLine.HasDefect, SourceLine.broken_iff, SourceLine.misnamed_iff,
        SourceLine.Repeats, hfields, hlabel, hname]
  | misnamed fields name hfields hname hno hlabel =>
      -- the defect names the name, which the line determines
      have hmisnamed (other : Text) : l.Misnamed other ↔ other = name := by
        simp only [SourceLine.misnamed_iff, hfields, Option.some.injEq, exists_eq_left', hname]
        exact ⟨fun h => h.1.symm, fun h => ⟨h.symm, h ▸ hno⟩⟩
      rw [hfields]
      cases defect <;> simp [SourceLine.HasDefect, SourceLine.broken_iff, hmisnamed,
        SourceLine.Repeats, hfields, hlabel, hname, hno]
  | labelled fields label hfields hname hyes hlabel =>
      have hmisnamed (other : Text) : ¬l.Misnamed other := by
        simp only [SourceLine.misnamed_iff, hfields, Option.some.injEq, exists_eq_left', hname]
        rintro ⟨rfl, hno⟩
        exact Bool.false_ne_true (hno.symm.trans hyes)
      rw [hfields]
      by_cases hfirst : l.position = 1 <;>
        by_cases hdeclared : label ∈ (before.foldl past {}).declared <;>
        cases defect <;> simp [SourceLine.HasDefect, SourceLine.broken_iff, hmisnamed,
          repeats_iff hlabel, hfields, hlabel, hname, hyes, hfirst, hdeclared]

end Context

/-! ### The partition -/

/-- What the main body is: the stored lines before the first that carries a label. -/
theorem WellFormed.main_eq {declared : List Text} {o : Outline} (h : o.WellFormed declared) :
    o.main = o.statements.takeWhile (·.label.isNone) := by
  rw [statements, List.takeWhile_append_of_pos fun s hs => by simp [h.main_label s hs]]
  cases hsubs : o.subroutines with
  | nil => simp
  | cons sub subs =>
      have hopening := h.opening_label sub (hsubs ▸ List.mem_cons_self)
      simp [Subroutine.statements, hopening]

/-- Why a line is left out: its fields do not split, the name in the place of its label is none,
or it is in the block of a repeated label. -/
def LeftOut (before : List SourceLine) (l : SourceLine) : Prop :=
  l.Broken ∨ (∃ name, l.Misnamed name) ∨ SourceLine.InRepeatedBlock (before ++ [l])

/-- How an outline divides the lines of a source. Stored lines have the numbers of their lines,
which increase, so that each line is stored once at most. -/
structure Partitions (lines : List SourceLine) (o : Outline) (reported : List Diagnostic) :
    Prop where
  lines_increasing : (o.statements.map (·.line)).Pairwise (· < ·)
  positions_increasing : (o.statements.map (·.position)).Pairwise (· < ·)
  /-- A stored line has all that was read of it, and its text can be put together again. -/
  stored : ∀ s ∈ o.statements, ∃ l ∈ lines, s.line = l.line ∧ s.position = l.position ∧
    s.span = l.span ∧ s.label = l.label? ∧ (l.text = s.text ∨ l.text = '@' :: s.text)
  /-- Every line is stored that is not left out for one of the reasons. -/
  kept_iff : ∀ before l after, lines = before ++ l :: after →
    ((∃ s ∈ o.statements, s.line = l.line) ↔ ¬LeftOut before l)
  /-- What is reported is what is wrong with the lines, line by line. -/
  reported_iff : ∀ d, d ∈ reported ↔ ∃ before l after defect, lines = before ++ l :: after ∧
    l.HasDefect before defect ∧ d = ⟨l.line, l.span, defect⟩
  labels_nodup : (o.subroutines.map (·.label)).Nodup
  opening_label : ∀ sub ∈ o.subroutines, sub.opening.label = some sub.label
  body_label : ∀ sub ∈ o.subroutines, ∀ s ∈ sub.body, s.label = none
  main_eq : o.main = o.statements.takeWhile (·.label.isNone)

variable {source : Text}

theorem mem_statements_ofSource_iff {s : Statement} :
    s ∈ (ofSource source).statements ↔
      ∃ before l after, SourceLine.scan source = before ++ l :: after ∧
        (before.foldl Context.past {}).stored? l = some s :=
  Context.mem_statements_follow_iff (c := {})

/-- A line of a source is stored if its context stores it. -/
theorem exists_stored_iff {before after : List SourceLine} {l : SourceLine}
    (h : SourceLine.scan source = before ++ l :: after) :
    (∃ s ∈ (ofSource source).statements, s.line = l.line) ↔
      ((before.foldl Context.past {}).stored? l).isSome = true := by
  constructor
  · rintro ⟨s, hs, hline⟩
    obtain ⟨before', l', after', h', hstored⟩ := mem_statements_ofSource_iff.mp hs
    have hsame := (Context.of_stored?_eq_some hstored).1.symm.trans hline
    obtain ⟨rfl, rfl⟩ := SourceLine.split_unique (SourceLine.scan_increasing source) h' h hsame
    exact Option.isSome_iff_exists.mpr ⟨s, hstored⟩
  · intro hsome
    obtain ⟨s, hstored⟩ := Option.isSome_iff_exists.mp hsome
    exact ⟨s, mem_statements_ofSource_iff.mpr ⟨before, l, after, h, hstored⟩,
      (Context.of_stored?_eq_some hstored).1⟩

theorem partitions_ofLines (source : Text) :
    Partitions (SourceLine.scan source) (ofSource source)
      (ofLines (SourceLine.scan source)).2 where
  lines_increasing := statements_increasing source
  positions_increasing := statements_positions_increasing source
  stored := by
    intro s hs
    obtain ⟨before, l, after, h, hstored⟩ := mem_statements_ofSource_iff.mp hs
    exact ⟨l, h ▸ List.mem_append_right _ List.mem_cons_self, Context.of_stored?_eq_some hstored⟩
  kept_iff := by
    intro before l after h
    rw [exists_stored_iff h, Context.stored?_isSome_iff, LeftOut, ← Context.kept_eq_false_iff,
      List.foldl_append, List.foldl_cons, List.foldl_nil]
  reported_iff := by
    intro d
    refine Context.mem_diagnostics_follow_iff (c := {}).trans ?_
    simp only [Context.reports, List.mem_map, Context.mem_defects_iff]
    constructor
    · rintro ⟨before, l, after, h, defect, hdefect, rfl⟩
      exact ⟨before, l, after, defect, h, hdefect, rfl⟩
    · rintro ⟨before, l, after, defect, h, hdefect, rfl⟩
      exact ⟨before, l, after, h, defect, hdefect, rfl⟩
  labels_nodup := (ofSource_wellFormed source).nodup
  opening_label := (ofSource_wellFormed source).opening_label
  body_label := (ofSource_wellFormed source).body_label
  main_eq := (ofSource_wellFormed source).main_eq

theorem isStructural_of_mem {d : Diagnostic} (hd : d ∈ (ofLines (SourceLine.scan source)).2) :
    d.defect.isStructural = true := by
  obtain ⟨before, l, after, defect, -, hdefect, rfl⟩ :=
    ((partitions_ofLines source).reported_iff d).mp hd
  cases defect <;> first | rfl | exact hdefect.elim

/-- **Outlining partitions a source.** The lines that are outlined are those of the text that are
not blank, each under its number and in order; they are divided as `Partitions` says; and the last
line, which a halt must be on, is the last of them, whether it is stored or not. -/
theorem outline_partitions_source (source : Text) :
    let lines := SourceLine.scan source
    lines.Pairwise (·.line < ·.line) ∧
    lines.map (·.position) = List.range' 1 lines.length ∧
    (∀ number text, (∃ l ∈ lines, l.line = number ∧ l.text = text) ↔
      SourceLine.InText source number text) ∧
    Partitions lines (ofLines lines).1 (ofLines lines).2 ∧
    (lines = [] → (ofLines lines).1.last = none) ∧
    ∀ l ∈ lines, (∀ m ∈ lines, m.line ≤ l.line) →
      (ofLines lines).1.last = some ⟨l.position, l.line⟩ := by
  intro lines
  have hincreasing := SourceLine.scan_increasing source
  refine ⟨hincreasing, SourceLine.scan_positions source,
    fun _ _ => SourceLine.exists_mem_scan_iff, partitions_ofLines source, ?_, ?_⟩
  · intro hnone
    rw [hnone]
    rfl
  · intro l hl hgreatest
    refine (ofSource_last source).trans ?_
    rw [SourceLine.getLast?_of_greatest hincreasing hl hgreatest]
    rfl

end Outline

end TeachingCpu
