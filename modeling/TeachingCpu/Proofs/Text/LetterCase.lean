import Mathlib.Tactic.IntervalCases
import TeachingCpu.Text.Blank
import TeachingCpu.Text.Numeral
/-!
# TeachingCpu.Proofs.Text.LetterCase

**Making letters small.** Only the twenty-six capital letters of ASCII change
(`Text.toLower_eq_self_or_mem`), so a function of characters is the same of a character and of its
small letter as soon as this holds of these (`Text.apply_toLower`). That goes for white space and
for digits: a text in small letters has the same words, made small as well (`Text.words_lower`),
and is the same numeral (`Numeral.readSigned?_lower`).
-/

set_option autoImplicit false

namespace TeachingCpu

namespace Text

/-! ### Characters -/

/-- The letters that are made small. -/
def capitals : Text := "ABCDEFGHIJKLMNOPQRSTUVWXYZ".toList

theorem toLower_eq_self_or_mem (c : Char) : c.toLower = c ∨ c ∈ capitals := by
  unfold Char.toLower
  split
  · next hupper =>
      right
      obtain ⟨hfirst, hlast⟩ : 65 ≤ c.toNat ∧ c.toNat ≤ 90 := hupper
      rw [← Char.ofNat_toNat c]
      generalize c.toNat = n at hfirst hlast
      interval_cases n <;> decide
  · exact .inl rfl

/-- What is the same of every capital letter and its small letter is so of all characters. -/
theorem apply_toLower {α : Type} {f : Char → α}
    (h : capitals.map (fun c => f c.toLower) = capitals.map f) (c : Char) : f c.toLower = f c := by
  rcases toLower_eq_self_or_mem c with heq | hmem
  · rw [heq]
  · exact List.map_inj_left.mp h c hmem

theorem toLower_mem_iff {cs : Text} {c : Char}
    (h : capitals.map (fun c => decide (c.toLower ∈ cs)) = capitals.map fun c => decide (c ∈ cs)) :
    c.toLower ∈ cs ↔ c ∈ cs :=
  decide_eq_decide.mp (apply_toLower (f := fun c => decide (c ∈ cs)) h c)

@[simp] theorem isBlank_toLower (c : Char) : isBlank c.toLower = isBlank c :=
  apply_toLower (by decide) c

/-! ### Texts -/

@[simp] theorem lower_nil : lower [] = [] := rfl

@[simp] theorem lower_cons (c : Char) (t : Text) : lower (c :: t) = c.toLower :: lower t := rfl

@[simp] theorem lower_lower (t : Text) : lower (lower t) = lower t := by
  rw [lower, lower, List.map_map]
  exact List.map_congr_left fun c _ => apply_toLower (by decide) c

@[simp] theorem upper_lower (t : Text) : upper (lower t) = upper t := by
  rw [lower, upper, List.map_map]
  exact List.map_congr_left fun c _ => apply_toLower (by decide) c

@[simp] theorem byteLength_lower (t : Text) : byteLength (lower t) = byteLength t := by
  induction t with
  | nil => rfl
  | cons c t ih =>
      have hsize : c.toLower.utf8Size = c.utf8Size := apply_toLower (by decide) c
      rw [lower_cons, byteLength_cons, byteLength_cons, hsize, ih]

theorem foldr_addToWords_lower (t : Text) :
    (lower t).foldr addToWords (false, []) =
      (t.foldr addToWords (false, [])).map id (List.map lower) := by
  induction t with
  | nil => rfl
  | cons c t ih =>
      rw [lower_cons, List.foldr_cons, List.foldr_cons, ih]
      obtain ⟨growing, words⟩ := t.foldr addToWords (false, [])
      simp only [addToWords, Prod.map, isBlank_toLower]
      cases isBlank c
      · cases growing <;> cases words <;> rfl
      · rfl

theorem words_lower (t : Text) : words (lower t) = (words t).map lower := by
  rw [words, foldr_addToWords_lower]
  rfl

end Text

/-! ### Numerals -/

namespace Numeral

@[simp] theorem digit?_toLower (base : Nat) (c : Char) : digit? base c.toLower = digit? base c := by
  have hvalue : digitValue c.toLower = digitValue c := Text.apply_toLower (by decide) c
  rw [digit?, hvalue, digit?]

theorem read?_lower (base : Nat) (t : Text) : read? base (Text.lower t) = read? base t := by
  have hvalue : value base (Text.lower t) = value base t := by
    simp [value, Text.lower, List.foldl_map]
  have hall : (Text.lower t).all (isDigit base) = t.all (isDigit base) := by
    simp only [Text.lower, List.all_map, Function.comp_def, isDigit, digit?_toLower]
    rfl
  rw [read?, hvalue, hall, Text.lower, List.isEmpty_map, read?]

theorem readSigned?_lower (base : Nat) (t : Text) :
    readSigned? base (Text.lower t) = readSigned? base t := by
  cases t with
  | nil => rfl
  | cons c t =>
      have hplus : c.toLower ∈ ['+'] ↔ c ∈ ['+'] := Text.toLower_mem_iff (by decide)
      rw [List.mem_singleton, List.mem_singleton] at hplus
      by_cases hc : c = '+'
      · subst hc
        exact read?_lower base t
      · have hsmall := mt hplus.mp hc
        have hunsigned {d : Char} (s : Text) (hd : d ≠ '+') :
            readSigned? base (d :: s) = read? base (d :: s) := by
          rw [readSigned?]
          rintro digits heq
          exact hd (List.cons.inj heq).1
        rw [Text.lower_cons, hunsigned _ hsmall, hunsigned _ hc, ← Text.lower_cons, read?_lower]

end Numeral

end TeachingCpu
