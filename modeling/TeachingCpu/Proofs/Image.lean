import Mathlib.Data.List.Forall2
import TeachingCpu.Program
import TeachingCpu.Proofs.Text.Lines
import TeachingCpu.Proofs.Text.Trim
import TeachingCpu.Proofs.Text.Numeral
/-!
# TeachingCpu.Proofs.Image

**What the text of an image says.** An entry is one to four hexadecimal digits of either case
(`Word.WrittenBy`), a line may be read if it is blank or an entry but for the white space around it
(`Image.Readable`), and a text is an image exactly if all of its lines may be read
(`Image.exists_ofText_eq_ok_iff`). The words are those of the entries, one for each
(`Image.spells_of_ofText`), and the first line that may not be read is the one that is blamed
(`Image.ofText_eq_error_iff`).

What is written is read back as it was (`Image.ofText_toText`).
-/

set_option autoImplicit false

namespace TeachingCpu

/-! ### Words -/

/-- The text is one to four hexadecimal digits, and they stand for the word. -/
def Word.WrittenBy (w : Word) (entry : Text) : Prop :=
  entry.length ≤ 4 ∧ Numeral.Writes 16 entry w.toNat

namespace Word

variable {w : Word} {entry : Text}

/-- Four digits fit into a word, whatever they are. -/
theorem toNat_ofNat_of_writes {n : Nat} (hlength : entry.length ≤ 4)
    (h : Numeral.Writes 16 entry n) : (BitVec.ofNat 16 n).toNat = n := by
  have hlt : n < 16 ^ 4 := Nat.lt_of_lt_of_le h.lt_pow (Nat.pow_le_pow_right (by decide) hlength)
  exact Nat.mod_eq_of_lt hlt

theorem ofHex?_eq_some_iff : ofHex? entry = some w ↔ w.WrittenBy entry := by
  unfold ofHex?
  split
  · next hlength =>
      rw [Option.map_eq_some_iff, WrittenBy, ← Numeral.read?_eq_some_iff]
      constructor
      · rintro ⟨n, hread, rfl⟩
        rw [toNat_ofNat_of_writes hlength (Numeral.read?_eq_some_iff.mp hread)]
        exact ⟨hlength, hread⟩
      · intro h
        have hback := toNat_ofNat_of_writes hlength (Numeral.read?_eq_some_iff.mp h.2)
        exact ⟨_, h.2, BitVec.eq_of_toNat_eq hback⟩
  · next hlength => simp [WrittenBy, hlength]

theorem ofHex_eq_ok_iff : ofHex entry = .ok w ↔ w.WrittenBy entry := by
  rw [← ofHex?_eq_some_iff, ofHex]
  cases ofHex? entry <;> simp

theorem ofHex_eq_error_iff {error : WordError} :
    ofHex entry = .error error ↔
      (∀ w : Word, ¬w.WrittenBy entry) ∧ error = .invalidNumberFormat entry := by
  simp only [← ofHex?_eq_some_iff, ofHex]
  cases ofHex? entry <;> simp [eq_comm]

/-- A word is written by its four capital digits. -/
theorem writtenBy_hex (w : Word) : w.WrittenBy w.hex := by
  refine ⟨Nat.le_of_eq (Numeral.fixed_length ..), ?_⟩
  have hmod : w.toNat % 16 ^ (3 + 1) = w.toNat :=
    Nat.mod_eq_of_lt (Nat.lt_of_lt_of_eq w.isLt (by decide))
  have h := Numeral.writes_fixed 3 w.toNat
  rw [hmod] at h
  exact h

/-- The digits of a word stand on one line, with no white space around them. -/
theorem isBlank_of_mem_hex {c : Char} (h : c ∈ w.hex) : Text.isBlank c = false := by
  have hdigits : ∀ d < 16, Text.isBlank (Numeral.capitalDigit d) = false := by decide
  obtain ⟨d, hd, rfl⟩ := Numeral.exists_digit_of_mem_fixed (by decide) h
  exact hdigits d hd

end Word

/-! ### Lines -/

namespace Image

/-- A line that an image may have: it is blank or holds a word, but for white space around it. -/
def Readable (line : Text) : Prop :=
  ∃ body, Text.Surrounds line body ∧ (body = [] ∨ ∃ w : Word, w.WrittenBy body)

/-- Lines spell words: one each, but for the lines that are blank. -/
inductive Spells : List Text → List Word → Prop
  | nothing : Spells [] []
  | blank {line : Text} {rest : List Text} {words : List Word} (hline : Text.Surrounds line [])
      (hrest : Spells rest words) : Spells (line :: rest) words
  | word {line body : Text} {rest : List Text} {w : Word} {words : List Word}
      (hline : Text.Surrounds line body) (hbody : w.WrittenBy body) (hrest : Spells rest words) :
      Spells (line :: rest) (w :: words)

variable {t line : Text} {rest : List Text} {words : List Word} {error : WordError}

theorem readable_iff :
    Readable line ↔ Text.trim line = [] ∨ ∃ w : Word, w.WrittenBy (Text.trim line) :=
  Text.exists_surrounds_iff (motive := fun body => body = [] ∨ ∃ w : Word, w.WrittenBy body)

/-- The entries on lines: what is left of those that are not blank. -/
def entriesOf (lines : List Text) : List Text := (lines.map Text.trim).filter (!·.isEmpty)

theorem entriesOf_cons_of_blank (h : Text.trim line = []) :
    entriesOf (line :: rest) = entriesOf rest := by
  simp [entriesOf, h]

theorem entriesOf_cons_of_ne (h : Text.trim line ≠ []) :
    entriesOf (line :: rest) = Text.trim line :: entriesOf rest := by
  simp [entriesOf, h]

theorem ofEntries_eq_ok_iff {entries : List Text} :
    ofEntries entries = .ok words ↔
      List.Forall₂ (fun entry w => w.WrittenBy entry) entries words := by
  induction entries generalizing words with
  | nil =>
      rw [List.forall₂_nil_left_iff, ofEntries, Except.ok.injEq]
      exact eq_comm
  | cons entry entries ih =>
      rw [ofEntries, List.forall₂_cons_left_iff]
      split
      · next hread =>
          have hnone := (Word.ofHex_eq_error_iff.mp hread).1
          simp [hnone]
      · next w hread =>
          have hsame (v : Word) : v.WrittenBy entry ↔ w = v := by
            rw [← Word.ofHex_eq_ok_iff, hread, Except.ok.injEq]
          have hmap : (ofEntries entries).map (w :: ·) = .ok words ↔
              ∃ ws, ofEntries entries = .ok ws ∧ w :: ws = words := by
            cases ofEntries entries <;> simp [Except.map]
          simp only [hmap, ih, hsame]
          constructor
          · rintro ⟨ws, hws, rfl⟩
            exact ⟨w, ws, rfl, hws, rfl⟩
          · rintro ⟨_, ws, rfl, hws, rfl⟩
            exact ⟨ws, hws, rfl⟩

/-- Reading fails at the first line that may not be read. -/
theorem ofEntries_entriesOf_eq_error_iff {lines : List Text} :
    ofEntries (entriesOf lines) = .error error ↔
      ∃ before line after, lines = before ++ line :: after ∧ (∀ l ∈ before, Readable l) ∧
        ¬Readable line ∧ error = .invalidNumberFormat (Text.trim line) := by
  induction lines with
  | nil => simp [entriesOf, ofEntries]
  | cons l lines ih =>
      -- the first line is blamed, or it may be read and the first to blame is after it
      have hfirst : (∃ before line after, l :: lines = before ++ line :: after ∧
          (∀ l ∈ before, Readable l) ∧ ¬Readable line ∧
            error = .invalidNumberFormat (Text.trim line)) ↔
          (¬Readable l ∧ error = .invalidNumberFormat (Text.trim l)) ∨
            Readable l ∧ ofEntries (entriesOf lines) = .error error := by
        rw [ih]
        constructor
        · rintro ⟨before, line, after, hsplit, hbefore, hline⟩
          cases before with
          | nil =>
              cases hsplit
              exact .inl hline
          | cons m before =>
              cases hsplit
              obtain ⟨hl, hbefore⟩ := List.forall_mem_cons.mp hbefore
              exact .inr ⟨hl, before, line, after, rfl, hbefore, hline⟩
        · rintro (hl | ⟨hl, before, line, after, rfl, hbefore, hline⟩)
          · exact ⟨[], l, lines, rfl, nofun, hl⟩
          · exact ⟨l :: before, line, after, rfl, List.forall_mem_cons.mpr ⟨hl, hbefore⟩, hline⟩
      rw [hfirst]
      by_cases hblank : Text.trim l = []
      · simp [entriesOf_cons_of_blank hblank, readable_iff, hblank]
      · rw [entriesOf_cons_of_ne hblank, ofEntries]
        split
        · next e hread =>
            obtain ⟨hnone, rfl⟩ := Word.ofHex_eq_error_iff.mp hread
            have hl : ¬Readable l := by
              rw [readable_iff]
              rintro (h | ⟨w, hw⟩)
              · exact hblank h
              · exact hnone w hw
            simp [hl, eq_comm]
        · next w hread =>
            have hl : Readable l := readable_iff.mpr (.inr ⟨w, Word.ofHex_eq_ok_iff.mp hread⟩)
            simp only [hl, not_true_eq_false, false_and, true_and, false_or]
            cases ofEntries (entriesOf lines) <;> simp [Except.map]

theorem spells_of_entriesOf {lines : List Text}
    (h : List.Forall₂ (fun entry w => w.WrittenBy entry) (entriesOf lines) words) :
    Spells lines words := by
  induction lines generalizing words with
  | nil =>
      obtain rfl : words = [] := List.forall₂_nil_left_iff.mp h
      exact .nothing
  | cons line lines ih =>
      have hline := Text.surrounds_trim line
      by_cases hblank : Text.trim line = []
      · rw [entriesOf_cons_of_blank hblank] at h
        exact .blank (hblank ▸ hline) (ih h)
      · rw [entriesOf_cons_of_ne hblank] at h
        obtain ⟨w, words, hw, hrest, rfl⟩ := List.forall₂_cons_left_iff.mp h
        exact .word hline hw (ih hrest)

/-! ### Texts -/

theorem ofText_eq_ok_iff :
    ofText t = .ok words ↔ List.Forall₂ (fun entry w => w.WrittenBy entry) (entries t) words :=
  ofEntries_eq_ok_iff

/-- The words of an image are spelt by its lines. -/
theorem spells_of_ofText (h : ofText t = .ok words) : Spells (Text.lines t) words :=
  spells_of_entriesOf (ofText_eq_ok_iff.mp h)

theorem ofText_eq_error_iff :
    ofText t = .error error ↔
      ∃ before line after, Text.lines t = before ++ line :: after ∧ (∀ l ∈ before, Readable l) ∧
        ¬Readable line ∧
        ∃ body, Text.Surrounds line body ∧ error = .invalidNumberFormat body := by
  have hbody (line : Text) : (∃ body, Text.Surrounds line body ∧
      error = .invalidNumberFormat body) ↔ error = .invalidNumberFormat (Text.trim line) :=
    Text.exists_surrounds_iff (motive := fun body => error = .invalidNumberFormat body)
  simp only [hbody]
  exact ofEntries_entriesOf_eq_error_iff

/-- A text is an image exactly if every line of it may be read. -/
theorem exists_ofText_eq_ok_iff :
    (∃ words, ofText t = .ok words) ↔ ∀ line ∈ Text.lines t, Readable line := by
  constructor
  · rintro ⟨words, hwords⟩ line hline
    have hboth : List.Forall₂ (fun entry w => (∃ v : Word, v.WrittenBy entry) ∧ w.WrittenBy entry)
        (entries t) words := (ofText_eq_ok_iff.mp hwords).imp fun entry w hw => ⟨⟨w, hw⟩, hw⟩
    have hentries := ((List.forall₂_and_left _ _).mp hboth).1
    rw [readable_iff]
    by_cases hblank : Text.trim line = []
    · exact .inl hblank
    · exact .inr (hentries _
        (List.mem_filter.mpr ⟨List.mem_map_of_mem hline, by simpa using hblank⟩))
  · intro h
    cases hread : ofText t with
    | ok words => exact ⟨words, rfl⟩
    | error e =>
        obtain ⟨before, line, after, hsplit, -, hbad, -⟩ := ofText_eq_error_iff.mp hread
        exact absurd (h line (by simp [hsplit])) hbad

/-! ### Reading what was written -/

theorem lines_toText (words : List Word) : Text.lines (toText words) = words.map Word.hex := by
  induction words with
  | nil => rfl
  | cons w words ih =>
      have hblank (c : Char) (hc : Text.isBlank c = true) : c ∉ w.hex := by
        intro h
        rw [Word.isBlank_of_mem_hex h] at hc
        cases hc
      have hend : w.hex.getLast? ≠ some '\r' := fun h =>
        hblank '\r' (by decide) (List.mem_of_getLast? h)
      rw [toText, List.flatMap_cons, List.append_assoc, List.singleton_append,
        Text.lines_append_newline (hblank '\n' (by decide)) hend, List.map_cons, ← ih]
      rfl

/-- **Reading undoes writing.** -/
theorem ofText_toText (words : List Word) : ofText (toText words) = .ok words := by
  have htrim (w : Word) : Text.trim w.hex = w.hex :=
    Text.trim_eq_self fun c hc => Word.isBlank_of_mem_hex hc
  have hne (w : Word) : w.hex ≠ [] :=
    List.ne_nil_of_length_pos (by rw [Word.hex, Numeral.fixed_length]; decide)
  have hentries : entriesOf (words.map Word.hex) = words.map Word.hex := by
    rw [entriesOf, List.map_map, List.filter_eq_self.mpr]
    · exact List.map_congr_left fun w _ => htrim w
    · simp [htrim, hne]
  rw [ofText_eq_ok_iff, entries, lines_toText, ← entriesOf, hentries, List.forall₂_map_left_iff]
  exact List.forall₂_same.mpr fun w _ => w.writtenBy_hex

end Image

end TeachingCpu
