import TeachingCpu.Proofs.Console.Signature
import TeachingCpu.Proofs.Text.LetterCase
/-!
# TeachingCpu.Proofs.Console.LetterCase

**Commands do not depend on letter case, but for one letter.** Names of commands, registers and
circuits are compared without regard to case, and hexadecimal digits have the same value in both
cases. Of the announcements of a hexadecimal number, `0x` may be written `0X`, but `x` alone has no
capital form: an argument that begins with a capital `X` is refused, whatever the command
(`Parameter.FoldsCase`).

A line is compared with the same line in small letters (`Command.ofLine_eq_ok_iff_lower`), so that
two lines that differ in case alone are compared through the one that they have in common.
-/

set_option autoImplicit false

namespace TeachingCpu

/-! ### Numbers -/

namespace Argument

open Numeral

variable {t rest : Text} {c : Char}

theorem digitsOf_of_notMem (hc : c ∉ ['$', '0', 'x', 'X']) : digitsOf (c :: rest) = c :: rest := by
  simp only [List.mem_cons, List.not_mem_nil, or_false, not_or] at hc
  obtain ⟨hdollar, hzero, hx, -⟩ := hc
  simp [digitsOf, announcements, Text.afterHead?, Ne.symm hdollar, Ne.symm hzero, Ne.symm hx]

theorem digitsOf_zero_of_notMem (hc : c ∉ ['x', 'X']) :
    digitsOf ('0' :: c :: rest) = '0' :: c :: rest := by
  simp only [List.mem_cons, List.not_mem_nil, or_false, not_or] at hc
  simp [digitsOf, announcements, Text.afterHead?, Ne.symm hc.1, Ne.symm hc.2]

/-- An announcement other than a capital `X` is one in small letters as well. -/
theorem digitsOf_lower (h : t.head? ≠ some 'X') :
    digitsOf (Text.lower t) = Text.lower (digitsOf t) := by
  cases t with
  | nil => rfl
  | cons c rest =>
      by_cases hc : c ∈ ['$', '0', 'x', 'X']
      · simp only [List.mem_cons, List.not_mem_nil, or_false] at hc
        rcases hc with rfl | rfl | rfl | rfl
        · rfl
        · cases rest with
          | nil => rfl
          | cons d rest =>
              by_cases hd : d ∈ ['x', 'X']
              · simp only [List.mem_cons, List.not_mem_nil, or_false] at hd
                rcases hd with rfl | rfl <;> rfl
              · have hsmall := mt (Text.toLower_mem_iff (by decide)).mp hd
                rw [digitsOf_zero_of_notMem hd]
                exact digitsOf_zero_of_notMem hsmall
        · rfl
        · exact absurd rfl h
      · have hsmall := mt (Text.toLower_mem_iff (by decide)).mp hc
        rw [digitsOf_of_notMem hc, Text.lower_cons, digitsOf_of_notMem hsmall]

theorem word?_lower (h : t.head? ≠ some 'X') : word? (Text.lower t) = word? t := by
  rw [word?, word?, digitsOf_lower h, Text.byteLength_lower, readSigned?_lower]

/-- A capital `X` announces nothing and is no digit. -/
theorem word?_of_capital (rest : Text) : word? ('X' :: rest) = none := by
  have hread : readSigned? 16 ('X' :: rest) = none := rfl
  have hdigits : digitsOf ('X' :: rest) = 'X' :: rest := rfl
  rw [word?, hdigits, hread]
  split <;> rfl

theorem count?_lower (t : Text) : count? (Text.lower t) = count? t := by
  rw [count?, readSigned?_lower, count?]

end Argument

/-! ### Parameters -/

namespace Parameter

/-- A parameter reads words without regard to letter case, but for a capital `X` in front, with
which it accepts no word. -/
def FoldsCase (p : Parameter) : Prop :=
  ∀ word, p.read word = if word.head? = some 'X' then none else p.read (Text.lower word)

theorem foldsCase_of_read {p : Parameter} (hcapital : ∀ rest, p.read ('X' :: rest) = none)
    (hlower : ∀ word : Text, word.head? ≠ some 'X' → p.read (Text.lower word) = p.read word) :
    p.FoldsCase := by
  intro word
  split
  · next h =>
      obtain ⟨rest, rfl⟩ := List.head?_eq_some_iff.mp h
      exact hcapital rest
  · next h => exact (hlower word h).symm

theorem foldsCase_count : count.FoldsCase :=
  foldsCase_of_read (fun _ => rfl) fun word _ => by simp only [count, Argument.count?_lower]

theorem foldsCase_value : value.FoldsCase :=
  foldsCase_of_read (fun rest => by simp only [value, Argument.word?_of_capital, Option.map_none])
    fun word h => by simp only [value, Argument.word?_lower h]

theorem foldsCase_address : address.FoldsCase :=
  foldsCase_of_read
    (fun rest => by simp only [address, Argument.byte?, Argument.word?_of_capital]; rfl)
    fun word h => by simp only [address, Argument.byte?, Argument.word?_lower h]

theorem foldsCase_id : id.FoldsCase := foldsCase_address

theorem foldsCase_register : register.FoldsCase :=
  foldsCase_of_read (fun _ => rfl) fun word _ => by
    simp only [register, Register.ofName?, Text.upper_lower]

theorem foldsCase_circuit : circuit.FoldsCase :=
  foldsCase_of_read (fun _ => rfl) fun word _ => by
    simp only [circuit, Circuit.ofName?, Text.lower_lower]

/-- All parameters of all commands are read so. -/
theorem foldsCase_of_mem_signature (c : CommandName) : ∀ p ∈ c.signature, p.FoldsCase := by
  cases c with
  | cycle => simpa [CommandName.signature] using foldsCase_count
  | memory => simpa [CommandName.signature] using ⟨foldsCase_address, foldsCase_count⟩
  | set => simpa [CommandName.signature] using ⟨foldsCase_register, foldsCase_value⟩
  | poke => simpa [CommandName.signature] using ⟨foldsCase_address, foldsCase_value⟩
  | circuit => simpa [CommandName.signature] using foldsCase_circuit
  | instruction => simpa [CommandName.signature] using foldsCase_id
  | _ => simp [CommandName.signature]

variable {p : Parameter} {ps : List Parameter} {words : List Text} {word : Text} {v : Value}
  {vs : List Value}

theorem FoldsCase.read_eq_some_iff (h : p.FoldsCase) :
    p.read word = some v ↔ word.head? ≠ some 'X' ∧ p.read (Text.lower word) = some v := by
  rw [h word]
  split
  · next hcapital => simp [hcapital]
  · next hcapital => simp [hcapital]

theorem fits_iff_lower (hps : ∀ p ∈ ps, p.FoldsCase) :
    Fits ps words vs ↔
      (∀ word ∈ words, word.head? ≠ some 'X') ∧ Fits ps (words.map Text.lower) vs := by
  induction ps generalizing words vs with
  | nil =>
      rw [fits_nil_iff, fits_nil_iff, List.map_eq_nil_iff]
      constructor
      · intro h
        exact ⟨by simp [h.1], h⟩
      · exact fun h => h.2
  | cons p ps ih =>
      obtain ⟨hp, hps⟩ := List.forall_mem_cons.mp hps
      cases words with
      | nil => simp
      | cons word words =>
          -- the first parameter takes the first word, and the rest is the induction's
          rw [List.map_cons, fits_cons_cons_iff, fits_cons_cons_iff, List.forall_mem_cons]
          constructor
          · intro h
            obtain ⟨v, rest, hv, hrest, rfl⟩ := h
            obtain ⟨hfirst, hv⟩ := hp.read_eq_some_iff.mp hv
            obtain ⟨hothers, hrest⟩ := (ih hps).mp hrest
            exact ⟨⟨hfirst, hothers⟩, v, rest, hv, hrest, rfl⟩
          · intro h
            obtain ⟨⟨hfirst, hothers⟩, v, rest, hv, hrest, rfl⟩ := h
            have hread := hp.read_eq_some_iff.mpr ⟨hfirst, hv⟩
            exact ⟨v, rest, hread, (ih hps).mpr ⟨hothers, hrest⟩, rfl⟩

end Parameter

/-! ### Lines -/

namespace Command

open Parameter

variable {line s t : Text} {command : Command} {c : CommandName} {words : List Text}

/-- An argument on the line begins with a capital `X`. -/
def HasCapitalX (line : Text) : Prop := ∃ word ∈ (Text.words line).tail, word.head? = some 'X'

instance (line : Text) : Decidable (HasCapitalX line) :=
  inferInstanceAs (Decidable (∃ word ∈ (Text.words line).tail, word.head? = some 'X'))

theorem calledBy_lower_iff {word : Text} : c.CalledBy (Text.lower word) ↔ c.CalledBy word := by
  rw [CommandName.CalledBy, Text.lower_lower, CommandName.CalledBy]

/-- Making a line small makes its arguments small. -/
theorem invokes_lower_iff {small : List Text} :
    Invokes (Text.lower line) c small ↔
      ∃ words, Invokes line c words ∧ small = words.map Text.lower := by
  simp only [Invokes, Text.words_lower]
  constructor
  · intro h
    obtain ⟨first, hwords, hcalled⟩ := h
    obtain ⟨first, words, hline, rfl, rfl⟩ := List.map_eq_cons_iff.mp hwords
    exact ⟨words, ⟨first, hline, calledBy_lower_iff.mp hcalled⟩, rfl⟩
  · intro h
    obtain ⟨words, ⟨first, hline, hcalled⟩, rfl⟩ := h
    exact ⟨Text.lower first, by rw [hline, List.map_cons], calledBy_lower_iff.mpr hcalled⟩

theorem Invokes.hasCapitalX_iff (h : Invokes line c words) :
    HasCapitalX line ↔ ∃ word ∈ words, word.head? = some 'X' := by
  obtain ⟨first, hwords, -⟩ := h
  rw [HasCapitalX, hwords, List.tail_cons]

/-- A line is a command just if it is the same one in small letters, and has no argument with a
capital `X` in front. -/
theorem ofLine_eq_ok_iff_lower :
    ofLine line = .ok command ↔
      ¬HasCapitalX line ∧ ofLine (Text.lower line) = .ok command := by
  have hfits (words : List Text) : Fits command.name.signature words command.values ↔
      (∀ word ∈ words, word.head? ≠ some 'X') ∧
        Fits command.name.signature (words.map Text.lower) command.values :=
    fits_iff_lower (foldsCase_of_mem_signature command.name)
  rw [ofLine_eq_ok_iff, ofLine_eq_ok_iff]
  constructor
  · intro h
    obtain ⟨words, hinvokes, hwords⟩ := h
    obtain ⟨hfree, hsmall⟩ := (hfits words).mp hwords
    refine ⟨?_, words.map Text.lower, invokes_lower_iff.mpr ⟨words, hinvokes, rfl⟩, hsmall⟩
    rw [hinvokes.hasCapitalX_iff]
    simpa using hfree
  · intro h
    obtain ⟨hfree, small, hlower, hsmall⟩ := h
    obtain ⟨words, hinvokes, rfl⟩ := invokes_lower_iff.mp hlower
    rw [hinvokes.hasCapitalX_iff] at hfree
    exact ⟨words, hinvokes, (hfits words).mpr ⟨by simpa using hfree, hsmall⟩⟩

/-- **Commands do not depend on letter case, but for one letter.** Two lines that differ in letter
case alone are the same command, or neither is one, unless an argument begins with a capital `X`;
such a line is none, whatever the other is. -/
theorem letter_case_ignored (h : Text.lower s = Text.lower t) :
    (¬HasCapitalX s → ¬HasCapitalX t → ∀ command, ofLine s = .ok command ↔ ofLine t = .ok command) ∧
      (HasCapitalX s → ∀ command, ofLine s ≠ .ok command) := by
  constructor
  · intro hs ht command
    have hlower {line : Text} (hline : ¬HasCapitalX line) :
        ofLine line = .ok command ↔ ofLine (Text.lower line) = .ok command := by
      rw [ofLine_eq_ok_iff_lower, and_iff_right hline]
    rw [hlower hs, hlower ht, h]
  · intro hs command hok
    exact (ofLine_eq_ok_iff_lower.mp hok).1 hs

/-- The name of a command, of a register, an announcement and digits. -/
theorem letter_case_ignored_everywhere :
    let s := "Set gpA 0XbEeF".toList
    let t := "sET GPa 0xBeEf".toList
    Text.lower s = Text.lower t ∧ ofLine s = .ok (.set .gpa 0xBEEF#16) ∧
      ofLine t = .ok (.set .gpa 0xBEEF#16) := by
  intro s t
  have hs : ofLine s = .ok (.set .gpa 0xBEEF#16) := by decide
  have hsame : ∀ command, ofLine s = .ok command ↔ ofLine t = .ok command :=
    (letter_case_ignored (by decide)).1 (by decide) (by decide)
  exact ⟨by decide, hs, (hsame _).mp hs⟩

/-- A small `x` announces a number, and a capital one does not. -/
theorem capital_announcement_refused :
    let s := "poke x1F beef".toList
    let t := "poke X1f beef".toList
    Text.lower s = Text.lower t ∧ ofLine s = .ok (.poke 0x1F 0xBEEF#16) ∧
      ofLine t = .error (.invalidValue .poke "address" "X1f".toList) := by
  decide

end Command

end TeachingCpu
