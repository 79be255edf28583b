import TeachingCpu.Proofs.Assembly.Language
/-!
# TeachingCpu.Proofs.Assembly.Numerals

**Bad numbers are told apart from too large ones**, however many digits they have. Whether a text is
a numeral shows in its characters (`Operand.IsNumeral`), and every numeral has one value
(`Operand.Denotes`). A text that is no numeral is refused as such, and a numeral is refused if its
value does not fit into a byte.

Reading has no bound here, so that a value is compared with a byte after it is known. A machine that
reads into a word gives up as soon as the word runs over (`Numeral.readWord`), which is one of three
reasons for which it fails. Once it is known that all characters are digits, it is the only one
left, and means that the value is too large (`Numeral.readWord_of_digits`). So the same numbers are
read in the same way into any word that is no smaller than a byte (`Operand.numberInWord_eq`).
-/

set_option autoImplicit false

namespace TeachingCpu

namespace Numeral

/-! ### Digits -/

/-- A decimal digit of ASCII. -/
def IsDecimalDigit (c : Char) : Prop := '0' ≤ c ∧ c ≤ '9'

/-- A hexadecimal digit of ASCII, in either letter case. -/
def IsHexDigit (c : Char) : Prop := IsDecimalDigit c ∨ 'a' ≤ c ∧ c ≤ 'f' ∨ 'A' ≤ c ∧ c ≤ 'F'

variable {base limit n m : Nat} {t : Text} {c : Char}

theorem isDigit_iff : isDigit base c = true ↔ ∃ d, digitValue c = some d ∧ d < base := by
  rw [isDigit, Option.isSome_iff_exists]
  simp [digit?, Option.filter_eq_some_iff]

theorem isDigit_sixteen_iff : isDigit 16 c = true ↔ IsHexDigit c := by
  rw [isDigit_iff, IsHexDigit, IsDecimalDigit, digitValue]
  split
  · next h =>
      have hvalue : c.toNat ≤ 57 := h.2
      exact iff_of_true ⟨_, rfl, by simp; omega⟩ (.inl h)
  · next hdecimal =>
      split
      · next h =>
          have hvalue : c.toNat ≤ 102 := h.2
          exact iff_of_true ⟨_, rfl, by simp; omega⟩ (.inr (.inl h))
      · next hsmall =>
          split
          · next h =>
              have hvalue : c.toNat ≤ 70 := h.2
              exact iff_of_true ⟨_, rfl, by simp; omega⟩ (.inr (.inr h))
          · next hcapital => exact iff_of_false (by simp) (by tauto)

theorem isDigit_ten_iff : isDigit 10 c = true ↔ IsDecimalDigit c := by
  rw [isDigit_iff, IsDecimalDigit, digitValue]
  split
  · next h =>
      have hvalue : c.toNat ≤ 57 := h.2
      exact iff_of_true ⟨_, rfl, by simp; omega⟩ h
  · next hdecimal =>
      -- a letter has a value past nine
      refine iff_of_false ?_ hdecimal
      intro h
      obtain ⟨d, hd, hlt⟩ := h
      split at hd
      · cases hd
        omega
      · split at hd
        · cases hd
          omega
        · cases hd

theorem exists_writes_iff : (∃ n, Writes base t n) ↔ t ≠ [] ∧ ∀ c ∈ t, isDigit base c = true := by
  simp [← read?_eq_some_iff, read?_eq_some_iff_value]

theorem Writes.unique (h : Writes base t n) (h' : Writes base t m) : n = m :=
  Option.some.inj ((read?_eq_some_iff.mpr h).symm.trans (read?_eq_some_iff.mpr h'))

/-! ### Reading into a word -/

/-- Why no number is read into a word. -/
inductive WordFailure
  /-- There is nothing to read. -/
  | empty
  /-- A character is no digit. -/
  | invalidDigit
  /-- A number on the way does not fit. -/
  | overflow

/-- A number, if a word with so many values has it. -/
def checked (limit n : Nat) : Except WordFailure Nat :=
  if n < limit then .ok n else .error .overflow

/-- The number with one digit more on the right. -/
def shiftIn (limit base n : Nat) (c : Char) : Except WordFailure Nat :=
  match digit? base c with
  | none => .error .invalidDigit
  | some d => do checked limit ((← checked limit (n * base)) + d)

/-- The number in a text, read digit by digit into a word with so many values; a plus sign may
stand before the digits. -/
def readWord (limit base : Nat) : Text → Except WordFailure Nat
  | [] => .error .empty
  | ['+'] => .error .invalidDigit
  | '+' :: digits => digits.foldlM (shiftIn limit base) 0
  | digits => digits.foldlM (shiftIn limit base) 0

theorem checked_of_lt (h : n < limit) : checked limit n = .ok n := if_pos h

theorem checked_of_le (h : limit ≤ n) : checked limit n = .error .overflow :=
  if_neg (Nat.not_lt.mpr h)

/-- Running over before the digit is added is running over all the same. -/
theorem shiftIn_of_digit {d : Nat} (hc : digit? base c = some d) :
    shiftIn limit base n c = checked limit (n * base + d) := by
  rw [shiftIn, hc]
  by_cases hn : n * base < limit
  · simp only [checked_of_lt hn]
    rfl
  · have hn : limit ≤ n * base := Nat.not_lt.mp hn
    simp only [checked_of_le hn, checked_of_le (Nat.le_add_right_of_le hn)]
    rfl

/-- The value of digits behind a number is no less than that number. -/
theorem le_foldl_digits (hbase : 0 < base) (t : Text) (n : Nat) :
    n ≤ t.foldl (fun n c => n * base + (digit? base c).getD 0) n := by
  induction t generalizing n with
  | nil => exact Nat.le_refl n
  | cons c t ih =>
      calc n ≤ n * base := Nat.le_mul_of_pos_right n hbase
        _ ≤ n * base + (digit? base c).getD 0 := Nat.le_add_right _ _
        _ ≤ _ := ih _

theorem foldlM_shiftIn (hbase : 0 < base) (hdigits : ∀ c ∈ t, isDigit base c = true)
    (hn : n < limit) : t.foldlM (shiftIn limit base) n =
      checked limit (t.foldl (fun n c => n * base + (digit? base c).getD 0) n) := by
  induction t generalizing n with
  | nil => exact (checked_of_lt hn).symm
  | cons c t ih =>
      obtain ⟨hc, hdigits⟩ := List.forall_mem_cons.mp hdigits
      obtain ⟨d, hd⟩ := Option.isSome_iff_exists.mp hc
      rw [List.foldlM_cons, List.foldl_cons, shiftIn_of_digit hd, hd, Option.getD_some]
      by_cases hfits : n * base + d < limit
      · rw [checked_of_lt hfits]
        exact ih hdigits hfits
      · -- what has run over stays too large, whatever digits follow
        have hover : limit ≤ n * base + d := Nat.not_lt.mp hfits
        rw [checked_of_le hover, checked_of_le (Nat.le_trans hover (le_foldl_digits hbase t _))]
        rfl

/-- Digits are read into a word if their value fits, and otherwise the word runs over. -/
theorem readWord_of_digits (hbase : 0 < base) (hlimit : 0 < limit) (hne : t ≠ [])
    (hdigits : ∀ c ∈ t, isDigit base c = true) :
    readWord limit base t = checked limit (value base t) := by
  have hplus : ∀ rest, t ≠ '+' :: rest := by
    intro rest hrest
    have hdigit := hdigits '+' (hrest ▸ List.mem_cons_self)
    rw [isDigit_plus] at hdigit
    cases hdigit
  unfold readWord
  split
  · exact absurd rfl hne
  · exact absurd rfl (hplus [])
  · next rest _ => exact absurd rfl (hplus rest)
  · exact foldlM_shiftIn hbase hdigits hlimit

end Numeral

/-! ### Numbers -/

namespace Operand

open Numeral

/-- The text is a numeral: `$` and hexadecimal digits, or `^` and decimal digits, in either case
one digit or more. -/
inductive IsNumeral : Text → Prop
  | hex {digits : Text} (hne : digits ≠ []) (hdigits : ∀ c ∈ digits, IsHexDigit c) :
      IsNumeral ('$' :: digits)
  | decimal {digits : Text} (hne : digits ≠ []) (hdigits : ∀ c ∈ digits, IsDecimalDigit c) :
      IsNumeral ('^' :: digits)

/-- The numeral stands for the number, which may be of any size. -/
inductive Denotes : Text → Nat → Prop
  | hex {digits : Text} {n : Nat} (h : Writes 16 digits n) : Denotes ('$' :: digits) n
  | decimal {digits : Text} {n : Nat} (h : Writes 10 digits n) : Denotes ('^' :: digits) n

variable {base limit n m : Nat} {t digits : Text} {b : Byte}

theorem isNumeral_iff : IsNumeral t ↔ ∃ n, Denotes t n := by
  constructor
  · intro h
    cases h with
    | hex hne hdigits =>
        obtain ⟨n, hn⟩ := exists_writes_iff.mpr
          ⟨hne, fun c hc => isDigit_sixteen_iff.mpr (hdigits c hc)⟩
        exact ⟨n, .hex hn⟩
    | decimal hne hdigits =>
        obtain ⟨n, hn⟩ := exists_writes_iff.mpr
          ⟨hne, fun c hc => isDigit_ten_iff.mpr (hdigits c hc)⟩
        exact ⟨n, .decimal hn⟩
  · intro h
    obtain ⟨n, h⟩ := h
    cases h with
    | hex h =>
        obtain ⟨hne, hdigits⟩ := exists_writes_iff.mp ⟨n, h⟩
        exact .hex hne fun c hc => isDigit_sixteen_iff.mp (hdigits c hc)
    | decimal h =>
        obtain ⟨hne, hdigits⟩ := exists_writes_iff.mp ⟨n, h⟩
        exact .decimal hne fun c hc => isDigit_ten_iff.mp (hdigits c hc)

theorem Denotes.unique (h : Denotes t n) (h' : Denotes t m) : n = m := by
  cases h with
  | hex h =>
      cases h' with
      | hex h' => exact h.unique h'
  | decimal h =>
      cases h' with
      | decimal h' => exact h.unique h'

theorem denotes_toNat_iff : Denotes t b ↔ IsNumber t b := by
  constructor
  · intro h
    cases h with
    | hex h => exact .hex h
    | decimal h => exact .decimal h
  · intro h
    cases h with
    | hex h => exact .hex h
    | decimal h => exact .decimal h

/-- The byte that digits write, if they are read into a word with so many values: what is no digit
is looked for first, and then every failure is taken for a number that is too large. -/
def ofDigitsInWord (limit base : Nat) (digits : Text) : Except Defect Byte :=
  if digits.isEmpty || !digits.all (isDigit base) then .error .invalidNumber
  else match readWord limit base digits with
    | .error _ => .error .addressTooLarge
    | .ok n =>
      match Byte.ofNat? n with
      | some b => .ok b
      | none => .error .addressTooLarge

/-- The number that a text writes, read into a word with so many values. -/
def numberInWord (limit : Nat) : Text → Except Defect Byte
  | '$' :: digits => ofDigitsInWord limit 16 digits
  | '^' :: digits => ofDigitsInWord limit 10 digits
  | _ => .error .invalidNumber

theorem ofDigits_eq_invalidNumber_iff :
    ofDigits base digits = .error .invalidNumber ↔ ∀ n, ¬Writes base digits n := by
  rw [ofDigits]
  simp only [← read?_eq_some_iff]
  cases read? base digits with
  | none => simp
  | some n => cases hbyte : Byte.ofNat? n <;> simp [hbyte]

theorem ofDigits_eq_addressTooLarge_iff :
    ofDigits base digits = .error .addressTooLarge ↔ ∃ n, Writes base digits n ∧ 256 ≤ n := by
  rw [ofDigits]
  simp only [← read?_eq_some_iff, ← Byte.ofNat?_eq_none_iff]
  cases read? base digits with
  | none => simp
  | some n => cases hbyte : Byte.ofNat? n <;> simp [hbyte]

/-- After the check of the digits, a word that is no smaller than a byte runs over only with a
number that is no byte. -/
theorem ofDigitsInWord_eq (hbase : 0 < base) (hlimit : 256 ≤ limit) (digits : Text) :
    ofDigitsInWord limit base digits = ofDigits base digits := by
  rw [ofDigitsInWord, ofDigits, read?]
  split
  · rfl
  · next hcheck =>
      simp only [Bool.or_eq_true, List.isEmpty_iff, Bool.not_eq_true', not_or,
        Bool.not_eq_false, List.all_eq_true] at hcheck
      rw [readWord_of_digits hbase (by omega) hcheck.1 hcheck.2]
      by_cases hfits : value base digits < limit
      · cases hbyte : Byte.ofNat? (value base digits) <;> simp only [checked_of_lt hfits, hbyte]
      · have hbyte : Byte.ofNat? (value base digits) = none :=
          Byte.ofNat?_eq_none_iff.mpr (by omega)
        simp only [checked_of_le (Nat.not_lt.mp hfits), hbyte]

/-- A text with a sigil stands for the number of the digits behind it, and one without for none. -/
theorem number_cases (t : Text) :
    (∃ base digits, 0 < base ∧ (∀ n, Denotes t n ↔ Writes base digits n) ∧
      number t = ofDigits base digits ∧
      ∀ limit, numberInWord limit t = ofDigitsInWord limit base digits) ∨
    (∀ n, ¬Denotes t n) ∧ number t = .error .invalidNumber ∧
      ∀ limit, numberInWord limit t = .error .invalidNumber := by
  unfold number
  split
  · next digits =>
      refine .inl ⟨16, digits, by decide, fun n => ⟨fun h => ?_, .hex⟩, rfl, fun _ => rfl⟩
      cases h with
      | hex h => exact h
  · next digits =>
      refine .inl ⟨10, digits, by decide, fun n => ⟨fun h => ?_, .decimal⟩, rfl, fun _ => rfl⟩
      cases h with
      | decimal h => exact h
  · -- neither sigil: the two readers refuse the text before they look at digits
    next hhex hdecimal =>
      refine .inr ⟨fun n h => ?_, rfl, fun limit => ?_⟩
      · cases h with
        | hex _ => exact hhex _ rfl
        | decimal _ => exact hdecimal _ rfl
      · unfold numberInWord
        split
        · exact absurd rfl (hhex _)
        · exact absurd rfl (hdecimal _)
        · rfl

theorem number_eq_invalidNumber_iff : number t = .error .invalidNumber ↔ ¬IsNumeral t := by
  rw [isNumeral_iff, not_exists]
  rcases number_cases t with ⟨base, digits, -, hdenotes, hnumber, -⟩ | ⟨hdenotes, hnumber, -⟩
  · simp only [hnumber, hdenotes, ofDigits_eq_invalidNumber_iff]
  · simp [hnumber, hdenotes]

theorem number_eq_addressTooLarge_iff :
    number t = .error .addressTooLarge ↔ ∃ n, Denotes t n ∧ 256 ≤ n := by
  rcases number_cases t with ⟨base, digits, -, hdenotes, hnumber, -⟩ | ⟨hdenotes, hnumber, -⟩
  · simp only [hnumber, hdenotes, ofDigits_eq_addressTooLarge_iff]
  · simp [hnumber, hdenotes]

theorem numberInWord_eq (hlimit : 256 ≤ limit) (t : Text) : numberInWord limit t = number t := by
  rcases number_cases t with ⟨base, digits, hbase, -, hnumber, hword⟩ | ⟨-, hnumber, hword⟩
  · rw [hnumber, hword, ofDigitsInWord_eq hbase hlimit]
  · rw [hnumber, hword]

/-! ### Addresses in place of labels -/

theorem isNumber_hex (a : Byte) : IsNumber ('$' :: a.hex) a := by
  have hlt : (a : Nat) < 16 ^ 2 := a.isLt
  have hwrites := writes_fixed 1 a
  rw [Nat.mod_eq_of_lt hlt] at hwrites
  exact .hex hwrites

theorem mem_capitals_of_mem_hex {a : Byte} {c : Char} (hc : c ∈ a.hex) :
    c ∈ "0123456789ABCDEF".toList := by
  have hcapital : ∀ d < 16, capitalDigit d ∈ "0123456789ABCDEF".toList := by decide
  obtain ⟨d, hd, rfl⟩ := exists_digit_of_mem_fixed (by decide) hc
  exact hcapital d hd

/-- **Bad numbers are told apart from too large ones.** A text is refused as invalid exactly if it
is no numeral, and as too large exactly if it is one of 256 or more. Every other numeral, and a
numeral has one value, is read as its value. That is so if the digits are read into a word of 32
bits as well. The text that an address is written with in place of its label, which is two capital
digits, is read as that address. -/
theorem numbers_told_apart (t : Text) :
    (number t = .error .invalidNumber ↔ ¬IsNumeral t) ∧
    (number t = .error .addressTooLarge ↔ ∃ n, Denotes t n ∧ 256 ≤ n) ∧
    (∀ b : Byte, number t = .ok b ↔ Denotes t b) ∧
    (IsNumeral t ↔ ∃! n, Denotes t n) ∧
    numberInWord (2 ^ 32) t = number t ∧
    ∀ a : Byte, immediateText a = '#' :: '$' :: a.hex ∧ a.hex.length = 2 ∧
      (∀ c ∈ a.hex, c ∈ "0123456789ABCDEF".toList) ∧
      ofText (immediateText a) = .ok (.immediate a) := by
  refine ⟨number_eq_invalidNumber_iff, number_eq_addressTooLarge_iff, fun b => ?_, ?_,
    numberInWord_eq (by decide) t, fun a => ⟨rfl, fixed_length _ _ _ _, ?_, ?_⟩⟩
  · rw [number_eq_ok_iff, denotes_toNat_iff]
  · rw [isNumeral_iff]
    constructor
    · intro h
      obtain ⟨n, hn⟩ := h
      exact ⟨n, hn, fun m hm => hm.unique hn⟩
    · exact ExistsUnique.exists
  · exact fun c hc => mem_capitals_of_mem_hex hc
  · exact ofText_eq_ok_iff.mpr ⟨_, rfl, isNumber_hex a⟩

/-- Leading zeros past every word, and a number past every word. -/
example : number "$00000000000000000000fF".toList = .ok 255 ∧
    number "^99999999999999999999".toList = .error .addressTooLarge := by decide

end Operand

end TeachingCpu
