import Mathlib.Algebra.Ring.Nat
import Mathlib.Data.List.Induction
import TeachingCpu.Text.Numeral
/-!
# TeachingCpu.Proofs.Text.Numeral

**What numerals mean**, apart from how they are read.

The digits are listed in the order of their values (`Numeral.DigitOf`). `Numeral.Writes base t n` is
the positional rule: a digit stands for its value, and a digit after a numeral adds its value to the
base times that numeral. The reader accepts exactly these texts (`Numeral.read?_eq_some_iff`), of
any length and with any number of leading zeros. The printer of a fixed number of digits keeps to
the rule as well (`Numeral.writes_fixed`).
-/

set_option autoImplicit false

namespace TeachingCpu

theorem Text.byteLength_eq_length {t : Text} (h : ∀ c ∈ t, c.utf8Size = 1) :
    byteLength t = t.length := by
  induction t with
  | nil => rfl
  | cons c t ih =>
      rw [List.forall_mem_cons] at h
      rw [byteLength_cons, h.1, ih h.2, List.length_cons, Nat.add_comm]

namespace Numeral

/-- The character is the digit of value `d` in base `base`. Letters are digits in either case. -/
def DigitOf (base : Nat) (c : Char) (d : Nat) : Prop :=
  d < base ∧ ("0123456789abcdef".toList[d]? = some c ∨ "0123456789ABCDEF".toList[d]? = some c)

/-- The text is one or more digits in base `base`, and they stand for the number. -/
inductive Writes (base : Nat) : Text → Nat → Prop
  /-- A digit stands for its value. -/
  | digit {c : Char} {d : Nat} (hc : DigitOf base c d) : Writes base [c] d
  /-- A further digit on the right. -/
  | snoc {t : Text} {c : Char} {n d : Nat} (ht : Writes base t n) (hc : DigitOf base c d) :
      Writes base (t ++ [c]) (n * base + d)

variable {base : Nat}

/-! ### Digits -/

theorem le_of_digitValue {c : Char} {d : Nat} (h : digitValue c = some d) : c ≤ 'f' := by
  unfold digitValue at h
  split at h
  · next hrange => exact Char.le_trans hrange.2 (by decide)
  · split at h
    · next hrange => exact hrange.2
    · split at h
      · next hrange => exact Char.le_trans hrange.2 (by decide)
      · cases h

/-- Digits have the values that their order says. -/
theorem digit?_eq_some_iff {c : Char} {d : Nat} : digit? base c = some d ↔ DigitOf base c d := by
  have hlisted : ∀ n < 128, ∀ d ∈ digitValue (Char.ofNat n),
      "0123456789abcdef".toList[d]? = some (Char.ofNat n) ∨
        "0123456789ABCDEF".toList[d]? = some (Char.ofNat n) := by decide
  have hvalued : ∀ d < 16, "0123456789abcdef".toList[d]?.bind digitValue = some d ∧
      "0123456789ABCDEF".toList[d]?.bind digitValue = some d := by decide
  rw [digit?, Option.filter_eq_some_iff, decide_eq_true_iff, and_comm, DigitOf]
  refine and_congr_right fun _ => ⟨fun h => ?_, fun h => ?_⟩
  · have hascii : c.toNat ≤ 102 := le_of_digitValue h
    have hc := hlisted c.toNat (by omega)
    rw [Char.ofNat_toNat] at hc
    exact hc d h
  · rcases h with h | h
    · simpa only [h, Option.bind_some] using (hvalued d (List.getElem?_eq_some_iff.mp h).1).1
    · simpa only [h, Option.bind_some] using (hvalued d (List.getElem?_eq_some_iff.mp h).1).2

/-! ### Numerals as they are read -/

@[simp] theorem value_nil : value base [] = 0 := rfl

@[simp] theorem value_append_singleton (t : Text) (c : Char) :
    value base (t ++ [c]) = value base t * base + (digit? base c).getD 0 := by
  simp [value]

theorem read?_eq_some_iff_value {t : Text} {n : Nat} :
    read? base t = some n ↔ t ≠ [] ∧ (∀ c ∈ t, isDigit base c = true) ∧ value base t = n := by
  unfold read?
  split
  · next h =>
      simp only [Bool.or_eq_true, List.isEmpty_iff, Bool.not_eq_true', List.all_eq_false] at h
      simp only [reduceCtorEq, false_iff]
      intro hread
      obtain ⟨hne, hdigits, -⟩ := hread
      rcases h with h | ⟨c, hc, hnot⟩
      · exact hne h
      · exact hnot (hdigits c hc)
  · next h =>
      simp only [Bool.or_eq_true, List.isEmpty_iff, Bool.not_eq_true', not_or,
        Bool.not_eq_false, List.all_eq_true] at h
      simp only [Option.some.injEq]
      exact ⟨fun hn => ⟨h.1, h.2, hn⟩, fun hn => hn.2.2⟩

/-- **Numerals are read as written.** -/
theorem read?_eq_some_iff {t : Text} {n : Nat} : read? base t = some n ↔ Writes base t n := by
  rw [read?_eq_some_iff_value]
  constructor
  · intro h
    obtain ⟨hne, hdigits, rfl⟩ := h
    -- from the right, as the value of a text is built up
    induction t using List.reverseRecOn with
    | nil => exact absurd rfl hne
    | append_singleton t c ih =>
        obtain ⟨d, hd⟩ := Option.isSome_iff_exists.mp (hdigits c (by simp))
        rw [value_append_singleton, hd, Option.getD_some]
        cases t with
        | nil => simpa using Writes.digit (digit?_eq_some_iff.mp hd)
        | cons b t =>
            exact .snoc (ih (by simp) fun a ha => hdigits a (List.mem_append_left _ ha))
              (digit?_eq_some_iff.mp hd)
  · intro h
    induction h with
    | digit hc => simp [isDigit, value, digit?_eq_some_iff.mpr hc]
    | snoc ht hc ih =>
        obtain ⟨hne, hdigits, rfl⟩ := ih
        have hc := digit?_eq_some_iff.mpr hc
        refine ⟨by simp, fun a ha => ?_, by simp [hc]⟩
        rcases List.mem_append.mp ha with h | h
        · exact hdigits a h
        · rw [List.mem_singleton.mp h, isDigit, hc, Option.isSome_some]

theorem Writes.isDigit {t : Text} {n : Nat} (h : Writes base t n) :
    ∀ c ∈ t, isDigit base c = true := (read?_eq_some_iff_value.mp (read?_eq_some_iff.mpr h)).2.1

theorem isDigit_plus (base : Nat) : isDigit base '+' = false := rfl

/-- A digit is a character of one byte. -/
theorem utf8Size_of_isDigit {c : Char} (h : isDigit base c = true) : c.utf8Size = 1 := by
  obtain ⟨d, hd⟩ := Option.isSome_iff_exists.mp h
  have hascii : c ≤ 'f' := le_of_digitValue (Option.filter_eq_some_iff.mp hd).1
  exact Char.utf8Size_eq_one_iff.mpr (UInt32.le_trans hascii (by decide))

theorem Writes.byteLength_eq {t : Text} {n : Nat} (h : Writes base t n) :
    Text.byteLength t = t.length :=
  Text.byteLength_eq_length fun c hc => utf8Size_of_isDigit (h.isDigit c hc)

/-- A sign in front of a numeral is passed over, if it is a plus sign. -/
theorem readSigned?_eq_some_iff {t : Text} {n : Nat} :
    readSigned? base t = some n ↔
      Writes base t n ∨ ∃ digits, t = '+' :: digits ∧ Writes base digits n := by
  have hplus (digits : Text) : ¬Writes base ('+' :: digits) n := fun h => by
    simpa [isDigit_plus] using h.isDigit '+' List.mem_cons_self
  unfold readSigned?
  split
  · next digits => simp [hplus, read?_eq_some_iff]
  · next hnone =>
      rw [read?_eq_some_iff]
      refine (or_iff_left ?_).symm
      rintro ⟨digits, rfl, -⟩
      exact hnone digits rfl

/-- So many digits write no number past so many powers of the base. -/
theorem Writes.lt_pow {t : Text} {n : Nat} (h : Writes base t n) : n < base ^ t.length := by
  induction h with
  | digit hc => simpa using hc.1
  | @snoc t c n d ht hc ih =>
      have hd := hc.1
      calc n * base + d < n * base + base := Nat.add_lt_add_left hd _
        _ = (n + 1) * base := (Nat.succ_mul n base).symm
        _ ≤ base ^ t.length * base := Nat.mul_le_mul_right base ih
        _ = base ^ (t ++ [c]).length := by
          rw [List.length_append, List.length_singleton, Nat.pow_succ]

/-! ### Digits as they are written -/

theorem digitOf_capitalDigit {d : Nat} (h : d < 16) : DigitOf 16 (capitalDigit d) d := by
  have hvalue : ∀ d < 16, digit? 16 (capitalDigit d) = some d := by decide
  exact digit?_eq_some_iff.mp (hvalue d h)

theorem fixed_length (digit : Nat → Char) (base width n : Nat) :
    (fixed digit base width n).length = width := by
  induction width generalizing n with
  | zero => rfl
  | succ width ih => rw [fixed, List.length_append, ih, List.length_singleton]

theorem exists_digit_of_mem_fixed {digit : Nat → Char} {width n : Nat} {c : Char}
    (hbase : 0 < base) (h : c ∈ fixed digit base width n) : ∃ d < base, digit d = c := by
  induction width generalizing n with
  | zero => cases h
  | succ width ih =>
      rcases List.mem_append.mp h with h | h
      · exact ih h
      · exact ⟨n % base, Nat.mod_lt n hbase, (List.mem_singleton.mp h).symm⟩

/-- A fixed number of digits writes what is left of the number in so many places. -/
theorem writes_fixed (width n : Nat) :
    Writes 16 (fixed capitalDigit 16 (width + 1) n) (n % 16 ^ (width + 1)) := by
  have hlast (n : Nat) : DigitOf 16 (capitalDigit (n % 16)) (n % 16) :=
    digitOf_capitalDigit (Nat.mod_lt n (by decide))
  induction width generalizing n with
  | zero => exact .digit (hlast n)
  | succ width ih =>
      have hsplit : n % 16 ^ (width + 2) = n / 16 % 16 ^ (width + 1) * 16 + n % 16 := by
        rw [Nat.pow_succ' (n := width + 1), Nat.mod_mul, Nat.mul_comm, Nat.add_comm]
      rw [hsplit]
      exact .snoc (ih (n / 16)) (hlast n)

end Numeral

end TeachingCpu
