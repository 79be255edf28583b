import TeachingCpu.Console.Command
import TeachingCpu.Proofs.Machine.Word
import TeachingCpu.Proofs.Text.Numeral
/-!
# TeachingCpu.Proofs.Console.Numerals

**Which numerals the arguments of commands may be.** A word or a byte is one to four hexadecimal
digits (`Argument.Hexadecimal`), a count is decimal digits. An announcement may stand before
hexadecimal digits. Two announcements never fit one text, since each of them has a character that
is no digit (`Argument.digitsOf_append`).

There is one form more than these. A plus sign may stand right before the digits, and is one of
the four characters of a hexadecimal number (`Argument.PlusHexadecimal`). Other than that no
character that is not a digit is accepted.
-/

set_option autoImplicit false

namespace TeachingCpu

namespace Argument

open Numeral

/-- What may stand before hexadecimal digits: an announcement, or nothing. -/
def leads : List Text := ["", "$", "0x", "0X", "x"].map String.toList

/-- A text is a number in hexadecimal: one to four digits after a lead. -/
def Hexadecimal (t : Text) (n : Nat) : Prop :=
  ∃ lead ∈ leads, ∃ digits, t = lead ++ digits ∧ digits.length ≤ 4 ∧ Writes 16 digits n

/-- A text is a number in hexadecimal with a plus sign: one to three digits after that, and after
a lead. -/
def PlusHexadecimal (t : Text) (n : Nat) : Prop :=
  ∃ lead ∈ leads, ∃ digits, t = lead ++ '+' :: digits ∧ digits.length ≤ 3 ∧ Writes 16 digits n

/-- A text is a number in decimal with a plus sign. -/
def PlusDecimal (t : Text) (n : Nat) : Prop := ∃ digits, t = '+' :: digits ∧ Writes 10 digits n

variable {t lead rest : Text} {n : Nat} {w : Word} {b : Byte}

/-! ### Announcements -/

/-- A digit in hexadecimal, or a plus sign. -/
def IsPlain (c : Char) : Prop := isDigit 16 c = true ∨ c = '+'

theorem leads_eq : leads = [] :: announcements.map String.toList := rfl

theorem exists_lead (t : Text) : ∃ lead ∈ leads, t = lead ++ digitsOf t := by
  rw [leads_eq]
  unfold digitsOf
  cases hfind : announcements.findSome? fun a => Text.afterHead? a.toList t with
  | none => exact ⟨[], List.mem_cons_self, rfl⟩
  | some rest =>
      obtain ⟨a, ha, hafter⟩ := List.exists_of_findSome?_eq_some hfind
      exact ⟨a.toList, List.mem_cons_of_mem _ (List.mem_map_of_mem ha),
        Text.afterHead?_eq_some_iff.mp hafter⟩

/-- Each announcement has a character that is no digit, so digits announce nothing. -/
theorem digitsOf_of_plain (hrest : ∀ c ∈ rest, IsPlain c) : digitsOf rest = rest := by
  have hforeign : ∀ a ∈ announcements,
      a.toList.any (fun c => !isDigit 16 c && c != '+') = true := by decide
  have hnone : (announcements.findSome? fun a => Text.afterHead? a.toList rest) = none := by
    rw [List.findSome?_eq_none_iff]
    intro a ha
    obtain ⟨c, hc, hclear⟩ := List.any_eq_true.mp (hforeign a ha)
    cases hafter : Text.afterHead? a.toList rest with
    | none => rfl
    | some behind =>
        rw [Text.afterHead?_eq_some_iff.mp hafter] at hrest
        obtain h | h := hrest c (List.mem_append_left _ hc)
        · simp [h] at hclear
        · simp [h] at hclear
  rw [digitsOf, hnone, Option.getD_none]

/-- The lead is what is taken off: no announcement begins with an earlier one. -/
theorem digitsOf_append (hlead : lead ∈ leads) (hrest : ∀ c ∈ rest, IsPlain c) :
    digitsOf (lead ++ rest) = rest := by
  rw [leads_eq] at hlead
  rcases List.mem_cons.mp hlead with rfl | hlead
  · exact digitsOf_of_plain hrest
  · obtain ⟨a, ha, rfl⟩ := List.mem_map.mp hlead
    simp only [announcements, List.mem_cons, List.not_mem_nil, or_false] at ha
    rcases ha with rfl | rfl | rfl | rfl <;> rfl

theorem byteLength_plus_cons (t : Text) :
    Text.byteLength ('+' :: t) = Text.byteLength t + 1 := by
  rw [Text.byteLength_cons, Nat.add_comm]
  rfl

theorem plus_notMem_of_mem_leads : ∀ lead ∈ leads, '+' ∉ lead := by decide

/-! ### Numbers -/

theorem Hexadecimal.plus_notMem (h : Hexadecimal t n) : '+' ∉ t := by
  obtain ⟨lead, hlead, digits, rfl, -, hdigits⟩ := h
  intro hplus
  rcases List.mem_append.mp hplus with h | h
  · exact plus_notMem_of_mem_leads lead hlead h
  · have hdigit := hdigits.isDigit '+' h
    rw [isDigit_plus] at hdigit
    cases hdigit

theorem PlusHexadecimal.plus_mem (h : PlusHexadecimal t n) : '+' ∈ t := by
  obtain ⟨lead, -, digits, rfl, -, -⟩ := h
  exact List.mem_append_right _ List.mem_cons_self

theorem PlusDecimal.plus_mem (h : PlusDecimal t n) : '+' ∈ t := by
  obtain ⟨digits, rfl, -⟩ := h
  exact List.mem_cons_self

/-- Up to four digits fit into a word, with or without a plus sign. -/
theorem lt_of_readSigned? (hbytes : Text.byteLength t ≤ 4) (hread : readSigned? 16 t = some n) :
    n < 2 ^ 16 := by
  have hlt {digits : Text} (hdigits : Writes 16 digits n) (hlength : digits.length ≤ 4) :
      n < 2 ^ 16 :=
    Nat.lt_of_lt_of_le hdigits.lt_pow (Nat.pow_le_pow_right (by decide) hlength)
  rcases readSigned?_eq_some_iff.mp hread with hdigits | ⟨digits, rfl, hdigits⟩
  · exact hlt hdigits (hdigits.byteLength_eq ▸ hbytes)
  · rw [Text.byteLength_cons, hdigits.byteLength_eq] at hbytes
    exact hlt hdigits (Nat.le_trans (Nat.le_add_left _ _) hbytes)

theorem word?_eq_some_iff_readSigned? :
    word? t = some w ↔
      Text.byteLength (digitsOf t) ≤ 4 ∧ readSigned? 16 (digitsOf t) = some w.toNat := by
  unfold word?
  dsimp only
  split
  · next hbytes =>
      rw [Option.map_eq_some_iff]
      constructor
      · rintro ⟨n, hread, rfl⟩
        rw [BitVec.toNat_ofNat, Nat.mod_eq_of_lt (lt_of_readSigned? hbytes hread)]
        exact ⟨hbytes, hread⟩
      · rintro ⟨-, hread⟩
        exact ⟨w.toNat, hread, BitVec.ofNat_toNat 16 w⟩
  · next hbytes => simp [hbytes]

/-- **A word is read from the digits after a lead, which may have a plus sign.** -/
theorem word?_eq_some_iff :
    word? t = some w ↔ Hexadecimal t w.toNat ∨ PlusHexadecimal t w.toNat := by
  rw [word?_eq_some_iff_readSigned?, readSigned?_eq_some_iff]
  obtain ⟨lead, hlead, ht⟩ := exists_lead t
  constructor
  · rintro ⟨hbytes, hdigits | ⟨digits, hplus, hdigits⟩⟩
    · rw [hdigits.byteLength_eq] at hbytes
      exact .inl ⟨lead, hlead, digitsOf t, ht, hbytes, hdigits⟩
    · rw [hplus, byteLength_plus_cons, hdigits.byteLength_eq] at hbytes
      rw [hplus] at ht
      exact .inr ⟨lead, hlead, digits, ht, Nat.le_of_succ_le_succ hbytes, hdigits⟩
  · have hplain {digits : Text} (hdigits : Writes 16 digits w.toNat) :
        ∀ c ∈ digits, IsPlain c := fun c hc => .inl (hdigits.isDigit c hc)
    rintro (⟨lead, hlead, digits, rfl, hlength, hdigits⟩ |
      ⟨lead, hlead, digits, rfl, hlength, hdigits⟩)
    · rw [digitsOf_append hlead (hplain hdigits), hdigits.byteLength_eq]
      exact ⟨hlength, .inl hdigits⟩
    · rw [digitsOf_append hlead (List.forall_mem_cons.mpr ⟨.inr rfl, hplain hdigits⟩),
        byteLength_plus_cons, hdigits.byteLength_eq]
      exact ⟨Nat.succ_le_succ hlength, .inr ⟨digits, rfl, hdigits⟩⟩

/-- **A byte is read as a word is, if it is one.** -/
theorem byte?_eq_some_iff : byte? t = some b ↔ Hexadecimal t b ∨ PlusHexadecimal t b := by
  simp only [byte?, Option.bind_eq_some_iff, Word.address?_eq_some_iff, word?_eq_some_iff]
  constructor
  · rintro ⟨w, hread, hw⟩
    rwa [hw] at hread
  · intro hread
    exact ⟨Word.ofByte b, by rwa [Word.toNat_ofByte], Word.toNat_ofByte b⟩

/-- **A count is read from decimal digits, which may have a plus sign.** -/
theorem count?_eq_some_iff :
    count? t = some n ↔ (Writes 10 t n ∨ PlusDecimal t n) ∧ 1 ≤ n ∧ n ≤ 65535 := by
  rw [count?, Option.filter_eq_some_iff, readSigned?_eq_some_iff, decide_eq_true_iff,
    Nat.lt_succ_iff]
  exact Iff.rfl

/-- **Arguments are the numerals that they are documented to be, and those with a plus sign.** A
text without a plus sign is accepted exactly if it is a numeral as documented, with the value of
its digits. -/
theorem numerals_as_documented (t : Text) :
    (∀ w, word? t = some w ↔ Hexadecimal t w.toNat ∨ PlusHexadecimal t w.toNat) ∧
    (∀ b : Byte, byte? t = some b ↔ Hexadecimal t b ∨ PlusHexadecimal t b) ∧
    (∀ n, count? t = some n ↔ (Writes 10 t n ∨ PlusDecimal t n) ∧ 1 ≤ n ∧ n ≤ 65535) ∧
    ('+' ∉ t →
      (∀ w, word? t = some w ↔ Hexadecimal t w.toNat) ∧
      (∀ b : Byte, byte? t = some b ↔ Hexadecimal t b) ∧
      ∀ n, count? t = some n ↔ Writes 10 t n ∧ 1 ≤ n ∧ n ≤ 65535) := by
  refine ⟨fun w => word?_eq_some_iff, fun b => byte?_eq_some_iff, fun n => count?_eq_some_iff,
    fun hplus => ?_⟩
  have hhex (n : Nat) : ¬PlusHexadecimal t n := fun h => hplus h.plus_mem
  have hdecimal (n : Nat) : ¬PlusDecimal t n := fun h => hplus h.plus_mem
  refine ⟨fun w => ?_, fun b => ?_, fun n => ?_⟩
  · rw [word?_eq_some_iff, or_iff_left (hhex _)]
  · rw [byte?_eq_some_iff, or_iff_left (hhex _)]
  · rw [count?_eq_some_iff, or_iff_left (hdecimal _)]

/-- Digits of both cases after an announcement, one digit too many for a byte and for a word, and a
count with leading zeros. -/
theorem numerals_as_documented_at_bounds :
    Hexadecimal "0XfF".toList 255 ∧ (∀ b : Byte, ¬Hexadecimal "$100".toList b) ∧
      (∀ w : Word, ¬Hexadecimal "x00001".toList w.toNat) ∧ Writes 10 "0065535".toList 65535 := by
  have hread (t : Text) (hplus : '+' ∉ t) := (numerals_as_documented t).2.2.2 hplus
  refine ⟨?_, fun b h => ?_, fun w h => ?_, ?_⟩
  · exact ((hread "0XfF".toList (by decide)).2.1 255).mp (by decide)
  · have hbyte := ((hread "$100".toList (by decide)).2.1 b).mpr h
    have hnone : byte? "$100".toList = none := by decide
    rw [hnone] at hbyte
    cases hbyte
  · have hword := ((hread "x00001".toList (by decide)).1 w).mpr h
    have hnone : word? "x00001".toList = none := by decide
    rw [hnone] at hword
    cases hword
  · exact (((hread "0065535".toList (by decide)).2.2 65535).mp (by decide)).1

/-- A plus sign is accepted in a byte, a word and a count, and in the commands that take them. -/
theorem plus_sign_accepted :
    (byte? "+1".toList = some 1 ∧ ∀ n, ¬Hexadecimal "+1".toList n) ∧
    (word? "$+fff".toList = some 0x0FFF#16 ∧ ∀ n, ¬Hexadecimal "$+fff".toList n) ∧
    (count? "+5".toList = some 5 ∧ ∀ n, ¬Writes 10 "+5".toList n) ∧
    Command.ofLine "poke +1 $+fff".toList = .ok (.poke 1 0x0FFF#16) ∧
    Command.ofLine "cycle +5".toList = .ok (.cycle 5) := by
  refine ⟨⟨by decide, fun n h => h.plus_notMem (by decide)⟩,
    ⟨by decide, fun n h => h.plus_notMem (by decide)⟩, ⟨by decide, fun n h => ?_⟩,
    by decide, by decide⟩
  have hdigit := h.isDigit '+' (by decide)
  rw [isDigit_plus] at hdigit
  cases hdigit

end Argument

end TeachingCpu
