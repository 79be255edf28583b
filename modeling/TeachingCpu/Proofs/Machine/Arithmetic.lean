import Mathlib.Data.Int.ModEq
import TeachingCpu.Machine.Alu
/-!
# TeachingCpu.Proofs.Machine.Arithmetic

**Arithmetic is exact.** A circuit is one operation on exact numbers (`Circuit.exact`), read off the
two readings of its inputs. Its word is what is left of the exact result in 16 bits, whichever the
reading, and its carry and overflow say whether the result left the range of the reading
(`Circuit.compute_eq`).

The machine computes in 32 bits and cuts off the upper half. That is exact because the same
operation in 32 bits loses nothing (`Circuit.toInt_onBits_signExtend`,
`Circuit.toNat_onBits_setWidth`): the carry and the overflow of the 32 bits are those of the exact
numbers.
-/

set_option autoImplicit false

namespace TeachingCpu

namespace Circuit

variable {c : Circuit} {n : Nat}

/-! ### One operation, two readings -/

/-- The exact result of an operation on numbers; a quotient is rounded toward zero. -/
def exact : Circuit → Int → Int → Int
  | .add, a, b => a + b
  | .sub, a, b => a - b
  | .mul, a, b => a * b
  | .div, a, b => a.tdiv b

/-- The operation on numbers of `n` bits, of whose result `n` bits are kept. A quotient is one of
signed numbers. -/
def onBits : Circuit → BitVec n → BitVec n → BitVec n
  | .add, a, b => a + b
  | .sub, a, b => a - b
  | .mul, a, b => a * b
  | .div, a, b => a.sdiv b

theorem toInt_onBits (c : Circuit) (a b : BitVec n) :
    (c.onBits a b).toInt = (c.exact a.toInt b.toInt).bmod (2 ^ n) := by
  cases c with
  | add => exact BitVec.toInt_add a b
  | sub => exact BitVec.toInt_sub
  | mul => exact BitVec.toInt_mul a b
  | div => exact BitVec.toInt_sdiv a b

theorem onBits_eq_ofInt (c : Circuit) (a b : BitVec n) :
    c.onBits a b = BitVec.ofInt n (c.exact a.toInt b.toInt) := by
  apply BitVec.toInt_inj.mp
  rw [toInt_onBits, BitVec.toInt_ofInt]

/-- A number of `n` bits stands for itself, read without a sign. -/
theorem ofInt_toNat (a : BitVec n) : BitVec.ofInt n a.toNat = a := by
  rw [BitVec.ofInt_natCast, BitVec.ofNat_toNat, BitVec.setWidth_eq]

/-- Sums, differences and products do not depend on the reading. -/
theorem onBits_eq_ofInt_toNat (hc : c ≠ .div) (a b : BitVec n) :
    c.onBits a b = BitVec.ofInt n (c.exact a.toNat b.toNat) := by
  cases c with
  | add => rw [exact, BitVec.ofInt_add, ofInt_toNat, ofInt_toNat, onBits]
  | sub =>
      rw [exact, Int.sub_eq_add_neg, BitVec.ofInt_add, BitVec.ofInt_neg, ofInt_toNat, ofInt_toNat,
        ← BitVec.sub_eq_add_neg, onBits]
  | mul => rw [exact, BitVec.ofInt_mul, ofInt_toNat, ofInt_toNat, onBits]
  | div => exact absurd rfl hc

/-! ### Room in 32 bits -/

/-- The exact result on words has room in 32 bits, sign included. -/
theorem exact_toInt_bounds (c : Circuit) (x y : Word) :
    -2 ^ 31 ≤ c.exact x.toInt y.toInt ∧ c.exact x.toInt y.toInt < 2 ^ 31 := by
  have hx := x.le_toInt
  have hx' := x.toInt_lt
  have hy := y.le_toInt
  have hy' := y.toInt_lt
  cases c with
  | add =>
      rw [exact]
      omega
  | sub =>
      rw [exact]
      omega
  | mul =>
      have hproduct : x.toInt.natAbs * y.toInt.natAbs ≤ 2 ^ 15 * 2 ^ 15 :=
        Nat.mul_le_mul (by omega) (by omega)
      rw [← Int.natAbs_mul] at hproduct
      rw [exact]
      omega
  | div =>
      have hquotient := Int.natAbs_tdiv_le_natAbs x.toInt y.toInt
      rw [exact]
      omega

/-- In 32 bits no signed result overflows. -/
theorem toInt_onBits_signExtend (c : Circuit) (x y : Word) :
    (c.onBits (x.signExtend 32) (y.signExtend 32)).toInt = c.exact x.toInt y.toInt := by
  obtain ⟨hlower, hupper⟩ := exact_toInt_bounds c x y
  rw [toInt_onBits, BitVec.toInt_signExtend_of_le (by decide),
    BitVec.toInt_signExtend_of_le (by decide)]
  exact Int.bmod_eq_of_le (by omega) (by omega)

/-- In 32 bits no unsigned sum or product overflows. -/
theorem toNat_onBits_setWidth (hc : c = .add ∨ c = .mul) (x y : Word) :
    ((c.onBits (x.setWidth 32) (y.setWidth 32)).toNat : Int) = c.exact x.toNat y.toNat := by
  have hx := x.isLt
  have hy := y.isLt
  rcases hc with rfl | rfl
  · rw [onBits, exact, BitVec.toNat_add, BitVec.toNat_setWidth, BitVec.toNat_setWidth]
    omega
  · have hproduct : x.toNat * y.toNat ≤ (2 ^ 16 - 1) * (2 ^ 16 - 1) :=
      Nat.mul_le_mul (by omega) (by omega)
    rw [onBits, exact, BitVec.toNat_mul, BitVec.toNat_setWidth, BitVec.toNat_setWidth,
      Nat.mod_eq_of_lt (by omega : x.toNat < 2 ^ 32),
      Nat.mod_eq_of_lt (by omega : y.toNat < 2 ^ 32), Nat.mod_eq_of_lt (by omega), Int.natCast_mul]

/-- Half of the 32 bits are the 16 bits. -/
theorem setWidth_onBits_signExtend (c : Circuit) (x y : Word) :
    (c.onBits (x.signExtend 32) (y.signExtend 32)).setWidth 16 = c.onBits x y := by
  rw [onBits_eq_ofInt, onBits_eq_ofInt, BitVec.toInt_signExtend_of_le (by decide),
    BitVec.toInt_signExtend_of_le (by decide)]
  apply BitVec.eq_of_toNat_eq
  rw [BitVec.toNat_setWidth, BitVec.toNat_ofInt, BitVec.toNat_ofInt]
  omega

/-! ### What circuits compute -/

/-- The word that is left of the exact result. -/
def joined (c : Circuit) (x y : Word) : Word := BitVec.ofInt 16 (c.exact x.toInt y.toInt)

/-- The state in which two words leave a flag. A quotient is one of signed numbers, and never
carries. -/
def flag (c : Circuit) (x y : Word) : Flag → Bool
  | .carry => c ≠ .div ∧ (c.exact x.toNat y.toNat < 0 ∨ 65535 < c.exact x.toNat y.toNat)
  | .zero => c.joined x y = 0
  | .negative => (c.joined x y).toInt < 0
  | .overflow => c.exact x.toInt y.toInt < -32768 ∨ 32767 < c.exact x.toInt y.toInt

/-- The word and the ranges that the exact result left. -/
def computed (c : Circuit) (x y : Word) : Computed where
  word := c.joined x y
  carry := c.flag x y .carry
  overflow := c.flag x y .overflow

theorem setWidth_onBits_eq_joined (c : Circuit) (x y : Word) :
    (c.onBits (x.signExtend 32) (y.signExtend 32)).setWidth 16 = c.joined x y :=
  (setWidth_onBits_signExtend c x y).trans (onBits_eq_ofInt c x y)

/-- The overflow found in 32 bits is that of the exact result. -/
theorem leavesSigned_onBits (c : Circuit) (x y : Word) :
    Word.leavesSigned (c.onBits (x.signExtend 32) (y.signExtend 32)).toInt =
      c.flag x y .overflow := by
  rw [toInt_onBits_signExtend, flag, Word.leavesSigned, Bool.decide_or]

/-- The carry found in 32 bits is that of the exact result. -/
theorem carry_onBits (hc : c = .add ∨ c = .mul) (x y : Word) :
    decide (65535 < (c.onBits (x.setWidth 32) (y.setWidth 32)).toNat) = c.flag x y .carry := by
  have hexact := toNat_onBits_setWidth hc x y
  have hdiv : c ≠ .div := by rcases hc with rfl | rfl <;> decide
  rw [flag, decide_eq_decide, ← hexact]
  constructor
  · intro hcarry
    exact ⟨hdiv, .inr (by omega)⟩
  · intro ⟨_, hcarry⟩
    omega

/-- The borrow of a difference is that of the exact result. -/
theorem borrow_eq (x y : Word) : decide (x.toNat < y.toNat) = flag .sub x y .carry := by
  have hx := x.isLt
  rw [flag, decide_eq_decide, exact]
  constructor
  · intro hborrow
    exact ⟨by decide, .inl (by omega)⟩
  · intro ⟨_, hborrow⟩
    omega

/-- **Every circuit computes its exact result,** cut to a word, and where it left its ranges. -/
theorem compute_eq {x y : Word} (h : ¬(c = .div ∧ y = 0)) :
    c.compute x y = .ok (c.computed x y) := by
  have hword := setWidth_onBits_eq_joined c x y
  have hoverflow := leavesSigned_onBits c x y
  cases c with
  | add => rw [computed, ← hword, ← hoverflow, ← carry_onBits (.inl rfl)]; rfl
  | sub => rw [computed, ← hword, ← hoverflow, ← borrow_eq]; rfl
  | mul => rw [computed, ← hword, ← hoverflow, ← carry_onBits (.inr rfl)]; rfl
  | div =>
      have hy : y ≠ 0 := fun hy => h ⟨rfl, hy⟩
      rw [compute, Word.divide, if_neg hy, computed, ← hword, ← hoverflow]
      rfl

theorem compute_div_zero (x : Word) : compute .div x 0 = .error .divisionByZero := rfl

end Circuit

/-! ### Flags -/

/-- The state of a flag after a result. -/
def Computed.flag (r : Computed) : Flag → Bool
  | .carry => r.carry
  | .zero => r.word == 0
  | .negative => r.word.isNegative
  | .overflow => r.overflow

/-- The flags of a result that was computed are those of the exact result. -/
theorem Circuit.flag_computed (c : Circuit) (x y : Word) : (c.computed x y).flag = c.flag x y := by
  funext f
  cases f with
  | negative =>
      exact (BitVec.msb_eq_toInt : (c.joined x y).msb = _)
  | zero => exact beq_eq_decide _ _
  | _ => rfl

namespace Status

/-- The register with its flags in given states: carry is the lowest bit, and above it are zero,
negative and overflow. The upper four bits stay. -/
def withFlags (s : Status) (flags : Flag → Bool) : Status where
  bits := BitVec.ofNat 8 (16 * (s.bits.toNat / 16) + 8 * (flags .overflow).toNat +
    4 * (flags .negative).toNat + 2 * (flags .zero).toNat + (flags .carry).toNat)

/-- Every flag is set from the result, whatever the register held. -/
theorem get_record (s : Status) (r : Computed) (f : Flag) : (s.record r).get f = r.flag f := by
  cases f <;> simp [record, get_set_of_ne, Computed.flag]

theorem getLsbD_bits_set (s : Status) (f : Flag) (state : Bool) {i : Nat} (hi : 4 ≤ i) :
    (s.set f state).bits.getLsbD i = s.bits.getLsbD i := by
  have hindex : f.index ≠ i := by cases f <;> simp [Flag.index] <;> omega
  unfold set
  split
  · rfl
  · simp [hindex]

/-- The bits above the flags stay. -/
theorem getLsbD_bits_record (s : Status) (r : Computed) {i : Nat} (hi : 4 ≤ i) :
    (s.record r).bits.getLsbD i = s.bits.getLsbD i := by
  simp [record, getLsbD_bits_set, hi]

/-- The register is given by its flags and the bits above them. -/
theorem eq_of_get {s t : Status} (hget : ∀ f, s.get f = t.get f)
    (hupper : ∀ i, 4 ≤ i → s.bits.getLsbD i = t.bits.getLsbD i) : s = t := by
  have hbits : s.bits = t.bits := by
    refine BitVec.eq_of_getLsbD_eq fun i _ => ?_
    match i with
    | 0 => exact hget .carry
    | 1 => exact hget .zero
    | 2 => exact hget .negative
    | 3 => exact hget .overflow
    | i + 4 => exact hupper (i + 4) (by omega)
  cases s
  cases t
  exact congrArg mk hbits

theorem getLsbD_bits_withFlags (s : Status) (flags : Flag → Bool) {i : Nat} (hi : i < 8) :
    (s.withFlags flags).bits.getLsbD i = decide ((16 * (s.bits.toNat / 16) +
      8 * (flags .overflow).toNat + 4 * (flags .negative).toNat + 2 * (flags .zero).toNat +
        (flags .carry).toNat) / 2 ^ i % 2 = 1) := by
  rw [withFlags, BitVec.getLsbD_ofNat, Nat.testBit_eq_decide_div_mod_eq, decide_eq_true hi,
    Bool.true_and]

theorem get_withFlags (s : Status) (flags : Flag → Bool) (f : Flag) :
    (s.withFlags flags).get f = flags f := by
  have hcarry := (flags .carry).toNat_lt
  have hzero := (flags .zero).toNat_lt
  have hnegative := (flags .negative).toNat_lt
  have hoverflow := (flags .overflow).toNat_lt
  rw [get, getLsbD_bits_withFlags s flags (by cases f <;> decide), Bool.eq_iff_iff,
    decide_eq_true_iff, ← Bool.toNat_eq_one]
  cases f <;> simp only [Flag.index] <;> omega

theorem getLsbD_bits_withFlags_upper (s : Status) (flags : Flag → Bool) {i : Nat} (hi : 4 ≤ i) :
    (s.withFlags flags).bits.getLsbD i = s.bits.getLsbD i := by
  have hcarry := (flags .carry).toNat_lt
  have hzero := (flags .zero).toNat_lt
  have hnegative := (flags .negative).toNat_lt
  have hoverflow := (flags .overflow).toNat_lt
  by_cases hbyte : i < 8
  · obtain ⟨j, rfl⟩ := Nat.exists_eq_add_of_le hi
    rw [getLsbD_bits_withFlags s flags hbyte, BitVec.getLsbD, Nat.testBit_eq_decide_div_mod_eq,
      Nat.pow_add, ← Nat.div_div_eq_div_mul, ← Nat.div_div_eq_div_mul s.bits.toNat]
    congr 4
    omega
  · rw [BitVec.getLsbD_of_ge _ _ (by omega), BitVec.getLsbD_of_ge _ _ (by omega)]

/-- Recording a result puts the flags into the states that it asks for, and nothing else. -/
theorem record_eq_withFlags (s : Status) (r : Computed) : s.record r = s.withFlags r.flag :=
  eq_of_get (fun f => (get_record s r f).trans (get_withFlags s r.flag f).symm)
    fun _ hi => (getLsbD_bits_record s r hi).trans (getLsbD_bits_withFlags_upper s r.flag hi).symm

end Status

/-! ### The arithmetic unit -/

namespace Alu

/-- The exact result of the selected operation, the inputs read as signed numbers. -/
def signedResult (alu : Alu) : Int := alu.circuit.exact alu.x.toInt alu.y.toInt

/-- The exact result of the selected operation, the inputs read as unsigned numbers. -/
def unsignedResult (alu : Alu) : Int := alu.circuit.exact alu.x.toNat alu.y.toNat

/-- The result of the selected operation on 32 bits, the inputs widened with their signs. -/
def signedIn32 (alu : Alu) : BitVec 32 :=
  alu.circuit.onBits (alu.x.signExtend 32) (alu.y.signExtend 32)

/-- The result of the selected operation on 32 bits, the inputs widened with zeros. -/
def unsignedIn32 (alu : Alu) : BitVec 32 :=
  alu.circuit.onBits (alu.x.setWidth 32) (alu.y.setWidth 32)

/-- Whether the selected operation has no result. -/
def DividesByZero (alu : Alu) : Prop := alu.circuit = .div ∧ alu.y = 0

instance (alu : Alu) : Decidable alu.DividesByZero :=
  inferInstanceAs (Decidable (alu.circuit = .div ∧ alu.y = 0))

/-- What a computation leaves behind: what it yields, or else what there was. -/
def afterCompute (alu : Alu) (status : Status) : Alu × Status :=
  match alu.compute status with
  | .ok after => after
  | .error _ => (alu, status)

/-- The arithmetic unit and the register of flags hold a result, and nothing else has changed. -/
structure Records (alu : Alu) (status : Status) (after : Alu × Status) : Prop where
  /-- Only the output is written. -/
  latches : after.1 = { alu with z := after.1.z }
  signed : after.1.z.toInt ≡ alu.signedResult [ZMOD 2 ^ 16]
  unsigned : alu.circuit ≠ .div → (after.1.z.toNat : Int) ≡ alu.unsignedResult [ZMOD 2 ^ 16]
  overflow : after.2.get .overflow = true ↔
    alu.signedResult < -32768 ∨ 32767 < alu.signedResult
  carry : after.2.get .carry = true ↔
    alu.circuit ≠ .div ∧ (alu.unsignedResult < 0 ∨ 65535 < alu.unsignedResult)
  zero : after.2.get .zero = true ↔ after.1.z = 0
  negative : after.2.get .negative = after.1.z.getLsbD 15
  /-- The bits above the flags stay. -/
  upper : ∀ i, 4 ≤ i → after.2.bits.getLsbD i = status.bits.getLsbD i

/-- What the arithmetic unit yields unless it divides by zero. -/
def result (alu : Alu) : Computed := alu.circuit.computed alu.x alu.y

variable {alu : Alu} {status : Status}

theorem compute_of_not_dividesByZero (h : ¬alu.DividesByZero) :
    alu.compute status = .ok ({ alu with z := alu.result.word }, status.record alu.result) := by
  rw [compute, Circuit.compute_eq h]
  rfl

theorem compute_of_dividesByZero (h : alu.DividesByZero) :
    alu.compute status = .error .divisionByZero := by
  obtain ⟨hcircuit, hy⟩ := h
  rw [compute, hcircuit, Circuit.compute, Word.divide, if_pos hy]

theorem get_result (status : Status) (f : Flag) :
    (status.record alu.result).get f = alu.circuit.flag alu.x alu.y f := by
  rw [Status.get_record, result, Circuit.flag_computed]

/-- The result of 16 bits is congruent to the exact one, whichever the reading. -/
theorem records_result :
    alu.Records status ({ alu with z := alu.result.word }, status.record alu.result) where
  latches := rfl
  signed := by
    change (alu.circuit.joined alu.x alu.y).toInt ≡ _ [ZMOD 2 ^ 16]
    rw [Circuit.joined, BitVec.toInt_ofInt]
    exact Int.bmod_emod
  unsigned hcircuit := by
    change ((alu.circuit.joined alu.x alu.y).toNat : Int) ≡ _ [ZMOD 2 ^ 16]
    rw [Circuit.joined, ← Circuit.onBits_eq_ofInt, Circuit.onBits_eq_ofInt_toNat hcircuit,
      BitVec.toNat_ofInt, unsignedResult, Int.ModEq]
    omega
  overflow := by
    rw [get_result, Circuit.flag, decide_eq_true_iff]
    rfl
  carry := by
    rw [get_result, Circuit.flag, decide_eq_true_iff]
    rfl
  zero := by
    rw [get_result, Circuit.flag, decide_eq_true_iff]
    rfl
  negative := by
    rw [get_result, Circuit.flag, ← BitVec.msb_eq_toInt, BitVec.msb_eq_getLsbD_last]
    rfl
  upper i hi := Status.getLsbD_bits_record status alu.result hi

/-- **Arithmetic is exact, with exact flags.** Whatever the arithmetic unit and the register of
flags hold, a computation fails just if it is a division by zero, and then changes nothing. Any
other leaves the exact result modulo 2^16, in the signed reading and, but for a division, in the
unsigned one, and the four flags tell of the result alone.

The word is the lower half of the result in 32 bits, where neither reading loses anything. -/
theorem compute_is_exact (alu : Alu) (status : Status) :
    ((∃ error, alu.compute status = .error error) ↔ alu.DividesByZero) ∧
    (alu.DividesByZero →
      alu.compute status = .error .divisionByZero ∧ alu.afterCompute status = (alu, status)) ∧
    (¬alu.DividesByZero →
      alu.compute status = .ok (alu.afterCompute status) ∧
      alu.Records status (alu.afterCompute status) ∧
      (alu.afterCompute status).1.z = alu.signedIn32.setWidth 16) ∧
    alu.signedIn32.toInt = alu.signedResult ∧
    (alu.circuit = .add ∨ alu.circuit = .mul →
      (alu.unsignedIn32.toNat : Int) = alu.unsignedResult) := by
  refine ⟨⟨fun ⟨error, herror⟩ => ?_, fun h => ⟨_, compute_of_dividesByZero h⟩⟩, fun h => ?_,
    fun h => ?_, Circuit.toInt_onBits_signExtend .., fun h => Circuit.toNat_onBits_setWidth h ..⟩
  · by_contra h
    rw [compute_of_not_dividesByZero h] at herror
    exact nomatch herror
  · have hcompute : alu.compute status = .error .divisionByZero := compute_of_dividesByZero h
    exact ⟨hcompute, by rw [afterCompute, hcompute]⟩
  · have hcompute : alu.compute status = .ok _ := compute_of_not_dividesByZero h
    have hafter : alu.afterCompute status =
        ({ alu with z := alu.result.word }, status.record alu.result) := by
      rw [afterCompute, hcompute]
    rw [hafter]
    exact ⟨hcompute, records_result, (Circuit.setWidth_onBits_eq_joined ..).symm⟩

/-- The greatest product, whose signed reading is (-1) · (-1), and the only quotient that does not
fit, in registers of which every bit is set. -/
theorem compute_is_exact_at_edges :
    let product : Alu := { x := 0xFFFF, y := 0xFFFF, circuit := .mul }
    let quotient : Alu := { x := 0x8000, y := 0xFFFF, circuit := .div }
    (product.unsignedIn32.toNat : Int) = 65535 * 65535 ∧
    product.Records ⟨0xFF⟩ ({ product with z := 1 }, ⟨0xF1⟩) ∧
    quotient.signedIn32.toInt = 32768 ∧
    quotient.Records ⟨0xFF⟩ ({ quotient with z := 0x8000 }, ⟨0xFC⟩) := by
  intro product quotient
  have hproduct := compute_is_exact product ⟨0xFF⟩
  have hquotient := compute_is_exact quotient ⟨0xFF⟩
  have hproduct_after :
      product.afterCompute ⟨0xFF⟩ = ({ product with z := 1 }, ⟨0xF1⟩) := by decide
  have hquotient_after :
      quotient.afterCompute ⟨0xFF⟩ = ({ quotient with z := 0x8000 }, ⟨0xFC⟩) := by decide
  refine ⟨hproduct.2.2.2.2 (.inr rfl), ?_, hquotient.2.2.2.1, ?_⟩
  · rw [← hproduct_after]
    exact (hproduct.2.2.1 (by decide)).2.1
  · rw [← hquotient_after]
    exact (hquotient.2.2.1 (by decide)).2.1

end Alu

end TeachingCpu
