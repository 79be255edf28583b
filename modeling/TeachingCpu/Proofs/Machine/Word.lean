import TeachingCpu.Machine.Word
/-!
# TeachingCpu.Proofs.Machine.Word

**Words, their bytes and the addresses they name.** A byte goes into a word and comes back, and a
number is a byte, or a word an address, exactly if it is below 256.
-/

set_option autoImplicit false

namespace TeachingCpu

theorem Byte.ofNat?_eq_some_iff {n : Nat} {b : Byte} : ofNat? n = some b ↔ n = b := by
  unfold ofNat?
  split
  · simp [Fin.ext_iff]
  · next h =>
      have := b.isLt
      simp only [reduceCtorEq, false_iff]
      omega

theorem Byte.ofNat?_eq_none_iff {n : Nat} : ofNat? n = none ↔ 256 ≤ n := by
  unfold ofNat?
  split <;> simp <;> omega

namespace Word

@[simp] theorem high_ofBytes (high low : Byte) : (ofBytes high low).high = high := by
  have := high.isLt
  have := low.isLt
  simp only [Word.high, ofBytes, BitVec.toNat_ofNat, Fin.ext_iff]
  omega

@[simp] theorem low_ofBytes (high low : Byte) : (ofBytes high low).low = low := by
  have := high.isLt
  have := low.isLt
  simp only [Word.low, ofBytes, BitVec.toNat_ofNat, Fin.ext_iff]
  omega

theorem high_eq_of_toNat {w : Word} {high low : Byte} (h : w.toNat = 256 * high + low) :
    w.high = high := by
  have := low.isLt
  simp only [Word.high, Fin.ext_iff]
  omega

theorem low_eq_of_toNat {w : Word} {high low : Byte} (h : w.toNat = 256 * high + low) :
    w.low = low := by
  have := low.isLt
  simp only [Word.low, Fin.ext_iff]
  omega

@[simp] theorem toNat_ofByte (b : Byte) : (ofByte b).toNat = b := by
  have := b.isLt
  simp only [ofByte, BitVec.toNat_ofNat]
  omega

theorem address?_eq_some_iff {w : Word} {b : Byte} : w.address? = some b ↔ w.toNat = b :=
  Byte.ofNat?_eq_some_iff

theorem address?_eq_none_iff {w : Word} : w.address? = none ↔ 256 ≤ w.toNat :=
  Byte.ofNat?_eq_none_iff

@[simp] theorem address?_ofByte (b : Byte) : (ofByte b).address? = some b :=
  address?_eq_some_iff.mpr (toNat_ofByte b)

end Word

end TeachingCpu
