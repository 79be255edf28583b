import TeachingCpu.Text.Basic
/-!
# TeachingCpu.Proofs.Text.Bytes

**Places in a text**, counted in bytes. A text may be cut only where a character begins or the text
ends, and the part before the cut then has just as many bytes (`Text.splitAtByte?_eq_some_iff`).
-/

set_option autoImplicit false

namespace TeachingCpu

namespace Text

variable {t : Text}

/-- A text cut at a byte; there is no cutting within a character or past the end. -/
def splitAtByte? : Text → Nat → Option (Text × Text)
  | t, 0 => some ([], t)
  | [], _ + 1 => none
  | c :: t, n + 1 =>
    if c.utf8Size ≤ n + 1 then
      (splitAtByte? t (n + 1 - c.utf8Size)).map fun (before, after) => (c :: before, after)
    else none

@[simp] theorem splitAtByte?_zero (t : Text) : splitAtByte? t 0 = some ([], t) := by
  cases t <;> rfl

theorem splitAtByte?_append (s t : Text) : splitAtByte? (s ++ t) (byteLength s) = some (s, t) := by
  induction s with
  | nil => exact splitAtByte?_zero t
  | cons c s ih =>
      obtain ⟨n, hn⟩ := Nat.exists_eq_succ_of_ne_zero (Nat.ne_of_gt c.utf8Size_pos)
      have hbytes : byteLength (c :: s) = n + byteLength s + 1 := by
        rw [byteLength_cons, hn]
        omega
      have hrest : n + byteLength s + 1 - c.utf8Size = byteLength s := by omega
      rw [hbytes, List.cons_append, splitAtByte?, if_pos (by omega), hrest, ih]
      rfl

/-- A text is cut at a byte exactly if a character begins or the text ends there. -/
theorem splitAtByte?_eq_some_iff {n : Nat} {before after : Text} :
    splitAtByte? t n = some (before, after) ↔ t = before ++ after ∧ byteLength before = n := by
  constructor
  · intro h
    induction t generalizing n before with
    | nil =>
        cases n with
        | zero =>
            cases h
            exact ⟨rfl, rfl⟩
        | succ n => cases h
    | cons c t ih =>
        cases n with
        | zero =>
            cases h
            exact ⟨rfl, rfl⟩
        | succ n =>
            rw [splitAtByte?] at h
            split at h
            · obtain ⟨⟨s, rest⟩, hsplit, hcons⟩ := Option.map_eq_some_iff.mp h
              cases hcons
              obtain ⟨rfl, hbytes⟩ := ih hsplit
              refine ⟨rfl, ?_⟩
              rw [byteLength_cons]
              omega
            · cases h
  · rintro ⟨rfl, rfl⟩
    exact splitAtByte?_append before after

theorem byteLength_eq_zero_iff : byteLength t = 0 ↔ t = [] := by
  cases t with
  | nil => simp
  | cons c t =>
      have hc := c.utf8Size_pos
      simp
      omega

end Text

end TeachingCpu
