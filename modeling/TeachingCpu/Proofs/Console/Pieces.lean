import TeachingCpu.Console.Pieces
/-!
# TeachingCpu.Proofs.Console.Pieces

**A reader yields the pieces of its text** (`ArgumentReader.pieces_eq`), so one may reason about
`Text.pieces`, which has no cursor.

What stands on both sides of a delimiter is cut independently (`Text.pieces_append`).
-/

set_option autoImplicit false

namespace TeachingCpu

namespace Text

variable {c d : Char} {t : Text}

theorem endsPiece_iff : endsPiece c = true ↔ c = '\n' ∨ c = ';' := by simp [endsPiece]

theorem endsPiece_eq_false_iff : endsPiece c = false ↔ c ≠ '\n' ∧ c ≠ ';' := by simp [endsPiece]

theorem pieces_cons_of_endsPiece (hc : endsPiece c = true) (t : Text) :
    pieces (c :: t) = [] :: pieces t := by
  rw [pieces, if_pos hc]

theorem pieces_cons_of_nil (hc : endsPiece c = false) (ht : pieces t = []) :
    pieces (c :: t) = [[c]] := by
  simp [pieces, hc, ht]

theorem pieces_cons_of_cons {p : Text} {ps : List Text} (hc : endsPiece c = false)
    (ht : pieces t = p :: ps) : pieces (c :: t) = (c :: p) :: ps := by
  simp [pieces, hc, ht]

/-- The pieces of a text are the first one and those of what follows its delimiter. -/
theorem pieces_of_ne_nil (ht : t ≠ []) : pieces t = firstPiece t :: pieces (afterPiece t) := by
  induction t with
  | nil => exact absurd rfl ht
  | cons c t ih =>
      cases hc : endsPiece c with
      | true =>
          rw [pieces_cons_of_endsPiece hc]
          simp [firstPiece, afterPiece, hc]
      | false =>
          have hfirst : firstPiece (c :: t) = c :: firstPiece t := by simp [firstPiece, hc]
          have hafter : afterPiece (c :: t) = afterPiece t := by simp [afterPiece, hc]
          rw [hfirst, hafter]
          cases t with
          | nil => exact pieces_cons_of_nil hc rfl
          | cons c' t => exact pieces_cons_of_cons hc (ih (by simp))

theorem pieces_ne_nil (ht : t ≠ []) : pieces t ≠ [] := by
  rw [pieces_of_ne_nil ht]
  exact List.cons_ne_nil _ _

theorem afterPiece_length_lt (ht : t ≠ []) : (afterPiece t).length < t.length := by
  have hpositive : 0 < t.length := List.length_pos_iff.mpr ht
  have hdrop : (t.dropWhile (!endsPiece ·)).length ≤ t.length :=
    (List.dropWhile_sublist _).length_le
  rw [afterPiece, List.length_tail]
  omega

/-- What stands before a delimiter and what stands after it are cut independently. -/
theorem pieces_append_delimiter (hd : endsPiece d = true) (s t : Text) :
    pieces (s ++ d :: t) = pieces (s ++ [d]) ++ pieces t := by
  induction s with
  | nil => rw [List.nil_append, List.nil_append, pieces_cons_of_endsPiece hd,
      pieces_cons_of_endsPiece hd]; rfl
  | cons c s ih =>
      rw [List.cons_append, List.cons_append]
      cases hc : endsPiece c with
      | true => rw [pieces_cons_of_endsPiece hc, pieces_cons_of_endsPiece hc, ih]; rfl
      | false =>
          cases hs : pieces (s ++ [d]) with
          | nil => exact absurd hs (pieces_ne_nil (by simp))
          | cons p ps =>
              rw [hs, List.cons_append] at ih
              rw [pieces_cons_of_cons hc ih, pieces_cons_of_cons hc hs]
              rfl

/-- A delimiter at the end of a text ends its last piece, or else an empty one. -/
theorem pieces_concat_delimiter (hd : endsPiece d = true) (t : Text) :
    pieces (t ++ [d]) = pieces t ∨ pieces (t ++ [d]) = pieces t ++ [[]] := by
  induction t with
  | nil => exact .inr (pieces_cons_of_endsPiece hd [])
  | cons c t ih =>
      rw [List.cons_append]
      cases hc : endsPiece c with
      | true =>
          rw [pieces_cons_of_endsPiece hc, pieces_cons_of_endsPiece hc, List.cons_append]
          exact ih.imp (congrArg _) (congrArg _)
      | false =>
          cases ht : pieces t with
          | nil =>
              have hnil : t = [] := Decidable.not_not.mp fun h => pieces_ne_nil h ht
              subst hnil
              left
              have hone : pieces [c] = [[c]] := pieces_cons_of_nil hc rfl
              rw [hone]
              exact pieces_cons_of_cons hc (pieces_cons_of_endsPiece hd [])
          | cons p ps =>
              rw [ht] at ih
              rw [pieces_cons_of_cons hc ht]
              exact ih.imp (pieces_cons_of_cons hc) (pieces_cons_of_cons hc)

/-- The pieces of two texts with a delimiter between them are those of the one and those of the
other, but for an empty piece where the first has none that the delimiter could end. -/
theorem pieces_append (hd : endsPiece d = true) (s t : Text) :
    pieces (s ++ d :: t) = pieces s ++ pieces t ∨
      pieces (s ++ d :: t) = pieces s ++ [] :: pieces t := by
  rw [pieces_append_delimiter hd]
  rcases pieces_concat_delimiter hd s with h | h <;> rw [h]
  · exact .inl rfl
  · exact .inr (List.append_assoc _ _ _)

end Text

namespace ArgumentReader

/-- A piece takes at least one character, so a reader needs no more turns than it has. -/
theorem piecesWithin_eq {bound : Nat} {t : Text} (hbound : t.length ≤ bound) :
    piecesWithin bound ⟨t⟩ = Text.pieces t := by
  induction bound generalizing t with
  | zero =>
      obtain rfl : t = [] := List.eq_nil_of_length_eq_zero (Nat.le_zero.mp hbound)
      rfl
  | succ bound ih =>
      by_cases ht : t = []
      · subst ht
        rfl
      · have hlt := Text.afterPiece_length_lt ht
        have hread : read ⟨t⟩ = some (Text.firstPiece t, ⟨Text.afterPiece t⟩) := by
          simp [read, ht]
        rw [piecesWithin, hread, Text.pieces_of_ne_nil ht]
        exact congrArg _ (ih (by omega))

theorem pieces_eq (t : Text) : pieces t = Text.pieces t := piecesWithin_eq (Nat.le_refl _)

end ArgumentReader

end TeachingCpu
