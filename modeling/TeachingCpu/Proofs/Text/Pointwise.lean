import Mathlib.Data.List.DropRight
import Mathlib.Data.List.Forall2
import TeachingCpu.Proofs.Text.Lines
/-!
# TeachingCpu.Proofs.Text.Pointwise

**Texts that correspond character by character.** Where corresponding characters pass the same
tests, what is cut off at one place in one text is cut off at the same place in the other: at the
ends of lines, before the first character that fails a test, or at the end.
-/

set_option autoImplicit false

namespace TeachingCpu

namespace Text

variable {R : Char → Char → Prop} {p : Char → Bool} {t t' : Text}

theorem forall₂_takeWhile (hp : ∀ c d, R c d → p c = p d) (h : List.Forall₂ R t t') :
    List.Forall₂ R (t.takeWhile p) (t'.takeWhile p) := by
  induction h with
  | nil => exact .nil
  | @cons c d t t' hcd _ ih =>
      rw [List.takeWhile_cons, List.takeWhile_cons, ← hp c d hcd]
      split
      · exact .cons hcd ih
      · exact .nil

theorem forall₂_rdropWhile (hp : ∀ c d, R c d → p c = p d) (h : List.Forall₂ R t t') :
    List.Forall₂ R (t.rdropWhile p) (t'.rdropWhile p) := by
  refine List.forall₂_reverse_iff.mpr ?_
  have hreversed := List.forall₂_reverse_iff.mpr h
  generalize t.reverse = s at hreversed ⊢
  generalize t'.reverse = s' at hreversed ⊢
  induction hreversed with
  | nil => exact .nil
  | @cons c d s s' hcd hrest ih =>
      rw [List.dropWhile_cons, List.dropWhile_cons, ← hp c d hcd]
      split
      · exact ih
      · exact .cons hcd hrest

theorem forall₂_chomp (hfeed : ∀ c d, R c d → (c = '\n' ↔ d = '\n'))
    (hreturn : ∀ c d, R c d → (c = '\r' ↔ d = '\r')) (h : List.Forall₂ R t t') :
    List.Forall₂ R (chomp t) (chomp t') := by
  rw [← List.reverse_reverse t, ← List.reverse_reverse t', chomp_reverse, chomp_reverse]
  have hreversed := List.forall₂_reverse_iff.mpr h
  generalize t.reverse = s at hreversed ⊢
  generalize t'.reverse = s' at hreversed ⊢
  have hbefore {s s' : Text} (hs : List.Forall₂ R s s') :
      List.Forall₂ R (if s.head? = some '\r' then s.tail.reverse else s.reverse)
        (if s'.head? = some '\r' then s'.tail.reverse else s'.reverse) := by
    cases hs with
    | nil => exact .nil
    | @cons c d s s' hcd hrest =>
        simp only [List.head?_cons, List.tail_cons, Option.some.injEq, hreturn c d hcd]
        split
        · exact List.forall₂_reverse_iff.mpr hrest
        · exact List.forall₂_reverse_iff.mpr (.cons hcd hrest)
  cases hreversed with
  | nil => exact .nil
  | @cons c d s s' hcd hrest =>
      simp only [List.head?_cons, List.tail_cons, Option.some.injEq, hfeed c d hcd]
      split
      · exact hbefore hrest
      · exact List.forall₂_reverse_iff.mpr (.cons hcd hrest)

theorem forall₂_segments (hfeed : ∀ c d, R c d → (c = '\n' ↔ d = '\n'))
    (h : List.Forall₂ R t t') : List.Forall₂ (List.Forall₂ R) (segments t) (segments t') := by
  induction h with
  | nil => exact .nil
  | @cons c d t t' hcd _ ih =>
      unfold segments
      by_cases hc : c = '\n'
      · rw [if_pos hc, if_pos ((hfeed c d hcd).mp hc)]
        exact .cons (.cons hcd .nil) ih
      · rw [if_neg hc, if_neg (mt (hfeed c d hcd).mpr hc)]
        generalize segments t = ss at ih ⊢
        generalize segments t' = ss' at ih ⊢
        cases ih with
        | nil => exact .cons (.cons hcd .nil) .nil
        | cons hfirst hrest => exact .cons (.cons hcd hfirst) hrest

end Text

end TeachingCpu
