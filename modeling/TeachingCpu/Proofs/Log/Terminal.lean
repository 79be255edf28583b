import Mathlib.Data.List.Infix
import TeachingCpu.Log.Terminal
/-!
# TeachingCpu.Proofs.Log.Terminal

**Control sequences are taken out of a text, and nothing else is.** What is left of a text is said
without a scanner (`Text.Uncolored`): a character outside control sequences is kept, a sequence that
is closed by an `m` is dropped with it, and one that is not goes to the end of the text. An escape
character within a sequence is part of it and opens no other.

Whether the scanner is inside a sequence at the end of a text is all that a text behind it can
notice. It is not, if an `m` follows every escape character (`Text.EscapesClosed`).
-/

set_option autoImplicit false

namespace TeachingCpu

namespace Text

/-- The character that begins a control sequence. -/
def escape : Char := '\x1b'

/-- The second text is what is left of the first without its control sequences. -/
inductive Uncolored : Text → Text → Prop
  | nil : Uncolored [] []
  /-- Outside a sequence a character is kept, be it an `m`. -/
  | keep {c : Char} {t u : Text} (hc : c ≠ escape) (h : Uncolored t u) : Uncolored (c :: t) (c :: u)
  /-- A sequence ends with the first `m`. -/
  | closed {body t u : Text} (hbody : 'm' ∉ body) (h : Uncolored t u) :
      Uncolored (escape :: (body ++ 'm' :: t)) u
  /-- Without an `m` the sequence has no end. -/
  | unclosed {body : Text} (hbody : 'm' ∉ body) : Uncolored (escape :: body) []

/-- Behind every escape character there is an `m`. -/
def EscapesClosed (t : Text) : Prop := ∀ rest ∈ t.tails, rest.head? = some escape → 'm' ∈ rest

instance (t : Text) : Decidable (EscapesClosed t) :=
  inferInstanceAs (Decidable (∀ rest ∈ t.tails, rest.head? = some escape → 'm' ∈ rest))

variable {s t u v body : Text} {c : Char}

/-! ### The scanner -/

theorem withoutColor_cons_of_ne (hc : c ≠ escape) (t : Text) :
    withoutColor (c :: t) = c :: withoutColor t := if_neg hc

theorem withoutColor_cons_escape (t : Text) :
    withoutColor (escape :: t) = withoutColorFrom true t := rfl

theorem withoutColorFrom_closed (hbody : 'm' ∉ body) (t : Text) :
    withoutColorFrom true (body ++ 'm' :: t) = withoutColor t := by
  induction body with
  | nil => rfl
  | cons c body ih =>
      obtain ⟨hc, hbody⟩ := not_or.mp (mt List.mem_cons.mpr hbody)
      rw [List.cons_append, withoutColorFrom, decide_eq_true (Ne.symm hc), ih hbody]

theorem withoutColorFrom_unclosed (hbody : 'm' ∉ body) : withoutColorFrom true body = [] := by
  induction body with
  | nil => rfl
  | cons c body ih =>
      obtain ⟨hc, hbody⟩ := not_or.mp (mt List.mem_cons.mpr hbody)
      rw [withoutColorFrom, decide_eq_true (Ne.symm hc), ih hbody]

theorem Uncolored.withoutColor_eq (h : Uncolored t u) : withoutColor t = u := by
  induction h with
  | nil => rfl
  | keep hc _ ih => rw [withoutColor_cons_of_ne hc, ih]
  | closed hbody _ ih => rw [withoutColor_cons_escape, withoutColorFrom_closed hbody, ih]
  | unclosed hbody => rw [withoutColor_cons_escape, withoutColorFrom_unclosed hbody]

theorem uncolored_withoutColor (t : Text) : Uncolored t (withoutColor t) := by
  cases t with
  | nil => exact .nil
  | cons c t =>
      by_cases hc : c = escape
      · subst hc
        rw [withoutColor_cons_escape]
        by_cases hm : 'm' ∈ t
        · obtain ⟨body, rest, rfl, hbody⟩ := List.eq_append_cons_of_mem hm
          rw [withoutColorFrom_closed hbody]
          exact .closed hbody (uncolored_withoutColor rest)
        · rw [withoutColorFrom_unclosed hm]
          exact .unclosed hm
      · rw [withoutColor_cons_of_ne hc]
        exact .keep hc (uncolored_withoutColor t)
termination_by t.length

theorem withoutColor_eq_iff : withoutColor t = u ↔ Uncolored t u :=
  ⟨fun h => h ▸ uncolored_withoutColor t, Uncolored.withoutColor_eq⟩

/-! ### What is left -/

theorem Uncolored.escape_notMem (h : Uncolored t u) : escape ∉ u := by
  induction h with
  | nil => exact List.not_mem_nil
  | keep hc _ ih => exact List.not_mem_cons_of_ne_of_not_mem (Ne.symm hc) ih
  | closed _ _ ih => exact ih
  | unclosed _ => exact List.not_mem_nil

theorem Uncolored.of_notMem (h : escape ∉ t) : Uncolored t t := by
  induction t with
  | nil => exact .nil
  | cons c t ih =>
      obtain ⟨hc, ht⟩ := not_or.mp (mt List.mem_cons.mpr h)
      exact .keep (Ne.symm hc) (ih ht)

theorem escapesClosed_iff : EscapesClosed t ↔ ∀ rest, escape :: rest <:+ t → 'm' ∈ rest := by
  constructor
  · intro h rest hrest
    have hm : 'm' ∈ escape :: rest := h _ ((List.mem_tails _ _).mpr hrest) rfl
    exact List.mem_of_ne_of_mem (by decide) hm
  · intro h rest hrest hhead
    obtain ⟨rest, rfl⟩ := List.head?_eq_some_iff.mp hhead
    exact List.mem_cons_of_mem _ (h rest ((List.mem_tails _ _).mp hrest))

theorem EscapesClosed.of_suffix (h : EscapesClosed t) (hsuffix : s <:+ t) : EscapesClosed s :=
  escapesClosed_iff.mpr fun rest hrest => escapesClosed_iff.mp h rest (hrest.trans hsuffix)

/-- Behind a text that ends outside of a sequence, another is read as it is by itself. -/
theorem Uncolored.append (hs : Uncolored s u) (hclosed : EscapesClosed s) (ht : Uncolored t v) :
    Uncolored (s ++ t) (u ++ v) := by
  induction hs with
  | nil => exact ht
  | keep hc _ ih => exact .keep hc (ih (hclosed.of_suffix (List.suffix_cons _ _)))
  | @closed body rest u hbody _ ih =>
      have hsuffix : rest <:+ escape :: (body ++ 'm' :: rest) := ⟨escape :: body ++ ['m'], by simp⟩
      have hrest := Uncolored.closed hbody (ih (hclosed.of_suffix hsuffix))
      rwa [List.cons_append, List.append_assoc, List.cons_append]
  | @unclosed body hbody =>
      exact absurd (escapesClosed_iff.mp hclosed body (List.suffix_refl _)) hbody

/-- **Control sequences are taken out of a text, and nothing else is.** So what is left has no
escape character, a text without one is left as it is, and doing so again changes nothing. If an
`m` follows every escape character of a text, then another text behind it does not matter to it,
nor it to the other. -/
theorem withoutColor_is_exact (s t : Text) :
    (∀ u, withoutColor s = u ↔ Uncolored s u) ∧
    escape ∉ withoutColor s ∧
    (escape ∉ s → withoutColor s = s) ∧
    withoutColor (withoutColor s) = withoutColor s ∧
    (EscapesClosed s → withoutColor (s ++ t) = withoutColor s ++ withoutColor t) := by
  have hnone : escape ∉ withoutColor s := (uncolored_withoutColor s).escape_notMem
  refine ⟨fun _ => withoutColor_eq_iff, hnone, fun hs => ?_, ?_, fun hclosed => ?_⟩
  · exact (Uncolored.of_notMem hs).withoutColor_eq
  · exact (Uncolored.of_notMem hnone).withoutColor_eq
  · exact ((uncolored_withoutColor s).append hclosed (uncolored_withoutColor t)).withoutColor_eq

/-- An `m` outside of sequences, two sequences side by side, one of them with an escape character
inside, and a sequence without an end. -/
theorem withoutColor_is_exact_side_by_side :
    let s := "m\x1b[1m\x1b[\x1b0mPC m".toList
    let t := "00\x1b[0 05".toList
    let plain := "GPA [0m".toList
    withoutColor plain = plain ∧ withoutColor (s ++ t) = withoutColor s ++ withoutColor t ∧
      withoutColor s = "mPC m".toList ∧ withoutColor t = "00".toList := by
  intro s t plain
  exact ⟨(withoutColor_is_exact plain t).2.2.1 (by decide),
    (withoutColor_is_exact s t).2.2.2.2 (by decide), by decide, by decide⟩

end Text

/-- A line in the minimal form has no control sequences, whatever the message quotes. -/
theorem Entry.escape_notMem_line (e : Entry) : Text.escape ∉ (e.line true).toList := by
  have hlabel (l : Level) : Text.escape ∉ l.minimalLabel.toList := by cases l <;> decide
  have hmessage := (Text.uncolored_withoutColor e.message.toList).escape_notMem
  rw [Entry.line, if_pos rfl, String.toList_append, String.toList_ofList]
  exact List.mem_append.not.mpr (not_or.mpr ⟨hlabel e.level, hmessage⟩)

end TeachingCpu
