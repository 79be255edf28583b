import Mathlib.Data.List.DropRight
import Mathlib.Data.List.Induction
import TeachingCpu.Text.Blank
/-!
# TeachingCpu.Proofs.Text.Trim

**White space around a text.** A text that is not all white space has a last character that is none
(`Text.all_or_exists_last_not`); trimming the end cuts behind it and trimming the start cuts before
the first one, so one does not get in the way of the other (`Text.trimStart_trimEnd`), and what is
left is the text without the white space around it (`Text.surrounds_trim`).
-/

set_option autoImplicit false

namespace TeachingCpu

namespace Text

variable {p : Char → Bool} {t rest : Text} {c : Char}

/-- Without white space there is nothing to trim. -/
theorem trim_eq_self {t : Text} (h : ∀ c ∈ t, isBlank c = false) : trim t = t := by
  have hnone (s : Text) (hs : ∀ c ∈ s, isBlank c = false) : s.dropWhile isBlank = s := by
    cases s with
    | nil => rfl
    | cons c s => rw [List.dropWhile_cons_of_neg (by simp [hs c List.mem_cons_self])]
  rw [trim, trimStart, hnone t h, trimEnd, hnone t.reverse fun c hc => h c (List.mem_reverse.mp hc),
    List.reverse_reverse]

/-- Where more than white space is dropped from the end, trimming first makes no difference. -/
theorem rdropWhile_trimEnd (hp : ∀ c, isBlank c = true → p c = true) (t : Text) :
    (trimEnd t).rdropWhile p = t.rdropWhile p := by
  unfold trimEnd List.rdropWhile
  rw [List.reverse_reverse]
  congr 1
  induction t.reverse with
  | nil => rfl
  | cons c s ih =>
      rw [List.dropWhile_cons]
      split
      · next hc => rw [ih, List.dropWhile_cons_of_pos (hp c hc)]
      · rfl

/-- A text is made of characters that pass a test, or they stand behind the last one that fails. -/
theorem all_or_exists_last_not (p : Char → Bool) (t : Text) :
    (∀ c ∈ t, p c = true) ∨
      ∃ body c rest, t = body ++ c :: rest ∧ p c = false ∧ ∀ s ∈ rest, p s = true := by
  induction t using List.reverseRecOn with
  | nil => exact .inl nofun
  | append_singleton t c ih =>
      cases hc : p c with
      | false => exact .inr ⟨t, c, [], rfl, hc, nofun⟩
      | true =>
          rcases ih with hall | ⟨body, d, rest, rfl, hd, hrest⟩
          · refine .inl fun s hs => ?_
            rcases List.mem_append.mp hs with hs | hs
            · exact hall s hs
            · exact List.mem_singleton.mp hs ▸ hc
          · refine .inr ⟨body, d, rest ++ [c], by simp, hd, fun s hs => ?_⟩
            rcases List.mem_append.mp hs with hs | hs
            · exact hrest s hs
            · exact List.mem_singleton.mp hs ▸ hc

theorem trimEnd_of_all (h : ∀ c ∈ t, isBlank c = true) : trimEnd t = [] :=
  List.rdropWhile_eq_nil_iff.mpr h

theorem trimEnd_append_cons (body : Text) (hc : isBlank c = false)
    (hrest : ∀ s ∈ rest, isBlank s = true) :
    trimEnd (body ++ c :: rest) = body ++ [c] := by
  have hreversed : ∀ s ∈ rest.reverse, isBlank s = true := by simpa using hrest
  rw [trimEnd, List.reverse_append, List.reverse_cons, List.append_assoc,
    List.dropWhile_append_of_pos hreversed, List.singleton_append,
    List.dropWhile_cons_of_neg (by simp [hc])]
  simp

/-- What is trimmed from the end is white space. -/
theorem exists_trimEnd_append (t : Text) : ∃ trail, t = trimEnd t ++ trail := by
  obtain ⟨trail, htrail⟩ := List.rdropWhile_prefix isBlank t
  exact ⟨trail, htrail.symm⟩

/-- It makes no difference at which end trimming begins. -/
theorem trimStart_trimEnd (t : Text) : trimStart (trimEnd t) = trim t := by
  rcases all_or_exists_last_not isBlank t with hall | ⟨body, c, rest, rfl, hc, hrest⟩
  · rw [trim, trimEnd_of_all hall, trimStart, trimStart, List.dropWhile_eq_nil_iff.mpr hall]
    rfl
  · have hcut (rest : Text) : (c :: rest).dropWhile isBlank = c :: rest :=
      List.dropWhile_cons_of_neg (by simp [hc])
    rw [trim, trimEnd_append_cons _ hc hrest, trimStart, trimStart, List.dropWhile_append,
      List.dropWhile_append, hcut, hcut]
    split
    · exact (trimEnd_append_cons [] hc hrest).symm
    · exact (trimEnd_append_cons _ hc hrest).symm

/-- A text has white space around `body`, which neither begins nor ends with any. -/
structure Surrounds (t body : Text) : Prop where
  around : ∃ before after, t = before ++ body ++ after ∧
    (∀ c ∈ before, isBlank c = true) ∧ ∀ c ∈ after, isBlank c = true
  head : ∀ c ∈ body.head?, isBlank c = false
  last : ∀ c ∈ body.getLast?, isBlank c = false

/-- What is trimmed is the white space around a text. -/
theorem surrounds_trim (t : Text) : Surrounds t (trim t) := by
  rcases all_or_exists_last_not isBlank t with hall | ⟨body, c, rest, rfl, hc, hrest⟩
  · have hnil : trim t = [] := by
      rw [← trimStart_trimEnd, trimEnd_of_all hall]
      rfl
    rw [hnil]
    exact ⟨⟨t, [], by simp, hall, nofun⟩, nofun, nofun⟩
  · have hkept : (body ++ [c]).dropWhile isBlank = body.dropWhile isBlank ++ [c] := by
      rw [List.dropWhile_append, List.dropWhile_cons_of_neg (by simp [hc])]
      split
      · next hempty => rw [List.isEmpty_iff.mp hempty, List.nil_append]
      · rfl
    have hfirst := List.head?_dropWhile_not isBlank (body ++ [c])
    rw [← trimStart_trimEnd, trimEnd_append_cons body hc hrest, trimStart]
    refine ⟨⟨body.takeWhile isBlank, rest, ?_, fun s => List.mem_takeWhile_imp, hrest⟩, ?_, ?_⟩
    · rw [hkept, ← List.append_assoc, List.takeWhile_append_dropWhile, List.append_assoc,
        List.singleton_append]
    · intro d hd
      rwa [Option.mem_def.mp hd] at hfirst
    · intro d hd
      rw [hkept, List.getLast?_append, List.getLast?_singleton] at hd
      obtain rfl : c = d := Option.some.inj hd
      exact hc

/-- White space surrounds one text only. -/
theorem Surrounds.trim_eq {body : Text} (h : Surrounds t body) : trim t = body := by
  obtain ⟨⟨before, after, rfl, hbefore, hafter⟩, hhead, hlast⟩ := h
  rw [List.append_assoc, trim, trimStart, List.dropWhile_append_of_pos hbefore]
  cases body with
  | nil =>
      rw [List.nil_append, List.dropWhile_eq_nil_iff.mpr hafter]
      rfl
  | cons c body =>
      rw [List.cons_append, List.dropWhile_cons_of_neg (by simp [hhead c rfl]), ← List.cons_append]
      obtain ⟨init, d, hbody⟩ : ∃ init d, c :: body = init ++ [d] :=
        ⟨_, _, (List.dropLast_append_getLast (List.cons_ne_nil c body)).symm⟩
      rw [hbody] at hlast ⊢
      rw [List.append_assoc, List.singleton_append]
      exact trimEnd_append_cons init (hlast d (by simp)) hafter

/-- What holds of the text that white space surrounds holds of what is trimmed. -/
theorem exists_surrounds_iff {motive : Text → Prop} :
    (∃ body, Surrounds t body ∧ motive body) ↔ motive (trim t) := by
  constructor
  · intro h
    obtain ⟨body, hbody, hmotive⟩ := h
    rwa [hbody.trim_eq]
  · intro h
    exact ⟨_, surrounds_trim t, h⟩

/-- Trimming the end keeps the white space at the start, unless nothing else is there. -/
theorem takeWhile_isBlank_trimEnd (h : trimEnd t ≠ []) :
    (trimEnd t).takeWhile isBlank = t.takeWhile isBlank := by
  rcases all_or_exists_last_not isBlank t with hall | ⟨body, c, rest, rfl, hc, hrest⟩
  · exact absurd (trimEnd_of_all hall) h
  · have hcut (rest : Text) : (c :: rest).takeWhile isBlank = [] :=
      List.takeWhile_cons_of_neg (by simp [hc])
    rw [trimEnd_append_cons _ hc hrest, List.takeWhile_append, List.takeWhile_append, hcut, hcut]

end Text

end TeachingCpu
