import TeachingCpu.Text.Blank
import TeachingCpu.Text.Lines
/-!
# TeachingCpu.Proofs.Text.Lines

**Lines of texts that are written line by line.** A line feed ends a line, so a text that is made
of lines with a line feed after each has exactly these lines (`Text.lines_append_newline`), as long
as none of them brings a line end of its own.

Every text is written like that, but for a last line without a line feed. So what holds of all texts
is shown by taking off one line after the other (`Text.line_induction`), and a line has its place
behind so many others (`Text.LineAt`).
-/

set_option autoImplicit false

namespace TeachingCpu

namespace Text

variable {line rest : Text}

/-! ### Segments -/

theorem segments_append_newline (hline : '\n' ∉ line) (rest : Text) :
    segments (line ++ '\n' :: rest) = (line ++ ['\n']) :: segments rest := by
  induction line with
  | nil => simp [segments]
  | cons c line ih =>
      obtain ⟨hc, hline⟩ := not_or.mp (mt List.mem_cons.mpr hline)
      rw [List.cons_append, segments, if_neg (Ne.symm hc), ih hline]
      rfl

theorem segments_of_notMem (hne : line ≠ []) (hline : '\n' ∉ line) : segments line = [line] := by
  induction line with
  | nil => exact absurd rfl hne
  | cons c line ih =>
      obtain ⟨hc, hline⟩ := not_or.mp (mt List.mem_cons.mpr hline)
      rw [segments, if_neg (Ne.symm hc)]
      cases line with
      | nil => rfl
      | cons d line => rw [ih (List.cons_ne_nil _ _) hline]

theorem segments_ne_nil {t s : Text} (h : s ∈ segments t) : s ≠ [] := by
  induction t generalizing s with
  | nil => cases h
  | cons c t ih =>
      rw [segments] at h
      split at h
      · rcases List.mem_cons.mp h with rfl | h
        · exact List.cons_ne_nil _ _
        · exact ih h
      · split at h
        · rw [List.mem_singleton.mp h]
          exact List.cons_ne_nil _ _
        · next s' ss hsegments =>
            rcases List.mem_cons.mp h with rfl | h
            · exact List.cons_ne_nil _ _
            · exact ih (hsegments ▸ List.mem_cons_of_mem _ h)

/-- What holds of the empty text and of a last line without a line feed, and goes over from a text
to the text with one line more before it, holds of all texts. -/
theorem line_induction {motive : Text → Prop} (nil : motive [])
    (last : ∀ line, line ≠ [] → '\n' ∉ line → motive line)
    (next : ∀ line rest, '\n' ∉ line → motive rest → motive (line ++ '\n' :: rest))
    (t : Text) : motive t := by
  induction hlength : t.length using Nat.strongRecOn generalizing t with
  | ind n ih =>
      by_cases hmem : '\n' ∈ t
      · obtain ⟨line, rest, rfl, hline⟩ := List.eq_append_cons_of_mem hmem
        refine next line rest hline (ih rest.length ?_ rest rfl)
        rw [← hlength, List.length_append, List.length_cons]
        omega
      · by_cases hnil : t = []
        · exact hnil ▸ nil
        · exact last t hnil hmem

/-! ### Line ends -/

/-- Taking off a line end, said of a text that is read backwards. -/
theorem chomp_reverse (s : Text) :
    chomp s.reverse =
      if s.head? = some '\n' then
        if s.tail.head? = some '\r' then s.tail.tail.reverse else s.tail.reverse
      else s.reverse := by
  unfold chomp
  rw [List.reverse_reverse]
  -- a line feed behind a carriage return, one behind anything else, and none
  split
  · simp
  · next rest hreturn =>
      rw [List.head?_cons, if_pos rfl, List.tail_cons, if_neg]
      cases rest with
      | nil => simp
      | cons c rest =>
          intro h
          cases h
          exact hreturn rest rfl
  · next hfeed =>
      rw [if_neg]
      cases s with
      | nil => simp
      | cons c rest =>
          intro h
          cases h
          exact hfeed rest rfl

/-- A line feed is taken off, and nothing else where no carriage return stands before it. -/
theorem chomp_append_newline (hend : line.getLast? ≠ some '\r') :
    chomp (line ++ ['\n']) = line := by
  rw [← List.head?_reverse] at hend
  have hchomp := chomp_reverse ('\n' :: line.reverse)
  rw [List.reverse_cons, List.reverse_reverse] at hchomp
  rw [hchomp, if_pos (List.head?_cons ..), List.tail_cons, if_neg hend, List.reverse_reverse]

theorem chomp_of_notMem (hline : '\n' ∉ line) : chomp line = line := by
  have hhead : line.reverse.head? ≠ some '\n' := fun h =>
    hline (List.mem_reverse.mp (List.mem_of_head? h))
  rw [← List.reverse_reverse line, chomp_reverse, if_neg hhead]

/-- Before a line feed, at most one carriage return is taken off with it. -/
theorem chomp_append_newline_cases (line : Text) :
    chomp (line ++ ['\n']) = line ∨ line = chomp (line ++ ['\n']) ++ ['\r'] := by
  by_cases hend : line.getLast? = some '\r'
  · right
    obtain ⟨body, rfl⟩ := List.getLast?_eq_some_iff.mp hend
    rw [← List.reverse_reverse (body ++ ['\r'] ++ ['\n']), chomp_reverse]
    simp
  · exact .inl (chomp_append_newline hend)

theorem lines_append_newline (hline : '\n' ∉ line) (hend : line.getLast? ≠ some '\r')
    (rest : Text) : lines (line ++ '\n' :: rest) = line :: lines rest := by
  rw [lines, segments_append_newline hline, List.map_cons, chomp_append_newline hend]
  rfl

/-! ### Places of lines -/

/-- Where a line of a text is: its number, counted from 1, and what stands before it and after. -/
structure LineAt (t : Text) (number : Nat) (before line after : Text) : Prop where
  split : t = before ++ line ++ after
  number_eq : number = before.count '\n' + 1
  opens : before = [] ∨ before.getLast? = some '\n'
  single : '\n' ∉ line
  closes : after = [] ∨ after.head? = some '\n'

theorem LineAt.next {first rest before line after : Text} {number : Nat}
    (h : LineAt rest number before line after) (hfirst : '\n' ∉ first) :
    LineAt (first ++ '\n' :: rest) (number + 1) (first ++ '\n' :: before) line after where
  split := by simp [h.split]
  number_eq := by simp [h.number_eq, List.count_eq_zero_of_not_mem hfirst]
  opens := by
    rcases h.opens with rfl | hlast
    · simp
    · simp [List.getLast?_cons, hlast]
  single := h.single
  closes := h.closes

/-! ### Joining lines again -/

end Text

end TeachingCpu
