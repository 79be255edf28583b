import TeachingCpu.Proofs.Console.Signature
import TeachingCpu.Proofs.Text.Bytes
import TeachingCpu.Proofs.Text.LetterCase
import TeachingCpu.Proofs.Text.Numeral
/-!
# TeachingCpu.Proofs.Console.Suggestion

**What is suggested for a word that calls no command.** It is the first command whose name is close
to the word: the word begins the name, or is the name with one character replaced
(`CommandName.Close`).

That holds of words in ASCII. The lengths of a name and a word are compared in bytes, and their
characters only as far as both go. So a word with a character of several bytes is close to a name
that is longer by as many characters as that one has further bytes, and not to a name of the same
length (`CommandName.CloseInBytes`).
-/

set_option autoImplicit false

namespace TeachingCpu

namespace CommandName

/-! ### Closeness -/

/-- The second text is the first with one character replaced by another. -/
def DifferInOne (s t : Text) : Prop :=
  ∃ before c d after, s = before ++ c :: after ∧ t = before ++ d :: after ∧ c ≠ d

/-- The second text is the first with one character replaced by another, and is cut short by as
many characters as this has bytes besides the first. -/
def DifferInOneShort (s t : Text) : Prop :=
  ∃ before c d after rest, s = before ++ c :: (after ++ rest) ∧ t = before ++ d :: after ∧ c ≠ d ∧
    d.utf8Size = rest.length + 1

/-- The name of a command is close to a word, ASCII letter case aside: the word has two bytes or
more and begins the name, or it is the name with one character replaced. -/
def Close (word : Text) (c : CommandName) : Prop :=
  (2 ≤ Text.byteLength (Text.lower word) ∧ Text.lower word <+: c.name.toList) ∨
    DifferInOne c.name.toList (Text.lower word)

/-- The same, but for the length of a word with a character of several bytes. -/
def CloseInBytes (word : Text) (c : CommandName) : Prop :=
  (2 ≤ Text.byteLength (Text.lower word) ∧ Text.lower word <+: c.name.toList) ∨
    DifferInOneShort c.name.toList (Text.lower word)

/-- What is suggested is the first command with a property, and nothing if no command has it. -/
def IsFirst (P : CommandName → Prop) : Option CommandName → Prop
  | some c => P c ∧ ∃ earlier later, all = earlier ++ c :: later ∧ ∀ other ∈ earlier, ¬P other
  | none => ∀ c, ¬P c

variable {s t word : Text} {c d : Char}

@[simp] theorem differences_nil_left (t : Text) : differences [] t = 0 := rfl

@[simp] theorem differences_nil_right (s : Text) : differences s [] = 0 := by
  cases s <;> rfl

theorem differences_cons_self (c : Char) (s t : Text) :
    differences (c :: s) (c :: t) = differences s t := by
  simp [differences]

theorem differences_cons_of_ne (h : c ≠ d) (s t : Text) :
    differences (c :: s) (d :: t) = differences s t + 1 := by
  simp [differences, h]

/-- Texts do not differ as far as both go if one begins the other. -/
theorem differences_eq_zero_iff : differences s t = 0 ↔ s <+: t ∨ t <+: s := by
  induction s generalizing t with
  | nil => simp
  | cons c s ih =>
      cases t with
      | nil => simp
      | cons d t =>
          by_cases h : c = d
          · subst h
            simp [differences_cons_self, ih]
          · simp [differences_cons_of_ne h, List.cons_prefix_cons, h, Ne.symm h]

theorem differences_eq_one_iff : differences s t = 1 ↔
    ∃ before c d s' t', s = before ++ c :: s' ∧ t = before ++ d :: t' ∧ c ≠ d ∧
      (s' <+: t' ∨ t' <+: s') := by
  constructor
  · intro h
    induction s generalizing t with
    | nil => simp at h
    | cons c s ih =>
        cases t with
        | nil => simp at h
        | cons d t =>
            by_cases hc : c = d
            · subst hc
              rw [differences_cons_self] at h
              obtain ⟨before, a, b, s', t', rfl, rfl, hne, hrest⟩ := ih h
              exact ⟨c :: before, a, b, s', t', rfl, rfl, hne, hrest⟩
            · rw [differences_cons_of_ne hc, Nat.succ.injEq, differences_eq_zero_iff] at h
              exact ⟨[], c, d, s, t, rfl, rfl, hc, h⟩
  · intro h
    obtain ⟨before, c, d, s', t', rfl, rfl, hne, hrest⟩ := h
    induction before with
    | nil =>
        rw [List.nil_append, List.nil_append, differences_cons_of_ne hne,
          differences_eq_zero_iff.mpr hrest]
    | cons b before ih => rw [List.cons_append, List.cons_append, differences_cons_self, ih]

/-- One character is replaced if it is the only difference between texts of the same length. -/
theorem differInOne_iff : DifferInOne s t ↔ s.length = t.length ∧ differences s t = 1 := by
  rw [differences_eq_one_iff]
  constructor
  · intro h
    obtain ⟨before, c, d, after, rfl, rfl, hne⟩ := h
    exact ⟨by simp, before, c, d, after, after, rfl, rfl, hne, .inl (List.prefix_refl _)⟩
  · intro h
    obtain ⟨hboth, before, c, d, s', t', rfl, rfl, hne, hrest⟩ := h
    have hlength : s'.length = t'.length := by simpa using hboth
    have hsame : s' = t' := by
      rcases hrest with hrest | hrest
      · exact hrest.eq_of_length hlength
      · exact (hrest.eq_of_length hlength.symm).symm
    exact ⟨before, c, d, s', rfl, hsame ▸ rfl, hne⟩

instance (s t : Text) : Decidable (DifferInOne s t) := decidable_of_iff _ differInOne_iff.symm

instance (word : Text) (c : CommandName) : Decidable (Close word c) :=
  inferInstanceAs (Decidable (_ ∨ _))

/-! ### Lengths in bytes -/

/-- A text in ASCII is compared by its bytes with a text of other characters. -/
theorem differInOneShort_iff (hs : ∀ c ∈ s, c.utf8Size = 1) :
    DifferInOneShort s t ↔ Text.byteLength s = Text.byteLength t ∧ differences s t = 1 := by
  rw [differences_eq_one_iff]
  constructor
  · intro h
    obtain ⟨before, c, d, after, rest, rfl, rfl, hne, hsize⟩ := h
    have hc : c.utf8Size = 1 := hs c (by simp)
    have hrest : Text.byteLength rest = rest.length :=
      Text.byteLength_eq_length fun a ha => hs a (by simp [ha])
    refine ⟨?_, before, c, d, after ++ rest, after, rfl, rfl, hne, .inr (List.prefix_append _ _)⟩
    simp only [Text.byteLength_append, Text.byteLength_cons, hc, hrest, hsize]
    omega
  · intro h
    obtain ⟨hbytes, before, c, d, s', t', rfl, rfl, hne, hcommon⟩ := h
    have hc : c.utf8Size = 1 := hs c (by simp)
    simp only [Text.byteLength_append, Text.byteLength_cons, hc] at hbytes
    rcases hcommon with ⟨rest, rfl⟩ | ⟨rest, rfl⟩
    · -- the replaced character has a byte at least, so nothing is left over
      have hd := d.utf8Size_pos
      rw [Text.byteLength_append] at hbytes
      obtain rfl : rest = [] := Text.byteLength_eq_zero_iff.mp (by omega)
      exact ⟨before, c, d, s', [], by simp, by simp, hne, by simp at hbytes ⊢; omega⟩
    · have hrest : Text.byteLength rest = rest.length :=
        Text.byteLength_eq_length fun a ha => hs a (by simp [ha])
      rw [Text.byteLength_append, hrest] at hbytes
      exact ⟨before, c, d, t', rest, rfl, rfl, hne, by omega⟩

/-- In ASCII no character has further bytes. -/
theorem differInOneShort_iff_of_ascii (ht : ∀ c ∈ t, c.utf8Size = 1) :
    DifferInOneShort s t ↔ DifferInOne s t := by
  constructor
  · intro h
    obtain ⟨before, c, d, after, rest, rfl, rfl, hne, hsize⟩ := h
    rw [ht d (by simp)] at hsize
    obtain rfl : rest = [] := List.eq_nil_of_length_eq_zero (by omega)
    exact ⟨before, c, d, after, by simp, rfl, hne⟩
  · intro h
    obtain ⟨before, c, d, after, rfl, rfl, hne⟩ := h
    exact ⟨before, c, d, after, [], by simp, rfl, hne, ht d (by simp)⟩

theorem utf8Size_of_mem_name (c : CommandName) : ∀ a ∈ c.name.toList, a.utf8Size = 1 := by
  have hall : (c.name.toList.all (·.utf8Size == 1)) = true := by cases c <;> decide
  intro a ha
  exact eq_of_beq (List.all_eq_true.mp hall a ha)

theorem isClose_iff (word : Text) (c : CommandName) :
    isClose c.name.toList (Text.lower word) = true ↔ CloseInBytes word c := by
  rw [CloseInBytes, differInOneShort_iff c.utf8Size_of_mem_name]
  simp [isClose]

theorem ascii_lower_iff :
    (∀ a ∈ Text.lower word, a.utf8Size = 1) ↔ ∀ a ∈ word, a.utf8Size = 1 := by
  have hsize (a : Char) : a.toLower.utf8Size = a.utf8Size := Text.apply_toLower (by decide) a
  simp [Text.lower, hsize]

theorem closeInBytes_iff_of_ascii (hword : ∀ a ∈ word, a.utf8Size = 1) (c : CommandName) :
    CloseInBytes word c ↔ Close word c := by
  rw [CloseInBytes, Close, differInOneShort_iff_of_ascii (ascii_lower_iff.mpr hword)]

/-- A word that is close to a name in both ways has none but characters of the name, and one of one
byte. -/
theorem ascii_of_close {c : CommandName} (hbytes : CloseInBytes word c) (hclose : Close word c) :
    ∀ a ∈ word, a.utf8Size = 1 := by
  have hname := c.utf8Size_of_mem_name
  refine ascii_lower_iff.mp fun a ha => ?_
  rcases hbytes with ⟨-, hbegins⟩ | ⟨before, b, d, after, rest, hs, ht, -, hsize⟩
  · exact hname a (hbegins.subset ha)
  · rcases hclose with ⟨-, hbegins⟩ | hdiffer
    · exact hname a (hbegins.subset ha)
    · have hlength := (differInOne_iff.mp hdiffer).1
      rw [hs, ht] at hlength
      have hrest : rest = [] := by simpa using hlength
      rw [ht] at ha
      rcases List.mem_append.mp ha with hbefore | htail
      · exact hname a (hs ▸ List.mem_append_left _ hbefore)
      · rcases List.mem_cons.mp htail with rfl | hafter
        · rw [hsize, hrest, List.length_nil]
        · exact hname a (hs ▸ by simp [hafter])

/-! ### Suggestions -/

/-- What is found in the order of all commands is the first that passes the test. -/
theorem isFirst_find? {P : CommandName → Prop} {p : CommandName → Bool}
    (hp : ∀ c, p c = true ↔ P c) : IsFirst P (all.find? p) := by
  cases hfind : all.find? p with
  | none =>
      intro c hc
      exact List.find?_eq_none.mp hfind c c.mem_all ((hp c).mpr hc)
  | some c =>
      obtain ⟨hc, earlier, later, hall, hearlier⟩ := List.find?_eq_some_iff_append.mp hfind
      refine ⟨(hp c).mp hc, earlier, later, hall, fun other hother hP => ?_⟩
      have hfails := hearlier other hother
      rw [(hp other).mpr hP] at hfails
      cases hfails

theorem isFirst_suggest (word : Text) : IsFirst (CloseInBytes word) (suggest word) :=
  isFirst_find? (isClose_iff word)

end CommandName

namespace Command

open CommandName

variable {line first : Text} {words : List Text}

/-- **What is suggested for a word that calls no command** is the first command that is close to
it, if the word is in ASCII. With other characters it is the first one that is close to it in
bytes, and none of these is close to it. -/
theorem suggestion_is_first_close (hwords : Text.words line = first :: words)
    (hunknown : ∀ c : CommandName, ¬c.CalledBy first) :
    ∃ suggestion, ofLine line = .error (.invalidCommand first suggestion) ∧
      IsFirst (CloseInBytes first) suggestion ∧
      ((∀ a ∈ first, a.utf8Size = 1) → IsFirst (Close first) suggestion) ∧
      ∀ c, CloseInBytes first c → (Close first c ↔ ∀ a ∈ first, a.utf8Size = 1) := by
  refine ⟨suggest first, ofLine_of_not_called hwords hunknown, isFirst_suggest first,
    fun hascii => ?_, fun c hbytes => ⟨ascii_of_close hbytes, fun hascii => ?_⟩⟩
  · have hsame : CloseInBytes first = Close first :=
      funext fun c => propext (closeInBytes_iff_of_ascii hascii c)
    exact hsame ▸ isFirst_suggest first
  · exact (closeInBytes_iff_of_ascii hascii c).mp hbytes

/-- Of two commands whose names the word begins, the second is not suggested. -/
theorem suggestion_is_first_close_reset :
    let line := "RE now".toList
    let first := "RE".toList
    ofLine line = .error (.invalidCommand first (some .reset)) ∧
      IsFirst (Close first) (some .reset) ∧ Close first .registers := by
  intro line first
  have hwords : Text.words line = [first, "now".toList] := by decide
  have hunknown (c : CommandName) : ¬c.CalledBy first := by cases c <;> decide
  have hreset : ofLine line = .error (.invalidCommand first (some .reset)) := by decide
  obtain ⟨suggestion, hline, -, hfirst, -⟩ := suggestion_is_first_close hwords hunknown
  rw [hreset] at hline
  cases hline
  have hascii : ∀ a ∈ first, a.utf8Size = 1 :=
    List.forall_mem_cons.mpr ⟨rfl, List.forall_mem_singleton.mpr rfl⟩
  exact ⟨hreset, hfirst hascii, by decide⟩

/-- A word of two characters and three bytes is taken for a name of three characters, and a name
that differs from a word in one character is not found if that has two bytes. -/
theorem suggestion_measured_in_bytes :
    let short := "ré".toList
    let other := "rün".toList
    (ofLine short = .error (.invalidCommand short (some .run)) ∧ ∀ c, ¬Close short c) ∧
    (ofLine other = .error (.invalidCommand other none) ∧ Close other .run) := by
  intro short other
  exact ⟨⟨by decide, fun c => by cases c <;> decide⟩, by decide, by decide⟩

end Command

end TeachingCpu
