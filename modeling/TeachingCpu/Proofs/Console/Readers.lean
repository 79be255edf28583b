import Mathlib.Data.List.TakeWhile
import TeachingCpu.Proofs.Console.Pieces
import TeachingCpu.Proofs.Text.Bytes
import TeachingCpu.Proofs.Text.Lines
/-!
# TeachingCpu.Proofs.Console.Readers

**Commands are read alike from an argument and from a pipe.** A reader answers with the pieces of
its text, one for each request, and with nothing to every later request. `Text.CutInto` says what
the pieces of a text are, without a reader.

The readers keep the part of their text that is still to be read. A `Cursor` does the same by
place: the text stays, and a position in bytes moves behind each delimiter, at last one past the
end of the text. A text may be cut between two characters only (`Text.splitAtByte?`), so each
request to a cursor might fail. That none does is a part of the result.
-/

set_option autoImplicit false

namespace TeachingCpu

namespace Text

/-! ### What the pieces of a text are -/

/-- A text is cut into pieces. -/
inductive CutInto : Text → List Text → Prop
  /-- An empty text has none. -/
  | nothing : CutInto [] []
  /-- The end of the text ends a piece that is not empty. -/
  | last {p : Text} (hp : p ≠ []) (hclear : ∀ c ∈ p, c ≠ '\n' ∧ c ≠ ';') : CutInto p [p]
  /-- A delimiter ends a piece, an empty one as well. -/
  | next {p t : Text} {d : Char} {ps : List Text} (hclear : ∀ c ∈ p, c ≠ '\n' ∧ c ≠ ';')
      (hd : d = '\n' ∨ d = ';') (ht : CutInto t ps) : CutInto (p ++ d :: t) (p :: ps)

variable {t p : Text} {d : Char} {ps : List Text}

theorem firstPiece_of_clear (hclear : ∀ c ∈ p, endsPiece c = false) : firstPiece p = p :=
  List.takeWhile_eq_self_iff.mpr fun c hc => by simp [hclear c hc]

theorem afterPiece_of_clear (hclear : ∀ c ∈ p, endsPiece c = false) : afterPiece p = [] := by
  have hdrop : p.dropWhile (!endsPiece ·) = [] :=
    List.dropWhile_eq_nil_iff.mpr fun c hc => by simp [hclear c hc]
  rw [afterPiece, hdrop, List.tail_nil]

theorem firstPiece_append (hclear : ∀ c ∈ p, endsPiece c = false) (hd : endsPiece d = true)
    (t : Text) : firstPiece (p ++ d :: t) = p := by
  rw [firstPiece, List.takeWhile_append_of_pos fun c hc => by simp [hclear c hc],
    List.takeWhile_cons_of_neg (by simp [hd]), List.append_nil]

theorem afterPiece_append (hclear : ∀ c ∈ p, endsPiece c = false) (hd : endsPiece d = true)
    (t : Text) : afterPiece (p ++ d :: t) = t := by
  rw [afterPiece, List.dropWhile_append_of_pos fun c hc => by simp [hclear c hc],
    List.dropWhile_cons_of_neg (by simp [hd]), List.tail_cons]

theorem clear_firstPiece (t : Text) : ∀ c ∈ firstPiece t, endsPiece c = false := by
  intro c hc
  simpa using List.mem_takeWhile_imp hc

/-- The first piece of a text is all of it, or a delimiter stands behind it. -/
theorem firstPiece_cases (t : Text) :
    (firstPiece t = t ∧ afterPiece t = []) ∨
      ∃ d, endsPiece d = true ∧ t = firstPiece t ++ d :: afterPiece t := by
  have hwhole : firstPiece t ++ t.dropWhile (!endsPiece ·) = t := List.takeWhile_append_dropWhile
  cases hrest : t.dropWhile (!endsPiece ·) with
  | nil =>
      rw [hrest, List.append_nil] at hwhole
      exact .inl ⟨hwhole, by rw [afterPiece, hrest, List.tail_nil]⟩
  | cons d rest =>
      have hd := List.head?_dropWhile_not (!endsPiece ·) t
      rw [hrest] at hd hwhole
      refine .inr ⟨d, by simpa using hd, ?_⟩
      rw [afterPiece, hrest, List.tail_cons]
      exact hwhole.symm

theorem eq_nil_of_pieces (h : pieces t = []) : t = [] :=
  Decidable.not_not.mp fun hne => pieces_ne_nil hne h

theorem pieces_eq_cons (h : pieces t = p :: ps) :
    t ≠ [] ∧ firstPiece t = p ∧ pieces (afterPiece t) = ps := by
  have ht : t ≠ [] := by
    intro hnil
    rw [hnil] at h
    cases h
  rw [pieces_of_ne_nil ht] at h
  exact ⟨ht, List.cons.inj h⟩

theorem CutInto.eq_pieces (h : CutInto t ps) : ps = pieces t := by
  induction h with
  | nothing => rfl
  | last hp hclear =>
      simp only [← endsPiece_eq_false_iff] at hclear
      rw [pieces_of_ne_nil hp, firstPiece_of_clear hclear, afterPiece_of_clear hclear]
      rfl
  | next hclear hd _ ih =>
      simp only [← endsPiece_eq_false_iff] at hclear
      rw [← endsPiece_iff] at hd
      rw [pieces_of_ne_nil (by simp), firstPiece_append hclear hd, afterPiece_append hclear hd, ih]

theorem cutInto_pieces (t : Text) : CutInto t (pieces t) := by
  by_cases ht : t = []
  · subst ht
    exact .nothing
  · have hlt := afterPiece_length_lt ht
    have hclear : ∀ c ∈ firstPiece t, c ≠ '\n' ∧ c ≠ ';' := fun c hc =>
      endsPiece_eq_false_iff.mp (clear_firstPiece t c hc)
    rw [pieces_of_ne_nil ht]
    rcases firstPiece_cases t with ⟨hfirst, hafter⟩ | ⟨d, hd, hwhole⟩
    · rw [hfirst, hafter]
      exact .last ht (hfirst ▸ hclear)
    · have hrest := cutInto_pieces (afterPiece t)
      have hnext := CutInto.next hclear (endsPiece_iff.mp hd) hrest
      rwa [← hwhole] at hnext
termination_by t.length

theorem cutInto_iff : CutInto t ps ↔ ps = pieces t :=
  ⟨CutInto.eq_pieces, fun h => h ▸ cutInto_pieces t⟩

/-- Each piece takes a character of the text at least. -/
theorem CutInto.length_le (h : CutInto t ps) : ps.length ≤ t.length := by
  induction h with
  | nothing => exact Nat.le_refl _
  | last hp _ => exact List.length_pos_iff.mpr hp
  | next _ _ _ ih =>
      rw [List.length_cons, List.length_append, List.length_cons]
      omega

/-- A line feed is a delimiter, so a text may be cut into lines first. -/
theorem flatMap_pieces_segments (t : Text) : (segments t).flatMap pieces = pieces t := by
  induction t with
  | nil => rfl
  | cons c t ih =>
      rw [segments]
      split
      · next hc =>
          subst hc
          rw [List.flatMap_cons, ih]
          rfl
      · split
        · next hnone =>
            have ht : t = [] := by rw [← flatten_segments t, hnone]; rfl
            rw [ht, List.flatMap_singleton]
        · next s ss hsegments =>
            have hs : s ≠ [] := segments_ne_nil (hsegments ▸ List.mem_cons_self)
            rw [hsegments, List.flatMap_cons] at ih
            rw [List.flatMap_cons]
            cases hc : endsPiece c with
            | true => rw [pieces_cons_of_endsPiece hc, pieces_cons_of_endsPiece hc, ← ih]; rfl
            | false =>
                rw [pieces_of_ne_nil hs] at ih
                rw [pieces_cons_of_cons hc (pieces_of_ne_nil hs), pieces_cons_of_cons hc ih.symm]
                rfl

/-! ### Places in a text -/

/-- The byte at which the first character begins that passes a test. -/
def findByte? (p : Char → Bool) : Text → Option Nat
  | [] => none
  | c :: t => if p c then some 0 else (findByte? p t).map (c.utf8Size + ·)

/-- Both delimiters are of one byte. -/
theorem utf8Size_of_endsPiece (hd : endsPiece d = true) : d.utf8Size = 1 := by
  rcases endsPiece_iff.mp hd with rfl | rfl <;> rfl

theorem getD_findByte? (t : Text) :
    (findByte? endsPiece t).getD (byteLength t) = byteLength (firstPiece t) := by
  induction t with
  | nil => rfl
  | cons c t ih =>
      rw [findByte?, firstPiece]
      cases hc : endsPiece c with
      | true =>
          rw [List.takeWhile_cons_of_neg (by simp [hc])]
          rfl
      | false =>
          rw [List.takeWhile_cons_of_pos (by simp [hc]), byteLength_cons, byteLength_cons,
            ← firstPiece, ← ih]
          cases findByte? endsPiece t <;> rfl

end Text

/-! ### Requests to a reader -/

section

variable {σ : Type}

/-- The answer to a request, counted from the first one as number 0, when a reader is asked again
and again. A request may fail, and then there is no answer to the later ones. -/
def nthAnswer (ask : σ → Option (Option Text × σ)) : Nat → σ → Option (Option Text)
  | 0, r => (ask r).map Prod.fst
  | n + 1, r => (ask r).bind fun (_, r) => nthAnswer ask n r

/-- What is asked of a relation between the states of a reader and the pieces to come: a piece is
the next answer and leaves the others, and without a piece the answer is nothing. -/
structure Yields (ask : σ → Option (Option Text × σ)) (Holds : σ → List Text → Prop) : Prop where
  piece : ∀ r p ps, Holds r (p :: ps) → ∃ r', ask r = some (some p, r') ∧ Holds r' ps
  nothing : ∀ r, Holds r [] → ∃ r', ask r = some (none, r') ∧ Holds r' []

/-- The pieces are the answers in order, and nothing is the answer from then on. -/
theorem Yields.nthAnswer {ask : σ → Option (Option Text × σ)} {Holds : σ → List Text → Prop}
    (h : Yields ask Holds) {r : σ} {ps : List Text} (hr : Holds r ps) (n : Nat) :
    nthAnswer ask n r = some ps[n]? := by
  induction n generalizing r ps with
  | zero =>
      cases ps with
      | nil =>
          obtain ⟨r', hask, -⟩ := h.nothing r hr
          rw [TeachingCpu.nthAnswer, hask]
          rfl
      | cons p ps =>
          obtain ⟨r', hask, -⟩ := h.piece r p ps hr
          rw [TeachingCpu.nthAnswer, hask]
          rfl
  | succ n ih =>
      cases ps with
      | nil =>
          obtain ⟨r', hask, hr'⟩ := h.nothing r hr
          rw [TeachingCpu.nthAnswer, hask]
          exact ih hr'
      | cons p ps =>
          obtain ⟨r', hask, hr'⟩ := h.piece r p ps hr
          rw [TeachingCpu.nthAnswer, hask]
          exact ih hr'

end

/-! ### Readers that keep what is left -/

/-- A request to a reader; one that has nothing left stays as it is. -/
def request {σ : Type} (read : σ → Option (Text × σ)) (r : σ) : Option (Option Text × σ) :=
  match read r with
  | none => some (none, r)
  | some (piece, r) => some (some piece, r)

theorem ArgumentReader.yields : Yields (request read) fun r ps => Text.pieces r.rest = ps where
  piece r p ps h := by
    obtain ⟨hrest, rfl, rfl⟩ := Text.pieces_eq_cons h
    refine ⟨⟨Text.afterPiece r.rest⟩, ?_, rfl⟩
    simp [request, read, hrest]
  nothing r h := ⟨r, by simp [request, read, Text.eq_nil_of_pieces h], h⟩

namespace PipeReader

/-- The pieces that a reader has before it: what is left of the line, and the lines to come, of
which none is empty. -/
def Holds (r : PipeReader) (ps : List Text) : Prop :=
  (∀ line ∈ r.input, line ≠ []) ∧ Text.pieces r.line ++ r.input.flatMap Text.pieces = ps

variable {r : PipeReader} {p : Text} {ps : List Text}

theorem Holds.read_eq_some (h : r.Holds (p :: ps)) :
    ∃ r', r.read = some (p, r') ∧ r'.Holds ps := by
  obtain ⟨line, input⟩ := r
  obtain ⟨hinput, hpieces⟩ := h
  by_cases hline : line = []
  · subst hline
    cases input with
    | nil => cases hpieces
    | cons line input =>
        rw [List.forall_mem_cons] at hinput
        rw [List.flatMap_cons, Text.pieces_of_ne_nil hinput.1] at hpieces
        cases hpieces
        exact ⟨_, rfl, hinput.2, rfl⟩
  · rw [Text.pieces_of_ne_nil hline] at hpieces
    cases hpieces
    refine ⟨⟨Text.afterPiece line, input⟩, ?_, hinput, rfl⟩
    simp [read, hline]

theorem Holds.read_eq_none (h : r.Holds []) : r.read = none := by
  obtain ⟨line, input⟩ := r
  obtain ⟨hinput, hpieces⟩ := h
  obtain ⟨hline, hflat⟩ := List.append_eq_nil_iff.mp hpieces
  obtain rfl := Text.eq_nil_of_pieces hline
  cases input with
  | nil => rfl
  | cons line input =>
      rw [List.flatMap_cons] at hflat
      exact absurd (List.append_eq_nil_iff.mp hflat).1
        (Text.pieces_ne_nil (hinput line List.mem_cons_self))

theorem yields : Yields (request read) Holds where
  piece r p ps h := by
    obtain ⟨r', hread, hr'⟩ := h.read_eq_some
    exact ⟨r', by rw [request, hread], hr'⟩
  nothing r h := ⟨r, by rw [request, h.read_eq_none], h⟩

theorem holds_segments (t : Text) : Holds { input := Text.segments t } (Text.pieces t) :=
  ⟨fun _ => Text.segments_ne_nil, Text.flatMap_pieces_segments t⟩

theorem Holds.piecesWithin_eq {bound : Nat} (h : r.Holds ps) (hbound : ps.length ≤ bound) :
    piecesWithin bound r = ps := by
  induction bound generalizing r ps with
  | zero => rw [List.eq_nil_of_length_eq_zero (Nat.le_zero.mp hbound)]; rfl
  | succ bound ih =>
      rw [piecesWithin]
      cases ps with
      | nil => rw [h.read_eq_none]
      | cons p ps =>
          obtain ⟨r', hread, hr'⟩ := h.read_eq_some
          rw [hread]
          exact congrArg _ (ih hr' (Nat.le_of_succ_le_succ hbound))

theorem pieces_eq (t : Text) : pieces t = Text.pieces t :=
  (holds_segments t).piecesWithin_eq (Text.cutInto_pieces t).length_le

end PipeReader

/-! ### Readers that keep their place -/

/-- A text and a position in it, in bytes. -/
structure Cursor where
  text : Text := []
  position : Nat := 0

namespace Cursor

/-- Whether the position is at the end of the text, or past it. -/
def isAtEnd (c : Cursor) : Bool := Text.byteLength c.text ≤ c.position

/-- The piece that begins at the position, and the position behind its delimiter. -/
def next? (c : Cursor) : Option (Option Text × Cursor) := do
  let (_, rest) ← Text.splitAtByte? c.text c.position
  let length := (Text.findByte? Text.endsPiece rest).getD (Text.byteLength rest)
  let (piece, _) ← Text.splitAtByte? rest length
  return (some piece, { c with position := c.position + length + 1 })

/-- A request to the reader of an argument, which keeps its place in the text. -/
def ask (c : Cursor) : Option (Option Text × Cursor) :=
  if c.isAtEnd then some (none, c) else c.next?

/-- What stands behind the position; nothing does where that is at the end or past it. -/
def Faces (c : Cursor) (rest : Text) : Prop :=
  (∃ before, c.text = before ++ rest ∧ Text.byteLength before = c.position) ∨
    rest = [] ∧ Text.byteLength c.text ≤ c.position

variable {c : Cursor} {rest : Text}

theorem faces_all (t : Text) : Faces { text := t } t := .inl ⟨[], rfl, rfl⟩

theorem Faces.isAtEnd_iff (h : c.Faces rest) : c.isAtEnd = true ↔ rest = [] := by
  rw [isAtEnd, decide_eq_true_iff]
  rcases h with ⟨before, htext, hposition⟩ | ⟨hrest, hpast⟩
  · rw [htext, Text.byteLength_append, ← hposition, ← Text.byteLength_eq_zero_iff]
    omega
  · exact iff_of_true hpast hrest

/-- The text can be cut at the position, and behind the piece that begins there. -/
theorem Faces.next?_eq_some (h : c.Faces rest) (hrest : rest ≠ []) :
    ∃ c', c.next? = some (some (Text.firstPiece rest), c') ∧ c'.Faces (Text.afterPiece rest) := by
  rcases h with ⟨before, htext, hposition⟩ | ⟨hnil, -⟩
  · have hcut : Text.splitAtByte? c.text c.position = some (before, rest) :=
      Text.splitAtByte?_eq_some_iff.mpr ⟨htext, hposition⟩
    have hpiece : Text.splitAtByte? rest (Text.byteLength (Text.firstPiece rest)) =
        some (Text.firstPiece rest, rest.dropWhile (!Text.endsPiece ·)) :=
      Text.splitAtByte?_eq_some_iff.mpr ⟨List.takeWhile_append_dropWhile.symm, rfl⟩
    let c' : Cursor :=
      { c with position := c.position + Text.byteLength (Text.firstPiece rest) + 1 }
    refine ⟨c', by simp [next?, hcut, Text.getD_findByte?, hpiece, c'], ?_⟩
    rcases Text.firstPiece_cases rest with ⟨hfirst, hafter⟩ | ⟨d, hd, hwhole⟩
    · -- without a delimiter the position is one past the end
      refine .inr ⟨hafter, ?_⟩
      simp only [c', htext, Text.byteLength_append, hfirst]
      omega
    · refine .inl ⟨before ++ Text.firstPiece rest ++ [d], ?_, ?_⟩
      · simp only [c', htext, List.append_assoc, List.singleton_append, ← hwhole]
      · simp only [c', Text.byteLength_append, Text.byteLength_cons, Text.byteLength_nil,
          Text.utf8Size_of_endsPiece hd, hposition]
  · exact absurd hnil hrest

theorem yields : Yields ask fun c ps => ∃ rest, c.Faces rest ∧ Text.pieces rest = ps where
  piece c p ps h := by
    obtain ⟨rest, hfaces, hpieces⟩ := h
    obtain ⟨hrest, rfl, rfl⟩ := Text.pieces_eq_cons hpieces
    obtain ⟨c', hnext, hfaces'⟩ := hfaces.next?_eq_some hrest
    refine ⟨c', ?_, _, hfaces', rfl⟩
    rw [ask, if_neg (mt hfaces.isAtEnd_iff.mp hrest), hnext]
  nothing c h := by
    obtain ⟨rest, hfaces, hpieces⟩ := h
    refine ⟨c, ?_, rest, hfaces, hpieces⟩
    rw [ask, if_pos (hfaces.isAtEnd_iff.mpr (Text.eq_nil_of_pieces hpieces))]

end Cursor

/-- A reader of piped commands that keeps its place in the present line. -/
structure PipeCursor where
  line : Cursor := {}
  /-- The lines that follow, each with its line feed. -/
  input : List Text

namespace PipeCursor

/-- A request to the reader. A line that is used up is replaced by the next, and by an empty one
where none follows. -/
def ask (r : PipeCursor) : Option (Option Text × PipeCursor) :=
  if r.line.isAtEnd then
    match r.input with
    | [] => some (none, { input := [] })
    | line :: input =>
      (Cursor.next? { text := line }).map fun (piece, line) => (piece, { line, input })
  else r.line.next?.map fun (piece, line) => (piece, { line, input := r.input })

/-- The place in the line is where the reader has got to, and the lines to come are the same. -/
def Follows (r : PipeCursor) (reader : PipeReader) : Prop :=
  r.line.Faces reader.line ∧ r.input = reader.input

variable {r : PipeCursor} {reader reader' : PipeReader} {p : Text}

theorem Follows.ask_of_read_eq_some (h : r.Follows reader)
    (hinput : ∀ line ∈ reader.input, line ≠ []) (hread : reader.read = some (p, reader')) :
    ∃ r', r.ask = some (some p, r') ∧ r'.Follows reader' := by
  obtain ⟨rest, input⟩ := reader
  obtain ⟨hfaces, hsame⟩ := h
  rw [ask, hsame]
  by_cases hrest : rest = []
  · rw [if_pos (hfaces.isAtEnd_iff.mpr hrest)]
    subst hrest
    cases input with
    | nil => cases hread
    | cons line input =>
        cases hread
        obtain ⟨c', hnext, hfaces'⟩ :=
          (Cursor.faces_all line).next?_eq_some (hinput line List.mem_cons_self)
        exact ⟨⟨c', input⟩, by simp [hnext], hfaces', rfl⟩
  · rw [if_neg (mt hfaces.isAtEnd_iff.mp hrest)]
    simp only [PipeReader.read, List.isEmpty_iff, if_neg hrest, Option.some.injEq,
      Prod.mk.injEq] at hread
    obtain ⟨rfl, rfl⟩ := hread
    obtain ⟨c', hnext, hfaces'⟩ := hfaces.next?_eq_some hrest
    exact ⟨⟨c', input⟩, by simp [hnext], hfaces', rfl⟩

theorem Follows.ask_of_read_eq_none (h : r.Follows reader) (hread : reader.read = none) :
    ∃ r', r.ask = some (none, r') ∧ r'.Follows reader := by
  obtain ⟨rest, input⟩ := reader
  obtain ⟨hfaces, hsame⟩ := h
  have hrest : rest = [] := by
    by_contra hne
    simp [PipeReader.read, hne] at hread
  subst hrest
  cases input with
  | nil =>
      refine ⟨{ input := [] }, ?_, Cursor.faces_all [], rfl⟩
      rw [ask, if_pos (hfaces.isAtEnd_iff.mpr rfl), hsame]
  | cons line input => cases hread

theorem yields : Yields ask fun r ps => ∃ reader, r.Follows reader ∧ reader.Holds ps where
  piece r p ps h := by
    obtain ⟨reader, hfollows, hholds⟩ := h
    obtain ⟨reader', hread, hholds'⟩ := hholds.read_eq_some
    obtain ⟨r', hask, hfollows'⟩ := hfollows.ask_of_read_eq_some hholds.1 hread
    exact ⟨r', hask, reader', hfollows', hholds'⟩
  nothing r h := by
    obtain ⟨reader, hfollows, hholds⟩ := h
    obtain ⟨r', hask, hfollows'⟩ := hfollows.ask_of_read_eq_none hholds.read_eq_none
    exact ⟨r', hask, reader, hfollows', hholds⟩

end PipeCursor

/-! ### The pieces that are read -/

/-- **Commands are read alike from an argument and from a pipe.** On every text both readers read
the same pieces, and these are the pieces that the text is cut into. Asked again and again, each
reader answers with the pieces in order, and with nothing from then on. It does so by place as
well, without a cut past the end of a text or within a character, which would be no answer. -/
theorem readers_read_alike (t : Text) :
    let pieces := ArgumentReader.pieces t
    PipeReader.pieces t = pieces ∧ (∀ ps, Text.CutInto t ps ↔ ps = pieces) ∧
    ∀ n : Nat,
      nthAnswer (request ArgumentReader.read) n ⟨t⟩ = some pieces[n]? ∧
      nthAnswer (request PipeReader.read) n { input := Text.segments t } = some pieces[n]? ∧
      nthAnswer Cursor.ask n { text := t } = some pieces[n]? ∧
      nthAnswer PipeCursor.ask n { input := Text.segments t } = some pieces[n]? := by
  intro pieces
  have hpieces : pieces = Text.pieces t := ArgumentReader.pieces_eq t
  have hsegments := PipeReader.holds_segments t
  rw [hpieces]
  refine ⟨PipeReader.pieces_eq t, fun _ => Text.cutInto_iff, fun n => ⟨?_, ?_, ?_, ?_⟩⟩
  · exact ArgumentReader.yields.nthAnswer rfl n
  · exact PipeReader.yields.nthAnswer hsegments n
  · exact Cursor.yields.nthAnswer ⟨t, Cursor.faces_all t, rfl⟩ n
  · exact PipeCursor.yields.nthAnswer ⟨_, ⟨Cursor.faces_all [], rfl⟩, hsegments⟩ n

/-- Delimiters beside each other, a line feed behind one, and no delimiter at the end. -/
example : ArgumentReader.pieces "é;;a\n\nb;\nç".toList =
    ["é", "", "a", "", "b", "", "ç"].map String.toList := by decide

end TeachingCpu
