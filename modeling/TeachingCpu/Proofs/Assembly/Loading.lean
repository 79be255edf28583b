import TeachingCpu.Proofs.Assembly.Lines
import TeachingCpu.Proofs.Machine.Load
/-!
# TeachingCpu.Proofs.Assembly.Loading

**What assembles can be loaded.** Without defects the lines are an origin and loaded lines, each
with a word, and the words fit into memory from the origin on (`Assembly.Lays`). An engine that
loads the words holds them there and nothing else (`Cpu.Holds`).

The checks behind this are made in four places: the first line must be an origin, an origin must
stand on the first line, a label on it is reported, and words past the end of memory are. That no
line got lost on the way (`Outline.follow_complete`) is what makes the four speak of one line.
-/

set_option autoImplicit false

namespace TeachingCpu

/-! ### Lines without defects -/

/-- An origin that has a word stands on the first line, and its number is in the word. -/
theorem Encoder.exists_accepts_origin {enc : Encoder} {s : Statement} {w : Word}
    (horigin : s.isOrigin = true) (h : enc.encode s = .ok w) :
    ∃ token n, s.position = 1 ∧ s.params = [token] ∧ Operand.IsNumber token n ∧
      w = Word.ofBytes 0x00 n := by
  have hok : (s.isOrigin && (enc.encode s).isOk) = true := by rw [horigin, h]; rfl
  obtain ⟨n, haccepts⟩ := isOk_encode_origin_iff.mp hok
  have hword : w = Word.ofBytes 0x00 n :=
    Except.ok.inj (h.symm.trans (encode_eq_ok_iff.mpr ⟨_, haccepts, rfl⟩))
  cases haccepts with
  | @origin token _ _ hparams htoken hposition _ =>
      exact ⟨token, n, hposition, hparams, htoken, hword⟩

theorem Symbols.resolve_eq_self_of_isNumber {symbols : Symbols} {param : Text} {n : Byte}
    (h : Operand.IsNumber (symbols.resolve param) n) : symbols.resolve param = param := by
  unfold resolve at h ⊢
  split
  · next hlabel =>
      rw [if_pos hlabel] at h
      split
      · next address hlookup =>
          rw [hlookup] at h
          cases h
      · rfl
  · rfl

namespace Assembly

variable {source : Text}

/-- The lines of an assembly are an origin and loaded lines, all with words, and the words of the
loaded lines are an image that fits into memory from the origin on. -/
structure Lays (a : Assembly) (origin : Byte) (image : List Word) : Prop where
  data : a.data = Word.ofBytes 0x00 origin :: image
  lines : ∃ first rest, a.lines = first :: rest ∧ first.statement.isLoaded = false ∧
    first.word = some (Word.ofBytes 0x00 origin) ∧
    (∀ l ∈ rest, l.statement.isLoaded = true) ∧ rest.map (·.word) = image.map some
  fits : origin.val + image.length ≤ 256

theorem outline_clean (h : (assemble source).diagnostics = []) :
    (Outline.ofLines (SourceLine.scan source)).2 = [] :=
  List.eq_nil_iff_forall_not_mem.mpr fun _ hd =>
    List.ne_nil_of_mem (mem_diagnostics_iff.mpr (.inl hd)) h

/-- Without defects the main body begins with an origin, on the first line. -/
theorem exists_first (h : (assemble source).diagnostics = []) :
    ∃ s main, (Outline.ofSource source).main = s :: main ∧ s.isOrigin = true ∧ s.position = 1 := by
  obtain ⟨s, rest, hfirst, horigin⟩ : ∃ s rest,
      (Outline.ofSource source).statements = s :: rest ∧ s.isOrigin = true := by
    cases hstatements : (Outline.ofSource source).statements with
    | nil =>
        have hd : ⟨1, {}, .missingOrg⟩ ∈ (Outline.ofSource source).missingOrigin := by
          simp [Outline.missingOrigin, hstatements]
        exact absurd h (List.ne_nil_of_mem (mem_diagnostics_iff.mpr (.inr (.inl hd))))
    | cons s rest =>
        refine ⟨s, rest, rfl, ?_⟩
        by_contra horigin
        have hd : s.diagnose .missingOrg ∈ (Outline.ofSource source).missingOrigin := by
          simp [Outline.missingOrigin, hstatements, horigin]
        exact List.ne_nil_of_mem (mem_diagnostics_iff.mpr (.inr (.inl hd))) h
  have hpositions := Outline.statements_positions (outline_clean h)
  rw [hfirst, List.map_cons, List.length_cons, List.range'_succ] at hpositions
  have hposition : s.position = 1 := (List.cons.inj hpositions).1
  have hmem : s ∈ (Outline.ofSource source).statements := hfirst ▸ List.mem_cons_self
  have hlabel : s.label = none :=
    (Outline.follow_complete [] none _ (outline_clean h)).2 s hmem hposition
  cases hmain : (Outline.ofSource source).main with
  | cons t main =>
      rw [Outline.statements, hmain, List.cons_append] at hfirst
      obtain ⟨rfl, -⟩ := List.cons.inj hfirst
      exact ⟨t, main, rfl, horigin, hposition⟩
  | nil =>
      -- a first line that opens a subroutine carries its label
      cases hsubs : (Outline.ofSource source).subroutines with
      | nil => simp [Outline.statements, hmain, hsubs] at hfirst
      | cons sub subs =>
          have hopening := (Outline.ofSource_wellFormed source).opening_label sub (by simp [hsubs])
          rw [Outline.statements, hmain, hsubs, List.flatMap_cons, Subroutine.statements] at hfirst
          obtain ⟨rfl, -⟩ := List.cons.inj hfirst
          rw [hlabel] at hopening
          simp at hopening

/-- Without defects the first line is the origin that the program is loaded at. -/
theorem exists_origin_line (h : (assemble source).diagnostics = []) :
    ∃ first rest, (assemble source).lines = first :: rest ∧ first.statement.isOrigin = true ∧
      first.statement.position = 1 ∧
      first.word = some (Word.ofBytes 0x00 (Outline.ofSource source).origin) := by
  obtain ⟨s, main, hmain, horigin, hposition⟩ := exists_first h
  have hstatements := lines_map_statement source
  rw [Outline.keptStatements, hmain, List.cons_append, List.map_cons] at hstatements
  obtain ⟨first, rest, hlines, hresolve, -⟩ := List.map_eq_cons_iff.mp hstatements
  have hmem : first ∈ (assemble source).lines := hlines ▸ List.mem_cons_self
  have horigin' : first.statement.isOrigin = true := by rw [hresolve]; exact horigin
  refine ⟨first, rest, hlines, horigin', by rw [hresolve]; exact hposition, ?_⟩
  obtain ⟨w, hword⟩ := exists_word h hmem
  obtain ⟨enc, hencode⟩ := exists_encode_of_word hmem hword
  obtain ⟨token, n, -, hparams, htoken, rfl⟩ := Encoder.exists_accepts_origin horigin' hencode
  -- the number stood in the source already, because no label resolves to one
  rw [hresolve, Statement.resolve] at hparams
  obtain ⟨param, hparam, rfl⟩ := List.map_eq_singleton_iff.mp hparams
  rw [Symbols.resolve_eq_self_of_isNumber htoken] at htoken
  have hfirst : (Outline.ofSource source).statements =
      s :: (main ++ (Outline.ofSource source).subroutines.flatMap (·.statements)) := by
    rw [Outline.statements, hmain, List.cons_append]
  rw [hword, Outline.origin_of_first hfirst horigin hparam htoken]

/-- Only the first line of an assembly without defects is an origin. -/
theorem isLoaded_of_mem_tail (h : (assemble source).diagnostics = []) {first : EncodedLine}
    {rest : List EncodedLine} (hlines : (assemble source).lines = first :: rest)
    (hposition : first.statement.position = 1) {l : EncodedLine} (hl : l ∈ rest) :
    l.statement.isLoaded = true := by
  have hmem : l ∈ (assemble source).lines := hlines ▸ List.mem_cons_of_mem _ hl
  have hincreasing := (Outline.statements_positions_increasing source).sublist
    (lines_sublist source (f := (·.position)) fun _ _ => rfl)
  rw [hlines, List.map_cons, hposition] at hincreasing
  have hlater : 1 < l.statement.position :=
    List.rel_of_pairwise_cons hincreasing (List.mem_map_of_mem hl)
  cases horigin : l.statement.isOrigin with
  | false => rw [Statement.isLoaded, horigin]; rfl
  | true =>
      obtain ⟨w, hword⟩ := exists_word h hmem
      obtain ⟨enc, hencode⟩ := exists_encode_of_word hmem hword
      obtain ⟨_, _, hone, -, -, -⟩ := Encoder.exists_accepts_origin horigin hencode
      omega

/-- **Without defects the words of the lines are an image that fits.** -/
theorem exists_lays (h : (assemble source).diagnostics = []) :
    ∃ image, (assemble source).Lays (Outline.ofSource source).origin image := by
  obtain ⟨first, rest, hlines, horigin, hposition, hfirst⟩ := exists_origin_line h
  have hloaded : ∀ l ∈ rest, l.statement.isLoaded = true := fun l hl =>
    isLoaded_of_mem_tail h hlines hposition hl
  have hnotLoaded : first.statement.isLoaded = false := by rw [Statement.isLoaded, horigin]; rfl
  -- every line has a word, so that no default is ever taken
  have hwords : rest.map (·.word) = (rest.map fun l => l.word.getD 0).map some := by
    rw [List.map_map]
    refine List.map_congr_left fun l hl => ?_
    obtain ⟨w, hword⟩ := exists_word h (hlines ▸ List.mem_cons_of_mem _ hl)
    simp [hword]
  refine ⟨rest.map fun l => l.word.getD 0, ?_,
    ⟨first, rest, hlines, hnotLoaded, hfirst, hloaded, hwords⟩, ?_⟩
  · have hdata : rest.filterMap (·.word) = rest.map fun l => l.word.getD 0 := by
      have := congrArg (List.filterMap id) hwords
      simpa [List.filterMap_map, Function.comp_def] using this
    rw [assemble_data, hlines, List.filterMap_cons_some hfirst, hdata]
  · rw [List.length_map]
    rcases List.eq_nil_or_concat rest with rfl | ⟨init, l, rfl⟩
    · exact Nat.le_of_lt (Outline.ofSource source).origin.isLt
    · -- the last line would have no word if it were past the end of memory
      by_contra hpast
      have hcount : (first :: init).countP (·.statement.isLoaded) = init.length := by
        rw [List.countP_cons_of_neg (by simp [hnotLoaded]), List.countP_eq_length]
        exact fun l hl => hloaded l (by simp [hl])
      have hsplit : (assemble source).lines = (first :: init) ++ l :: [] := by
        rw [hlines, List.concat_eq_append, List.cons_append]
      have hlast : 256 ≤ (Outline.ofSource source).origin.val + init.length := by
        simp at hpast
        omega
      have hnone := word_eq_none_of_past hsplit (hloaded l (by simp)) (hcount ▸ hlast)
      exact diagnostics_ne_nil_of_word_eq_none (by simp [hsplit]) hnone h

/-! ### Loading what assembles -/

theorem Lays.origin_eq {a : Assembly} {origin : Byte} {image : List Word}
    (h : a.Lays origin image) : a.origin = a.data.head?.map Word.low := by
  obtain ⟨first, rest, hlines, hfirst, hword, -, -⟩ := h.lines
  have horigin : first.statement.isOrigin = true := by
    simpa [Statement.isLoaded] using hfirst
  have hfind : a.lines.find? (·.statement.isOrigin) = some first := by
    rw [hlines]
    exact List.find?_cons_of_pos horigin
  rw [Assembly.origin, hfind, h.data]
  dsimp only
  rw [hword]
  rfl

/-- **What assembles can be loaded, and memory is the layout.** The data of a source without
defects are the word of its origin and the words of its loaded lines; every idle engine takes them
and then holds them. With defects or without, a loaded line past the end of memory has no word and
is reported, and a line without a word never goes unreported. -/
theorem assembled_loads (source : Text) :
    let a := assemble source
    ∃ origin, (Outline.ofSource source).LoadsAt origin ∧
      (a.diagnostics = [] → ∃ image, a.Lays origin image ∧
        a.origin = a.data.head?.map Word.low ∧
        ∀ e : Engine, e.isIdle = true →
          (e.load a.data).answer = .ok () ∧ (e.load a.data).engine.cpu.Holds origin image) ∧
      (∀ before l after, a.lines = before ++ l :: after → l.statement.isLoaded = true →
        256 ≤ origin.val + before.countP (·.statement.isLoaded) →
        l.word = none ∧ ∃ d ∈ a.diagnostics, d.defect = .addressTooLarge) ∧
      ∀ l ∈ a.lines, l.word = none → a.diagnostics ≠ [] := by
  intro a
  refine ⟨_, Outline.loadsAt_origin _, ?_, ?_, fun l => diagnostics_ne_nil_of_word_eq_none⟩
  · intro hclean
    obtain ⟨image, hlays⟩ := exists_lays hclean
    refine ⟨image, hlays, hlays.origin_eq, fun e hidle => ?_⟩
    rw [hlays.data]
    exact Engine.load_holds hidle hlays.fits
  · intro before l after hlines hloaded hpast
    exact ⟨word_eq_none_of_past hlines hloaded hpast,
      addressTooLarge_of_past hlines hloaded hpast⟩

/-- A program may end at the last word of memory. -/
theorem assembled_loads_to_the_end :
    let a := assemble "ORG $FE\nJMP _end\n_end HALT".toList
    a.data = [0x00FE#16, 0x1CFF#16, 0xFF00#16] ∧
      ∀ e : Engine, e.isIdle = true → (e.load a.data).answer = .ok () := by
  intro a
  have hclean : a.diagnostics = [] := by decide
  have hdata : a.data = [0x00FE#16, 0x1CFF#16, 0xFF00#16] := by decide
  obtain ⟨origin, -, hloads, -⟩ := assembled_loads "ORG $FE\nJMP _end\n_end HALT".toList
  obtain ⟨image, -, -, hload⟩ := hloads hclean
  exact ⟨hdata, fun e hidle => (hload e hidle).1⟩

end Assembly

end TeachingCpu
