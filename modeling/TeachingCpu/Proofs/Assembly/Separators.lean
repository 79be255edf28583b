import TeachingCpu.Proofs.Assembly.NormalForm
import TeachingCpu.Proofs.Text.Pointwise
import TeachingCpu.Proofs.Text.Trim
/-!
# TeachingCpu.Proofs.Assembly.Separators

**Blanks, tabs and `@` signs are one separator, except at the end of a line.** In a source, any of
them may be replaced by any other (`SourceLine.Respaced`) without consequences but for spans, as
long as this leaves the lines that end in a separator the same ones (`SourceLine.EndsInSeparator`).

The exception has to be made because two rules meet at the end of a line. White space there is
dropped before separators are looked at, and an `@` sign is no white space; what is left of it makes
an empty last field, which no line may have. Behind a comma a separator disappears, so there an `@`
sign is harmless.

A line is compared with its stem, which is what is left of it without the white space and the `@`
signs at its end. Replacing separators commutes with taking the stem, as it does not with dropping
white space, and the normal form of a line that does not end in a separator is that of its stem
(`SourceLine.normalise_stem`).
-/

set_option autoImplicit false

namespace TeachingCpu

namespace SourceLine

/-! ### Replacing separators -/

/-- Two characters are the same, or separators both. -/
def Interchangeable (c d : Char) : Prop := c = d ∨ isSeparator c = true ∧ isSeparator d = true

instance (c d : Char) : Decidable (Interchangeable c d) :=
  inferInstanceAs (Decidable (c = d ∨ isSeparator c = true ∧ isSeparator d = true))

/-- A text is another in which separators are replaced by separators. -/
def Respaced : Text → Text → Prop := List.Forall₂ Interchangeable

instance (t t' : Text) : Decidable (Respaced t t') :=
  inferInstanceAs (Decidable (List.Forall₂ Interchangeable t t'))

/-- Separators with something other than a comma before them stand at the end of a text. -/
def EndsInSeparator (t : Text) : Prop :=
  ∃ body c seps, t = body ++ c :: seps ∧ isSeparator c = false ∧ c ≠ ',' ∧ seps ≠ [] ∧
    ∀ s ∈ seps, isSeparator s = true

/-- White space and `@` signs: the separators, and what else is dropped at the end of a line. -/
def isLoose (c : Char) : Bool := Text.isBlank c || c == '@'

/-- What is left of a text without the white space and the `@` signs at its end. -/
def stem (t : Text) : Text := t.rdropWhile isLoose

variable {t t' : Text} {c d : Char}

theorem ne_comma (h : isSeparator c = true) : c ≠ ',' := by
  rintro rfl
  exact absurd h (by decide)

/-- A test that all separators pass alike does not see them replaced. -/
theorem Interchangeable.test_eq (h : Interchangeable c d) (p : Char → Bool)
    (hp : ∀ s, isSeparator s = true → p s = p ' ') : p c = p d := by
  rcases h with rfl | ⟨hc, hd⟩
  · rfl
  · rw [hp c hc, hp d hd]

/-- What is no separator is not replaced. -/
theorem Interchangeable.eq_iff {e : Char} (h : Interchangeable c d) (he : isSeparator e = false) :
    c = e ↔ d = e := by
  have hne {s : Char} (hs : isSeparator s = true) : (s == e) = false := by
    refine beq_false_of_ne fun heq => ?_
    rw [heq, he] at hs
    exact Bool.noConfusion hs
  have htest := h.test_eq (· == e) fun s hs => (hne hs).trans (hne (by decide)).symm
  simpa using congrArg (· = true) htest

namespace Respaced

theorem segments (h : Respaced t t') :
    List.Forall₂ Respaced (Text.segments t) (Text.segments t') :=
  Text.forall₂_segments (fun _ _ hcd => hcd.eq_iff (by decide)) h

/-- What stands before the comment of a line. -/
theorem code (h : Respaced t t') :
    Respaced ((Text.chomp t).takeWhile (· != ';')) ((Text.chomp t').takeWhile (· != ';')) := by
  refine Text.forall₂_takeWhile (fun _ _ hcd => hcd.test_eq (· != ';') fun s hs => ?_)
    (Text.forall₂_chomp (fun _ _ hcd => hcd.eq_iff (by decide))
      (fun _ _ hcd => hcd.eq_iff (by decide)) h)
  rcases isSeparator_iff.mp hs with rfl | rfl | rfl <;> decide

theorem stem (h : Respaced t t') : Respaced (stem t) (stem t') := by
  refine Text.forall₂_rdropWhile (fun _ _ hcd => hcd.test_eq isLoose fun s hs => ?_) h
  rcases isSeparator_iff.mp hs with rfl | rfl | rfl <;> decide

theorem foldl_feed (h : Respaced t t') (done : Text) :
    t.foldl feed done = t'.foldl feed done := by
  induction h generalizing done with
  | nil => rfl
  | @cons c d t t' hcd _ ih =>
      have hfeed : feed done c = feed done d := by
        rcases hcd with rfl | ⟨hc, hd⟩
        · rfl
        · unfold feed
          rw [if_neg (ne_comma hc), if_neg (ne_comma hd), if_pos hc, if_pos hd]
      rw [List.foldl_cons, List.foldl_cons, hfeed, ih]

theorem normalise_eq (h : Respaced t t') : normalise t = normalise t' :=
  congrArg List.reverse (h.foldl_feed [])

end Respaced

/-! ### Normal forms -/

/-- Behind a separator or a comma, separators leave no trace. -/
theorem foldl_feed_separators {done seps : Text} (hc : c = '@' ∨ c = ',')
    (hseps : ∀ s ∈ seps, isSeparator s = true) : seps.foldl feed (c :: done) = c :: done := by
  induction seps with
  | nil => rfl
  | cons s seps ih =>
      obtain ⟨hs, hseps⟩ := List.forall_mem_cons.mp hseps
      have hfeed : feed (c :: done) s = c :: done := by
        rcases isSeparator_iff.mp hs with rfl | rfl | rfl <;> rcases hc with rfl | rfl <;> rfl
      rw [List.foldl_cons, hfeed, ih hseps]

theorem normalise_append_comma {body seps : Text} (hseps : ∀ s ∈ seps, isSeparator s = true) :
    normalise (body ++ ',' :: seps) = normalise (body ++ [',']) := by
  have hcomma (done : Text) : feed done ',' = ',' :: done.dropWhile isSeparator := rfl
  rw [normalise, normalise, List.foldl_append, List.foldl_append, List.foldl_cons, hcomma,
    foldl_feed_separators (.inr rfl) hseps]
  rfl

theorem feed_of_other (done : Text) (hc : isSeparator c = false) (hcomma : c ≠ ',') :
    feed done c = c :: done := by
  unfold feed
  rw [if_neg hcomma, if_neg (by rw [hc]; exact Bool.false_ne_true)]

theorem feed_of_separator (done : Text) (hc : isSeparator c = false) (hcomma : c ≠ ',')
    (hd : isSeparator d = true) : feed (c :: done) d = '@' :: c :: done := by
  unfold feed
  rw [if_neg (ne_comma hd), if_pos hd]
  split
  · next heq => exact absurd (List.cons.inj heq).1 (ne_at hc)
  · next heq => exact absurd (List.cons.inj heq).1 hcomma
  · rfl

theorem getLast?_normalise_concat (body : Text) (hc : isSeparator c = false) :
    (normalise (body ++ [c])).getLast? = some c := by
  rw [normalise, List.getLast?_reverse, List.foldl_append]
  change (feed _ c).head? = some c
  by_cases hcomma : c = ','
  · rw [hcomma]
    rfl
  · rw [feed_of_other _ hc hcomma]
    rfl

/-- A line that ends in a separator has an empty last field. -/
theorem EndsInSeparator.exists_normalise_eq (h : EndsInSeparator t) :
    ∃ done, normalise t = done ++ ['@'] ∧ isVoid (normalise t) = false := by
  obtain ⟨body, c, seps, rfl, hc, hcomma, hne, hseps⟩ := h
  obtain ⟨s, seps, rfl⟩ := List.exists_cons_of_ne_nil hne
  obtain ⟨hs, hseps⟩ := List.forall_mem_cons.mp hseps
  refine ⟨(body.foldl feed []).reverse ++ [c], ?_, ?_⟩
  · rw [normalise, List.foldl_append, List.foldl_cons, List.foldl_cons,
      feed_of_other _ hc hcomma, feed_of_separator _ hc hcomma hs,
      foldl_feed_separators (.inl rfl) hseps]
    simp
  · rw [isVoid_normalise]
    simp [hc]

/-- Whether a line ends in a separator shows in its normal form. -/
theorem endsInSeparator_iff :
    EndsInSeparator t ↔ isVoid (normalise t) = false ∧ (normalise t).getLast? = some '@' := by
  constructor
  · intro h
    obtain ⟨done, hnormal, hvoid⟩ := h.exists_normalise_eq
    exact ⟨hvoid, by rw [hnormal, List.getLast?_concat]⟩
  · rintro ⟨hvoid, hlast⟩
    rcases Text.all_or_exists_last_not isSeparator t with hall | ⟨body, c, seps, rfl, hc, hseps⟩
    · rw [isVoid_normalise, List.all_eq_true.mpr hall] at hvoid
      exact Bool.noConfusion hvoid
    · refine ⟨body, c, seps, rfl, hc, ?_, ?_, hseps⟩
      · rintro rfl
        rw [normalise_append_comma hseps, getLast?_normalise_concat body hc] at hlast
        exact ne_at hc (Option.some.inj hlast)
      · rintro rfl
        rw [getLast?_normalise_concat body hc] at hlast
        exact ne_at hc (Option.some.inj hlast)

instance (t : Text) : Decidable (EndsInSeparator t) := decidable_of_iff _ endsInSeparator_iff.symm

/-- A line that ends in a separator cannot be taken apart. -/
theorem EndsInSeparator.ofText?_eq_none (h : EndsInSeparator t) :
    Fields.ofText? (normalise t) = none := by
  obtain ⟨done, hnormal, -⟩ := h.exists_normalise_eq
  have hparts : (normalise t).splitOn '@' = done.splitOn '@' ++ [[]] := by
    rw [hnormal, List.splitOn_append_cons_self, List.splitOn_nil]
  have hempty : [] ∈ ((normalise t).splitOn '@').tail := by
    rw [hparts, List.tail_append_of_ne_nil (List.splitOn_ne_nil _ _)]
    simp
  rw [Fields.ofText?]
  exact if_pos (List.any_eq_true.mpr ⟨[], hempty, rfl⟩)

/-! ### Stems -/

theorem isLoose_of_isSeparator (h : isSeparator c = true) : isLoose c = true := by
  rcases isSeparator_iff.mp h with rfl | rfl | rfl <;> decide

theorem stem_append {seps : Text} (hseps : ∀ s ∈ seps, isSeparator s = true) :
    stem (t ++ seps) = stem t := by
  induction seps using List.reverseRecOn with
  | nil => rw [List.append_nil]
  | append_singleton seps s ih =>
      rw [stem, ← List.append_assoc, List.rdropWhile_concat_pos _ _ _
        (isLoose_of_isSeparator (hseps s (by simp)))]
      exact ih fun s hs => hseps s (by simp [hs])

theorem stem_concat (h : isLoose c = false) : stem (t ++ [c]) = t ++ [c] :=
  List.rdropWhile_concat_neg _ _ _ (by simp [h])

/-- The normal form of a line that does not end in a separator, nor in white space, is that of its
stem. -/
theorem normalise_stem (hend : ∀ last ∈ t.getLast?, Text.isBlank last = false)
    (h : ¬EndsInSeparator t) :
    isVoid (normalise (stem t)) = isVoid (normalise t) ∧
      (isVoid (normalise t) = false → normalise (stem t) = normalise t) := by
  rcases Text.all_or_exists_last_not isSeparator t with hall | ⟨body, c, seps, rfl, hc, hseps⟩
  · have hstem : stem ([] ++ t) = stem [] := stem_append hall
    have hvoid : isVoid (normalise t) = true :=
      (isVoid_normalise t).trans (List.all_eq_true.mpr hall)
    rw [show stem t = [] from hstem, hvoid]
    exact ⟨rfl, nofun⟩
  · have hsame : normalise (stem (body ++ c :: seps)) = normalise (body ++ c :: seps) := by
      by_cases hseps' : seps = []
      · have hblank : Text.isBlank c = false := hend c (by simp [hseps'])
        have hat : (c == '@') = false := beq_false_of_ne (ne_at hc)
        rw [hseps', stem_concat (by rw [isLoose, hblank, hat]; rfl)]
      · obtain rfl : c = ',' := by
          by_contra hcomma
          exact h ⟨body, c, seps, rfl, hc, hcomma, hseps', hseps⟩
        rw [List.append_cons, stem_append hseps, stem_concat (by decide), ← List.append_cons,
          normalise_append_comma hseps]
    rw [hsame]
    exact ⟨rfl, fun _ => rfl⟩

/-- The content of a line does not end in white space. -/
theorem isBlank_of_getLast?_content {segment : Text} :
    ∀ last ∈ (content segment).getLast?, Text.isBlank last = false := by
  intro last hlast
  obtain ⟨hne, rfl⟩ := List.mem_getLast?_eq_getLast hlast
  exact Bool.eq_false_iff.mpr (List.rdropWhile_last_not Text.isBlank _ hne)

/-- Two lines end in a separator, or neither does. -/
def SameEnd (s s' : Text) : Prop := EndsInSeparator (content s) ↔ EndsInSeparator (content s')

instance (s s' : Text) : Decidable (SameEnd s s') :=
  inferInstanceAs (Decidable (EndsInSeparator (content s) ↔ EndsInSeparator (content s')))

/-- Replacing separators in a line does not change how it is taken apart, as long as it does not
change whether it ends in a separator. -/
theorem content_alike {s s' : Text} (h : Respaced s s') (hends : SameEnd s s') :
    isVoid (normalise (content s)) = isVoid (normalise (content s')) ∧
      (isVoid (normalise (content s)) = false →
        Fields.ofText? (normalise (content s)) = Fields.ofText? (normalise (content s'))) := by
  have hstem : normalise (stem (content s)) = normalise (stem (content s')) := by
    have hloose (c : Char) (hc : Text.isBlank c = true) : isLoose c = true := by
      rw [isLoose, hc]
      rfl
    rw [stem, stem, content, content, Text.rdropWhile_trimEnd hloose,
      Text.rdropWhile_trimEnd hloose]
    exact h.code.stem.normalise_eq
  by_cases hend : EndsInSeparator (content s)
  · have hend' := hends.mp hend
    obtain ⟨-, -, hvoid⟩ := hend.exists_normalise_eq
    obtain ⟨-, -, hvoid'⟩ := hend'.exists_normalise_eq
    exact ⟨hvoid.trans hvoid'.symm,
      fun _ => hend.ofText?_eq_none.trans hend'.ofText?_eq_none.symm⟩
  · obtain ⟨hvoid, hsame⟩ := normalise_stem isBlank_of_getLast?_content hend
    obtain ⟨hvoid', hsame'⟩ := normalise_stem isBlank_of_getLast?_content (mt hends.mpr hend)
    have heq : isVoid (normalise (content s)) = isVoid (normalise (content s')) := by
      rw [← hvoid, hstem, hvoid']
    refine ⟨heq, fun hkept => ?_⟩
    rw [← hsame hkept, hstem, hsame' (heq ▸ hkept)]

/-! ### Scanning -/

/-- Lines of the same number and place that are taken apart alike. -/
structure Alike (l l' : SourceLine) : Prop where
  line : l.line = l'.line
  position : l.position = l'.position
  fields : Fields.ofText? l.text = Fields.ofText? l'.text

/-- Segments whose lines are taken apart alike may stand before segments whose lines are alike. -/
theorem scanFrom_cons_alike {s s' : Text} {segments segments' : List Text}
    {line position offset offset' : Nat}
    (hvoid : isVoid (normalise (content s)) = isVoid (normalise (content s')))
    (hfields : isVoid (normalise (content s)) = false →
      Fields.ofText? (normalise (content s)) = Fields.ofText? (normalise (content s')))
    (hrest : ∀ position offset offset', List.Forall₂ Alike
      (scanFrom (line + 1) position offset segments)
      (scanFrom (line + 1) position offset' segments')) :
    List.Forall₂ Alike (scanFrom line position offset (s :: segments))
      (scanFrom line position offset' (s' :: segments')) := by
  unfold scanFrom
  dsimp only
  rw [← hvoid]
  split
  · exact hrest _ _ _
  · next hkept => exact .cons ⟨rfl, rfl, hfields (by simpa using hkept)⟩ (hrest _ _ _)

theorem scanFrom_alike {segments segments' : List Text}
    (hrespaced : List.Forall₂ Respaced segments segments')
    (hends : List.Forall₂ SameEnd segments segments') (line position offset offset' : Nat) :
    List.Forall₂ Alike (scanFrom line position offset segments)
      (scanFrom line position offset' segments') := by
  induction hrespaced generalizing line position offset offset' with
  | nil => exact .nil
  | cons hfirst _ ih =>
      cases hends with
      | cons hend hends =>
          obtain ⟨hvoid, hfields⟩ := content_alike hfirst hend
          exact scanFrom_cons_alike hvoid hfields fun _ _ _ => ih hends _ _ _ _

end SourceLine

/-! ### Assembling without spans -/

/-- Forgets where lines stand in the source, but for their numbers. -/
def Relocation.spanless : Relocation := ⟨id, fun _ => {}⟩

/-- Of the text of a line, outlining looks at its fields alone. -/
theorem Outline.follow_alike {lines lines' : List SourceLine}
    (h : List.Forall₂ (fun l l' => l.Alike l' ∧ l.span = l'.span) lines lines') (kept : Bool)
    (declared : List Text) (last : Option LastLine) :
    follow kept declared last lines = follow kept declared last lines' := by
  induction h generalizing kept declared last with
  | nil => rfl
  | cons hl _ ih =>
      obtain ⟨⟨hline, hposition, hfields⟩, hspan⟩ := hl
      simp only [follow, ih, hline, hposition, hfields, hspan]

theorem Outline.ofLines_alike {lines lines' : List SourceLine}
    (h : List.Forall₂ (fun l l' => l.Alike l' ∧ l.span = l'.span) lines lines') :
    ofLines lines = ofLines lines' := by
  rw [ofLines, follow_alike h, ofLines]

namespace Assembly

/-- The lines of two sources are alike. -/
def ReadsAlike (source source' : Text) : Prop :=
  List.Forall₂ SourceLine.Alike (SourceLine.scan source) (SourceLine.scan source')

variable {source source' : Text}

/-- That there is no line to begin with an origin is about the first line, which stays the first. -/
theorem missingOrigin_spanless (o : Outline) :
    (o.relocate .spanless).missingOrigin = o.missingOrigin.map (·.relocate .spanless) := by
  by_cases hnone : o.statements = []
  · rw [Outline.missingOrigin, Outline.statements_relocate, Outline.missingOrigin, hnone]
    rfl
  · exact Outline.missingOrigin_relocate .spanless hnone

namespace ReadsAlike

theorem outline_eq (h : ReadsAlike source source') :
    (Outline.ofSource source).relocate .spanless = (Outline.ofSource source').relocate .spanless ∧
      (Outline.ofLines (SourceLine.scan source)).2.map (·.relocate .spanless) =
        (Outline.ofLines (SourceLine.scan source')).2.map (·.relocate .spanless) := by
  have hspanless : List.Forall₂ (fun l l' => SourceLine.Alike l l' ∧ l.span = l'.span)
      ((SourceLine.scan source).map (·.relocate .spanless))
      ((SourceLine.scan source').map (·.relocate .spanless)) :=
    List.rel_map (fun _ _ hl => ⟨⟨hl.line, hl.position, hl.fields⟩, rfl⟩) h
  have hlines := Outline.ofLines_alike hspanless
  rw [Outline.ofLines_relocate, Outline.ofLines_relocate] at hlines
  exact Prod.mk.inj hlines

theorem encoder_eq (h : ReadsAlike source source') : encoder source = encoder source' := by
  have hlines : (SourceLine.scan source).map (·.tracked) =
      (SourceLine.scan source').map (·.tracked) := by
    rw [← List.forall₂_eq_eq_eq]
    exact List.rel_map (fun _ _ hl => by simp only [SourceLine.tracked, hl.position, hl.line]) h
  rw [encoder, encoder, Outline.ofSource_last, Outline.ofSource_last, ← List.getLast?_map, hlines,
    List.getLast?_map]

/-- The layouts of two sources are the same, but for spans. -/
theorem layout_eq (h : ReadsAlike source source') :
    (layout source).symbols = (layout source').symbols ∧
      (layout source).placements.map (·.relocate .spanless) =
        (layout source').placements.map (·.relocate .spanless) ∧
      (layout source).diagnostics.map (·.relocate .spanless) =
        (layout source').diagnostics.map (·.relocate .spanless) := by
  have houtline := h.outline_eq.1
  have horigin : (Outline.ofSource source).origin = (Outline.ofSource source').origin := by
    rw [← Outline.origin_relocate .spanless, houtline, Outline.origin_relocate]
  have hlayout := congrArg (Outline.layout · (Outline.ofSource source).origin) houtline
  rw [Outline.layout_relocate, Outline.layout_relocate, horigin] at hlayout
  rw [layout, layout, horigin]
  exact ⟨(congrArg Layout.symbols hlayout :), (congrArg Layout.placements hlayout :),
    (congrArg Layout.diagnostics hlayout :)⟩

theorem encodings_eq (h : ReadsAlike source source') :
    (encodings source).map (fun (s, encoding) =>
        (s.relocate .spanless, encoding.relocate .spanless)) =
      (encodings source').map fun (s, encoding) =>
        (s.relocate .spanless, encoding.relocate .spanless) := by
  rw [encodings, encodings, h.encoder_eq, ← Encoder.encodeAll_relocate,
    ← Encoder.encodeAll_relocate, h.layout_eq.2.1]

theorem lines_eq (h : ReadsAlike source source') :
    (assemble source).lines.map (·.relocate .spanless) =
      (assemble source').lines.map (·.relocate .spanless) := by
  have hline (source : Text) : (assemble source).lines.map (·.relocate .spanless) =
      ((encodings source).map fun (s, encoding) =>
        (s.relocate .spanless, encoding.relocate .spanless)).map fun (s, encoding) =>
          ⟨s, encoding.word?⟩ := by
    rw [assemble_lines, List.map_map, List.map_map]
    refine List.map_congr_left fun (s, encoding) _ => ?_
    cases encoding <;> rfl
  rw [hline, hline, h.encodings_eq]

theorem diagnostics_eq (h : ReadsAlike source source') :
    (assemble source).diagnostics.map (·.relocate .spanless) =
      (assemble source').diagnostics.map (·.relocate .spanless) := by
  have hall (source : Text) : (assemble source).diagnostics.map (·.relocate .spanless) =
      Diagnostic.sort ((Outline.ofLines (SourceLine.scan source)).2.map (·.relocate .spanless) ++
        ((Outline.ofSource source).relocate .spanless).missingOrigin ++
        (layout source).diagnostics.map (·.relocate .spanless) ++
        ((encodings source).map fun (s, encoding) =>
          (s.relocate .spanless, encoding.relocate .spanless)).filterMap
            fun (s, encoding) => encoding.diagnostic? s) := by
    have hrefused : ((encodings source).filterMap fun (s, encoding) =>
          encoding.diagnostic? s).map (·.relocate .spanless) =
        ((encodings source).map fun (s, encoding) =>
          (s.relocate .spanless, encoding.relocate .spanless)).filterMap
            fun (s, encoding) => encoding.diagnostic? s := by
      rw [List.map_filterMap, List.filterMap_map]
      refine List.filterMap_congr fun (s, encoding) _ => ?_
      cases encoding <;> rfl
    rw [missingOrigin_spanless, ← hrefused, ← List.map_append, ← List.map_append,
      ← List.map_append]
    exact Diagnostic.map_sort fun _ _ _ _ => Iff.rfl
  obtain ⟨houtline, hstructural⟩ := h.outline_eq
  rw [hall, hall, houtline, hstructural, h.layout_eq.2.2, h.encodings_eq]

end ReadsAlike

/-- Two assemblies are the same, but for the spans in their lines and diagnostics. -/
structure Agrees (a a' : Assembly) : Prop where
  data : a.data = a'.data
  symbols : a.symbols = a'.symbols
  lines : a.lines.map (fun l => (l.statement.line, l.content)) =
    a'.lines.map fun l => (l.statement.line, l.content)
  diagnostics : a.diagnostics.map (fun d => (d.line, d.defect)) =
    a'.diagnostics.map fun d => (d.line, d.defect)

theorem ReadsAlike.agrees (h : ReadsAlike source source') :
    (assemble source).Agrees (assemble source') where
  data := by
    have hwords (source : Text) : (assemble source).data =
        ((assemble source).lines.map (·.relocate .spanless)).filterMap (·.word) := by
      rw [assemble_data, List.filterMap_map]
      rfl
    rw [hwords, hwords, h.lines_eq]
  symbols := h.layout_eq.1
  lines := by
    have hcontents (source : Text) :
        (assemble source).lines.map (fun l => (l.statement.line, l.content)) =
          ((assemble source).lines.map (·.relocate .spanless)).map fun l =>
            (l.statement.line, l.content) := by
      rw [List.map_map]
      rfl
    rw [hcontents, hcontents, h.lines_eq]
  diagnostics := by
    have hdefects (source : Text) :
        (assemble source).diagnostics.map (fun d => (d.line, d.defect)) =
          ((assemble source).diagnostics.map (·.relocate .spanless)).map fun d =>
            (d.line, d.defect) := by
      rw [List.map_map]
      refine List.map_congr_left fun d _ => ?_
      obtain ⟨line, span, defect⟩ := d
      cases defect <;> rfl
    rw [hdefects, hdefects, h.diagnostics_eq]

/-- A line that ends in a separator is reported, as one that cannot be taken apart. -/
theorem unknownCommand_of_endsInSeparator {i : Nat} {segment : Text}
    (hsegment : (Text.segments source)[i]? = some segment)
    (hends : SourceLine.EndsInSeparator (SourceLine.content segment)) :
    ∃ d ∈ (assemble source).diagnostics, d.line = i + 1 ∧ d.defect = .unknownCommand := by
  obtain ⟨-, -, hvoid⟩ := hends.exists_normalise_eq
  obtain ⟨l, hl, hline, htext⟩ :=
    SourceLine.exists_mem_scan_iff.mpr ⟨i, segment, hsegment, rfl,
      SourceLine.isVoid_normalise_eq_false_iff.mp hvoid, rfl⟩
  obtain ⟨before, after, hsplit⟩ := List.append_of_mem hl
  have hbroken : l.Broken := SourceLine.broken_iff.mpr (by rw [htext]; exact hends.ofText?_eq_none)
  have hreported := ((Outline.partitions_ofLines source).reported_iff _).mpr
    ⟨before, l, after, .unknownCommand, hsplit, hbroken, rfl⟩
  exact ⟨_, mem_diagnostics_iff.mpr (.inl hreported), hline, rfl⟩

/-- The same lines of two sources end in a separator. -/
def SameEnds (source source' : Text) : Prop :=
  List.Forall₂ SourceLine.SameEnd (Text.segments source) (Text.segments source')

instance (source source' : Text) : Decidable (SameEnds source source') :=
  inferInstanceAs (Decidable (List.Forall₂ _ (Text.segments source) (Text.segments source')))

/-- **Blanks, tabs and `@` signs are one separator, except at the end of a line.** Sources in which
separators are replaced by separators assemble to the same data, symbols and lines, and the same is
wrong with the same lines, as long as the same lines end in a separator. A line that does is never
taken apart. -/
theorem separators_interchange {source source' : Text} (h : SourceLine.Respaced source source')
    (hends : SameEnds source source') :
    (assemble source).Agrees (assemble source') ∧
      ∀ i segment, (Text.segments source)[i]? = some segment →
        SourceLine.EndsInSeparator (SourceLine.content segment) →
        ∃ d ∈ (assemble source).diagnostics, d.line = i + 1 ∧ d.defect = .unknownCommand :=
  ⟨ReadsAlike.agrees (SourceLine.scanFrom_alike h.segments hends _ _ _ _),
    fun _ _ => unknownCommand_of_endsInSeparator⟩

/-- At the beginning of a line, between fields, around a comma and behind a comma at the end. -/
theorem separators_interchange_everywhere :
    let source := "ORG $00\n\tADD  #$01 , A ; a b\n_x@SUB #$01,@\nHALT".toList
    let source' := "ORG@$00\n@ADD@\t#$01@,\tA ; a b\n_x\tSUB@#$01,\t\nHALT".toList
    source ≠ source' ∧ (assemble source).Agrees (assemble source') := by
  intro source source'
  exact ⟨by decide, (separators_interchange (by decide) (by decide)).1⟩

/-- An `@` sign at the end of a line is no white space, and makes an empty field. -/
theorem separators_differ_at_the_end :
    let source := "ORG $00\nHALT@".toList
    let source' := "ORG $00\nHALT ".toList
    ';' ∉ source ∧ SourceLine.Respaced source source' ∧
      (assemble source).diagnostics.map (fun d => (d.line, d.defect)) = [(2, .unknownCommand)] ∧
      (assemble source').diagnostics.map (fun d => (d.line, d.defect)) = [] ∧
      ¬(assemble source).Agrees (assemble source') := by
  intro source source'
  have hrefused : (assemble source).diagnostics.map (fun d => (d.line, d.defect)) =
      [(2, .unknownCommand)] := by decide
  have haccepted : (assemble source').diagnostics.map (fun d => (d.line, d.defect)) = [] := by
    decide
  refine ⟨by decide, by decide, hrefused, haccepted, fun h => ?_⟩
  have hsame := h.diagnostics
  rw [hrefused, haccepted] at hsame
  cases hsame

end Assembly

end TeachingCpu
