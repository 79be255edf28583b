import Mathlib.Data.List.Chain
import Mathlib.Logic.Relation
import TeachingCpu.Proofs.Assembly.Separators
/-!
# TeachingCpu.Proofs.Assembly.Spacing

**The normal form of a line stands for all lines that differ from it in spacing alone.** Separators
can be spaced differently in two ways: a run of them can be another run, and next to a comma there
can be more or fewer of them, or none (`SourceLine.Respaces`). Lines have the same normal form
exactly if such steps lead from one to the other (`SourceLine.normalise_eq_iff`), since they also
lead from each line to its normal form.

What a normal form looks like is said without the loop that makes it (`SourceLine.IsNormal`). The
loop keeps its result backwards. Whether two characters may stand next to each other does not depend
on the direction (`SourceLine.MayMeet.symm`), so what is written is in normal form all along.
-/

set_option autoImplicit false

namespace TeachingCpu

namespace SourceLine

/-! ### Spacing and normal forms -/

/-- The second text is the first with other separators: one run of them is replaced by another, or
some are put before a comma or behind it. -/
inductive Respaces : Text → Text → Prop
  | run (before after : Text) {seps seps' : Text} (hne : seps ≠ []) (hne' : seps' ≠ [])
      (hseps : ∀ s ∈ seps, isSeparator s = true) (hseps' : ∀ s ∈ seps', isSeparator s = true) :
      Respaces (before ++ seps ++ after) (before ++ seps' ++ after)
  | beforeComma (before after : Text) {seps : Text} (hseps : ∀ s ∈ seps, isSeparator s = true) :
      Respaces (before ++ ',' :: after) (before ++ seps ++ ',' :: after)
  | behindComma (before after : Text) {seps : Text} (hseps : ∀ s ∈ seps, isSeparator s = true) :
      Respaces (before ++ ',' :: after) (before ++ ',' :: (seps ++ after))

/-- Texts that differ in their spacing alone, however often it is changed to and fro. -/
def SpacedAlike : Text → Text → Prop := Relation.EqvGen Respaces

/-- A text is in normal form: of the separators it has `@` signs only, and none of them is next to
another or to a comma. -/
structure IsNormal (t : Text) : Prop where
  no_space : ' ' ∉ t
  no_tab : '\t' ∉ t
  no_two_signs : ¬['@', '@'] <:+: t
  no_sign_before_comma : ¬['@', ','] <:+: t
  no_sign_behind_comma : ¬[',', '@'] <:+: t

/-- Two characters may stand next to each other in a normal form. -/
def MayMeet (c d : Char) : Prop :=
  ¬(c = '@' ∧ d = '@') ∧ ¬(c = '@' ∧ d = ',') ∧ ¬(c = ',' ∧ d = '@')

/-- What is written so far with one character more, by the cases that there are. The last character
written comes first. -/
inductive Feeds (done : Text) (c : Char) : Text → Prop
  /-- A comma takes back the separators before it. -/
  | comma (hc : c = ',') : Feeds done c (',' :: done.dropWhile isSeparator)
  /-- Behind a separator or a comma, a separator is not written. -/
  | absorbed {d : Char} {rest : Text} (hc : isSeparator c = true) (hdone : done = d :: rest)
      (hd : d = '@' ∨ d = ',') : Feeds done c done
  /-- Behind all else it is written as an `@` sign. -/
  | sign (hc : isSeparator c = true) (hhead : ∀ d ∈ done.head?, d ≠ '@' ∧ d ≠ ',') :
      Feeds done c ('@' :: done)
  /-- Any other character is written as it is. -/
  | other (hc : isSeparator c = false) (hcomma : c ≠ ',') : Feeds done c (c :: done)

variable {t t' done next seps : Text} {c d : Char}

theorem MayMeet.symm (h : MayMeet c d) : MayMeet d c := by
  obtain ⟨hsigns, hbefore, hbehind⟩ := h
  exact ⟨mt And.symm hsigns, mt And.symm hbehind, mt And.symm hbefore⟩

theorem isNormal_iff :
    IsNormal t ↔ (∀ c ∈ t, isSeparator c = true → c = '@') ∧ t.IsChain MayMeet := by
  constructor
  · intro h
    refine ⟨fun c hc hsep => ?_, (List.isChain_isInfix t).imp fun c d hmeet => ?_⟩
    · rcases isSeparator_iff.mp hsep with rfl | rfl | rfl
      · exact absurd hc h.no_space
      · exact absurd hc h.no_tab
      · rfl
    · refine ⟨?_, ?_, ?_⟩
      · intro hsigns
        obtain ⟨rfl, rfl⟩ := hsigns
        exact h.no_two_signs hmeet
      · intro hbefore
        obtain ⟨rfl, rfl⟩ := hbefore
        exact h.no_sign_before_comma hmeet
      · intro hbehind
        obtain ⟨rfl, rfl⟩ := hbehind
        exact h.no_sign_behind_comma hmeet
  · intro h
    obtain ⟨hseps, hchain⟩ := h
    have hmeet {c d : Char} (hpair : [c, d] <:+: t) : MayMeet c d :=
      List.isChain_pair.mp <| List.IsChain.infix hchain hpair
    exact {
      no_space := fun hc => absurd (hseps ' ' hc rfl) (by decide)
      no_tab := fun hc => absurd (hseps '\t' hc rfl) (by decide)
      no_two_signs := fun hpair => (hmeet hpair).1 ⟨rfl, rfl⟩
      no_sign_before_comma := fun hpair => (hmeet hpair).2.1 ⟨rfl, rfl⟩
      no_sign_behind_comma := fun hpair => (hmeet hpair).2.2 ⟨rfl, rfl⟩ }

theorem IsNormal.nil : IsNormal [] := isNormal_iff.mpr ⟨nofun, .nil⟩

/-- A normal form read backwards is one. -/
theorem IsNormal.reverse (h : IsNormal t) : IsNormal t.reverse := by
  obtain ⟨hseps, hchain⟩ := isNormal_iff.mp h
  refine isNormal_iff.mpr ⟨fun c hc => hseps c (List.mem_reverse.mp hc), ?_⟩
  exact List.isChain_reverse.mpr (hchain.imp fun _ _ => MayMeet.symm)

theorem isNormal_cons_iff :
    IsNormal (c :: t) ↔
      (isSeparator c = true → c = '@') ∧ (∀ d ∈ t.head?, MayMeet c d) ∧ IsNormal t := by
  simp only [isNormal_iff, List.forall_mem_cons, List.isChain_cons]
  tauto

theorem IsNormal.of_suffix (h : IsNormal t) (hsuffix : t' <:+ t) : IsNormal t' := by
  obtain ⟨hseps, hchain⟩ := isNormal_iff.mp h
  exact isNormal_iff.mpr ⟨fun c hc => hseps c (hsuffix.subset hc), hchain.suffix hsuffix⟩

/-! ### One character more -/

theorem feeds_feed (done : Text) (c : Char) : Feeds done c (feed done c) := by
  unfold feed
  split
  · next hc => exact .comma hc
  · next hcomma =>
      split
      · next hc =>
          split
          · exact .absorbed hc rfl (.inl rfl)
          · exact .absorbed hc rfl (.inr rfl)
          · next hsign hcomma =>
              refine .sign hc fun d hd => ?_
              obtain ⟨rest, rfl⟩ := List.head?_eq_some_iff.mp hd
              exact ⟨fun heq => hsign rest (heq ▸ rfl), fun heq => hcomma rest (heq ▸ rfl)⟩
      · next hc => exact .other (Bool.eq_false_iff.mpr hc) hcomma

/-- What is written so far stays in normal form. -/
theorem Feeds.isNormal (hfeeds : Feeds done c next) (h : IsNormal done) : IsNormal next := by
  cases hfeeds with
  | comma _ =>
      have hrest := h.of_suffix (List.dropWhile_suffix isSeparator)
      refine isNormal_cons_iff.mpr ⟨fun hsep => absurd hsep (by decide), fun d hd => ?_, hrest⟩
      have hsep := List.head?_dropWhile_not isSeparator done
      rw [hd] at hsep
      have hsign : d ≠ '@' := ne_at (by simpa using hsep)
      exact ⟨by simp, by simp, fun hmeet => hsign hmeet.2⟩
  | absorbed _ _ _ => exact h
  | sign _ hhead =>
      refine isNormal_cons_iff.mpr ⟨fun _ => rfl, fun d hd => ?_, h⟩
      obtain ⟨hsign, hcomma⟩ := hhead d hd
      exact ⟨fun hmeet => hsign hmeet.2, fun hmeet => hcomma hmeet.2, by simp⟩
  | other hc hcomma =>
      have hsign := ne_at hc
      refine isNormal_cons_iff.mpr ⟨fun hsep => by simp [hc] at hsep, fun d _ => ?_, h⟩
      exact ⟨fun hmeet => hsign hmeet.1, fun hmeet => hsign hmeet.1, fun hmeet => hcomma hmeet.1⟩

/-- A character that keeps a normal form is written as it is. -/
theorem Feeds.eq_cons_of_isNormal (hfeeds : Feeds done c next) (h : IsNormal (c :: done)) :
    next = c :: done := by
  obtain ⟨hsign, hhead, hnormal⟩ := isNormal_cons_iff.mp h
  cases hfeeds with
  | comma hc =>
      subst hc
      cases done with
      | nil => rfl
      | cons d rest =>
          -- a separator behind the comma would be an `@` sign
          have hd : ¬isSeparator d = true := fun hsep =>
            (hhead d rfl).2.2 ⟨rfl, (isNormal_cons_iff.mp hnormal).1 hsep⟩
          rw [List.dropWhile_cons_of_neg hd]
  | absorbed hc hdone hd =>
      subst hdone
      obtain ⟨hsigns, hbefore, -⟩ := hhead _ rfl
      rcases hd with rfl | rfl
      · exact absurd ⟨hsign hc, rfl⟩ hsigns
      · exact absurd ⟨hsign hc, rfl⟩ hbefore
  | sign hc _ => rw [hsign hc]
  | other _ _ => rfl

/-- The characters that are no separators are kept. -/
theorem Feeds.filter_eq (hfeeds : Feeds done c next) : next.filter (!isSeparator ·) =
    [c].filter (!isSeparator ·) ++ done.filter (!isSeparator ·) := by
  cases hfeeds with
  | comma hc =>
      subst hc
      have hdropped : (done.takeWhile isSeparator).filter (!isSeparator ·) = [] :=
        List.filter_eq_nil_iff.mpr fun s hs => by simp [List.mem_takeWhile_imp hs]
      have hkept : (done.dropWhile isSeparator).filter (!isSeparator ·) =
          done.filter (!isSeparator ·) := by
        conv_rhs => rw [← List.takeWhile_append_dropWhile (p := isSeparator) (l := done)]
        rw [List.filter_append, hdropped, List.nil_append]
      rw [List.filter_cons, hkept]
      rfl
  | absorbed hc _ _ => simp [hc]
  | sign hc _ =>
      have hsign : isSeparator '@' = true := rfl
      simp [hc, hsign]
  | other hc _ => simp [hc]

/-! ### Whole lines -/

theorem IsNormal.foldl_feed (h : IsNormal done) (t : Text) : IsNormal (t.foldl feed done) := by
  induction t generalizing done with
  | nil => exact h
  | cons c t ih => exact ih ((feeds_feed done c).isNormal h)

theorem isNormal_normalise (t : Text) : IsNormal (normalise t) :=
  (IsNormal.nil.foldl_feed t).reverse

theorem filter_foldl_feed (t done : Text) : (t.foldl feed done).filter (!isSeparator ·) =
    (t.filter (!isSeparator ·)).reverse ++ done.filter (!isSeparator ·) := by
  induction t generalizing done with
  | nil => rfl
  | cons c t ih =>
      rw [List.foldl_cons, ih, (feeds_feed done c).filter_eq, List.filter_cons]
      cases hsep : isSeparator c <;> simp [hsep]

theorem filter_normalise (t : Text) :
    (normalise t).filter (!isSeparator ·) = t.filter (!isSeparator ·) := by
  rw [normalise, List.filter_reverse, filter_foldl_feed, List.filter_nil, List.append_nil,
    List.reverse_reverse]

theorem foldl_feed_of_isNormal (h : IsNormal (t.reverse ++ done)) :
    t.foldl feed done = t.reverse ++ done := by
  induction t generalizing done with
  | nil => rfl
  | cons c t ih =>
      rw [List.reverse_cons, List.append_assoc, List.singleton_append] at h ⊢
      have hfirst := (feeds_feed done c).eq_cons_of_isNormal (h.of_suffix (List.suffix_append _ _))
      rw [List.foldl_cons, hfirst, ih h]

/-- A normal form is its own. -/
theorem normalise_of_isNormal (h : IsNormal t) : normalise t = t := by
  have hreverse := h.reverse
  rw [← List.append_nil t.reverse] at hreverse
  rw [normalise, foldl_feed_of_isNormal hreverse, List.append_nil, List.reverse_reverse]

/-! ### Spacing does not matter -/

/-- After a separator, the last character written is an `@` sign or a comma. -/
theorem Feeds.exists_eq_cons (hfeeds : Feeds done c next) (hc : isSeparator c = true) :
    ∃ d rest, next = d :: rest ∧ (d = '@' ∨ d = ',') := by
  cases hfeeds with
  | comma hcomma => exact absurd hcomma (ne_comma hc)
  | absorbed _ hdone hd => exact ⟨_, _, hdone, hd⟩
  | sign _ _ => exact ⟨'@', done, rfl, .inl rfl⟩
  | other hother _ => simp [hc] at hother

/-- A run of separators is written as one `@` sign would be. -/
theorem foldl_feed_run (hne : seps ≠ []) (hseps : ∀ s ∈ seps, isSeparator s = true)
    (done : Text) : seps.foldl feed done = feed done '@' := by
  obtain ⟨s, seps, rfl⟩ := List.exists_cons_of_ne_nil hne
  obtain ⟨hs, hseps⟩ := List.forall_mem_cons.mp hseps
  have hsame : Respaced [s] ['@'] := .cons (.inr ⟨hs, rfl⟩) .nil
  have hfirst : feed done s = feed done '@' := hsame.foldl_feed done
  obtain ⟨d, rest, heq, hd⟩ := (feeds_feed done '@').exists_eq_cons rfl
  rw [List.foldl_cons, hfirst, heq, foldl_feed_separators hd hseps]

theorem Feeds.dropWhile_eq (hfeeds : Feeds done c next) (hc : isSeparator c = true) :
    next.dropWhile isSeparator = done.dropWhile isSeparator := by
  cases hfeeds with
  | comma hcomma => exact absurd hcomma (ne_comma hc)
  | absorbed _ _ _ => rfl
  | sign _ _ => exact List.dropWhile_cons_of_pos rfl
  | other hother _ => simp [hc] at hother

/-- What a comma leaves of a text does not depend on the separators before the comma. -/
theorem dropWhile_foldl_feed (hseps : ∀ s ∈ seps, isSeparator s = true) (done : Text) :
    (seps.foldl feed done).dropWhile isSeparator = done.dropWhile isSeparator := by
  induction seps generalizing done with
  | nil => rfl
  | cons s seps ih =>
      obtain ⟨hs, hseps⟩ := List.forall_mem_cons.mp hseps
      rw [List.foldl_cons, ih hseps, (feeds_feed done s).dropWhile_eq hs]

theorem feed_comma (done : Text) : feed done ',' = ',' :: done.dropWhile isSeparator := rfl

theorem Respaces.normalise_eq (h : Respaces t t') : normalise t = normalise t' := by
  rw [normalise, normalise]
  congr 1
  cases h with
  | run before after hne hne' hseps hseps' =>
      simp only [List.foldl_append, foldl_feed_run hne hseps, foldl_feed_run hne' hseps']
  | beforeComma before after hseps =>
      simp only [List.foldl_append, List.foldl_cons, feed_comma, dropWhile_foldl_feed hseps]
  | behindComma before after hseps =>
      simp only [List.foldl_append, List.foldl_cons, feed_comma,
        foldl_feed_separators (.inr rfl) hseps]

theorem Respaces.append_right (h : Respaces t t') (rest : Text) :
    Respaces (t ++ rest) (t' ++ rest) := by
  cases h with
  | run before after hne hne' hseps hseps' =>
      simpa using Respaces.run before (after ++ rest) hne hne' hseps hseps'
  | beforeComma before after hseps =>
      simpa using Respaces.beforeComma before (after ++ rest) hseps
  | behindComma before after hseps =>
      simpa using Respaces.behindComma before (after ++ rest) hseps

namespace SpacedAlike

theorem normalise_eq (h : SpacedAlike t t') : normalise t = normalise t' := by
  induction h with
  | rel _ _ hstep => exact hstep.normalise_eq
  | refl _ => rfl
  | symm _ _ _ ih => exact ih.symm
  | trans _ _ _ _ _ ih ih' => exact ih.trans ih'

theorem append_right (h : SpacedAlike t t') (rest : Text) :
    SpacedAlike (t ++ rest) (t' ++ rest) := by
  induction h with
  | rel _ _ hstep => exact .rel _ _ (hstep.append_right rest)
  | refl _ => exact .refl _
  | symm _ _ _ ih => exact .symm _ _ ih
  | trans _ _ _ _ _ ih ih' => exact .trans _ _ _ ih ih'

end SpacedAlike

theorem normalise_concat (t : Text) (c : Char) :
    normalise (t ++ [c]) = (feed (normalise t).reverse c).reverse := by
  rw [normalise, normalise, List.foldl_append, List.reverse_reverse]
  rfl

/-- Writing a character behind a text changes the spacing at most. -/
theorem Feeds.spacedAlike (hfeeds : Feeds done c next) :
    SpacedAlike (done.reverse ++ [c]) next.reverse := by
  have hone (hc : isSeparator c = true) : ∀ s ∈ [c], isSeparator s = true :=
    List.forall_mem_singleton.mpr hc
  have hsign : ∀ s ∈ ['@'], isSeparator s = true := List.forall_mem_singleton.mpr rfl
  cases hfeeds with
  | comma hc =>
      subst hc
      have hseps : ∀ s ∈ (done.takeWhile isSeparator).reverse, isSeparator s = true := fun s hs =>
        List.mem_takeWhile_imp (List.mem_reverse.mp hs)
      -- the separators that the comma takes back stood right before it
      have hstep := Respaces.beforeComma (done.dropWhile isSeparator).reverse [] hseps
      rw [← List.reverse_append, List.takeWhile_append_dropWhile] at hstep
      rw [List.reverse_cons]
      exact .symm _ _ (.rel _ _ hstep)
  | @absorbed d rest hc hdone hd =>
      subst hdone
      rcases hd with rfl | rfl
      · -- two separators are one run, and so is the first of them
        have hboth : ∀ s ∈ ['@', c], isSeparator s = true := List.forall_mem_cons.mpr ⟨rfl, hone hc⟩
        have hstep := Respaces.run rest.reverse [] (List.cons_ne_nil _ _) (List.cons_ne_nil _ _)
          hboth hsign
        exact .rel _ _ (by simpa using hstep)
      · have hstep := Respaces.behindComma rest.reverse [] (hone hc)
        exact .symm _ _ (.rel _ _ (by simpa using hstep))
  | sign hc _ =>
      have hstep := Respaces.run done.reverse [] (List.cons_ne_nil _ _) (List.cons_ne_nil _ _)
        (hone hc) hsign
      exact .rel _ _ (by simpa using hstep)
  | other _ _ =>
      rw [List.reverse_cons]
      exact .refl _

theorem spacedAlike_normalise (t : Text) : SpacedAlike t (normalise t) := by
  induction t using List.reverseRecOn with
  | nil => exact .refl _
  | append_singleton t c ih =>
      have hlast := (feeds_feed (normalise t).reverse c).spacedAlike
      rw [List.reverse_reverse] at hlast
      rw [normalise_concat]
      exact .trans _ _ _ (ih.append_right [c]) hlast

/-- Two lines have the same normal form just if they differ in their spacing alone. -/
theorem normalise_eq_iff : normalise t = normalise t' ↔ SpacedAlike t t' := by
  constructor
  · intro h
    have hback := spacedAlike_normalise t'
    rw [← h] at hback
    exact .trans _ _ _ (spacedAlike_normalise t) (.symm _ _ hback)
  · exact SpacedAlike.normalise_eq

/-- **Lines have a canonical form.** The normal form of a line has no blank and no tab, no two `@`
signs next to each other and none next to a comma. Its other characters are those of the line in
the same order, and it is its own normal form. Two lines have the same one exactly if runs of
separators replaced by runs of separators, and separators put next to commas or taken away there,
lead from one line to the other. -/
theorem normalise_canonical (t : Text) :
    IsNormal (normalise t) ∧
    (normalise t).filter (!isSeparator ·) = t.filter (!isSeparator ·) ∧
    normalise (normalise t) = normalise t ∧
    ∀ t', normalise t = normalise t' ↔ SpacedAlike t t' :=
  ⟨isNormal_normalise t, filter_normalise t, normalise_of_isNormal (isNormal_normalise t),
    fun _ => normalise_eq_iff⟩

/-- Separators at both ends, between commas and beside one. -/
example : normalise "\t ,@ ,, a @\tb\t".toList = ",,,a@b@".toList := by decide

end SourceLine

end TeachingCpu
