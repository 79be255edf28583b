import Mathlib.Data.List.Forall2
import TeachingCpu.Console.Command
/-!
# TeachingCpu.Proofs.Console.Parameters

**What words are to parameters.** A parameter of a command reads one word. The words of a line fit
the parameters of a command (`Parameter.Fits`), which are then given the values of the words. Or
they do not, and the leftmost problem is one of three: there is no word for a parameter that must
be given (`Parameter.Lacks`), a parameter refuses its word (`Parameter.Refuses`), or there are
words behind the last parameter (`Parameter.Exceeds`).

A problem is described by what comes before it, which has been accepted. For a reader that goes from
left to right, each is also described by the first parameter and the first word.
-/

set_option autoImplicit false

namespace TeachingCpu

/-! ### Parameters -/

/-- A value that a word stands for. -/
inductive Value
  | count (n : Nat)
  | byte (b : Byte)
  | word (w : Word)
  | register (r : Register)
  | circuit (c : Circuit)

/-- A parameter of a command. -/
structure Parameter where
  name : String
  /-- The value of a word, if the word is accepted. -/
  read : Text → Option Value
  /-- The value without a word; a parameter that has none must be given. -/
  absent : Option Value := none

namespace Parameter

def count : Parameter where
  name := "count"
  read word := (Argument.count? word).map .count
  absent := some (.count 1)

def address : Parameter where
  name := "address"
  read word := (Argument.byte? word).map .byte

def register : Parameter where
  name := "register"
  read word := (Register.ofName? word).map .register

def value : Parameter where
  name := "value"
  read word := (Argument.word? word).map .word

def circuit : Parameter where
  name := "circuit"
  read word := (Circuit.ofName? word).map .circuit

def id : Parameter where
  name := "id"
  read word := (Argument.byte? word).map .byte

/-- The words give the parameters these values, one word each from left to right. Parameters at
the end may be left out if they have a value without a word. -/
inductive Fits : List Parameter → List Text → List Value → Prop
  | nil : Fits [] [] []
  | given {p : Parameter} {ps : List Parameter} {word : Text} {words : List Text} {v : Value}
      {vs : List Value} (hv : p.read word = some v) (hvs : Fits ps words vs) :
      Fits (p :: ps) (word :: words) (v :: vs)
  | omitted {p : Parameter} {ps : List Parameter} {v : Value} {vs : List Value}
      (hv : p.absent = some v) (hvs : Fits ps [] vs) : Fits (p :: ps) [] (v :: vs)

/-- The parameter accepts the word. -/
def Takes (p : Parameter) (word : Text) : Prop := ∃ v, p.read word = some v

/-- The words are all accepted, and a parameter of this name is the first behind them that must be
given. -/
def Lacks (ps : List Parameter) (words : List Text) (argument : String) : Prop :=
  ∃ given omitted p rest, ps = given ++ omitted ++ p :: rest ∧ List.Forall₂ Takes given words ∧
    (∀ q ∈ omitted, q.absent ≠ none) ∧ p.absent = none ∧ p.name = argument

/-- The words before this one are all accepted, and the next parameter, which is of this name,
refuses it. -/
def Refuses (ps : List Parameter) (words : List Text) (argument : String) (word : Text) : Prop :=
  ∃ given p rest taken left, ps = given ++ p :: rest ∧ words = taken ++ word :: left ∧
    List.Forall₂ Takes given taken ∧ p.read word = none ∧ p.name = argument

/-- The parameters have all accepted a word, and there are words left. -/
def Exceeds (ps : List Parameter) (words : List Text) : Prop :=
  ∃ taken left, words = taken ++ left ∧ List.Forall₂ Takes ps taken ∧ left ≠ []

/-! ### Word by word -/

variable {p : Parameter} {ps : List Parameter} {word : Text} {words : List Text}
  {vs : List Value} {argument : String} {refused : Text}

theorem fits_nil_iff : Fits [] words vs ↔ words = [] ∧ vs = [] := by
  constructor
  · intro h
    cases h
    exact ⟨rfl, rfl⟩
  · intro h
    obtain ⟨rfl, rfl⟩ := h
    exact .nil

theorem fits_cons_nil_iff :
    Fits (p :: ps) [] vs ↔ ∃ v rest, p.absent = some v ∧ Fits ps [] rest ∧ vs = v :: rest := by
  constructor
  · intro h
    cases h with
    | omitted hv hvs => exact ⟨_, _, hv, hvs, rfl⟩
  · intro h
    obtain ⟨v, rest, hv, hvs, rfl⟩ := h
    exact .omitted hv hvs

theorem fits_cons_cons_iff : Fits (p :: ps) (word :: words) vs ↔
    ∃ v rest, p.read word = some v ∧ Fits ps words rest ∧ vs = v :: rest := by
  constructor
  · intro h
    cases h with
    | given hv hvs => exact ⟨_, _, hv, hvs, rfl⟩
  · intro h
    obtain ⟨v, rest, hv, hvs, rfl⟩ := h
    exact .given hv hvs

theorem not_lacks_nil : ¬Lacks [] words argument := by
  intro h
  obtain ⟨given, omitted, p, rest, hps, -⟩ := h
  simp at hps

theorem lacks_cons_nil_iff : Lacks (p :: ps) [] argument ↔
    (p.absent = none ∧ p.name = argument) ∨ (p.absent ≠ none ∧ Lacks ps [] argument) := by
  constructor
  · intro h
    obtain ⟨given, omitted, q, rest, hps, hgiven, homitted, hq⟩ := h
    cases hgiven
    -- The first parameter is the one that must be given, or one that is left out before it.
    cases omitted with
    | nil =>
        obtain ⟨rfl, rfl⟩ := List.cons.inj hps
        exact .inl hq
    | cons o omitted =>
        obtain ⟨rfl, rfl⟩ := List.cons.inj hps
        refine .inr ⟨homitted _ List.mem_cons_self, [], omitted, q, rest, rfl, .nil, ?_, hq⟩
        exact fun o ho => homitted o (List.mem_cons_of_mem _ ho)
  · intro h
    obtain h | ⟨habsent, given, omitted, q, rest, rfl, hgiven, homitted, hq⟩ := h
    · exact ⟨[], [], p, ps, rfl, .nil, by simp, h⟩
    · cases hgiven
      exact ⟨[], p :: omitted, q, rest, rfl, .nil, List.forall_mem_cons.mpr ⟨habsent, homitted⟩, hq⟩

theorem lacks_cons_cons_iff :
    Lacks (p :: ps) (word :: words) argument ↔ p.Takes word ∧ Lacks ps words argument := by
  constructor
  · intro h
    obtain ⟨given, omitted, q, rest, hps, hgiven, h⟩ := h
    cases hgiven with
    | cons hword hgiven =>
        obtain ⟨rfl, rfl⟩ := List.cons.inj hps
        exact ⟨hword, _, omitted, q, rest, rfl, hgiven, h⟩
  · intro h
    obtain ⟨hword, given, omitted, q, rest, rfl, hgiven, h⟩ := h
    exact ⟨p :: given, omitted, q, rest, rfl, .cons hword hgiven, h⟩

theorem not_refuses_nil : ¬Refuses [] words argument refused := by
  intro h
  obtain ⟨given, p, rest, taken, left, hps, -⟩ := h
  simp at hps

theorem not_refuses_nil_right : ¬Refuses ps [] argument refused := by
  intro h
  obtain ⟨given, p, rest, taken, left, -, hwords, -⟩ := h
  simp at hwords

theorem refuses_cons_cons_iff : Refuses (p :: ps) (word :: words) argument refused ↔
    (p.read word = none ∧ p.name = argument ∧ word = refused) ∨
      (p.Takes word ∧ Refuses ps words argument refused) := by
  constructor
  · intro h
    obtain ⟨given, q, rest, taken, left, hps, hwords, htaken, hread, hname⟩ := h
    cases htaken with
    | nil =>
        obtain ⟨rfl, rfl⟩ := List.cons.inj hps
        obtain ⟨rfl, rfl⟩ := List.cons.inj hwords
        exact .inl ⟨hread, hname, rfl⟩
    | cons hword htaken =>
        obtain ⟨rfl, rfl⟩ := List.cons.inj hps
        obtain ⟨rfl, rfl⟩ := List.cons.inj hwords
        exact .inr ⟨hword, _, q, rest, _, left, rfl, rfl, htaken, hread, hname⟩
  · intro h
    obtain ⟨hread, hname, rfl⟩ | ⟨hword, given, q, rest, taken, left, rfl, rfl, htaken, h⟩ := h
    · exact ⟨[], p, ps, [], words, rfl, rfl, .nil, hread, hname⟩
    · exact ⟨p :: given, q, rest, word :: taken, left, rfl, rfl, .cons hword htaken, h⟩

theorem Exceeds.length_lt (h : Exceeds ps words) : ps.length < words.length := by
  obtain ⟨taken, left, rfl, htaken, hleft⟩ := h
  rw [List.length_append, htaken.length_eq]
  have := List.length_pos_iff.mpr hleft
  omega

theorem exceeds_nil_iff : Exceeds [] words ↔ words ≠ [] := by
  constructor
  · intro h
    obtain ⟨taken, left, rfl, htaken, hleft⟩ := h
    cases htaken
    exact hleft
  · exact fun h => ⟨[], words, rfl, .nil, h⟩

theorem not_exceeds_nil_right : ¬Exceeds ps [] := by
  intro h
  obtain ⟨taken, left, hwords, -, hleft⟩ := h
  exact hleft (List.append_eq_nil_iff.mp hwords.symm).2

theorem exceeds_cons_cons_iff :
    Exceeds (p :: ps) (word :: words) ↔ p.Takes word ∧ Exceeds ps words := by
  constructor
  · intro h
    obtain ⟨taken, left, hwords, htaken, hleft⟩ := h
    cases htaken with
    | cons hword htaken =>
        obtain ⟨rfl, rfl⟩ := List.cons.inj hwords
        exact ⟨hword, _, left, rfl, htaken, hleft⟩
  · intro h
    obtain ⟨hword, taken, left, rfl, htaken, hleft⟩ := h
    exact ⟨word :: taken, left, rfl, .cons hword htaken, hleft⟩

end Parameter

end TeachingCpu
