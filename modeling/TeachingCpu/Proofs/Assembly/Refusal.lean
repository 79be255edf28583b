import TeachingCpu.Assembly.Encoder
/-!
# TeachingCpu.Proofs.Assembly.Refusal

**Why a statement is refused.** Reading the parameters of a statement fails with defects of the
statement's own words alone (`Defect.isLocal`), and so does every command that may stand anywhere.
What is wrong with the place of a statement is said by an origin or a halt; what is wrong with a
label is never said by the encoder.
-/

set_option autoImplicit false

namespace TeachingCpu

/-- Whether a defect is about the words of one statement, wherever that stands. -/
def Defect.isLocal : Defect → Bool
  | .parameterCount _ | .identicalParameters | .invalidNumber | .addressTooLarge
  | .invalidOperand _ | .unknownCommand => true
  | _ => false

/-- A computation fails only with local defects. -/
def FailsLocally {α : Type} (x : Except Defect α) : Prop :=
  ∀ defect, x = .error defect → defect.isLocal = true

namespace FailsLocally

variable {α β : Type} {x : Except Defect α} {defect : Defect}

theorem ok (a : α) : FailsLocally (.ok a) := nofun

theorem error (h : defect.isLocal = true) : FailsLocally (.error defect : Except Defect α) := by
  intro other hother
  cases hother
  exact h

theorem bind {f : α → Except Defect β} (hx : FailsLocally x) (hf : ∀ a, FailsLocally (f a)) :
    FailsLocally (x >>= f) := by
  cases x with
  | error defect => exact error (hx defect rfl)
  | ok a => exact hf a

theorem map {f : α → β} (hx : FailsLocally x) : FailsLocally (x.map f) := by
  cases x with
  | error defect => exact error (hx defect rfl)
  | ok a => exact ok _

end FailsLocally

/-! ### Parameters -/

namespace Operand

theorem ofDigits_failsLocally (base : Nat) (digits : Text) :
    FailsLocally (ofDigits base digits) := by
  unfold ofDigits
  split
  · exact .error rfl
  · split
    · exact .ok _
    · exact .error rfl

theorem number_failsLocally (t : Text) : FailsLocally (number t) := by
  unfold number
  split
  · exact ofDigits_failsLocally _ _
  · exact ofDigits_failsLocally _ _
  · exact .error rfl

theorem ofText_failsLocally (t : Text) : FailsLocally (ofText t) := by
  unfold ofText
  split
  · exact .ok _
  · exact .ok _
  · exact (number_failsLocally _).map
  · exact (number_failsLocally _).map
  · exact (number_failsLocally _).map
  · split
    · exact (number_failsLocally _).map
    · exact .error rfl
  · exact .error rfl

end Operand

/-! ### Commands -/

namespace Statement

variable (s : Statement)

theorem expectParams_failsLocally (expected : Nat) : FailsLocally (s.expectParams expected) := by
  unfold expectParams
  split
  · exact .ok _
  · exact .error rfl

theorem single_failsLocally : FailsLocally s.single := by
  unfold single
  split
  · exact .ok _
  · exact .error rfl

theorem pair_failsLocally : FailsLocally s.pair := by
  unfold pair
  split
  · split
    · exact .error rfl
    · exact .ok _
  · exact .error rfl

theorem arithmetic_failsLocally (make : Mode → Accumulator → Operation) :
    FailsLocally (s.arithmetic make) := by
  refine s.pair_failsLocally.bind fun (src, dest) =>
    (Operand.ofText_failsLocally dest).bind fun place => ?_
  cases place with
  | register d =>
      refine (Operand.ofText_failsLocally src).bind fun value => ?_
      cases value with
      | indirect a => exact .error rfl
      | _ => exact .ok _
  | _ => exact .error rfl

theorem moving_failsLocally : FailsLocally s.moving := by
  refine s.pair_failsLocally.bind fun (src, dest) =>
    (Operand.ofText_failsLocally src).bind fun value =>
      (Operand.ofText_failsLocally dest).bind fun place => ?_
  cases value <;> cases place <;> first | exact .ok _ | exact .error rfl

theorem going_failsLocally (make : Target → Operation) : FailsLocally (s.going make) := by
  refine s.single_failsLocally.bind fun token =>
    (Operand.ofText_failsLocally token).bind fun place => ?_
  cases place <;> first | exact .ok _ | exact .error rfl

end Statement

namespace Encoder

theorem operation_failsLocally (s : Statement) (m : Mnemonic) :
    FailsLocally (operation s m) := by
  cases m with
  | add => exact s.arithmetic_failsLocally _
  | sub => exact s.arithmetic_failsLocally _
  | cmp => exact s.arithmetic_failsLocally _
  | move => exact s.moving_failsLocally
  | jmp => exact s.going_failsLocally _
  | branch flag state => exact s.going_failsLocally _
  | org => exact .error rfl
  | halt => exact .ok _

/-- The word of an origin that may stand where it stands. -/
theorem originWord_failsLocally (s : Statement) : FailsLocally (do
    let address ← Operand.number (← s.single)
    return Word.ofBytes originOpcode address) :=
  s.single_failsLocally.bind fun token =>
    (Operand.number_failsLocally token).bind fun _ => .ok _

/-- The word of a halt that may stand where it stands. -/
theorem haltWord_failsLocally (s : Statement) :
    FailsLocally ((s.expectParams 0).map fun _ => Word.ofBytes haltOpcode 0) :=
  (s.expectParams_failsLocally 0).map

/-- A statement is refused for its words or, if it is an origin or a halt, for its place. -/
theorem encode_eq_error_cases {enc : Encoder} {s : Statement} {defect : Defect}
    (h : enc.encode s = .error defect) :
    defect.isLocal = true ∨ defect = .orgRedeclared ∨ defect = .orgNotFirst ∨
      ∃ last, defect = .haltNotLast last := by
  unfold encode at h
  split at h
  · cases h
    exact .inl rfl
  · unfold origin at h
    split at h
    · cases h
      exact .inr (.inl rfl)
    · split at h
      · cases h
        exact .inr (.inr (.inl rfl))
      · exact .inl (originWord_failsLocally s defect h)
  · unfold halt at h
    split at h
    · split at h
      · cases h
        exact .inr (.inr (.inr ⟨_, rfl⟩))
      · exact .inl (haltWord_failsLocally s defect h)
    · exact .inl (haltWord_failsLocally s defect h)
  · exact .inl ((operation_failsLocally s _).map defect h)

end Encoder

end TeachingCpu
