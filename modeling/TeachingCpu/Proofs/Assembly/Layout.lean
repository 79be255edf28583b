import Mathlib.Data.List.Flatten
import TeachingCpu.Assembly.Layout
import TeachingCpu.Proofs.Assembly.Outline
import TeachingCpu.Proofs.InstructionSet.Table
import TeachingCpu.Proofs.Machine.Word
/-!
# TeachingCpu.Proofs.Assembly.Layout

**Where a layout puts things.** The addresses of subroutines, those of statements and the symbols
are computed by recursions of their own; here each is given as a count of loaded statements in
what comes before, so that they can be compared.

The other half is about what cannot be laid out: a label without an address and a word past the
end of memory are always reported.
-/

set_option autoImplicit false

namespace TeachingCpu

/-! ### Resolved statements -/

namespace Statement

variable {symbols : Symbols} {s : Statement}

@[simp] theorem resolve_line : (s.resolve symbols).line = s.line := rfl

@[simp] theorem resolve_position : (s.resolve symbols).position = s.position := rfl

@[simp] theorem resolve_label : (s.resolve symbols).label = s.label := rfl

@[simp] theorem resolve_isLoaded : (s.resolve symbols).isLoaded = s.isLoaded := rfl

theorem mem_references_iff {label : Text} :
    label ∈ s.references ↔ label ∈ s.params ∧ isLabel label = true :=
  List.mem_filter

end Statement

theorem isLabel_immediateText (n : Byte) : isLabel (Operand.immediateText n) = false := rfl

namespace Symbols

variable {symbols : Symbols} {param label : Text}

theorem resolve_of_lookup {address : Byte} (hlabel : isLabel label = true)
    (h : symbols.lookup label = some address) :
    symbols.resolve label = Operand.immediateText address := by
  rw [resolve, if_pos hlabel, h]

/-- What is still a label after resolving was one before, and has no address. -/
theorem resolve_eq_label_iff (hlabel : isLabel label = true) :
    symbols.resolve param = label ↔ param = label ∧ symbols.lookup label = none := by
  unfold resolve
  split
  · next hparam =>
      split
      · next address hlookup =>
          constructor
          · -- what a label resolves to is no label
            rintro rfl
            simp [isLabel_immediateText] at hlabel
          · intro h
            obtain ⟨rfl, hnone⟩ := h
            simp [hlookup] at hnone
      · next hlookup =>
          constructor
          · rintro rfl
            exact ⟨rfl, hlookup⟩
          · intro h
            exact h.1
  · next hparam =>
      constructor
      · rintro rfl
        exact absurd hlabel hparam
      · intro h
        exact h.1

theorem lookup_eq_none_iff : symbols.lookup label = none ↔ label ∉ symbols.map Prod.fst := by
  simp only [List.lookup_eq_none_iff, bne_iff_ne, List.mem_map, not_exists, not_and]
  exact forall₂_congr fun p _ => ne_comm

end Symbols

theorem Statement.mem_references_resolve_iff {symbols : Symbols} {s : Statement} {label : Text} :
    label ∈ (s.resolve symbols).references ↔
      label ∈ s.references ∧ symbols.lookup label = none := by
  simp only [mem_references_iff, resolve, List.mem_map]
  constructor
  · intro h
    obtain ⟨⟨param, hparam, hresolve⟩, hlabel⟩ := h
    obtain ⟨rfl, hnone⟩ := (Symbols.resolve_eq_label_iff hlabel).mp hresolve
    exact ⟨⟨hparam, hlabel⟩, hnone⟩
  · intro h
    obtain ⟨⟨hparam, hlabel⟩, hnone⟩ := h
    exact ⟨⟨label, hparam, (Symbols.resolve_eq_label_iff hlabel).mpr ⟨rfl, hnone⟩⟩, hlabel⟩

/-! ### Addresses of statements -/

namespace Placement

/-- The placement of a statement that comes after others, the first of which is at `next`. -/
def behind (next : Nat) (before : List Statement) (s : Statement) : Placement :=
  ⟨s, if s.isLoaded then some (next + before.countP (·.isLoaded)) else none⟩

theorem sequence_eq_append_cons (next : Nat) (before : List Statement) (s : Statement)
    (after : List Statement) :
    ∃ next', sequence next (before ++ s :: after) =
      sequence next before ++ behind next before s :: sequence next' after := by
  induction before generalizing next with
  | nil =>
      cases h : s.isLoaded with
      | true => exact ⟨next + 1, by simp [sequence, behind, h]⟩
      | false => exact ⟨next, by simp [sequence, behind, h]⟩
  | cons t before ih =>
      rw [List.cons_append, sequence, sequence]
      split
      · next h =>
          obtain ⟨next', ih⟩ := ih (next + 1)
          refine ⟨next', ?_⟩
          rw [ih, List.cons_append, behind, behind, List.countP_cons_of_pos h]
          simp only [Nat.add_assoc, Nat.add_comm 1]
      · next h =>
          obtain ⟨next', ih⟩ := ih next
          refine ⟨next', ?_⟩
          rw [ih, List.cons_append, behind, behind, List.countP_cons_of_neg (by simpa using h)]

@[simp] theorem sequence_map_statement (next : Nat) (ss : List Statement) :
    (sequence next ss).map (·.statement) = ss := by
  induction ss generalizing next with
  | nil => rfl
  | cons s ss ih =>
      rw [sequence]
      split <;> rw [List.map_cons, ih]

theorem pastMemory_behind_iff {next : Nat} {before : List Statement} {s : Statement} :
    (behind next before s).pastMemory = true ↔
      s.isLoaded = true ∧ 256 ≤ next + before.countP (·.isLoaded) := by
  unfold behind
  split <;> simp_all [pastMemory]

end Placement

/-! ### Addresses of subroutines -/

namespace Outline

variable {o : Outline} {origin : Byte}

theorem mem_addressesFrom_iff {next a : Nat} {subs : List Subroutine} {sub : Subroutine} :
    (sub, a) ∈ addressesFrom next subs ↔
      ∃ before after, subs = before ++ sub :: after ∧
        a = next + (before.flatMap (·.statements)).countP (·.isLoaded) := by
  induction subs generalizing next with
  | nil => simp [addressesFrom]
  | cons s rest ih =>
      rw [addressesFrom, List.mem_cons, ih]
      constructor
      · rintro (h | ⟨before, after, rfl, rfl⟩)
        · cases h
          exact ⟨[], rest, rfl, rfl⟩
        · refine ⟨s :: before, after, rfl, ?_⟩
          rw [List.flatMap_cons, List.countP_append, Subroutine.loadedLength, Nat.add_assoc]
      · intro h
        obtain ⟨before, after, hsplit, rfl⟩ := h
        cases before with
        | nil =>
            cases hsplit
            exact .inl rfl
        | cons t before =>
            cases hsplit
            refine .inr ⟨before, after, rfl, ?_⟩
            rw [List.flatMap_cons, List.countP_append, Subroutine.loadedLength, Nat.add_assoc]

theorem addressesFrom_map_fst (next : Nat) (subs : List Subroutine) :
    (addressesFrom next subs).map Prod.fst = subs := by
  induction subs generalizing next with
  | nil => rfl
  | cons s rest ih => rw [addressesFrom, List.map_cons, ih]

/-- A subroutine begins after the main body and the kept subroutines before it. -/
theorem mem_addresses_iff {a : Nat} {sub : Subroutine} :
    (sub, a) ∈ o.addresses origin ↔
      ∃ before after, o.keptSubroutines = before ++ sub :: after ∧
        a = origin + (o.main ++ before.flatMap (·.statements)).countP (·.isLoaded) := by
  simp only [addresses, mem_addressesFrom_iff, List.countP_append, mainLength, Nat.add_assoc]

theorem exists_mem_addresses (origin : Byte) {sub : Subroutine} (h : sub ∈ o.keptSubroutines) :
    ∃ a, (sub, a) ∈ o.addresses origin := by
  obtain ⟨before, after, hsplit⟩ := List.append_of_mem h
  exact ⟨_, mem_addresses_iff.mpr ⟨before, after, hsplit, rfl⟩⟩

theorem mem_keptSubroutines_of_mem_addresses {a : Nat} {sub : Subroutine}
    (h : (sub, a) ∈ o.addresses origin) : sub ∈ o.keptSubroutines := by
  obtain ⟨before, after, hsplit, -⟩ := mem_addresses_iff.mp h
  exact hsplit ▸ List.mem_append_right _ List.mem_cons_self

/-- Where the opening of a kept subroutine stands among the statements that are kept. -/
theorem keptStatements_eq_append_cons {before after : List Subroutine} {sub : Subroutine}
    (h : o.keptSubroutines = before ++ sub :: after) :
    ∃ rest, o.keptStatements =
      (o.main ++ before.flatMap (·.statements)) ++ sub.opening :: rest := by
  refine ⟨sub.body ++ after.flatMap (·.statements), ?_⟩
  rw [keptStatements, h, List.flatMap_append, List.flatMap_cons, Subroutine.statements]
  simp only [List.append_assoc, List.cons_append]

theorem keptStatements_sublist (o : Outline) : o.keptStatements.Sublist o.statements :=
  (List.filter_sublist.flatMap _).append_left o.main

/-! ### Symbols -/

theorem mem_symbols_iff {label : Text} {address : Byte} :
    (label, address) ∈ o.symbols origin ↔
      ∃ sub, (sub, address.val) ∈ o.addresses origin ∧ sub.label = label := by
  simp only [symbols, List.mem_filterMap, Option.map_eq_some_iff, Prod.mk.injEq, Prod.exists]
  constructor
  · intro h
    obtain ⟨sub, a, hmem, b, hb, hlabel, rfl⟩ := h
    obtain rfl := Byte.ofNat?_eq_some_iff.mp hb
    exact ⟨sub, hmem, hlabel⟩
  · intro h
    obtain ⟨sub, hmem, hlabel⟩ := h
    exact ⟨sub, address, hmem, address, dif_pos address.isLt, hlabel, rfl⟩

theorem addresses_labels_nodup {declared : List Text} (h : o.WellFormed declared)
    (origin : Byte) : ((o.addresses origin).map (·.1.label)).Nodup := by
  have hlabels : (o.addresses origin).map (·.1.label) = o.keptSubroutines.map (·.label) := by
    rw [addresses, ← addressesFrom_map_fst (origin + o.mainLength) o.keptSubroutines,
      List.map_map, addressesFrom_map_fst]
    rfl
  rw [hlabels]
  exact h.nodup.sublist (List.filter_sublist.map _)

theorem symbols_nodup {declared : List Text} (h : o.WellFormed declared) (origin : Byte) :
    ((o.symbols origin).map Prod.fst).Nodup := by
  have hkeys : ∀ (f : Subroutine × Nat → Option (Text × Byte)),
      (∀ p q, f p = some q → q.1 = p.1.label) → ∀ l : List (Subroutine × Nat),
        ((l.filterMap f).map Prod.fst).Sublist (l.map (·.1.label)) := by
    intro f hf l
    induction l with
    | nil => exact .slnil
    | cons p l ih =>
        rw [List.filterMap_cons]
        split
        · exact ih.cons _
        · next q hq =>
            rw [List.map_cons, List.map_cons, hf p q hq]
            exact ih.cons_cons _
  refine (addresses_labels_nodup h origin).sublist (hkeys _ (fun p q hq => ?_) _)
  obtain ⟨b, -, rfl⟩ := Option.map_eq_some_iff.mp hq
  rfl

/-- A label has one address. -/
theorem address_unique {declared : List Text} (h : o.WellFormed declared)
    {sub sub' : Subroutine} {a a' : Nat} (hmem : (sub, a) ∈ o.addresses origin)
    (hmem' : (sub', a') ∈ o.addresses origin) (hlabel : sub.label = sub'.label) : a = a' :=
  congrArg Prod.snd (List.inj_on_of_nodup_map (addresses_labels_nodup h origin) hmem hmem' hlabel)

theorem lookup_symbols_eq_some_iff {declared : List Text} (h : o.WellFormed declared)
    {label : Text} {address : Byte} :
    (o.symbols origin).lookup label = some address ↔ (label, address) ∈ o.symbols origin :=
  lookup_eq_some_iff_mem (symbols_nodup h origin)

/-- The address of a kept subroutine, if it is within memory, is what its label stands for. -/
theorem lookup_symbols_of_lt {declared : List Text} (h : o.WellFormed declared) {sub : Subroutine}
    {address : Byte} (hmem : (sub, address.val) ∈ o.addresses origin) :
    (o.symbols origin).lookup sub.label = some address :=
  (lookup_symbols_eq_some_iff h).mpr (mem_symbols_iff.mpr ⟨sub, hmem, rfl⟩)

/-! ### What is reported -/

theorem mem_lateSubroutines_iff {d : Diagnostic} :
    d ∈ o.lateSubroutines origin ↔
      ∃ sub a, (sub, a) ∈ o.addresses origin ∧ 256 ≤ a ∧
        sub.opening.diagnose .addressTooLarge = d := by
  simp [lateSubroutines, and_assoc]

theorem mem_undefinedLabels {s : Statement} {label : Text} (hs : s ∈ o.statements)
    (hlabel : label ∈ s.references) (hundeclared : o.declares label = false) :
    s.diagnose (.undefinedLabel label) ∈ o.undefinedLabels := by
  have hreferenced : label ∈ o.referencedLabels :=
    List.mem_eraseDups.mpr (List.mem_flatMap.mpr ⟨s, hs, hlabel⟩)
  have hcount : s.references.count label ≠ 0 := Nat.ne_of_gt (List.count_pos_iff.mpr hlabel)
  exact List.mem_flatMap.mpr ⟨label, List.mem_filter.mpr ⟨hreferenced, by rw [hundeclared]; rfl⟩,
    List.mem_flatMap.mpr ⟨s, hs, List.mem_replicate.mpr ⟨hcount, rfl⟩⟩⟩

/-- The reports about a label are about statements that hold it. -/
theorem mem_undefinedReferences_iff {label : Text} {d : Diagnostic} :
    d ∈ o.undefinedReferences label ↔
      ∃ s ∈ o.statements, label ∈ s.references ∧ d = s.diagnose (.undefinedLabel label) := by
  simp only [undefinedReferences, List.mem_flatMap, List.mem_replicate, ne_eq, List.count_eq_zero,
    not_not]

theorem mem_undefinedLabels_iff {d : Diagnostic} :
    d ∈ o.undefinedLabels ↔ ∃ s ∈ o.statements, ∃ label ∈ s.references,
      o.declares label = false ∧ d = s.diagnose (.undefinedLabel label) := by
  constructor
  · intro hd
    obtain ⟨label, hlabel, hd⟩ := List.mem_flatMap.mp hd
    obtain ⟨s, hs, href, rfl⟩ := mem_undefinedReferences_iff.mp hd
    exact ⟨s, hs, label, href, by simpa using (List.mem_filter.mp hlabel).2, rfl⟩
  · rintro ⟨s, hs, label, href, hundeclared, rfl⟩
    exact mem_undefinedLabels hs href hundeclared

theorem declares_iff {label : Text} :
    o.declares label = true ↔ ∃ sub ∈ o.subroutines, sub.label = label := by
  simp [declares]

theorem refersTo_iff {label : Text} :
    o.refersTo label = true ↔ ∃ s ∈ o.statements, label ∈ s.references := by
  simp [refersTo]

theorem mem_keptSubroutines_iff {sub : Subroutine} :
    sub ∈ o.keptSubroutines ↔ sub ∈ o.subroutines ∧ o.refersTo sub.label = true :=
  List.mem_filter

/-- A label in a stored statement that no symbol stands for is reported: nothing declares it, or
what does begins past the end of memory. -/
theorem diagnostics_ne_nil_of_reference {declared : List Text} (h : o.WellFormed declared)
    {s : Statement} {label : Text} (hs : s ∈ o.statements) (hlabel : label ∈ s.references)
    (hnone : (o.symbols origin).lookup label = none) : (o.layout origin).diagnostics ≠ [] := by
  cases hdeclares : o.declares label with
  | false =>
      have hmem := mem_undefinedLabels hs hlabel hdeclares
      exact List.ne_nil_of_mem (List.mem_append_left _ (List.mem_append_right _ hmem))
  | true =>
      obtain ⟨sub, hsub, rfl⟩ := declares_iff.mp hdeclares
      have hkept := mem_keptSubroutines_iff.mpr ⟨hsub, refersTo_iff.mpr ⟨s, hs, hlabel⟩⟩
      obtain ⟨a, ha⟩ := exists_mem_addresses origin hkept
      -- what declares the label is laid out, so only its address can be missing
      by_cases hlt : a < 256
      · have hsome : (o.symbols origin).lookup sub.label = some ⟨a, hlt⟩ :=
          lookup_symbols_of_lt h ha
        rw [hnone] at hsome
        simp at hsome
      · have hmem := mem_lateSubroutines_iff.mpr ⟨sub, a, ha, Nat.le_of_not_lt hlt, rfl⟩
        exact List.ne_nil_of_mem (List.mem_append_left _ (List.mem_append_left _ hmem))

/-- A word past the end of memory is reported, by itself or with a subroutine. -/
theorem exists_addressTooLarge {p : Placement} (hp : p ∈ (o.layout origin).placements)
    (hpast : p.pastMemory = true) :
    ∃ d ∈ (o.layout origin).diagnostics, d.defect = .addressTooLarge := by
  cases hlate : o.lateSubroutines origin with
  | cons d rest =>
      have hd : d ∈ o.lateSubroutines origin := hlate ▸ List.mem_cons_self
      obtain ⟨sub, a, -, -, rfl⟩ := mem_lateSubroutines_iff.mp hd
      exact ⟨_, List.mem_append_left _ (List.mem_append_left _ hd), rfl⟩
  | nil =>
      -- no subroutine begins too late, so the first word that does not fit is reported
      obtain ⟨q, hq⟩ := Option.isSome_iff_exists.mp (List.find?_isSome.mpr ⟨p, hp, hpast⟩)
      refine ⟨q.statement.diagnose .addressTooLarge, List.mem_append_right _ ?_, rfl⟩
      rw [hlate]
      simp only [layout] at hq
      simp [hq]

end Outline

end TeachingCpu
