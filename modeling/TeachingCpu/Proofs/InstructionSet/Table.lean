import Mathlib.Data.List.Nodup
import TeachingCpu.InstructionSet.Document
/-!
# TeachingCpu.Proofs.InstructionSet.Table

**Ids are unique in an instruction set.** A list of entries is one just if no two of its entries
have the same id (`InstructionSet.ofEntries_eq_ok_iff`), and is refused for the id of the first
entry that repeats one (`InstructionSet.ofEntries_eq_error_iff`).

Both are inductions over the entries that are still to be declared, with the rows there are before
them, whose keys are distinct. That an entry is found under its own id (`lookup_eq_some_iff`) needs
both halves of `WellKeyed`.
-/

set_option autoImplicit false

namespace TeachingCpu

/-- Where no key stands twice, what is found under a key is what stands there. -/
theorem lookup_eq_some_iff_mem {α β : Type} [BEq α] [LawfulBEq α] {rows : List (α × β)}
    (h : (rows.map Prod.fst).Nodup) {key : α} {value : β} :
    rows.lookup key = some value ↔ (key, value) ∈ rows := by
  constructor
  · intro hlookup
    obtain ⟨before, after, hsplit, -⟩ := List.lookup_eq_some_iff.mp hlookup
    rw [hsplit]
    exact List.mem_append_right _ List.mem_cons_self
  · intro hmem
    obtain ⟨before, after, hsplit⟩ := List.append_of_mem hmem
    refine List.lookup_eq_some_iff.mpr ⟨before, after, hsplit, fun row hrow => ?_⟩
    rw [hsplit, List.map_append, List.map_cons] at h
    have hne := (List.nodup_append.mp h).2.2 row.1 (List.mem_map_of_mem hrow) key
      List.mem_cons_self
    simpa using hne.symm

namespace InstructionSet

variable {rows next : List (Byte × Instruction)} {entries : List Instruction}
  {table : InstructionSet} {id opcode : Byte} {i : Instruction}

/-! ### Declarations -/

theorem declare_of_mem (h : i.id ∈ rows.map Prod.fst) : declare rows i = .error ⟨i.id⟩ := by
  have hsome : (rows.lookup i.id).isSome := by
    rw [Option.isSome_iff_ne_none, Ne, List.lookup_eq_none_iff]
    intro hnew
    obtain ⟨row, hrow, hkey⟩ := List.mem_map.mp h
    exact bne_iff_ne.mp (hnew row hrow) hkey.symm
  rw [declare, if_pos hsome]

theorem declare_of_not_mem (h : i.id ∉ rows.map Prod.fst) :
    declare rows i = .ok (rows ++ [(i.id, i)]) := by
  have hnone : rows.lookup i.id = none :=
    List.lookup_eq_none_iff.mpr fun row hrow =>
      bne_iff_ne.mpr fun hkey => h (hkey ▸ List.mem_map_of_mem hrow)
  rw [declare, hnone, if_neg (by simp)]

/-- The next entry is looked at with one key more. -/
theorem nodup_keys_append (rows : List (Byte × Instruction)) (i : Instruction) (ids : List Byte) :
    ((rows ++ [(i.id, i)]).map Prod.fst ++ ids).Nodup ↔
      (rows.map Prod.fst ++ i.id :: ids).Nodup := by
  simp

theorem nodup_keys_declared (hrows : (rows.map Prod.fst).Nodup) (hi : i.id ∉ rows.map Prod.fst) :
    ((rows ++ [(i.id, i)]).map Prod.fst).Nodup := by
  rw [← List.append_nil (List.map _ _), nodup_keys_append, List.nodup_middle, List.append_nil,
    List.nodup_cons]
  exact ⟨hi, hrows⟩

theorem declareAll_eq_ok_iff (hrows : (rows.map Prod.fst).Nodup) :
    declareAll rows entries = .ok next ↔
      (rows.map Prod.fst ++ entries.map (·.id)).Nodup ∧
        next = rows ++ entries.map fun i => (i.id, i) := by
  induction entries generalizing rows with
  | nil => simp [declareAll, hrows, eq_comm]
  | cons first rest ih =>
      rw [declareAll]
      by_cases hfirst : first.id ∈ rows.map Prod.fst
      · rw [declare_of_mem hfirst]
        refine iff_of_false (by simp) fun h => ?_
        exact (List.nodup_append.mp h.1).2.2 first.id hfirst first.id (by simp) rfl
      · have hmore := nodup_keys_declared hrows hfirst
        rw [declare_of_not_mem hfirst]
        simp only [ih hmore, nodup_keys_append, List.map_cons, List.append_assoc,
          List.singleton_append]

theorem declareAll_eq_error_iff (hrows : (rows.map Prod.fst).Nodup) :
    declareAll rows entries = .error ⟨id⟩ ↔
      ∃ before i after, entries = before ++ i :: after ∧ i.id = id ∧
        id ∈ rows.map Prod.fst ++ before.map (·.id) ∧
          (rows.map Prod.fst ++ before.map (·.id)).Nodup := by
  induction entries generalizing rows with
  | nil => simp [declareAll]
  | cons first rest ih =>
      rw [declareAll]
      by_cases hfirst : first.id ∈ rows.map Prod.fst
      · rw [declare_of_mem hfirst]
        constructor
        · intro h
          obtain rfl := DuplicateId.mk.inj (Except.error.inj h)
          exact ⟨[], first, rest, rfl, rfl, by simpa using hfirst, by simpa using hrows⟩
        · intro h
          obtain ⟨before, i, after, hsplit, hid, -, hdistinct⟩ := h
          cases before with
          | nil => rw [(List.cons.inj hsplit).1, hid]
          | cons j before =>
              -- the first entry would have a key of its own, and has not
              obtain rfl := (List.cons.inj hsplit).1
              exact absurd rfl
                ((List.nodup_append.mp hdistinct).2.2 first.id hfirst first.id (by simp))
      · have hmore := nodup_keys_declared hrows hfirst
        rw [declare_of_not_mem hfirst]
        simp only [ih hmore, nodup_keys_append]
        constructor
        · intro h
          obtain ⟨before, i, after, hrest, hid, hmem, hdistinct⟩ := h
          exact ⟨first :: before, i, after, by rw [hrest]; rfl, hid, by simpa using hmem,
            hdistinct⟩
        · intro h
          obtain ⟨before, i, after, hsplit, hid, hmem, hdistinct⟩ := h
          cases before with
          | nil =>
              obtain rfl := (List.cons.inj hsplit).1
              exact absurd (by simpa [hid] using hmem) hfirst
          | cons j before =>
              obtain ⟨rfl, hrest⟩ := List.cons.inj hsplit
              exact ⟨before, i, after, hrest, hid, by simpa using hmem, hdistinct⟩

/-! ### Tables -/

/-- A row is an entry under its id. -/
theorem rows_eq (table : InstructionSet) : table.rows = table.entries.map fun i => (i.id, i) := by
  rw [entries, List.map_map]
  refine (List.map_id _).symm.trans (List.map_congr_left fun row hrow => ?_)
  exact Prod.ext (table.wellKeyed.keyed row hrow) rfl

/-- No two entries of a table share an id. -/
theorem ids_nodup (table : InstructionSet) : (table.entries.map (·.id)).Nodup := by
  have hkeys := table.wellKeyed.distinct
  rwa [rows_eq, List.map_map] at hkeys

theorem map_snd_rows (entries : List Instruction) :
    (entries.map fun i => (i.id, i)).map Prod.snd = entries := by
  rw [List.map_map]
  exact List.map_id entries

@[simp] theorem entries_ofDistinct (h : (entries.map (·.id)).Nodup) :
    (ofDistinct entries h).entries = entries :=
  map_snd_rows entries

theorem ofEntries_eq_ok_iff :
    ofEntries entries = .ok table ↔ (entries.map (·.id)).Nodup ∧ table.entries = entries := by
  have hok := @declareAll_eq_ok_iff [] table.rows entries .nil
  simp only [List.map_nil, List.nil_append] at hok
  have hrows : table.rows = entries.map (fun i => (i.id, i)) ↔ table.entries = entries := by
    constructor
    · intro h
      rw [InstructionSet.entries, h, map_snd_rows]
    · intro h
      rw [rows_eq, h]
  rw [← hrows, ← hok]
  unfold ofEntries
  split
  · next h => simp [h]
  · next rows h =>
      have hloaded : declareAll [] entries = .ok table.rows ↔ rows = table.rows := by
        rw [h, Except.ok.injEq]
      rw [hloaded, Except.ok.injEq]
      cases table
      rw [mk.injEq]

theorem ofEntries_eq_error_iff :
    ofEntries entries = .error ⟨id⟩ ↔
      ∃ before i after, entries = before ++ i :: after ∧ i.id = id ∧
        id ∈ before.map (·.id) ∧ (before.map (·.id)).Nodup := by
  have herror := @declareAll_eq_error_iff [] entries id .nil
  simp only [List.map_nil, List.nil_append] at herror
  rw [← herror]
  unfold ofEntries
  split
  · next h => rw [h]; simp
  · next h => simp [h]

/-- A document that lists entries is an instruction set just if the entries are one. -/
theorem ofDocument_of_instructions? {document : Text}
    (hentries : (Json.read? document).bind Json.instructions? = some entries) :
    ofDocument document = (ofEntries entries).mapError .duplicateId := by
  unfold ofDocument
  rw [hentries]
  dsimp only
  cases ofEntries entries <;> rfl

/-! ### Look-up -/

/-- What is looked up is the entry with the opcode for id. -/
theorem lookup_eq_some_iff : table.lookup opcode = some i ↔ i ∈ table.entries ∧ i.id = opcode := by
  rw [lookup, lookup_eq_some_iff_mem table.wellKeyed.distinct]
  constructor
  · intro hrow
    exact ⟨List.mem_map.mpr ⟨_, hrow, rfl⟩, (table.wellKeyed.keyed _ hrow).symm⟩
  · intro h
    obtain ⟨hmem, hid⟩ := h
    rw [rows_eq, ← hid]
    exact List.mem_map_of_mem hmem

/-- A found entry has the opcode asked for. -/
theorem id_of_lookup (h : table.lookup opcode = some i) : i.id = opcode :=
  (lookup_eq_some_iff.mp h).2

theorem mem_of_lookup (h : table.lookup opcode = some i) : i ∈ table.entries :=
  (lookup_eq_some_iff.mp h).1

/-- An opcode is looked up with success just if an entry has it. -/
theorem exists_lookup_iff (table : InstructionSet) (opcode : Byte) :
    (∃ i, table.lookup opcode = some i) ↔ ∃ i ∈ table.entries, i.id = opcode :=
  exists_congr fun _ => lookup_eq_some_iff

theorem lookup_eq_none_iff : table.lookup opcode = none ↔ ∀ i ∈ table.entries, i.id ≠ opcode := by
  rw [Option.eq_none_iff_forall_ne_some]
  simp only [ne_eq, lookup_eq_some_iff, not_and]

end InstructionSet

end TeachingCpu
