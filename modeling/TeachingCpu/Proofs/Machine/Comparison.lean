import TeachingCpu.Proofs.Machine.Cycle
/-!
# TeachingCpu.Proofs.Machine.Comparison

**A comparison followed by a branch decides the comparison.** What a branch asks of a flag is a
relation between the two words that were compared (`Flag.Relates`), because the flags of a
difference are exact. The difference is the register less the value, in every mode, and the program
counter of the comparison is not part of the flags, so the branch may stand anywhere, also at the
first address after the last.
-/

set_option autoImplicit false

namespace TeachingCpu

/-! ### The names of operations -/

/-- The letter of a general purpose register in the built-in instruction set. -/
def Accumulator.initial : Accumulator → Char
  | .a => 'A'
  | .b => 'B'

/-- The verb of the instructions that join through a circuit; only the first two have opcodes. -/
def Circuit.verb : Circuit → Text
  | .add => ['A', 'D', 'D', ' ']
  | .sub => ['S', 'U', 'B', ' ']
  | .mul => ['M', 'U', 'L', ' ']
  | .div => ['D', 'I', 'V', ' ']

/-- How the built-in instruction set writes a value joined with a register. -/
def Mode.form (dest : Accumulator) : Mode → Text
  | .immediate => ['#', 'n']
  | .direct => ['a', 'd', 'd', 'r']
  | .register => [dest.other.initial]

/-- How the built-in instruction set writes where a jump goes. -/
def Target.form : Target → Text
  | .immediate => ['#', 'n']
  | .direct => ['a', 'd', 'd', 'r']

/-- How the built-in instruction set writes an operation. A branch is named by the letter of its
flag and by the state, set or clear, that it asks for. -/
def Operation.form : Operation → Text
  | .compute circuit mode dest => circuit.verb ++ mode.form dest ++ [',', dest.initial]
  | .compare mode dest => ['C', 'M', 'P', ' '] ++ mode.form dest ++ [',', dest.initial]
  | .load mode dest => ['M', 'O', 'V', 'E', ' '] ++ mode.form dest ++ [',', dest.initial]
  | .store false src => ['M', 'O', 'V', 'E', ' ', src.initial, ','] ++ ['a', 'd', 'd', 'r']
  | .store true src => ['M', 'O', 'V', 'E', ' ', src.initial, ','] ++ ['(', 'a', 'd', 'd', 'r', ')']
  | .jump target => ['J', 'M', 'P', ' '] ++ target.form
  | .branch flag state target =>
    ['B', flag.letter, if state then 'S' else 'C', ' '] ++ target.form
  | .halt => ['H', 'A', 'L', 'T']

set_option maxRecDepth 8000 in
/-- The built-in instruction set has every opcode under the name of its operation. -/
theorem InstructionSet.exists_lookup_builtIn {opcode : Byte} {op : Operation}
    (h : Operation.decode? opcode = some op) :
    ∃ entry, builtIn.lookup opcode = some entry ∧ entry.mnemonic.toList = op.form := by
  have all : ∀ b : Byte, ∀ o ∈ Operation.decode? b,
      (builtIn.lookup b).map (fun i => i.mnemonic.toList) = some o.form := by decide
  simpa using all opcode op h

/-! ### What the flags of a difference say -/

/-- The relation between two words for which the flag of their difference is in a state. -/
def Flag.Relates (d v : Word) : Flag → Bool → Prop
  | .zero, true => d = v
  | .zero, false => d ≠ v
  | .carry, true => d.toNat < v.toNat
  | .carry, false => v.toNat ≤ d.toNat
  | .overflow, true => d.toInt - v.toInt < -32768 ∨ 32767 < d.toInt - v.toInt
  | .overflow, false => -32768 ≤ d.toInt - v.toInt ∧ d.toInt - v.toInt ≤ 32767
  | .negative, true => (d - v).getLsbD 15 = true
  | .negative, false => (d - v).getLsbD 15 = false

namespace Circuit

theorem joined_sub (d v : Word) : joined .sub d v = d - v := (onBits_eq_ofInt .sub d v).symm

/-- The borrow of a difference, said of the words. -/
theorem flag_sub_carry (d v : Word) : flag .sub d v .carry = decide (d.toNat < v.toNat) :=
  (borrow_eq d v).symm

theorem flag_sub (d v : Word) (f : Flag) (state : Bool) :
    flag .sub d v f = state ↔ f.Relates d v state := by
  cases f with
  | zero =>
      have hzero : d - v = 0#16 ↔ d = v := by bv_omega
      cases state <;> simp [flag, joined_sub, Flag.Relates, hzero]
  | carry =>
      rw [flag_sub_carry]
      cases state <;> simp [Flag.Relates]
  | overflow =>
      rw [flag, exact]
      cases state with
      | true => exact decide_eq_true_iff
      | false =>
          rw [decide_eq_false_iff_not, Flag.Relates]
          omega
  | negative =>
      have hsign : decide ((d - v).toInt < 0) = (d - v).getLsbD 15 := by
        rw [← BitVec.msb_eq_toInt, BitVec.msb_eq_getLsbD_last]
      rw [flag, joined_sub, hsign]
      cases state <;> rfl

instance (d v : Word) (f : Flag) (state : Bool) : Decidable (f.Relates d v state) :=
  decidable_of_iff _ (flag_sub d v f state)

/-- The sign of the difference is wrong just if it overflows. -/
theorem negative_ne_overflow_sub (d v : Word) :
    flag .sub d v .negative ≠ flag .sub d v .overflow ↔ d.toInt < v.toInt := by
  have hd := d.le_toInt
  have hd' := d.toInt_lt
  have hv := v.le_toInt
  have hv' := v.toInt_lt
  simp only [flag, joined, exact, BitVec.toInt_ofInt, Int.bmod_def, ne_eq]
  grind

end Circuit

/-- What a comparison of `d` with `v` makes of the visible state: words stay, and the flags tell
how the two compare. -/
structure Visible.Compared (s after : Visible) (d v : Word) : Prop where
  gpa : after.gpa = s.gpa
  gpb : after.gpb = s.gpb
  memory : after.memory = s.memory
  zero : after.status.get .zero = true ↔ d = v
  carry : after.status.get .carry = true ↔ d.toNat < v.toNat
  /-- The sign of the difference is wrong just if it overflows. -/
  signed : after.status.get .negative ≠ after.status.get .overflow ↔ d.toInt < v.toInt

theorem Visible.compared_withFlags {s after : Visible} {d v : Word} (hgpa : after.gpa = s.gpa)
    (hgpb : after.gpb = s.gpb) (hmemory : after.memory = s.memory)
    (hstatus : after.status = s.status.withFlags (Circuit.flag .sub d v)) :
    s.Compared after d v where
  gpa := hgpa
  gpb := hgpb
  memory := hmemory
  zero := by rw [hstatus, Status.get_withFlags, Circuit.flag_sub, Flag.Relates]
  carry := by rw [hstatus, Status.get_withFlags, Circuit.flag_sub, Flag.Relates]
  signed := by
    rw [hstatus, Status.get_withFlags, Status.get_withFlags, Circuit.negative_ne_overflow_sub]

/-! ### The two cycles -/

/-- After an instruction was fetched, the program counter is at the address after its own. -/
theorem Visible.pc_fetched {s : Visible} {p : Byte} (hpc : s.pc.toNat = p) (word : Word)
    (entry : Instruction) : (s.fetched word entry).pc = Word.ofByte (p + 1) := by
  change BitVec.ofNat 16 ((s.pc.toNat + 1) % 256) = BitVec.ofNat 16 (p + 1 : Byte)
  rw [hpc, Fin.val_add]
  rfl

namespace Engine

variable {e : Engine} {p : Byte} {entry : Instruction} {op : Operation}

/-- A cycle whose instruction has an effect succeeds and leaves it. -/
theorem cycle_of_effect (hidle : e.phase = none) (hpc : e.cpu.registers.pc.toNat = p)
    (hentry : e.table.lookup (e.cpu.memory.get p).high = some entry)
    (hop : Operation.decode? (e.cpu.memory.get p).high = some op) {after : Visible}
    (heffect : op.effect (e.cpu.memory.get p).low
      (e.cpu.visible.fetched (e.cpu.memory.get p) entry) = .ok after) :
    e.cycle.answer = .ok () ∧ e.cycle.engine.cpu.visible = after ∧
      e.cycle.engine.phase = none ∧ e.cycle.engine.table = e.table := by
  obtain ⟨hanswer, hvisible, hphase, htable⟩ := cycle_eq_effect hidle hpc hentry hop
  rw [heffect] at hanswer hvisible
  exact ⟨hanswer, hvisible, hphase, htable⟩

/-- A cycle at a comparison sets the flags of the difference. -/
theorem cycle_of_compare {mode : Mode} {dest : Accumulator} (hidle : e.phase = none)
    (hpc : e.cpu.registers.pc.toNat = p)
    (hentry : e.table.lookup (e.cpu.memory.get p).high = some entry)
    (hop : Operation.decode? (e.cpu.memory.get p).high = some (.compare mode dest)) :
    let s := e.cpu.visible
    e.cycle.answer = .ok () ∧
      e.cycle.engine.cpu.visible = { s.fetched (e.cpu.memory.get p) entry with
        pc := Word.ofByte (p + 1)
        status := s.status.withFlags
          (Circuit.flag .sub (s.read dest) (s.argument (e.cpu.memory.get p).low dest mode)) } ∧
      e.cycle.engine.phase = none ∧ e.cycle.engine.table = e.table := by
  intro s
  have hpc' : (s.fetched (e.cpu.memory.get p) entry).pc = Word.ofByte (p + 1) :=
    Visible.pc_fetched hpc _ _
  refine cycle_of_effect hidle hpc hentry hop ?_
  rw [← hpc']
  -- Being fetched does not change the registers and the memory that are compared.
  cases dest <;> cases mode <;> rfl

/-- A cycle at a branch changes nothing but the program counter, by the state of its flag. -/
theorem cycle_of_branch {flag : Flag} {state : Bool} {target : Target} (hidle : e.phase = none)
    (hpc : e.cpu.registers.pc.toNat = p)
    (hentry : e.table.lookup (e.cpu.memory.get p).high = some entry)
    (hop : Operation.decode? (e.cpu.memory.get p).high = some (.branch flag state target)) :
    let s := e.cpu.visible
    let after := e.cycle.engine.cpu.visible
    e.cycle.answer = .ok () ∧
      after = { s.fetched (e.cpu.memory.get p) entry with pc := after.pc } ∧
      (s.status.get flag = state → after.pc = s.destination (e.cpu.memory.get p).low target) ∧
      (s.status.get flag ≠ state → after.pc = Word.ofByte (p + 1)) := by
  intro s after
  have hpc' : (s.fetched (e.cpu.memory.get p) entry).pc = Word.ofByte (p + 1) :=
    Visible.pc_fetched hpc _ _
  obtain ⟨hanswer, hafter, -⟩ := @cycle_of_effect e p entry _ hidle hpc hentry hop _ rfl
  refine ⟨hanswer, ?_, fun hflag => ?_, fun hflag => ?_⟩
  · change after = _ at hafter
    rw [hafter]
    split <;> rfl
  · rw [← Visible.flag_eq_get] at hflag
    have htaken : after = _ := hafter.trans (if_pos hflag)
    rw [htaken]
    cases target <;> rfl
  · rw [← Visible.flag_eq_get] at hflag
    have hpast : after = _ := hafter.trans (if_neg hflag)
    rw [hpast, ← hpc']

/-- **A comparison followed by a branch decides the comparison.** After a comparison of the word `d`
in a register with a value `v`, in whatever mode, registers and memory are as before and the flags
tell how `d` and `v` compare. If a branch comes next, the cycle after leads to its target just if
`d` and `v` are in the relation that the branch stands for, and else only past the branch. -/
theorem compare_then_branch {mode : Mode} {dest : Accumulator} (hidle : e.phase = none)
    (htable : e.table = .builtIn) (hpc : e.cpu.registers.pc.toNat = p)
    (hcompare : Operation.decode? (e.cpu.memory.get p).high = some (.compare mode dest)) :
    let word := e.cpu.memory.get p
    let s := e.cpu.visible
    let d := s.read dest
    let v := s.argument word.low dest mode
    let after := e.cycle.engine
    let s₁ := after.cpu.visible
    (∃ entry, e.table.lookup word.high = some entry ∧
      entry.mnemonic.toList = (Operation.compare mode dest).form) ∧
    e.cycle.answer = .ok () ∧ after.phase = none ∧ s.Compared s₁ d v ∧
    s₁.pc = Word.ofByte (p + 1) ∧
    ∀ flag state target,
      let next := s₁.load (p + 1)
      let s₂ := after.cycle.engine.cpu.visible
      Operation.decode? next.high = some (.branch flag state target) →
        ∃ entry, e.table.lookup next.high = some entry ∧
          entry.mnemonic.toList = (Operation.branch flag state target).form ∧
          after.cycle.answer = .ok () ∧
          s₂ = { s₁.fetched next entry with pc := s₂.pc } ∧
          (flag.Relates d v state → s₂.pc = s₁.destination next.low target) ∧
          (¬flag.Relates d v state → s₂.pc = Word.ofByte (p + 2)) := by
  intro word s d v after s₁
  obtain ⟨entry, hlookup, hname⟩ := InstructionSet.exists_lookup_builtIn hcompare
  rw [← htable] at hlookup
  obtain ⟨hanswer, hs₁, hphase, htable₁⟩ := cycle_of_compare hidle hpc hlookup hcompare
  have hpc₁ : s₁.pc = Word.ofByte (p + 1) := congrArg Visible.pc hs₁
  have hstatus : s₁.status = s.status.withFlags (Circuit.flag .sub d v) := congrArg Visible.status hs₁
  have hcompared : s.Compared s₁ d v :=
    Visible.compared_withFlags (congrArg Visible.gpa hs₁ :) (congrArg Visible.gpb hs₁ :)
      (congrArg Visible.memory hs₁ :) hstatus
  refine ⟨⟨entry, hlookup, hname⟩, hanswer, hphase, hcompared, hpc₁, ?_⟩
  intro flag state target next s₂ hbranch
  obtain ⟨entry', hlookup', hname'⟩ := InstructionSet.exists_lookup_builtIn hbranch
  rw [← htable] at hlookup'
  have hadvanced : after.cpu.registers.pc.toNat = (p + 1 : Byte) := by
    rw [← Word.toNat_ofByte, ← hpc₁]
    rfl
  -- the second cycle starts from the engine that the comparison left, at the next address
  obtain ⟨hanswer', hs₂, htaken, hpast⟩ :=
    @cycle_of_branch after (p + 1) entry' flag state target hphase hadvanced
      (by rw [htable₁]; exact hlookup') hbranch
  have hflag : s₁.status.get flag = state ↔ flag.Relates d v state := by
    rw [hstatus, Status.get_withFlags, Circuit.flag_sub]
  have htwo : p + 1 + 1 = p + 2 := by simp [Fin.ext_iff, Fin.val_add]
  exact ⟨entry', hlookup', hname', hanswer', hs₂, fun h => htaken (hflag.mpr h),
    fun h => htwo ▸ hpast (mt hflag.mp h)⟩

/-- At the last address stands `CMP B,A`, and at the first `BVS $07`. The least word is compared
with one, which is less only without signs. -/
theorem compare_then_branch_around_the_end :
    let memory := ((({} : Memory).set 255 0x1000).set 0 0x2B07).set 7 0x0042
    let e : Engine := {
      table := .builtIn
      cpu := { memory, registers := { pc := 255, gpa := 0x8000, gpb := 1 } } }
    let s₁ := e.cycle.engine.cpu.visible
    s₁.pc = 0 ∧ s₁.status.get .carry = false ∧
      s₁.status.get .negative ≠ s₁.status.get .overflow ∧
      e.cycle.engine.cycle.engine.cpu.visible.pc = 0x0042 := by
  intro memory e s₁
  have hword : e.cpu.memory.get 255 = 0x1000 := by decide
  obtain ⟨-, -, -, hcompared, hpc, hbranch⟩ :=
    @compare_then_branch e 255 .register .a rfl rfl (by decide) (by rw [hword]; decide)
  have hload (a : Byte) : s₁.load a = e.cpu.memory.get a := by
    rw [Visible.load, hcompared.memory]
    rfl
  have hnext : s₁.load 0 = 0x2B07 := (hload 0).trans (by decide)
  have hbranches : Operation.decode? (s₁.load 0).high = some (.branch .overflow true .direct) := by
    rw [hnext]
    decide
  obtain ⟨-, -, -, -, -, htaken, -⟩ := hbranch .overflow true .direct hbranches
  refine ⟨hpc, ?_, hcompared.signed.mpr (by decide), (htaken (by decide)).trans ?_⟩
  · exact Bool.eq_false_iff.mpr (mt hcompared.carry.mp (by decide))
  · change s₁.load (s₁.load 0).low = 0x0042
    rw [hnext, hload]
    decide

end Engine

end TeachingCpu
