import TeachingCpu.InstructionSet.BuiltIn
import TeachingCpu.Proofs.Machine.Invariant
import TeachingCpu.Proofs.Machine.Word
/-!
# TeachingCpu.Proofs.Machine.Load

**Loading a program**: which images an engine takes, and what is left of its past afterwards.

Only two things can be wrong with an image, its first word and the number of the others, and
`Engine.load_cases` says what becomes of each. The processor that a program begins in
(`Cpu.startOf`) is made of the image alone. So of the old engine a load that succeeds keeps the
instruction set and nothing else, and of that no request ever makes another.
-/

set_option autoImplicit false

namespace TeachingCpu

/-! ### The processor at the beginning of a program -/

/-- A processor is at the beginning of a program: the words of an image stand in memory from
`origin` on, every other word of memory is zero, and the program counter points at the first. -/
structure Cpu.Holds (cpu : Cpu) (origin : Byte) (image : List Word) : Prop where
  pc : cpu.registers.pc = Word.ofByte origin
  words : ∀ i w, image[i]? = some w →
    ∃ address : Byte, address.val = origin.val + i ∧ cpu.memory.get address = w
  elsewhere : ∀ address : Byte, address.val < origin.val ∨ origin.val + image.length ≤ address.val →
    cpu.memory.get address = 0

/-- A processor is at the beginning of a program, and otherwise as new. -/
structure Cpu.Begins (cpu : Cpu) (origin : Byte) (image : List Word) : Prop
    extends cpu.Holds origin image where
  registers : cpu.registers = { pc := Word.ofByte origin }
  pointer : cpu.memory.pointer = 0
  alu : cpu.alu = {}
  status : cpu.status = {}
  current : cpu.current = none

/-- The processor in which a program begins. -/
def Cpu.startOf (origin : Byte) (words : List Word) : Cpu where
  memory.slots := Vector.ofFn fun a =>
    if origin.val ≤ a.val then words.getD (a.val - origin.val) 0 else 0
  registers.pc := Word.ofByte origin

variable {origin : Byte} {words : List Word}

theorem Cpu.get_startOf (origin : Byte) (words : List Word) (address : Byte) :
    (startOf origin words).memory.get address =
      if origin.val ≤ address.val then words.getD (address.val - origin.val) 0 else 0 := by
  simp [startOf, Memory.get]

theorem Cpu.startOf_begins (hfits : origin + words.length ≤ 256) :
    (startOf origin words).Begins origin words where
  pc := rfl
  words i w hw := by
    obtain ⟨hi, rfl⟩ := List.getElem?_eq_some_iff.mp hw
    refine ⟨⟨origin + i, by omega⟩, rfl, ?_⟩
    rw [get_startOf, if_pos (Nat.le_add_right _ _)]
    simp [List.getD, hi]
  elsewhere address haddress := by
    rw [get_startOf]
    split
    · have hlength : words.length ≤ address.val - origin.val := by omega
      simp [List.getD, hlength]
    · rfl
  registers := rfl
  pointer := rfl
  alu := rfl
  status := rfl
  current := rfl

theorem Cpu.Begins.halted_eq {cpu : Cpu} (h : cpu.Begins origin words) : cpu.halted = false := by
  rw [halted, h.current]

theorem Memory.load_empty (origin : Byte) (words : List Word) :
    ({} : Memory).load (Word.ofByte origin) words =
      if 256 < origin.val + words.length then
        .error (.programTooLarge (Word.ofByte origin) words.length)
      else .ok (Cpu.startOf origin words).memory := by
  simp [load, Cpu.startOf]

/-! ### What becomes of an image -/

namespace Engine

variable {e : Engine}

theorem load_of_busy (hbusy : e.isIdle = false) (image : List Word) :
    e.load image = e.refuse .busy := by
  simp [load, hbusy]

theorem load_of_high (hidle : e.isIdle = true) {origin : Word} (hhigh : origin.high = 0) :
    e.load (origin :: words) =
      if 256 < origin.low.val + words.length then
        e.refuse (.memory (.programTooLarge (Word.ofByte origin.low) words.length))
      else
        ⟨.ok (), { table := e.table, cpu := .startOf origin.low words },
          [.loaded words.length origin.low]⟩ := by
  have hphase : e.phase = none := Option.isNone_iff_eq_none.mp hidle
  have horigin : origin.high = originOpcode := hhigh
  simp only [load, hidle, horigin, if_true, Memory.load_empty, hphase]
  by_cases hlarge : 256 < origin.low.val + words.length
  · rw [if_pos hlarge, if_pos hlarge]
  · rw [if_neg hlarge, if_neg hlarge]
    rfl

/-- What becomes of an image in an idle engine: it has no origin, or its words do not fit from
there on, or a new program begins. -/
theorem load_cases (hidle : e.isIdle = true) (image : List Word) :
    ((∀ origin words, image = origin :: words → origin.high ≠ 0) ∧
      e.load image = e.refuse .missingOrigin) ∨
    ∃ origin words, image = origin :: words ∧ origin.high = 0 ∧
      ((256 < origin.low.val + words.length ∧
        e.load image =
          e.refuse (.memory (.programTooLarge (Word.ofByte origin.low) words.length))) ∨
      (origin.low.val + words.length ≤ 256 ∧
        e.load image =
          ⟨.ok (), { table := e.table, cpu := .startOf origin.low words },
            [.loaded words.length origin.low]⟩)) := by
  cases image with
  | nil =>
      left
      exact ⟨nofun, by simp [load, hidle]⟩
  | cons origin words =>
      by_cases hhigh : origin.high = 0
      · right
        refine ⟨origin, words, rfl, hhigh, ?_⟩
        rw [load_of_high hidle hhigh]
        split
        · next hlarge => exact .inl ⟨hlarge, rfl⟩
        · next hfits => exact .inr ⟨Nat.le_of_not_lt hfits, rfl⟩
      · left
        refine ⟨fun _ _ h => by cases h; exact hhigh, ?_⟩
        have horigin : origin.high ≠ originOpcode := hhigh
        simp [load, hidle, horigin]

theorem load_eq_ok_iff (hidle : e.isIdle = true) {image : List Word} :
    (e.load image).answer = .ok () ↔
      ∃ origin words, image = origin :: words ∧ origin.high = 0 ∧
        origin.low.val + words.length ≤ 256 := by
  constructor
  · intro hok
    rcases load_cases hidle image with
      ⟨-, h⟩ | ⟨origin, words, himage, hhigh, ⟨-, h⟩ | ⟨hfits, -⟩⟩
    · rw [h] at hok
      cases hok
    · rw [h] at hok
      cases hok
    · exact ⟨origin, words, himage, hhigh, hfits⟩
  · rintro ⟨origin, words, rfl, hhigh, hfits⟩
    rw [load_of_high hidle hhigh, if_neg (Nat.not_lt.mpr hfits)]

theorem load_eq_error_iff (hidle : e.isIdle = true) {image : List Word} {fault : Fault} :
    (e.load image).answer = .error fault ↔
      ((∀ origin words, image = origin :: words → origin.high ≠ 0) ∧ fault = .missingOrigin) ∨
      ∃ origin words, image = origin :: words ∧ origin.high = 0 ∧
        256 < origin.low.val + words.length ∧
        fault = .memory (.programTooLarge (Word.ofByte origin.low) words.length) := by
  constructor
  · intro herror
    rcases load_cases hidle image with
      ⟨hnone, h⟩ | ⟨origin, words, himage, hhigh, ⟨hlarge, h⟩ | ⟨-, h⟩⟩
    · rw [h] at herror
      exact .inl ⟨hnone, (Except.error.inj herror).symm⟩
    · rw [h] at herror
      exact .inr ⟨origin, words, himage, hhigh, hlarge, (Except.error.inj herror).symm⟩
    · rw [h] at herror
      cases herror
  · rintro (⟨hnone, rfl⟩ | ⟨origin, words, rfl, hhigh, hlarge, rfl⟩)
    · rcases load_cases hidle image with ⟨-, h⟩ | ⟨origin, words, himage, hhigh, -⟩
      · rw [h]
        rfl
      · exact absurd hhigh (hnone origin words himage)
    · rw [load_of_high hidle hhigh, if_pos hlarge]
      rfl

/-- An image that is not taken leaves everything as it was. -/
theorem load_eq_refuse {image : List Word} {fault : Fault}
    (h : (e.load image).answer = .error fault) : e.load image = e.refuse fault := by
  cases hidle : e.isIdle with
  | false =>
      rw [load_of_busy hidle] at h ⊢
      cases h
      rfl
  | true =>
      rcases load_cases hidle image with ⟨-, hload⟩ | ⟨_, _, -, -, ⟨-, hload⟩ | ⟨-, hload⟩⟩ <;>
        rw [hload] at h ⊢ <;> cases h <;> rfl

/-- An idle engine takes an image that fits. -/
theorem load_holds (hidle : e.isIdle = true) {origin : Byte} {image : List Word}
    (hfits : origin + image.length ≤ 256) :
    (e.load (Word.ofBytes 0x00 origin :: image)).answer = .ok () ∧
      (e.load (Word.ofBytes 0x00 origin :: image)).engine.cpu.Holds origin image := by
  rw [load_of_high hidle (Word.high_ofBytes 0x00 origin), Word.low_ofBytes,
    if_neg (Nat.not_lt.mpr hfits)]
  exact ⟨rfl, (Cpu.startOf_begins hfits).toHolds⟩

/-! ### What is left of the past -/

theorem after_table (table : InstructionSet) (rs : List Request) :
    (({ table } : Engine).after rs).table = table :=
  ((coherent_of_idle rfl rfl (Cpu.Sound.initial table)).after rs).table_eq

/-- **Loading starts afresh, or not at all.** A load that is refused, for whatever reason, changes
nothing and reports nothing. The reasons are a phase under way, a first word that is missing or
whose high byte is not zero, and words that do not fit from the origin on. Otherwise a new program
begins, in a processor that depends on the image alone. So after any requests that leave the engine
idle, an image is taken as by a new engine with the same instruction set, and whatever is asked
from then on, the replies are the same. -/
theorem load_starts_afresh :
    (∀ (e : Engine) (image : List Word), e.isIdle = false → e.load image = e.refuse .busy) ∧
    (∀ (e : Engine) (image : List Word) (fault : Fault),
      (e.load image).answer = .error fault →
        (e.load image).engine = e ∧ (e.load image).log = []) ∧
    (∀ (e : Engine) (image : List Word), e.isIdle = true →
      ((e.load image).answer = .ok () ↔
        ∃ origin words, image = origin :: words ∧ origin.high = 0 ∧
          origin.low.val + words.length ≤ 256) ∧
      ∀ fault, (e.load image).answer = .error fault ↔
        ((∀ origin words, image = origin :: words → origin.high ≠ 0) ∧ fault = .missingOrigin) ∨
        ∃ origin words, image = origin :: words ∧ origin.high = 0 ∧
          256 < origin.low.val + words.length ∧
          fault = .memory (.programTooLarge (Word.ofByte origin.low) words.length)) ∧
    (∀ (origin : Word) (words : List Word), origin.high = 0 →
      origin.low.val + words.length ≤ 256 →
      ∃ cpu : Cpu, cpu.Begins origin.low words ∧ cpu.halted = false ∧
        ∀ e : Engine, e.isIdle = true → e.load (origin :: words) =
          ⟨.ok (), { table := e.table, cpu }, [.loaded words.length origin.low]⟩) ∧
    ∀ (table : InstructionSet) (before : List Request) (image : List Word) (later : List Request),
      let new : Engine := { table }
      (new.after before).isIdle = true → (new.load image).answer = .ok () →
      (new.after before).replies (.load image :: later) = new.replies (.load image :: later) := by
  refine ⟨fun e image hbusy => load_of_busy hbusy image, fun e image fault h => ?_,
    fun e image hidle => ⟨load_eq_ok_iff hidle, fun fault => load_eq_error_iff hidle⟩, ?_, ?_⟩
  · rw [load_eq_refuse h]
    exact ⟨rfl, rfl⟩
  · intro origin words hhigh hfits
    have hbegins := Cpu.startOf_begins hfits
    refine ⟨_, hbegins, hbegins.halted_eq, fun e hidle => ?_⟩
    rw [load_of_high hidle hhigh, if_neg (Nat.not_lt.mpr hfits)]
  · -- the load replaces everything of the processor, and requests leave the table alone
    intro table before image later new hidle hok
    have hnew : new.isIdle = true := rfl
    obtain ⟨origin, words, rfl, hhigh, hfits⟩ := (load_eq_ok_iff hnew).mp hok
    have hload : (new.after before).load (origin :: words) = new.load (origin :: words) := by
      rw [load_of_high hidle hhigh, load_of_high hnew hhigh, if_neg (Nat.not_lt.mpr hfits),
        if_neg (Nat.not_lt.mpr hfits), after_table]
    simp only [replies, respond, hload]

/-- A program up to the end of memory after one that halted and a fetch that failed, and one word
more that is refused, as is anything during a phase. -/
theorem load_starts_afresh_after_a_failure :
    let new : Engine := { table := .builtIn }
    let old := new.after
      [.load [0x0000#16, 0xFF00#16], .run 9 .never, .setRegister .pc 0xFFFF#16, .fetch]
    let image := [0x00FE#16, 0x1CFF#16, 0xFF00#16]
    old.halted = true ∧ (old.load (image ++ [0x0000#16])).engine = old ∧
      new.beginFetch.engine.load image = new.beginFetch.engine.refuse .busy ∧
      (∃ cpu : Cpu, cpu.Begins 0xFE [0x1CFF#16, 0xFF00#16] ∧
        old.load image = ⟨.ok (), { table := .builtIn, cpu }, [.loaded 2 0xFE]⟩) ∧
      old.replies [.load image, .run 9 .never] = new.replies [.load image, .run 9 .never] := by
  intro new old image
  obtain ⟨hbusy, hrefused, hidle, hstart, hafter⟩ := load_starts_afresh
  have hold : old.isIdle = true := by decide +kernel
  have hhalted : old.halted = true := by decide +kernel
  have htable : old.table = .builtIn := after_table _ _
  have herror : (old.load (image ++ [0x0000#16])).answer =
      .error (.memory (.programTooLarge 0xFE#16 3)) :=
    ((hidle old _ hold).2 _).mpr (.inr ⟨_, _, rfl, by decide, by decide, by decide⟩)
  obtain ⟨cpu, hbegins, -, hload⟩ :=
    hstart 0x00FE#16 [0x1CFF#16, 0xFF00#16] (by decide) (by decide)
  refine ⟨hhalted, (hrefused old _ _ herror).1, hbusy _ _ (by decide), ⟨cpu, hbegins, ?_⟩,
    hafter .builtIn _ image _ hold (by rw [hload new rfl])⟩
  rw [hload old hold, htable]
  rfl

end Engine

end TeachingCpu
