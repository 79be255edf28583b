import TeachingCpu.CommandLine
import TeachingCpu.Proofs.Assembly.Loading
import TeachingCpu.Proofs.Image
/-!
# TeachingCpu.Proofs.CommandLine

**A program and its image are the same to run**, from the words up to the command line.

Running a file is reading it and then running what was read (`CommandLine.perform_run`), and the
second part is given nothing but words (`CommandLine.runLoaded`). It also does not look back at
what the first part wrote (`CommandLine.Work.Oblivious`). So two files with the same words are run
alike, and what is shown of the runs differs in what is said while reading, which is one line.
-/

set_option autoImplicit false

namespace TeachingCpu

namespace World

/-- The world after a text was written to standard output. -/
def said (w : World) (text : String) : World := { w with output := w.output ++ text }

/-- The world with a text in front of all that was written to standard output. -/
def precededBy (w : World) (text : String) : World := { w with output := text ++ w.output }

/-- A file of the world holds a text. -/
def Shows (w : World) (path : Path) (text : Text) : Prop :=
  (w.files.read path).bind CommandLine.textOf = .ok text

instance (w : World) (path : Path) (text : Text) : Decidable (w.Shows path text) :=
  inferInstanceAs (Decidable ((w.files.read path).bind CommandLine.textOf = .ok text))

end World

namespace CommandLine

/-! ### Work in a world -/

namespace Work

/-- What a part of a task comes to in a world, and the world that it leaves. -/
def inWorld {α : Type} (work : Work (StateM World) α) (w : World) : Except Report α × World :=
  work.run.run w

/-- A part of a task does not look at what was written to standard output before. -/
def Oblivious {α : Type} (work : Work (StateM World) α) : Prop :=
  ∀ (w : World) (text : String),
    work.inWorld (w.precededBy text) = ((work.inWorld w).1, (work.inWorld w).2.precededBy text)

variable {α β γ : Type} {x : Work (StateM World) α} {f : α → Work (StateM World) β}
  {a : α} {w w' : World}

theorem inWorld_bind (x : Work (StateM World) α) (f : α → Work (StateM World) β) (w : World) :
    (x >>= f).inWorld w = match x.inWorld w with
      | (.ok a, w) => (f a).inWorld w
      | (.error report, w) => (.error report, w) := by
  simp only [inWorld, ExceptT.run_bind, StateT.run_bind]
  rcases StateT.run (ExceptT.run x) w with ⟨report | a, w'⟩ <;> rfl

theorem inWorld_bind_of_ok (h : x.inWorld w = (.ok a, w')) :
    (x >>= f).inWorld w = (f a).inWorld w' := by
  rw [inWorld_bind, h]

theorem inWorld_output (text : String) :
    inWorld (World.host.output text) w = (.ok (), w.said text) := rfl

theorem inWorld_readFile (path : Path) :
    inWorld (World.host.readFile path : StateM World _) w = (.ok (w.files.read path), w) := rfl

namespace Oblivious

theorem pure (a : α) : Oblivious (pure a) := fun _ _ => rfl

theorem throw (report : Report) : Oblivious (throw report : Work (StateM World) α) :=
  fun _ _ => rfl

theorem output (text : String) : Oblivious (World.host.output text) := by
  intro w before
  simp [inWorld_output, World.said, World.precededBy, String.append_assoc]

theorem errors (text : String) : Oblivious (World.host.errors text) := fun _ _ => rfl

theorem readFile (path : Path) : Oblivious (World.host.readFile path : StateM World _) :=
  fun _ _ => rfl

theorem bind (hx : Oblivious x) (hf : ∀ a, Oblivious (f a)) : Oblivious (x >>= f) := by
  intro w text
  rw [inWorld_bind, inWorld_bind, hx]
  rcases x.inWorld w with ⟨report | a, w'⟩
  · rfl
  · exact hf a w' text

theorem forM {f : γ → Work (StateM World) PUnit} (hf : ∀ c, Oblivious (f c)) (cs : List γ) :
    Oblivious (cs.forM f) := by
  induction cs with
  | nil => exact pure _
  | cons c cs ih => exact (hf c).bind fun _ => ih

end Oblivious

end Work

/-! ### Running what was read -/

section

variable {m : Type → Type} [Monad m]

/-- What is done to run a program once its words are known. -/
def runLoaded (host : Host m) (settings : Settings) (options : RunOptions) (data : List Word) :
    Work m Unit := do
  let table ← instructionSet host settings options.isa
  let reply := ({ table } : Engine).load data
  showLog host options.minimal settings.trace (reply.log.map Event.entry)
  match reply.answer with
  | .ok () => runMachine host settings options reply.engine
  | .error fault => throw (.ofFault fault)

/-- To run a file is to read it and to run what was read. -/
theorem perform_run [LawfulMonad m] (host : Host m) (settings : Settings) (options : RunOptions) :
    perform host settings (.run options) =
      loadFile host options.name options.minimal >>= fun p =>
        runLoaded host settings options p.data := by
  simp only [perform, prepare, runLoaded, bind_assoc]
  refine bind_congr fun p => bind_congr fun table => bind_congr fun _ => ?_
  split <;> simp_all

end

open Work

variable {settings : Settings} {options : RunOptions} {w : World} {path : Path} {text : Text}

theorem oblivious_say (line : String) : Oblivious (say World.host line) := .output _

theorem oblivious_showLog (minimal : Bool) (trace : TraceLevel) (log : List Entry) :
    Oblivious (showLog World.host minimal trace log) := .forM (fun _ => .errors _) _

theorem oblivious_readText (lead : String) (path : Path) :
    Oblivious (readText World.host lead path) := by
  refine (Oblivious.readFile path).bind fun bytes => ?_
  split
  · exact .pure _
  · exact .throw _

theorem oblivious_instructionSet (path : Option Path) :
    Oblivious (instructionSet World.host settings path) := by
  unfold instructionSet
  split
  · exact .pure _
  · refine (oblivious_readText _ _).bind fun text => ?_
    split
    · exact .pure _
    · exact .throw _

theorem oblivious_runMachine (e : Engine) :
    Oblivious (runMachine World.host settings options e) := by
  refine (oblivious_say _).bind fun _ => (oblivious_showLog _ _ _).bind fun _ => ?_
  split
  · exact .throw _
  · refine (Oblivious.forM oblivious_say _).bind fun _ => (oblivious_say _).bind fun _ => ?_
    split
    · exact oblivious_say _
    · exact oblivious_say _
    · exact .throw _

theorem oblivious_runLoaded (data : List Word) :
    Oblivious (runLoaded World.host settings options data) := by
  refine (oblivious_instructionSet _).bind fun table => (oblivious_showLog _ _ _).bind fun _ => ?_
  split
  · exact oblivious_runMachine _
  · exact .throw _

/-! ### Reading files -/

/-- The line that says what is done to a file. -/
def targetLine (word : String) (path : Path) : String :=
  String.ofList (Text.padLeft 12 ' ' word.toList) ++ " " ++ ("target " ++ String.ofList path) ++
    "\n"

theorem inWorld_target (word : String) (path : Path) :
    (target World.host word path).inWorld w = (.ok (), w.said (targetLine word path)) := rfl

theorem inWorld_readText (h : w.Shows path text) (lead : String) :
    (readText World.host lead path).inWorld w = (.ok text, w) := by
  have hread : (w.files.read path).bind textOf = .ok text := h
  rw [readText, inWorld_bind_of_ok (inWorld_readFile path), hread]
  rfl

/-- A source without defects is assembled without a word about it. -/
theorem inWorld_assembleFile {minimal : Bool} (hfile : w.Shows path text)
    (hclean : (Program.ofSource (String.ofList path) text).assemble.2.diagnostics = []) :
    (assembleFile World.host path minimal).inWorld w =
      (.ok (Program.ofSource (String.ofList path) text).assemble.1, w) := by
  rw [assembleFile, inWorld_bind_of_ok (inWorld_readText hfile "")]
  generalize (Program.ofSource (String.ofList path) text).assemble = result at *
  obtain ⟨p, assembly⟩ := result
  replace hclean : assembly.diagnostics = [] := hclean
  have hlog : assembly.log = [] := by simp [Assembly.log, Assembly.messages, hclean]
  have hassembled : assembly.assembled = true := by simp [Assembly.assembled, hclean]
  simp only [hlog, hclean, hassembled, if_true]
  cases minimal <;> rfl

theorem inWorld_loadFile_source {minimal : Bool} (hname : Path.extension? path = some "asm".toList)
    (hfile : w.Shows path text)
    (hclean : (Program.ofSource (String.ofList path) text).assemble.2.diagnostics = []) :
    (loadFile World.host path minimal).inWorld w =
      (.ok (Program.ofSource (String.ofList path) text).assemble.1,
        w.said (targetLine "Assembling" path)) := by
  have hfile : (w.said (targetLine "Assembling" path)).Shows path text := hfile
  simp only [loadFile, hname, Option.map_some, String.ofList_toList]
  rw [inWorld_bind_of_ok (inWorld_target _ _), inWorld_assembleFile hfile hclean]

theorem inWorld_loadFile_image {minimal : Bool} {p : Program}
    (hname : Path.extension? path = some "hex".toList) (hfile : w.Shows path text)
    (hread : Program.ofImage (String.ofList path) text = .ok p) :
    (loadFile World.host path minimal).inWorld w =
      (.ok p, w.said (targetLine "Loading" path)) := by
  have hfile : (w.said (targetLine "Loading" path)).Shows path text := hfile
  simp only [loadFile, hname, Option.map_some, String.ofList_toList]
  rw [inWorld_bind_of_ok (inWorld_target _ _), inWorld_bind_of_ok (inWorld_readText hfile ""),
    hread]
  rfl

/-- What running a file comes to, and all that is shown after the line about the file, depends on
the words of its program alone. -/
theorem inWorld_perform_run (settings : Settings) (options : RunOptions) {w : World} {p : Program}
    {line : String}
    (hload : (loadFile World.host options.name options.minimal).inWorld w = (.ok p, w.said line)) :
    (perform World.host settings (.run options)).inWorld w =
      let run := (runLoaded World.host settings options p.data).inWorld { w with output := "" }
      (run.1, run.2.precededBy (w.output ++ line)) := by
  have hsaid : w.said line = ({ w with output := "" } : World).precededBy (w.output ++ line) := by
    simp [World.said, World.precededBy]
  rw [perform_run, inWorld_bind_of_ok hload, hsaid]
  exact oblivious_runLoaded p.data _ _

end CommandLine

/-! ### Programs and images -/

namespace Program

theorem ofImage_eq_ok_iff {name : String} {text : Text} {p : Program} :
    ofImage name text = .ok p ↔
      ∃ data, Image.ofText text = .ok data ∧ { name, data, assembled := true } = p := by
  unfold ofImage
  cases Image.ofText text <;> simp [Except.map]

theorem ofImage_eq_error_iff {name : String} {text : Text} {error : WordError} :
    ofImage name text = .error error ↔ Image.ofText text = .error error := by
  unfold ofImage
  cases Image.ofText text <;> simp [Except.map]

/-- The image of a program holds its words. -/
theorem ofImage_image (p : Program) (name : String) :
    ofImage name p.image = .ok { name, data := p.data, assembled := true } :=
  ofImage_eq_ok_iff.mpr ⟨p.data, Image.ofText_toText p.data, rfl⟩

/-- **A program and its image are the same.** The image of a program is read as the words of the
program. A text is read if every line of it is blank or holds one to four hexadecimal digits; then
it has the words of these lines, in order, as has the image that is written for it, and otherwise
the first other line is to blame. So an engine takes the words of a source without defects alike
from the source and from its image, and running the file of the one is running the file of the
other, but for the line that names the file. -/
theorem images_round_trip :
    (∀ (p : Program) (name : String),
      ofImage name p.image = .ok { name, data := p.data, assembled := true }) ∧
    (∀ (name : String) (text : Text),
      ((∃ p, ofImage name text = .ok p) ↔ ∀ line ∈ Text.lines text, Image.Readable line) ∧
      (∀ p, ofImage name text = .ok p →
        Image.Spells (Text.lines text) p.data ∧ ofImage name p.image = .ok p) ∧
      ∀ error, ofImage name text = .error error ↔
        ∃ before line after, Text.lines text = before ++ line :: after ∧
          (∀ l ∈ before, Image.Readable l) ∧ ¬Image.Readable line ∧
          ∃ body, Text.Surrounds line body ∧ error = .invalidNumberFormat body) ∧
    (∀ (source : Text) (p : Program) (name : String),
      (Assembly.assemble source).diagnostics = [] → p.data = (Assembly.assemble source).data →
      ∃ q, ofImage name p.image = .ok q ∧ ∀ e : Engine, e.isIdle = true →
        (e.load p.data).answer = .ok () ∧ e.load q.data = e.load p.data) ∧
    ∀ (w : World) (settings : Settings) (options : RunOptions) (asm hex : Path) (source : Text),
      let p := (ofSource (String.ofList asm) source).assemble.1
      Path.extension? asm = some "asm".toList → Path.extension? hex = some "hex".toList →
      w.Shows asm source → p.assembled = true → w.Shows hex p.image →
      ∃ result after,
        (CommandLine.perform World.host settings (.run { options with name := asm })).inWorld w =
          (result, World.precededBy after
            (w.output ++ CommandLine.targetLine "Assembling" asm)) ∧
        (CommandLine.perform World.host settings (.run { options with name := hex })).inWorld w =
          (result, World.precededBy after
            (w.output ++ CommandLine.targetLine "Loading" hex)) := by
  refine ⟨ofImage_image, fun name text => ⟨?_, ?_, ?_⟩, ?_, ?_⟩
  · rw [← Image.exists_ofText_eq_ok_iff]
    constructor
    · rintro ⟨p, hp⟩
      obtain ⟨data, hdata, -⟩ := ofImage_eq_ok_iff.mp hp
      exact ⟨data, hdata⟩
    · rintro ⟨data, hdata⟩
      exact ⟨_, ofImage_eq_ok_iff.mpr ⟨data, hdata, rfl⟩⟩
  · intro p hp
    obtain ⟨data, hdata, rfl⟩ := ofImage_eq_ok_iff.mp hp
    exact ⟨Image.spells_of_ofText hdata, ofImage_image _ name⟩
  · intro error
    rw [ofImage_eq_error_iff, Image.ofText_eq_error_iff]
  · intro source p name hclean hdata
    refine ⟨_, ofImage_image p name, fun e hidle => ⟨?_, rfl⟩⟩
    obtain ⟨image, hlays⟩ := Assembly.exists_lays hclean
    rw [hdata, hlays.data]
    exact (Engine.load_holds hidle hlays.fits).1
  · intro w settings options asm hex source p hasm hhex hsource hassembled himage
    have hclean : (ofSource (String.ofList asm) source).assemble.2.diagnostics = [] :=
      List.isEmpty_iff.mp hassembled
    -- both files load the same words, and what a run does afterwards does not know the file
    have hrun := CommandLine.inWorld_perform_run settings { options with name := asm }
      (CommandLine.inWorld_loadFile_source hasm hsource hclean)
    have hrunImage := CommandLine.inWorld_perform_run settings { options with name := hex }
      (CommandLine.inWorld_loadFile_image hhex himage (ofImage_image p _))
    exact ⟨_, _, hrun, hrunImage⟩

/-- Small letters, white space and blank lines in an image, and a program up to the last word of
memory that is run from either file. -/
theorem images_round_trip_to_the_end :
    let lenient := " fe\r\n\t\n1cff\nFF00".toList
    let source := "ORG $FE\nJMP _end\n_end HALT".toList
    let w : World :=
      { files := [({ names := ["a.asm".toList] }, "ORG $FE\nJMP _end\n_end HALT".toUTF8),
          ({ names := ["a.hex".toList] }, "00FE\n1CFF\nFF00\n".toUTF8)] }
    let p := (ofSource "a.asm" source).assemble.1
    let q : Program := { name := "a", data := p.data, assembled := true }
    ofImage "a" lenient = .ok q ∧ ofImage "a" q.image = .ok q ∧
    (∀ e : Engine, e.isIdle = true → (e.load q.data).answer = .ok ()) ∧
    ((CommandLine.perform World.host {} (.run { name := "a.asm".toList })).inWorld w).1 =
      ((CommandLine.perform World.host {} (.run { name := "a.hex".toList })).inWorld w).1 := by
  intro lenient source w p q
  have hlenient : ofImage "a" lenient = .ok q := by decide
  obtain ⟨-, hread, hload, hrun⟩ := images_round_trip
  obtain ⟨-, hagain⟩ := (hread "a" lenient).2.1 q hlenient
  obtain ⟨r, -, hloads⟩ := hload source p "a" (by decide) (by decide)
  obtain ⟨result, after, hasm, hhex⟩ := hrun w {} { name := [] } "a.asm".toList "a.hex".toList
    source (by decide) (by decide) (by decide +kernel) (by decide) (by decide +kernel)
  exact ⟨hlenient, hagain, fun e hidle => (hloads e hidle).1,
    (congrArg Prod.fst hasm).trans (congrArg Prod.fst hhex).symm⟩

end Program

end TeachingCpu
