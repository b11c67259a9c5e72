import TernaryMachine.CommandLine.Commands
import TernaryMachine.Proofs.Disk
import TernaryMachine.Proofs.Faults
import TernaryMachine.Proofs.Image
import TernaryMachine.Proofs.Path
/-! # Running from an image

A program can be run from its source, or assembled into an image file and run from that.  Both
come to the same machine, after every number of steps.

* **Executing.**  `Session.execute` is a command on a session, and `execute_bind` says how commands
  follow one another.  Each part of a command has a lemma that says what it gives, what it prints,
  and what it writes to the disk, if anything.
* **Loading.**  The memory of a program comes out of its source (`execute_loadMemory_source`) and
  out of its image (`execute_loadMemory_image`).
* **Saving.**  `asm` leaves the disk alone up to the image and writes the debug information
  somewhere else, so afterwards the image file holds the text of the image (`Saves.read_image`).
* **Running.**  `CommandLine.reach` is `run` up to its report and `CommandLine.conclude` is the
  report.  A traced run follows the untraced one of the same machine
  (`Machine.follows_runTraced`), so whatever `run` prints is determined by `Machine.run`
  (`CommandLine.runs_of_loadMemory`).  `CommandLine.runs_from_image` is the main result. -/

namespace TernaryMachine

/-! ### Executing commands on a session -/

namespace Session

variable {α β : Type} {s s' : Session} {a : α} {b : β}

/-- What a command gives on a session, and the session afterwards. -/
def execute (s : Session) (command : CommandM (StateM Session) α) :
    Except CommandFailure α × Session :=
  command.run s

theorem execute_bind (s : Session) (x : CommandM (StateM Session) α)
    (f : α → CommandM (StateM Session) β) :
    s.execute (x >>= f) =
      match s.execute x with
      | (.ok a, s') => s'.execute (f a)
      | (.error failure, s') => (.error failure, s') := by
  show (match x s with
    | (result, s') => ExceptT.bindCont f result s') =
      match x s with
      | (.ok a, s') => f a s'
      | (.error failure, s') => (.error failure, s')
  obtain ⟨result, s'⟩ := x s
  cases result with
  | ok a => rfl
  | error failure => rfl

theorem execute_bind_of_ok {x : CommandM (StateM Session) α} (h : s.execute x = (.ok a, s'))
    (f : α → CommandM (StateM Session) β) : s.execute (x >>= f) = s'.execute (f a) := by
  rw [execute_bind, h]

theorem execute_bind_eq_ok_iff {x : CommandM (StateM Session) α}
    {f : α → CommandM (StateM Session) β} :
    s.execute (x >>= f) = (.ok b, s') ↔
      ∃ a s₁, s.execute x = (.ok a, s₁) ∧ s₁.execute (f a) = (.ok b, s') := by
  rw [execute_bind]
  cases s.execute x with
  | mk result s₁ =>
    cases result with
    | ok a => simp
    | error failure => simp

/-- The session with more results printed. -/
def printed (s : Session) (text : String) : Session :=
  { s with results := s.results ++ text }

/-- The session with more complaints printed. -/
def complained (s : Session) (text : String) : Session :=
  { s with complaints := s.complaints ++ text }

theorem printed_printed (s : Session) (front back : String) :
    (s.printed front).printed back = s.printed (front ++ back) := by
  rw [printed, printed, printed, String.append_assoc]

theorem complained_empty (s : Session) : s.complained "" = s := by
  rw [complained, String.append_empty]

theorem execute_print (s : Session) (text : String) :
    s.execute (CommandLine.print text) = (.ok (), s.printed text) := rfl

theorem execute_complain (s : Session) (text : String) :
    s.execute (CommandLine.complain text) = (.ok (), s.complained text) := rfl

theorem execute_readFile (s : Session) (path : String) :
    s.execute (ExceptT.lift (Host.readFile path)) = (.ok (s.disk.read path), s) := rfl

theorem execute_writeFile (s : Session) (path content : String) :
    s.execute (ExceptT.lift (Host.writeFile path content)) =
      match s.writeFile path content with
      | .ok s' => (.ok (.ok ()), s')
      | .error e => (.ok (.error e), s) := by
  have host : (Host.writeFile path content : StateM Session (Except FileError Unit)) s =
      match s.writeFile path content with
      | .ok s' => (.ok (), s')
      | .error e => (.error e, s) := rfl
  show ((Except.ok ((Host.writeFile path content : StateM Session (Except FileError Unit)) s).1,
    ((Host.writeFile path content : StateM Session (Except FileError Unit)) s).2) :
      Except CommandFailure (Except FileError Unit) × Session) = _
  rw [host]
  cases s.writeFile path content with
  | ok s' => rfl
  | error e => rfl

theorem execute_require_ok {ε : Type} (s : Session) (context : String) (message : ε → String)
    (a : α) :
    s.execute (CommandLine.require context message (.ok a)) = (.ok a, s) := rfl

theorem execute_require_error {ε : Type} (s : Session) (context : String) (message : ε → String)
    (e : ε) :
    s.execute (CommandLine.require context message (.error e) : CommandM (StateM Session) α) =
      (.error ⟨context, message e⟩, s) := rfl

end Session

/-! ### Loading -/

namespace CommandLine

open Session

variable {s s' : Session} {path source : String} {p : Program}

/-- What is printed while a program is assembled. -/
def assemblyText (threshold : LogLevel) (source : String) (p : Program) : String :=
  LogLine.renderAll threshold
      ((Layout.ofSource source.toList).layout.redeclared.reverse.map .redeclared) ++
    LogLine.renderAll threshold [.assembled p]

def warningText (p : Program) : String :=
  String.join (p.info.warnings.map fun warning => s!"⚠️  {warning}\n")

theorem execute_assembleSource (read : s.disk.read path = .ok source)
    (assembled : assemble source = .ok p) (threshold : LogLevel) :
    s.execute (assembleSource threshold path) =
      (.ok p, (s.printed (assemblyText threshold source p)).complained (warningText p)) := by
  unfold assemble at assembled
  rw [assembleSource, execute_bind_of_ok (execute_readFile s path), read,
    execute_bind_of_ok (execute_require_ok _ _ _ _), execute_bind_of_ok (execute_print _ _),
    assembled, execute_bind_of_ok (execute_require_ok _ _ _ _),
    execute_bind_of_ok (execute_print _ _), execute_bind_of_ok (execute_complain _ _),
    printed_printed]
  rfl

theorem execute_loadMemory_source (isSource : Path.endsWith path ".asm" = true)
    (read : s.disk.read path = .ok source) (assembled : assemble source = .ok p)
    (threshold : LogLevel) :
    s.execute (loadMemory threshold path) = (.ok p.memory,
      (s.printed (assemblyText threshold source p ++
        s!"📝 Assembled {p.info.length} words\n")).complained (warningText p)) := by
  have both := s.printed_printed (assemblyText threshold source p)
    s!"📝 Assembled {p.info.length} words\n"
  rw [loadMemory, if_pos isSource,
    execute_bind_of_ok (execute_assembleSource read assembled threshold),
    execute_bind_of_ok (execute_print _ _), ← both]
  rfl

theorem execute_loadMemory_image (isImage : Path.endsWith path ".asm" = false)
    (read : s.disk.read path = .ok p.image.render) (kept : p.KeptByImage) (threshold : LogLevel) :
    s.execute (loadMemory threshold path) =
      (.ok p.memory, s.printed s!"📂 Loaded {p.image.words.length} words\n") := by
  have image : s.execute (readImage path) = (.ok p.image, s) := by
    rw [readImage, execute_bind_of_ok (execute_readFile s path), read,
      execute_bind_of_ok (execute_require_ok _ _ _ _), kept.parse]
    rfl
  rw [loadMemory, if_neg (by simp [isImage]), execute_bind_of_ok image,
    execute_bind_of_ok (execute_print _ _), kept.toMemory]
  rfl

/-! ### Saving -/

/-- The path of the image file that a source file is assembled into. -/
def imagePath (path : String) (output : Option String) : String :=
  output.getD (Path.withExtension path "tim")

def save (context : String) (message : FileError → String) (path content : String) :
    CommandM (StateM Session) Unit := do
  let saved ← ExceptT.lift (Host.writeFile path content)
  require context message saved

theorem execute_save_eq_ok_iff {context path content : String} {message : FileError → String}
    {u : Unit} :
    s.execute (save context message path content) = (.ok u, s') ↔
      s.writeFile path content = .ok s' := by
  rw [save, execute_bind, execute_writeFile]
  cases s.writeFile path content with
  | ok s₁ => simp [execute_require_ok]
  | error e => simp [execute_require_error]

theorem asm_eq (level : LogLevel) (path : String) (output debugJson : Option String) :
    (asm level path output debugJson : CommandM (StateM Session) Unit) = (do
      print s!"📝 Assembling: {path} → {imagePath path output}\n"
      let program ← assembleSource level path
      print s!"✓ Assembled {program.info.length} words\n"
      save "Failed to save image" (fileMessage (imagePath path output)) (imagePath path output)
        program.image.render
      print s!"✓ Saved to {imagePath path output}\n"
      match debugJson with
      | none => return
      | some jsonPath =>
        save "Failed to write debug info" FileError.message jsonPath
          (JsonForm.toJson program.info).indented
        print s!"✓ Debug info written to {jsonPath}\n") := by
  cases debugJson with
  | none => simp only [asm, save, imagePath, Program.image, bind_assoc]
  | some jsonPath => simp only [asm, save, imagePath, Program.image, bind_assoc]

/-- A source file is assembled into an image file, which can be read back and is not written over
by the debug information. -/
structure Saves (s : Session) (level : LogLevel) (path : String) (output debugJson : Option String)
    (s' : Session) : Prop where
  isSource : Path.endsWith path ".asm" = true
  isImage : ∀ given ∈ output, Path.endsWith given ".asm" = false
  kept : ¬ s.disk.IsChannel (imagePath path output)
  apart : ∀ json ∈ debugJson, s.disk.locate json ≠ s.disk.locate (imagePath path output)
  done : s.execute (asm level path output debugJson) = (.ok (), s')

namespace Saves

variable {level : LogLevel} {output debugJson : Option String}

theorem endsWith_imagePath (h : Saves s level path output debugJson s') :
    Path.endsWith (imagePath path output) ".asm" = false := by
  cases output with
  | none => exact Path.endsWith_withExtension h.isSource
  | some given => exact h.isImage given rfl

theorem read_image (h : Saves s level path output debugJson s')
    (read : s.disk.read path = .ok source) (assembled : assemble source = .ok p) :
    s'.disk.read (imagePath path output) = .ok p.image.render := by
  have done := h.done
  rw [asm_eq] at done
  simp only [execute_bind_eq_ok_iff, execute_print, execute_save_eq_ok_iff, Prod.mk.injEq] at done
  obtain ⟨-, s₁, ⟨-, rfl⟩, program, s₂, gives, -, s₃, ⟨-, rfl⟩, -, s₄, saved, -, s₅, ⟨-, rfl⟩,
    rest⟩ := done
  cases gives.symm.trans (execute_assembleSource (s := s.printed _) read assembled level)
  have written : s.disk.write (imagePath path output) p.image.render = .ok s₄.disk :=
    (writeFile_cases saved).resolve_left fun channel => h.kept channel.1
  have image := Disk.read_write written
  cases debugJson with
  | none =>
    cases rest
    exact image
  | some jsonPath =>
    simp only [execute_bind_eq_ok_iff, execute_print, execute_save_eq_ok_iff, Prod.mk.injEq]
      at rest
    obtain ⟨-, s₆, saved, -, rfl⟩ := rest
    rcases writeFile_cases saved with ⟨-, same⟩ | other
    · show s₆.disk.read _ = _
      rw [same]
      exact image
    · exact Disk.read_write_of_ne other image
        (Disk.locate_ne_of_write written (h.apart jsonPath rfl))

end Saves

end CommandLine

/-! ### Runs and traced runs -/

/-- A traced run ends on the machine that an untraced one ends on, after as many steps or with the
same error, which arose where that machine stands. -/
structure TracedRun.Follows (traced : TracedRun) (o : Outcome Nat) : Prop where
  machine : traced.machine = o.machine
  result : traced.result = o.result.mapError fun e => (o.machine.registers.pc.toInt, e)

theorem Machine.follows_runTracedFrom (threshold : LogLevel) (trace : Bool) (done : Nat)
    (log : List LogLine) (n : Nat) (m : Machine) :
    (runTracedFrom threshold trace done log n m).Follows (runFrom done n m) := by
  induction n generalizing done log m with
  | zero => exact ⟨rfl, rfl⟩
  | succ n ih =>
    unfold runTracedFrom runFrom
    cases stepped : m.step with
    | mk m' result =>
      cases result with
      | error e =>
        obtain ⟨rfl, -⟩ := step_eq_error_iff.mp stepped
        exact ⟨rfl, rfl⟩
      | ok i => exact ih _ _ _

theorem Machine.follows_runTraced (threshold : LogLevel) (trace : Bool) (n : Nat) (m : Machine) :
    (m.runTraced threshold trace n).Follows (m.run n) :=
  follows_runTracedFrom threshold trace 0 [] n m

namespace CommandLine

open Session

variable {s s' : Session} {path source said warned : String} {p : Program} {memory : Memory}
  {threshold : LogLevel} {maxSteps : Nat} {trace : Bool}

/-! ### Running -/

/-- The run of the program at a path, without the report. -/
def reach (threshold : LogLevel) (path : String) (maxSteps : Nat) (trace : Bool) :
    CommandM (StateM Session) TracedRun := do
  print s!"🔧 Running: {path}\n"
  let memory ← loadMemory threshold path
  return (Machine.start memory).runTraced threshold trace maxSteps

/-- The report of a run. -/
def conclude (threshold : LogLevel) (traced : TracedRun) : CommandM (StateM Session) Unit := do
  print (LogLine.renderAll threshold traced.log.reverse)
  match traced.result with
  | .ok steps => print (report traced.machine steps)
  | .error (pc, e) => throw ⟨s!"VM error at PC={pc}", e.message⟩

theorem run_eq (threshold : LogLevel) (path : String) (maxSteps : Nat) (trace : Bool) :
    run threshold path maxSteps trace =
      reach threshold path maxSteps trace >>= conclude threshold := by
  have parts : reach threshold path maxSteps trace >>= conclude threshold = (do
      print s!"🔧 Running: {path}\n"
      let memory ← loadMemory threshold path
      conclude threshold ((Machine.start memory).runTraced threshold trace maxSteps)) := by
    simp only [reach, bind_assoc, pure_bind]
  rw [parts]
  rfl

/-- The exit of a run: an error is reported with the address where it arose. -/
def verdict (o : Outcome Nat) : Except CommandFailure Unit :=
  match o.result with
  | .ok _ => .ok ()
  | .error e => .error ⟨s!"VM error at PC={o.machine.registers.pc.toInt}", e.message⟩

/-- The last lines of a run: its steps and registers, unless it met an error. -/
def closing (o : Outcome Nat) : String :=
  match o.result with
  | .ok steps => report o.machine steps
  | .error _ => ""

theorem execute_conclude {traced : TracedRun} {o : Outcome Nat} (follows : traced.Follows o)
    (s : Session) (threshold : LogLevel) :
    s.execute (conclude threshold traced) =
      (verdict o,
        s.printed (LogLine.renderAll threshold traced.log.reverse ++ closing o)) := by
  obtain ⟨machine, result⟩ := follows
  rw [conclude, execute_bind_of_ok (execute_print _ _), verdict, closing, result, machine,
    ← printed_printed]
  cases o.result with
  | ok steps => rfl
  | error e =>
    show (_, _) = (_, (s.printed _).printed "")
    rw [printed_printed, String.append_empty]

/-- A run from a path, and all that is left of it.  Its machine is the one that `Machine.run` comes
to from a memory, and `run` prints or reports that machine. -/
structure Runs (s : Session) (threshold : LogLevel) (path : String) (maxSteps : Nat)
    (trace : Bool) (memory : Memory) (said warned : String) : Prop where
  reach : (s.execute (reach threshold path maxSteps trace)).1 =
    .ok ((Machine.start memory).runTraced threshold trace maxSteps)
  follows : ((Machine.start memory).runTraced threshold trace maxSteps).Follows
    ((Machine.start memory).run maxSteps)
  run_eq : run threshold path maxSteps trace =
    CommandLine.reach threshold path maxSteps trace >>= conclude threshold
  run : s.execute (run threshold path maxSteps trace) =
    (verdict ((Machine.start memory).run maxSteps),
      { disk := s.disk
        results := s.results ++ (s!"🔧 Running: {path}\n" ++ said ++
          LogLine.renderAll threshold
            ((Machine.start memory).runTraced threshold trace maxSteps).log.reverse ++
          closing ((Machine.start memory).run maxSteps))
        complaints := s.complaints ++ warned })

/-- A path that a memory is loaded from is a path that it is run from. -/
theorem runs_of_loadMemory
    (loads : (s.printed s!"🔧 Running: {path}\n").execute (loadMemory threshold path) =
      (.ok memory, ((s.printed s!"🔧 Running: {path}\n").printed said).complained warned)) :
    Runs s threshold path maxSteps trace memory said warned := by
  have follows := (Machine.start memory).follows_runTraced threshold trace maxSteps
  have reached : s.execute (reach threshold path maxSteps trace) =
      (.ok ((Machine.start memory).runTraced threshold trace maxSteps),
        (s.printed (s!"🔧 Running: {path}\n" ++ said)).complained warned) := by
    rw [reach, execute_bind_of_ok (execute_print _ _), execute_bind_of_ok loads, printed_printed]
    rfl
  refine ⟨by rw [reached], follows, run_eq _ _ _ _, ?_⟩
  rw [run_eq, execute_bind_of_ok reached, execute_conclude follows]
  simp only [printed, complained, String.append_assoc]

/-- **Images**: a program is kept by its image, and it runs from the image file that its source file
is assembled into as it runs from the source file. -/
theorem runs_from_image (assembled : assemble source = .ok p) :
    p.KeptByImage ∧
      ∀ {s s' : Session} {level : LogLevel} {path : String} {output debugJson : Option String},
        s.disk.read path = .ok source → Saves s level path output debugJson s' →
          ∀ (threshold : LogLevel) (maxSteps : Nat) (trace : Bool),
            Runs s threshold path maxSteps trace p.memory
              (assemblyText threshold source p ++ s!"📝 Assembled {p.info.length} words\n")
              (warningText p) ∧
            Runs s' threshold (imagePath path output) maxSteps trace p.memory
              s!"📂 Loaded {p.image.words.length} words\n" "" ∧
            (s.execute (run threshold path maxSteps trace)).1 =
              (s'.execute (run threshold (imagePath path output) maxSteps trace)).1 := by
  obtain ⟨bs, laid⟩ := Program.laidOut_of_assemble assembled
  refine ⟨laid.keptByImage, ?_⟩
  intro s s' level path output debugJson read saves threshold maxSteps trace
  have image := saves.read_image read assembled
  have from_source : Runs s threshold path maxSteps trace p.memory
      (assemblyText threshold source p ++ s!"📝 Assembled {p.info.length} words\n")
      (warningText p) := by
    apply runs_of_loadMemory
    exact execute_loadMemory_source (s := s.printed _) saves.isSource read assembled threshold
  have from_image : Runs s' threshold (imagePath path output) maxSteps trace p.memory
      s!"📂 Loaded {p.image.words.length} words\n" "" := by
    apply runs_of_loadMemory
    rw [complained_empty]
    exact execute_loadMemory_image (s := s'.printed _) saves.endsWith_imagePath image
      laid.keptByImage threshold
  refine ⟨from_source, from_image, ?_⟩
  rw [from_source.run, from_image.run]

/-- A loop that is assembled into `a.tim`. -/
theorem runs_from_image_loop :
    ∃ p s', assemble ".top\nMOV r0, oooooo+--\nJMP .top" = .ok p ∧
      Saves (Session.start [("a.asm", ".top\nMOV r0, oooooo+--\nJMP .top")]) .warn "a.asm" none none
        s' ∧
      p.KeptByImage ∧
      Runs s' .warn "a.tim" 100 false p.memory s!"📂 Loaded {p.image.words.length} words\n" "" ∧
      (s'.execute (run .warn "a.tim" 100 false)).1 =
        verdict ((Machine.start p.memory).run 100) := by
  have assembles : (assemble ".top\nMOV r0, oooooo+--\nJMP .top").map (fun p => p.info.length) =
      .ok 4 := by decide +kernel
  obtain ⟨p, assembled, -⟩ := map_eq_ok_iff.mp assembles
  have done : ((Session.start [("a.asm", ".top\nMOV r0, oooooo+--\nJMP .top")]).execute
      (asm .warn "a.asm" none none)).1 = .ok () := by decide +kernel
  obtain ⟨s', saved⟩ : ∃ s',
      (Session.start [("a.asm", ".top\nMOV r0, oooooo+--\nJMP .top")]).execute
        (asm .warn "a.asm" none none) = (.ok (), s') := ⟨_, Prod.ext done rfl⟩
  have kept : ¬ ((Session.start [("a.asm", ".top\nMOV r0, oooooo+--\nJMP .top")]).disk.IsChannel
      (imagePath "a.asm" none)) := by
    show ¬ (_ ∨ _)
    decide +kernel
  have read : (Session.start [("a.asm", ".top\nMOV r0, oooooo+--\nJMP .top")]).disk.read "a.asm" =
      .ok ".top\nMOV r0, oooooo+--\nJMP .top" := by decide +kernel
  have saves : Saves (Session.start [("a.asm", ".top\nMOV r0, oooooo+--\nJMP .top")]) .warn "a.asm"
      none none s' := ⟨by decide, by simp, kept, by simp, saved⟩
  have name : imagePath "a.asm" none = "a.tim" := by decide +kernel
  obtain ⟨image, alike⟩ := runs_from_image assembled
  obtain ⟨-, from_image, -⟩ := alike read saves .warn 100 false
  rw [name] at from_image
  exact ⟨p, s', assembled, saves, image, from_image, by rw [from_image.run]⟩

end CommandLine

end TernaryMachine
