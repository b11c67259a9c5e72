import TernaryMachine.CommandLine.Arguments
import TernaryMachine.CommandLine.Disk
import TernaryMachine.CommandLine.Path
import TernaryMachine.CommandLine.Tracing
import TernaryMachine.Image
import TernaryMachine.Json.Forms
import TernaryMachine.Json.Printer
import TernaryMachine.Listing
/-! # Commands

* `run` loads a program, from source if its name ends with `.asm` and from an image otherwise,
  executes it for a bounded number of steps and prints the registers.
* `asm` assembles a source file and writes its image, and its debug information if asked to.
* `disasm` prints the listing of an image.

`CommandLine.execute` gives the exit code: `0`, or `1` if a command failed, or `2` if the
arguments are wrong. -/

namespace TernaryMachine

/-- What a command was about, and why it failed. -/
structure CommandFailure where
  context : String
  message : String
deriving DecidableEq, Repr

namespace CommandFailure

def text (f : CommandFailure) : String :=
  s!"❌ {f.context}: {f.message}\n"

end CommandFailure

/-- Commands on a host that may fail. -/
abbrev CommandM (m : Type → Type) : Type → Type :=
  ExceptT CommandFailure m

namespace CommandLine

variable {m : Type → Type} [Monad m] [Host m]

/-! ### Parts of commands -/

def print (text : String) : CommandM m Unit :=
  ExceptT.lift (Host.print text)

/-- Prints a complaint. -/
def complain (text : String) : CommandM m Unit :=
  ExceptT.lift (Host.complain text)

/-- The value of a result, unless it is an error. -/
def require {ε α : Type} (context : String) (message : ε → String) :
    Except ε α → CommandM m α
  | .ok a => pure a
  | .error e => throw ⟨context, message e⟩

/-- The text of an error that names its file. -/
def fileMessage (path : String) (e : FileError) : String :=
  s!"I/O error: {path}: {e.message}"

/-- Assembles a source file. -/
def assembleSource (threshold : LogLevel) (path : String) : CommandM m Program := do
  let source ← ExceptT.lift (Host.readFile path)
  let source ← require "Failed to read file" FileError.message source
  let scan := Layout.ofSource source.toList
  print (LogLine.renderAll threshold (scan.layout.redeclared.reverse.map .redeclared))
  let program ← require "Assembly error" AssemblyError.message scan.toProgram
  print (LogLine.renderAll threshold [.assembled program])
  complain (String.join (program.info.warnings.map fun warning => s!"⚠️  {warning}\n"))
  return program

/-- Loads an image file. -/
def readImage (path : String) : CommandM m Image := do
  let text ← ExceptT.lift (Host.readFile path)
  let text ← require "Failed to load image" (fileMessage path) text
  require "Failed to load image" ImageError.message (Image.parse text)

/-- Loads the memory of a program from its source or its image. -/
def loadMemory (threshold : LogLevel) (path : String) : CommandM m Memory := do
  if Path.endsWith path ".asm" then
    let program ← assembleSource threshold path
    print s!"📝 Assembled {program.info.length} words\n"
    return program.memory
  else
    let image ← readImage path
    print s!"📂 Loaded {image.words.length} words\n"
    require "Failed to load program" MemoryError.message image.toMemory

/-! ### Reports -/

def registerLine (regs : Registers) (r : Register) : String :=
  let w := regs.get r
  s!"{Text.blankPadded 5 r.name}  {w.text} ({w.toInt})\n"

/-- The report at the end of a run. -/
def report (machine : Machine) (steps : Nat) : String :=
  let regs := machine.registers
  "\n━━━ Result ━━━\n"
    ++ s!"Steps: {steps}\n"
    ++ s!"PC:    {regs.pc.text} ({regs.pc.toInt})\n"
    ++ s!"Flag:  {regs.flag.toChar}   Carry: {regs.carry.toChar}\n"
    ++ String.join (Register.all.map (registerLine regs))

/-! ### Commands -/

def run (threshold : LogLevel) (path : String) (maxSteps : Nat) (trace : Bool) :
    CommandM m Unit := do
  print s!"🔧 Running: {path}\n"
  let memory ← loadMemory threshold path
  let traced := (Machine.start memory).runTraced threshold trace maxSteps
  print (LogLine.renderAll threshold traced.log.reverse)
  match traced.result with
  | .ok steps => print (report traced.machine steps)
  | .error (pc, e) => throw ⟨s!"VM error at PC={pc}", e.message⟩

/-- Assembles a source file into an image file. -/
def asm (threshold : LogLevel) (path : String) (output debugJson : Option String) :
    CommandM m Unit := do
  let imagePath := output.getD (Path.withExtension path "tim")
  print s!"📝 Assembling: {path} → {imagePath}\n"
  let program ← assembleSource threshold path
  print s!"✓ Assembled {program.info.length} words\n"
  let image := Image.ofMemory program.memory program.info.length
  let saved ← ExceptT.lift (Host.writeFile imagePath image.render)
  require "Failed to save image" (fileMessage imagePath) saved
  print s!"✓ Saved to {imagePath}\n"
  match debugJson with
  | none => return
  | some jsonPath =>
    let written ← ExceptT.lift
      (Host.writeFile jsonPath (JsonForm.toJson program.info).indented)
    require "Failed to write debug info" FileError.message written
    print s!"✓ Debug info written to {jsonPath}\n"

/-- Prints the listing of an image file. -/
def disasm (path : String) : CommandM m Unit := do
  let image ← readImage path
  print (Listing.text image.words)

/-- Executes an invocation. -/
def perform (i : Invocation) : CommandM m Unit :=
  match i.command with
  | .run program maxSteps trace =>
    run (.ofVerbosity i.verbosity trace) program maxSteps trace
  | .asm source output debugJson => asm (.ofVerbosity i.verbosity false) source output debugJson
  | .disasm image => disasm image

/-! ### The program -/

def versionText : String :=
  "trivm 0.1.0\n"

/-- How the program is called. -/
def usageText : String :=
  "Usage: trivm [-v]... run <program> [-m <steps>] [-t]\n"
    ++ "       trivm [-v]... asm <source> [-o <image>] [--debug-json <file>]\n"
    ++ "       trivm [-v]... disasm <image>\n"

/-- Executes the command that the arguments ask for; the result is the exit code. -/
def execute (args : List String) : m Nat := do
  match Invocation.parse args with
  | .error .version =>
    Host.print versionText
    return 0
  | .error .help =>
    Host.print usageText
    return 0
  | .error .usage =>
    Host.complain usageText
    return 2
  | .ok invocation =>
    match ← (perform invocation).run with
    | .ok () => return 0
    | .error failure =>
      Host.complain failure.text
      return 1

end CommandLine

end TernaryMachine
