import TernaryMachine.Assembly.Program
import TernaryMachine.Machine
import TernaryMachine.Text.Padded
/-! # The log

A log line has a level, a message and named fields.  It is written if its level is at most the
threshold.  The lines are about redeclared labels, assembled programs and executed steps. -/

namespace TernaryMachine

/-- How important a log line is. -/
inductive LogLevel where
  | error
  | warn
  | debug
  | trace
deriving DecidableEq, Repr

namespace LogLevel

/-- The place of a level; more important levels come first. -/
def rank : LogLevel → Nat
  | error => 0
  | warn => 1
  | debug => 2
  | trace => 3

/-- The name of a level, five characters wide. -/
def column : LogLevel → String
  | error => "ERROR"
  | warn => " WARN"
  | debug => "DEBUG"
  | trace => "TRACE"

/-- Whether lines of a level are written under a threshold. -/
def allows (threshold level : LogLevel) : Bool :=
  level.rank ≤ threshold.rank

/-- The threshold for a count of `-v` and for tracing. -/
def ofVerbosity (verbosity : Nat) (trace : Bool) : LogLevel :=
  match verbosity with
  | 0 => if trace then .debug else .warn
  | 1 => .debug
  | _ => .trace

end LogLevel

structure LogLine where
  level : LogLevel
  message : String
  fields : List (String × String)
deriving DecidableEq, Repr

namespace LogLine

def render (l : LogLine) : String :=
  let fields := String.join (l.fields.map fun (name, value) => s!" {name}={value}")
  s!"{l.level.column} {l.message}{fields}\n"

/-- The text of the lines that a threshold allows. -/
def renderAll (threshold : LogLevel) (lines : List LogLine) : String :=
  String.join ((lines.filter fun l => threshold.allows l.level).map render)

/-! ### Lines of the assembler -/

/-- The line for a redeclared label. -/
def redeclared (r : Redeclaration) : LogLine :=
  ⟨.warn, "label redeclared; last declaration wins",
    [("line", toString r.line), ("label", s!"\"{r.name}\"")]⟩

def assembled (p : Program) : LogLine :=
  ⟨.debug, "assembled program",
    [("words", toString p.info.length),
      ("instructions", toString p.info.instructions.length),
      ("labels", toString p.info.labels.length)]⟩

/-! ### Lines of the machine -/

/-- The line for an executed instruction. -/
def executed (pc : Int) (i : Instruction) : LogLine :=
  ⟨.trace, "step", [("pc", toString pc), ("instr", i.text)]⟩

/-- The line for an executed instruction that is asked for by tracing. -/
def traced (pc : Int) (i : Instruction) : LogLine :=
  ⟨.debug, s!"{Text.signedZeroPadded 5 pc}: {i.text}", []⟩

/-- The line for a word that does not decode. -/
def faulted (pc : Int) (word : Word) (fault : DecodeError) : LogLine :=
  ⟨.error, s!"decode fault: {fault.message}", [("pc", toString pc), ("word", word.text)]⟩

/-- The lines for a step of a machine, given what came of it. -/
def ofStep (trace : Bool) (m : Machine) : Except StepError Instruction → List LogLine
  | .ok i =>
    let pc := m.registers.pc.toInt
    if trace then [executed pc i, traced pc i] else [executed pc i]
  | .error (.decode fault) => [faulted m.registers.pc.toInt m.fetched fault]
  | .error .faulted => []

end LogLine

end TernaryMachine
