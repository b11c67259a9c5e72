import TernaryMachine.Text.Decimal
/-! # Arguments of the command line

The command line is `run <program>`, `asm <source>` or `disasm <image>` with options.

* **Options** have a long name after two hyphens, most also a letter after one.  Letters may be
  joined.  The value of an option is the rest of its argument, after `=` or, for a letter, at
  once; if there is no rest it is the next argument, which may not start with a hyphen unless it
  is a hyphen alone.
* **Operands** are all other arguments, and all those after `--`.
* **Once or many times.**  `-v` counts, before the command and after it; the count after it wins
  if there is one.  Every other option may be given once.

`Invocation.parse` reads the arguments from left to right and stops at a request for help or for
the version, or at the first argument that is wrong. -/

namespace TernaryMachine

/-! ### Options -/

inductive CliOption where
  | verbose
  | help
  | version
  | maxSteps
  | trace
  | output
  | debugJson
deriving DecidableEq, Repr

namespace CliOption

def long : CliOption → String
  | verbose => "verbose"
  | help => "help"
  | version => "version"
  | maxSteps => "max-steps"
  | trace => "trace"
  | output => "output"
  | debugJson => "debug-json"

def letter? : CliOption → Option Char
  | verbose => some 'v'
  | help => some 'h'
  | version => some 'V'
  | maxSteps => some 'm'
  | trace => some 't'
  | output => some 'o'
  | debugJson => none

def takesValue : CliOption → Bool
  | maxSteps | output | debugJson => true
  | verbose | help | version | trace => false

/-- The options before the command. -/
def ofProgram : List CliOption :=
  [verbose, help, version]

def ofRun : List CliOption :=
  [verbose, help, maxSteps, trace]

def ofAsm : List CliOption :=
  [verbose, help, output, debugJson]

def ofDisasm : List CliOption :=
  [verbose, help]

end CliOption

/-! ### Reading -/

/-- What an argument, or a part of one, says. -/
inductive CliItem where
  | flag (o : CliOption)
  | setting (o : CliOption) (value : String)
  | operand (s : String)
  /-- The argument cannot be understood. -/
  | wrong
deriving DecidableEq, Repr

/-- The items of one argument, and the option whose value the next argument is. -/
structure CliReading where
  items : List CliItem
  pending : Option CliOption
deriving DecidableEq, Repr

namespace CliReading

/-- Reads the letters of an argument with one hyphen. -/
def ofLetters (known : List CliOption) : List Char → CliReading
  | [] => ⟨[], none⟩
  | c :: rest =>
    match known.find? fun o => o.letter? == some c with
    | none => ⟨[.wrong], none⟩
    | some o =>
      if o.takesValue then
        match rest with
        | [] => ⟨[], some o⟩
        | '=' :: value => ⟨[.setting o (String.ofList value)], none⟩
        | value => ⟨[.setting o (String.ofList value)], none⟩
      else
        let reading := ofLetters known rest
        ⟨.flag o :: reading.items, reading.pending⟩

/-- Reads the name, and the value if there is one, of an argument with two hyphens. -/
def ofLong (known : List CliOption) (cs : List Char) : CliReading :=
  let name := String.ofList (cs.takeWhile fun c => c ≠ '=')
  let value := cs.dropWhile fun c => c ≠ '='
  match known.find? fun o => o.long == name, value with
  | none, _ => ⟨[.wrong], none⟩
  | some o, [] => if o.takesValue then ⟨[], some o⟩ else ⟨[.flag o], none⟩
  | some o, _ :: value =>
    if o.takesValue then ⟨[.setting o (String.ofList value)], none⟩ else ⟨[.wrong], none⟩

/-- Reads an argument that is not `--`. -/
def ofArgument (known : List CliOption) (arg : String) : CliReading :=
  match arg.toList with
  | '-' :: '-' :: cs => ofLong known cs
  | '-' :: c :: cs => ofLetters known (c :: cs)
  | _ => ⟨[.operand arg], none⟩

end CliReading

/-- Whether an argument may be the value of an option before it. -/
def isOptionValue (arg : String) : Bool :=
  match arg.toList with
  | '-' :: _ :: _ => false
  | _ => true

/-- Reads arguments while an option may wait for its value. -/
def CliItem.readAll (known : List CliOption) (pending : Option CliOption) :
    List String → List CliItem
  | [] =>
    match pending with
    | some _ => [.wrong]
    | none => []
  | arg :: args =>
    match pending with
    | some o => if isOptionValue arg then .setting o arg :: readAll known none args else [.wrong]
    | none =>
      if arg = "--" then
        args.map .operand
      else
        let reading := CliReading.ofArgument known arg
        reading.items ++ readAll known reading.pending args

/-! ### Commands -/

/-- What to do. -/
inductive Command where
  | run (program : String) (maxSteps : Nat) (trace : Bool)
  | asm (source : String) (output debugJson : Option String)
  | disasm (image : String)
deriving DecidableEq, Repr

/-- A command, and how much to log of it. -/
structure Invocation where
  verbosity : Nat
  command : Command
deriving DecidableEq, Repr

/-- Why there is nothing to do. -/
inductive CliStop where
  | help
  | version
  /-- The arguments are wrong. -/
  | usage
deriving DecidableEq, Repr

/-- The arguments of a command that were read so far. -/
structure CommandDraft where
  verbosity : Option Nat
  operand : Option String
  maxSteps : Option Nat
  trace : Bool
  output : Option String
  debugJson : Option String

namespace CommandDraft

def empty : CommandDraft :=
  ⟨none, none, none, false, none, none⟩

/-- The largest number of steps. -/
def stepLimit : Nat := 18446744073709551615

/-- Reads a number of steps; it may have a plus sign. -/
def stepsOfText? (s : String) : Option Nat :=
  let digits := match s.toList with
    | '+' :: cs => cs
    | cs => cs
  match Text.natOfDigits? digits with
  | some n => if n ≤ stepLimit then some n else none
  | none => none

/-- Adds one more item. -/
def add (d : CommandDraft) : CliItem → Except CliStop CommandDraft
  | .flag .help => .error .help
  | .flag .verbose => .ok { d with verbosity := some (d.verbosity.getD 0 + 1) }
  | .flag .trace => if d.trace then .error .usage else .ok { d with trace := true }
  | .setting .maxSteps value =>
    match d.maxSteps, stepsOfText? value with
    | none, some n => .ok { d with maxSteps := some n }
    | _, _ => .error .usage
  | .setting .output value =>
    match d.output with
    | none => .ok { d with output := some value }
    | some _ => .error .usage
  | .setting .debugJson value =>
    match d.debugJson with
    | none => .ok { d with debugJson := some value }
    | some _ => .error .usage
  | .operand s =>
    match d.operand with
    | none => .ok { d with operand := some s }
    | some _ => .error .usage
  | _ => .error .usage

/-- The draft of the arguments after a command. -/
def read (known : List CliOption) (args : List String) : Except CliStop CommandDraft :=
  (CliItem.readAll known none args).foldlM add empty

/-- The invocation of a draft, with the count of `-v` before the command. -/
def finish (d : CommandDraft) (verbosity : Nat) (command : String → Command) :
    Except CliStop Invocation :=
  match d.operand with
  | none => .error .usage
  | some operand => .ok ⟨d.verbosity.getD verbosity, command operand⟩

end CommandDraft

namespace Invocation

/-- The number of steps of `run` unless another is given. -/
def defaultSteps : Nat := 10000

def commandNames : List String :=
  ["run", "asm", "disasm", "help"]

/-- The outcome of `help`, which may be followed by the name of one command. -/
def helpOn : List String → CliStop
  | [] => .help
  | [name] => if commandNames.contains name then .help else .usage
  | _ => .usage

/-- Reads the arguments from the name of the command on. -/
def ofCommand (verbosity : Nat) (name : String) (args : List String) :
    Except CliStop Invocation :=
  match name with
  | "run" => do
    let d ← CommandDraft.read CliOption.ofRun args
    d.finish verbosity fun program => .run program (d.maxSteps.getD defaultSteps) d.trace
  | "asm" => do
    let d ← CommandDraft.read CliOption.ofAsm args
    d.finish verbosity fun source => .asm source d.output d.debugJson
  | "disasm" => do
    let d ← CommandDraft.read CliOption.ofDisasm args
    d.finish verbosity .disasm
  | "help" => .error (helpOn args)
  | _ => .error .usage

/-- Adds the options of one argument before the command. -/
def count (verbosity : Nat) : List CliItem → Except CliStop Nat
  | [] => .ok verbosity
  | .flag .verbose :: items => count (verbosity + 1) items
  | .flag .version :: _ => .error .version
  | .flag .help :: _ => .error .help
  | _ => .error .usage

/-- Reads arguments up to the name of the command and from there on. -/
def parseFrom (verbosity : Nat) : List String → Except CliStop Invocation
  | [] => .error .usage
  | arg :: args =>
    if arg = "--" then
      .error .usage
    else
      match CliReading.ofArgument CliOption.ofProgram arg with
      | ⟨[.operand name], _⟩ => ofCommand verbosity name args
      | ⟨items, _⟩ =>
        match count verbosity items with
        | .ok verbosity => parseFrom verbosity args
        | .error stop => .error stop

/-- Reads the arguments of the command line. -/
def parse (args : List String) : Except CliStop Invocation :=
  parseFrom 0 args

end Invocation

end TernaryMachine
