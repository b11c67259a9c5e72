import TernaryMachine.Assembly.Statement
import TernaryMachine.Table
/-! # The layout of a program

Each significant line of a program declares a label or is a statement.  `Layout.scan` walks over
the lines once and gives every statement its address: the number of words before it.  A label is
bound to the address where it stands, and the last declaration of a name wins.

The walk stops at the first line that is wrong or that does not fit in memory.  What was laid out
up to there is kept beside the error, because the redeclarations found so far are reported in any
case. -/

namespace TernaryMachine

/-- What a significant line says. -/
inductive Entry where
  | label (name : String)
  | statement (s : Statement)
deriving DecidableEq, Repr

namespace Entry

/-- Reads a significant line.  The name of a declared label may have blanks around it. -/
def parse (text : List Char) : Except AssemblyFault Entry :=
  match text with
  | '.' :: rest =>
    let name := Text.trim rest
    if namesLabel name then
      .ok (.label (String.ofList name))
    else
      .error (.argument (.labelName (String.ofList name)))
  | _ => (Statement.parse text).map .statement

end Entry

/-- A statement with its address and its line. -/
structure Placed where
  address : Nat
  line : Nat
  statement : Statement
deriving DecidableEq, Repr

/-- A label that was declared before. -/
structure Redeclaration where
  line : Nat
  name : String
  previous : Word
  current : Word
deriving DecidableEq, Repr

namespace Redeclaration

def message (r : Redeclaration) : String :=
  s!"line {r.line}: label .{r.name} redeclared (was {r.previous.toInt}, now {r.current.toInt})"

end Redeclaration

/-- A program up to some line. -/
structure Layout where
  /-- The number of words so far. -/
  length : Nat
  /-- The addresses of the labels. -/
  labels : Table String Word
  /-- The statements, last one first. -/
  placed : List Placed
  /-- The redeclarations, last one first. -/
  redeclared : List Redeclaration

/-- A layout, and the error that stopped it if there was one. -/
structure Scan where
  layout : Layout
  error : Option AssemblyError

namespace Layout

def empty : Layout :=
  ⟨0, [], [], []⟩

/-- Binds a label to the next address. -/
def declare (l : Layout) (line : Nat) (name : String) : Except AssemblyFault Layout :=
  match Word.ofInt l.length with
  | .error _ => .error .programTooLarge
  | .ok address =>
    let redeclared :=
      match l.labels.find? name with
      | some previous => ⟨line, name, previous, address⟩ :: l.redeclared
      | none => l.redeclared
    .ok { l with labels := l.labels.insert name address, redeclared := redeclared }

/-- Gives a statement the next address. -/
def append (l : Layout) (line : Nat) (s : Statement) : Except AssemblyFault Layout :=
  if Word.limit < (l.length + s.words : Nat) - 1 then
    .error .programTooLarge
  else
    .ok { l with length := l.length + s.words, placed := ⟨l.length, line, s⟩ :: l.placed }

/-- Lays out one more line. -/
def place (l : Layout) (line : Text.Line) : Except AssemblyFault Layout :=
  match Entry.parse line.text with
  | .error fault => .error fault
  | .ok (.label name) => l.declare line.number name
  | .ok (.statement s) => l.append line.number s

/-- Lays out lines up to the first that is wrong. -/
def scan (l : Layout) : List Text.Line → Scan
  | [] => ⟨l, none⟩
  | line :: lines =>
    match l.place line with
    | .error fault => ⟨l, some ⟨line.number, fault⟩⟩
    | .ok l => scan l lines

/-- Lays out a program. -/
def ofSource (source : List Char) : Scan :=
  empty.scan (Text.significantLines source)

end Layout

end TernaryMachine
