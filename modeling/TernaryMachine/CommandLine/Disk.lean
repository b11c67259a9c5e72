import TernaryMachine.CommandLine.Host
import TernaryMachine.Table
import TernaryMachine.Text.Lines
/-! # Disks in memory

A disk is a table of files and a working folder.  A file is named by the components of its path
from the root on.  A folder exists if a file or the working folder is inside it or if it is the
working folder itself, so the root always exists.

* `Disk.locate` walks along a path, from the root if it starts with a slash and from the working
  folder otherwise.  Every component but the last has to be a folder, and above the root is the
  root again.
* `Disk.read` and `Disk.write` reach files alone; a slash at the end asks for a folder, so nothing
  can be read or written there.
* `Session` is a disk with two channels, and a `Host`. -/

namespace TernaryMachine

/-- Files by their components, and the folder in which a command is executed. -/
structure Disk where
  files : Table (List String) String
  folder : List String
deriving DecidableEq, Repr

/-- Where a path leads to. -/
inductive Location where
  /-- A folder that exists. -/
  | folder
  /-- A place for a file in a folder that exists; a slash may follow its name. -/
  | entry (folder : List String) (name : String) (slash : Bool)
deriving DecidableEq, Repr

namespace Disk

/-! ### Walking -/

/-- The components of a path without those that are empty. -/
def components (path : String) : List String :=
  ((Text.split '/' path.toList).filter fun cs => !cs.isEmpty).map String.ofList

def isFolder (d : Disk) (folder : List String) : Bool :=
  folder.isPrefixOf d.folder
    || d.files.any fun file => folder.length < file.1.length && folder.isPrefixOf file.1

/-- Whether a component is too long for a name. -/
def isTooLong (name : String) : Bool :=
  255 < name.utf8ByteSize

/-- Walks from a folder along components. -/
def walk (d : Disk) (slash : Bool) (folder : List String) :
    List String → Except FileError Location
  | [] => .ok .folder
  | "." :: rest => walk d slash folder rest
  | ".." :: rest => walk d slash folder.dropLast rest
  | name :: rest =>
    let file := folder ++ [name]
    if d.isFolder file then
      walk d slash file rest
    else if rest.isEmpty then
      .ok (.entry folder name slash)
    else if isTooLong name then
      .error .nameTooLong
    else if (d.files.find? file).isSome then
      .error .notDirectory
    else
      .error .notFound

/-- Where a path leads to. -/
def locate (d : Disk) (path : String) : Except FileError Location :=
  if path.isEmpty then
    .error .notFound
  else if 4095 < path.utf8ByteSize then
    .error .nameTooLong
  else
    let start := if "/".toList.isPrefixOf path.toList then [] else d.folder
    d.walk (path.toList.getLast? == some '/') start (components path)

/-! ### Files -/

def read (d : Disk) (path : String) : Except FileError String :=
  match d.locate path with
  | .error e => .error e
  | .ok .folder => .error .isDirectory
  | .ok (.entry folder name slash) =>
    if isTooLong name then
      .error .nameTooLong
    else
      match d.files.find? (folder ++ [name]), slash with
      | none, _ => .error .notFound
      | some _, true => .error .notDirectory
      | some content, false => .ok content

/-- The disk with another content of a file.  A slash at the end is reported before a name that is
too long. -/
def write (d : Disk) (path content : String) : Except FileError Disk :=
  match d.locate path with
  | .error e => .error e
  | .ok .folder => .error .isDirectory
  | .ok (.entry _ _ true) => .error .isDirectory
  | .ok (.entry folder name false) =>
    if isTooLong name then
      .error .nameTooLong
    else
      .ok { d with files := d.files.insert (folder ++ [name]) content }

/-- The path of a file from the working folder on, if it is inside. -/
def inside? (d : Disk) (file : List String) : Option String :=
  if d.folder.isPrefixOf file then
    some ("/".intercalate (file.drop d.folder.length))
  else
    none

/-- The files inside the working folder that are not the same on another disk. -/
def changedFrom (d before : Disk) : List (String × String) :=
  d.files.filterMap fun (file, content) =>
    if before.files.find? file = some content then
      none
    else
      (d.inside? file).map fun path => (path, content)

end Disk

/-! ### Sessions -/

/-- A disk and what was printed. -/
structure Session where
  disk : Disk
  results : String
  complaints : String

namespace Session

def folder : List String :=
  ["tmp", "session"]

/-- The disk of a session: its files by their paths from the working folder on, and beside them two
devices where there is nothing to read. -/
def diskOf (files : List (String × String)) : Disk where
  files :=
    files.foldl (fun table (path, content) => table.insert (folder ++ Disk.components path) content)
      [(["dev", "null"], ""), (["dev", "stdin"], "")]
  folder := folder

/-- A session with files in its working folder where nothing was printed yet. -/
def start (files : List (String × String)) : Session :=
  ⟨diskOf files, "", ""⟩

/-- Writes a file.  The two channels are devices that can be written to as well. -/
def writeFile (s : Session) (path content : String) : Except FileError Session :=
  match s.disk.locate path with
  | .ok (.entry ["dev"] "stdout" false) => .ok { s with results := s.results ++ content }
  | .ok (.entry ["dev"] "stderr" false) => .ok { s with complaints := s.complaints ++ content }
  | _ =>
    match s.disk.write path content with
    | .ok disk => .ok { s with disk := disk }
    | .error e => .error e

instance : Host (StateM Session) where
  readFile path := fun s => (s.disk.read path, s)
  writeFile path content := fun s =>
    match s.writeFile path content with
    | .ok s => (.ok (), s)
    | .error e => (.error e, s)
  print text := fun s => ((), { s with results := s.results ++ text })
  complain text := fun s => ((), { s with complaints := s.complaints ++ text })

end Session

end TernaryMachine
