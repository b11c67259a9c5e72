import TernaryMachine.CommandLine.Commands
/-! # The program

The command line on the files of the disk. -/

namespace TernaryMachine

/-- The number of a system error, which some calls report with a minus sign. -/
def systemNumber (code : UInt32) : Nat :=
  min code.toNat (-code).toNat

/-- The error with a number and a text. -/
def FileError.ofSystem (code : UInt32) (details : String) : FileError :=
  match systemNumber code with
  | 2 => .notFound
  | 20 => .notDirectory
  | 21 => .isDirectory
  | 36 => .nameTooLong
  | n => .other s!"{details.capitalize} (os error {n})"

/-- The error of a failed access to the disk. -/
def FileError.ofDisk : IO.Error → FileError
  | .noFileOrDirectory .. => .notFound
  | .inappropriateType _ code details => .ofSystem code details
  | .invalidArgument _ code details => .ofSystem code details
  | .permissionDenied _ code details => .ofSystem code details
  | .resourceExhausted _ code details => .ofSystem code details
  | e => .other (toString e)

/-- Catches the failure of an access to the disk. -/
def catchDisk {α : Type} (access : IO α) : IO (Except FileError α) := do
  match ← access.toBaseIO with
  | .ok a => return .ok a
  | .error e => return .error (.ofDisk e)

instance : Host IO where
  readFile path := do
    match ← catchDisk (IO.FS.readBinFile path) with
    | .ok bytes =>
      match String.fromUTF8? bytes with
      | some text => return .ok text
      | none => return .error .notText
    | .error e => return .error e
  writeFile path content := catchDisk (IO.FS.writeFile path content)
  print text := do
    (← IO.getStdout).putStr text
  complain text := do
    (← IO.getStderr).putStr text

end TernaryMachine

/-- Executes the command that the arguments ask for. -/
def main (args : List String) : IO UInt32 := do
  let code : Nat ← TernaryMachine.CommandLine.execute args
  return code.toUInt32
