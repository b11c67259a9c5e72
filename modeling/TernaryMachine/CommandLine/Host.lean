/-! # The host of a command

A command reads and writes whole files and prints to two channels.  `Host` is what it needs of a
monad for that, so that the commands are the same on a disk and in memory. -/

namespace TernaryMachine

/-- Why a file is not read or written. -/
inductive FileError where
  | notFound
  | notDirectory
  | isDirectory
  | nameTooLong
  /-- The content is not UTF-8. -/
  | notText
  /-- Another reason, in the words of the host. -/
  | other (text : String)
deriving DecidableEq, Repr

namespace FileError

def message : FileError → String
  | notFound => "No such file or directory (os error 2)"
  | notDirectory => "Not a directory (os error 20)"
  | isDirectory => "Is a directory (os error 21)"
  | nameTooLong => "File name too long (os error 36)"
  | notText => "stream did not contain valid UTF-8"
  | other text => text

end FileError

/-- Monads in which files can be read and written and text can be printed. -/
class Host (m : Type → Type) where
  readFile : String → m (Except FileError String)
  writeFile : String → String → m (Except FileError Unit)
  /-- Prints to the channel for results. -/
  print : String → m Unit
  /-- Prints to the channel for complaints. -/
  complain : String → m Unit

end TernaryMachine
