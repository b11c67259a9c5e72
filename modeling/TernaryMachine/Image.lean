import TernaryMachine.Memory
import TernaryMachine.Text.Lines
import TernaryMachine.Text.Padded
/-! # Program images

An image is the words of a program from address zero on, kept as text: one word on each
significant line.  An image has at most `9842` words, as many as there are addresses from zero on.

* `Image.parse` reads the text and names the first line that is wrong.
* `Image.render` writes it, with the address of each word as a comment.
* `Image.ofMemory` and `Image.toMemory` take the words from a memory and put them into an empty
  one. -/

namespace TernaryMachine

/-- What is wrong with a line of an image. -/
inductive ImageFault where
  /-- The line is no word. -/
  | malformed (fault : WordError)
  /-- There is no address left for the word. -/
  | tooLong
deriving DecidableEq, Repr

namespace ImageFault

def message : ImageFault → String
  | malformed fault => fault.message
  | tooLong => "image exceeds 9842 words"

end ImageFault

/-- A fault and the number of its line. -/
structure ImageError where
  line : Nat
  fault : ImageFault
deriving DecidableEq, Repr

namespace ImageError

def message (e : ImageError) : String :=
  s!"parse error on line {e.line}: {e.fault.message}"

end ImageError

/-- The words of a program from address zero on. -/
structure Image where
  words : List Word
deriving DecidableEq, Repr

namespace Image

/-- The largest number of words. -/
def maxWords : Nat := 9842

def isEmpty (image : Image) : Bool :=
  image.words.isEmpty

/-! ### Memory -/

/-- The first `length` words of a memory from address zero on, as many as there are. -/
def ofMemory (m : Memory) (length : Nat) : Image :=
  ⟨(List.range (min length maxWords)).map fun (address : Nat) => m.read (.wrap address)⟩

/-- The memory that holds an image and is zero elsewhere. -/
def toMemory (image : Image) : Except MemoryError Memory :=
  Memory.empty.install 0 image.words

/-! ### Text -/

/-- Reads one word from each line, after some words that were read before. -/
def readLines (count : Nat) (done : List Word) : List Text.Line → Except ImageError (List Word)
  | [] => .ok done.reverse
  | line :: lines =>
    match Word.parse (String.ofList line.text) with
    | .error fault => .error ⟨line.number, .malformed fault⟩
    | .ok w =>
      if count = maxWords then
        .error ⟨line.number, .tooLong⟩
      else
        readLines (count + 1) (w :: done) lines

/-- Reads the text of an image. -/
def parse (text : String) : Except ImageError Image :=
  (readLines 0 [] (Text.significantLines text.toList)).map Image.mk

/-- The line of a word and its address. -/
def renderLine (w : Word) (address : Nat) : String :=
  s!"{w.text} ; {Text.zeroPadded 5 address}\n"

def render (image : Image) : String :=
  "; trivm image\n" ++ s!"; {image.words.length} words\n\n"
    ++ String.join (image.words.zipIdx.map fun (w, address) => renderLine w address)

end Image

end TernaryMachine
