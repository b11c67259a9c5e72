import TernaryMachine.Instruction.Codec
import TernaryMachine.Memory
import TernaryMachine.Text.Padded
/-! # Listings

A listing is the text of a list of words, one line for each instruction: its address, its text and
its words.  Words that are no instruction stand alone, marked `???`.

* `Reading.of` reads one instruction off a word and the word that follows.
* `Listing.sweep` reads a whole list, from address zero on; every word is in exactly one line.
* `Listing.text` is the listing with its heading. -/

namespace TernaryMachine

/-- The text of a word as an instruction, and the number of words it takes. -/
structure Reading where
  text : String
  width : Nat
deriving DecidableEq, Repr

namespace Reading

/-- Reads a word and, if it asks for it, the word that follows. -/
def of (first : Word) (next : Option Word) : Reading :=
  match Instruction.decode first next with
  | .ok i => ⟨i.text, i.words⟩
  | .error _ => ⟨s!"??? {first.text}", 1⟩

/-- Reads the word at an address of a memory; the top of memory is followed by the bottom. -/
def atAddress (m : Memory) (address : Word) : Reading :=
  of (m.read address) (some (m.read address.succ))

end Reading

structure ListingLine where
  address : Nat
  text : String
  words : List Word
deriving DecidableEq, Repr

namespace ListingLine

def render (l : ListingLine) : String :=
  let raw := " ".intercalate (l.words.map Word.text)
  s!"{Text.zeroPadded 5 l.address}: {Text.blankPadded 24 l.text} ; {raw}\n"

end ListingLine

namespace Listing

/-- Reads words from an address on and puts their lines, last one first, before others. -/
def sweepOnto (done : List ListingLine) (address : Nat) : List Word → List ListingLine
  | [] => done
  | [w] => ⟨address, (Reading.of w none).text, [w]⟩ :: done
  | w :: next :: rest =>
    let reading := Reading.of w (some next)
    if reading.width = 2 then
      sweepOnto (⟨address, reading.text, [w, next]⟩ :: done) (address + 2) rest
    else
      sweepOnto (⟨address, reading.text, [w]⟩ :: done) (address + 1) (next :: rest)

/-- The lines of a list of words. -/
def sweep (words : List Word) : List ListingLine :=
  (sweepOnto [] 0 words).reverse

/-- The listing of a list of words. -/
def text (words : List Word) : String :=
  "; trivm disassembly\n" ++ s!"; {words.length} words\n\n"
    ++ String.join ((sweep words).map ListingLine.render)

end Listing

end TernaryMachine
