/-! # Blank characters

A character is *blank* if it has the Unicode property `White_Space`: twenty-five characters in ten
ranges.  `Text.trim` cuts them off both ends of a text. -/

namespace TernaryMachine

namespace Text

/-- The ranges of blank characters, first and last code point of each. -/
def blankRanges : List (Nat × Nat) :=
  [(0x09, 0x0D), (0x20, 0x20), (0x85, 0x85), (0xA0, 0xA0), (0x1680, 0x1680), (0x2000, 0x200A),
    (0x2028, 0x2029), (0x202F, 0x202F), (0x205F, 0x205F), (0x3000, 0x3000)]

/-- Whether a character is blank. -/
def isBlank (c : Char) : Bool :=
  blankRanges.any fun range => range.1 ≤ c.toNat && c.toNat ≤ range.2

/-- Cuts blank characters off the front. -/
def trimFront (cs : List Char) : List Char :=
  cs.dropWhile isBlank

/-- Cuts blank characters off the back. -/
def trimBack (cs : List Char) : List Char :=
  (cs.reverse.dropWhile isBlank).reverse

/-- Cuts blank characters off both ends. -/
def trim (cs : List Char) : List Char :=
  trimBack (trimFront cs)

end Text

end TernaryMachine
