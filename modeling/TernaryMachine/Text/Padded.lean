/-! # Padded columns

Addresses are written with leading zeros up to a width, and text is filled up with blanks.  A
sign counts toward the width and stands before the zeros. -/

namespace TernaryMachine

namespace Text

/-- As many copies of a character as a text lacks of a width. -/
def filler (c : Char) (width length : Nat) : String :=
  String.ofList (List.replicate (width - length) c)

/-- A natural number with leading zeros up to a width. -/
def zeroPadded (width n : Nat) : String :=
  let digits := toString n
  filler '0' width digits.length ++ digits

/-- An integer with leading zeros up to a width, sign included. -/
def signedZeroPadded (width : Nat) (v : Int) : String :=
  if v < 0 then "-" ++ zeroPadded (width - 1) v.natAbs else zeroPadded width v.natAbs

/-- A text followed by blanks up to a width. -/
def blankPadded (width : Nat) (s : String) : String :=
  s ++ filler ' ' width s.length

end Text

end TernaryMachine
