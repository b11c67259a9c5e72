/-! # Decimal numerals

`Text.natOfDigits?` reads a natural number off one or more ASCII digits; zeros in front are
allowed. -/

namespace TernaryMachine

namespace Text

def digitValue (c : Char) : Nat :=
  c.toNat - '0'.toNat

/-- The number that digits stand for. -/
def natOfDigits? (cs : List Char) : Option Nat :=
  if !cs.isEmpty && cs.all Char.isDigit then
    some (cs.foldl (fun n c => 10 * n + digitValue c) 0)
  else
    none

end Text

end TernaryMachine
