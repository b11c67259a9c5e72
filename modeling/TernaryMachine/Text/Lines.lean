import TernaryMachine.Text.Blank
/-! # Lines of a text

* **Lines.**  A line ends at a line feed, and a carriage return right before it goes with it.  What
  follows the last line feed is a line too unless it is empty.
* **Significant lines.**  A semicolon starts a comment.  A line is *significant* if something is
  left of it without its comment and without blanks at its ends; `Text.significantLines` gives
  those remainders with their line numbers, counted from one. -/

namespace TernaryMachine

namespace Text

/-! ### Splitting -/

/-- Puts a character in front of the first piece, or opens a new piece at a separator. -/
def consPiece (separator c : Char) (pieces : List (List Char)) : List (List Char) :=
  if c = separator then
    [] :: pieces
  else
    match pieces with
    | [] => [[c]]
    | piece :: rest => (c :: piece) :: rest

/-- The pieces of a text between the separators; there is one more than separators. -/
def split (separator : Char) (cs : List Char) : List (List Char) :=
  cs.foldr (consPiece separator) [[]]

@[simp] theorem split_nil (separator : Char) : split separator [] = [[]] := rfl

@[simp] theorem split_cons (separator c : Char) (cs : List Char) :
    split separator (c :: cs) = consPiece separator c (split separator cs) := rfl

/-! ### Lines -/

/-- Drops a carriage return at the end. -/
def dropReturn (cs : List Char) : List Char :=
  if cs.getLast? = some '\r' then cs.dropLast else cs

def lines (cs : List Char) : List (List Char) :=
  match (split '\n' cs).reverse with
  | [] => []
  | [] :: ended => (ended.map dropReturn).reverse
  | last :: ended => (last :: ended.map dropReturn).reverse

/-! ### Significant lines -/

/-- A line number, counted from one, and what is significant of the line. -/
structure Line where
  number : Nat
  text : List Char
deriving DecidableEq, Repr

/-- The part of a line before its comment, without blanks at its ends. -/
def significant (cs : List Char) : List Char :=
  trim (cs.takeWhile fun c => c ≠ ';')

/-- The significant lines of a text. -/
def significantLines (cs : List Char) : List Line :=
  (lines cs).zipIdx.filterMap fun (line, i) =>
    match significant line with
    | [] => none
    | text => some ⟨i + 1, text⟩

end Text

end TernaryMachine
