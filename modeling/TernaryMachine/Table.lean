/-! # Sorted tables

A table is a list of keys and values in increasing order of keys.  `Table.insert` keeps the order
and replaces the value of a key that is there already. -/

namespace TernaryMachine

/-- Keys in increasing order with their values. -/
abbrev Table (κ α : Type) : Type :=
  List (κ × α)

namespace Table

variable {κ α : Type} [DecidableEq κ] [LT κ] [DecidableLT κ]

/-- The value of a key. -/
def find? (key : κ) : Table κ α → Option α
  | [] => none
  | (k, v) :: rest => if key = k then some v else find? key rest

/-- Gives a key a value. -/
def insert (key : κ) (value : α) : Table κ α → Table κ α
  | [] => [(key, value)]
  | (k, v) :: rest =>
    if key = k then
      (key, value) :: rest
    else if key < k then
      (key, value) :: (k, v) :: rest
    else
      (k, v) :: insert key value rest

end Table

end TernaryMachine
