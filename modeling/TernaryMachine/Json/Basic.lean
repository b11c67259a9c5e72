/-! # JSON values

Only integers are numbers here.  The fields of an object keep their order.

A *record* is an object with named fields, or an array of their values alone in a fixed order; an
object may have other fields too.  A *variant* is its name, or an object whose only field is the
name with the content of the variant. -/

namespace TernaryMachine

inductive Json where
  | null
  | bool (b : Bool)
  | number (n : Int)
  | string (s : String)
  | array (items : List Json)
  | object (fields : List (String × Json))

namespace Json

instance : Inhabited Json := ⟨null⟩

/-- The integer of a number between two bounds. -/
def intBetween? (low high : Int) : Json → Option Int
  | number n => if low ≤ n ∧ n ≤ high then some n else none
  | _ => none

/-- A natural number of at most sixty-four bits. -/
def size? (j : Json) : Option Nat :=
  (j.intBetween? 0 18446744073709551615).map Int.toNat

def string? : Json → Option String
  | string s => some s
  | _ => none

def array? : Json → Option (List Json)
  | array items => some items
  | _ => none

def object? : Json → Option (List (String × Json))
  | object fields => some fields
  | _ => none

/-! ### Records and variants -/

/-- The values of the named fields of a record. -/
def record? (names : List String) : Json → Option (List Json)
  | object fields => names.mapM fun name => fields.lookup name
  | array items => if items.length = names.length then some items else none
  | _ => none

/-- The name of a variant, and its content if there is one. -/
def variant? : Json → Option (String × Option Json)
  | string name => some (name, none)
  | object [(name, content)] => some (name, some content)
  | _ => none

/-- The name of a variant without content; `null` counts as none. -/
def plainVariant? (j : Json) : Option String :=
  match j.variant? with
  | some (name, none) => some name
  | some (name, some null) => some name
  | _ => none

end Json

end TernaryMachine
