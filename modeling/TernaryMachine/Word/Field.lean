import TernaryMachine.Word.Basic
/-! # Sub-fields of a word

A *field* is a run of text positions inside a word, counted from its most significant trit.  The
trits of a field are a numeral of their own, read by `Word.field` and replaced by
`Word.setField`.  A `Field` lies inside the word by construction; `Word.field?` and
`Word.setField?` take the two numbers unchecked. -/

namespace TernaryMachine

/-- The text positions `start, …, start + width - 1` of a word. -/
structure Field where
  start : Nat
  width : Nat
  inside : start + width ≤ 9 := by decide
deriving DecidableEq, Repr

namespace Field

/-- The field of two numbers, if it lies inside a word. -/
def ofBounds? (start width : Nat) : Option Field :=
  if h : start + width ≤ 9 then some ⟨start, width, h⟩ else none

end Field

/-- Why a field was not written. -/
inductive FieldError where
  /-- The value does not fit in the width of the field. -/
  | value (fault : RangeError)
  /-- The field is not inside the word. -/
  | outside
deriving DecidableEq, Repr

namespace Word

/-- The trits of a field, in text order. -/
def slice (w : Word) (f : Field) : List Trit :=
  (w.digits.drop f.start).take f.width

theorem length_slice (w : Word) (f : Field) : (w.slice f).length = f.width := by
  have := f.inside
  simp [slice, length_digits]
  omega

def field (w : Word) (f : Field) : Int :=
  Numeral.read (w.slice f)

/-- The word whose trits in a field are replaced by as many others. -/
def splice (w : Word) (f : Field) (ds : List Trit) (length : ds.length = f.width) : Word :=
  ⟨(w.digits.take f.start ++ ds ++ w.digits.drop (f.start + f.width)).reverse, by
    have := f.inside
    simp [length_digits, length]
    omega⟩

/-- The word with another integer in a field. -/
def setField (w : Word) (f : Field) (v : Int) : Except RangeError Word :=
  match h : Numeral.write v f.width with
  | .error fault => .error fault
  | .ok ds => .ok (w.splice f ds (Numeral.length_of_write_eq_ok h))

/-- The integer held in the field of two numbers. -/
def field? (w : Word) (start width : Nat) : Option Int :=
  (Field.ofBounds? start width).map w.field

/-- The word with another integer in the field of two numbers.  A value that does not fit in the
width is reported before a field that is not inside the word. -/
def setField? (w : Word) (start width : Nat) (v : Int) : Except FieldError Word :=
  match Numeral.write v width with
  | .error fault => .error (.value fault)
  | .ok _ =>
    match Field.ofBounds? start width with
    | none => .error .outside
    | some f => (w.setField f v).mapError .value

end Word

end TernaryMachine
