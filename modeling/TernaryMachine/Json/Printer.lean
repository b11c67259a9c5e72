import TernaryMachine.Json.Basic
/-! # The text of JSON values

* **Compact** text has no blanks.
* **Indented** text has each item and each field on a line of its own, two blanks further in than
  its container; an empty container stays on one line.
* **Strings** escape the quote, the backslash and the characters below U+0020, by a letter where
  JSON has one and by four hexadecimal digits otherwise.

The printers append to a text, so that long values are printed in linear time. -/

namespace TernaryMachine

namespace Json

/-! ### Strings -/

/-- The escape of a control character. -/
def controlEscape (c : Char) : String :=
  match c.toNat with
  | 8 => "\\b"
  | 9 => "\\t"
  | 10 => "\\n"
  | 12 => "\\f"
  | 13 => "\\r"
  | n => "\\u00" ++ String.ofList [Nat.digitChar (n / 16), Nat.digitChar (n % 16)]

/-- Appends a character of a string. -/
def appendChar (text : String) (c : Char) : String :=
  if c = '"' then
    text ++ "\\\""
  else if c = '\\' then
    text ++ "\\\\"
  else if c.toNat < 32 then
    text ++ controlEscape c
  else
    text.push c

/-- Appends a string in quotes. -/
def appendString (text s : String) : String :=
  (s.toList.foldl appendChar (text.push '"')).push '"'

/-! ### Compact text -/

mutual

/-- Appends the compact text of a value. -/
def appendCompact (text : String) : Json → String
  | null => text ++ "null"
  | bool true => text ++ "true"
  | bool false => text ++ "false"
  | number n => text ++ toString n
  | string s => appendString text s
  | array items => (appendCompactItems (text.push '[') true items).push ']'
  | object fields => (appendCompactFields (text.push '\x7b') true fields).push '\x7d'

/-- Appends items, with a comma before each but the first of its array. -/
def appendCompactItems (text : String) (first : Bool) : List Json → String
  | [] => text
  | item :: items =>
    let text := if first then text else text.push ','
    appendCompactItems (appendCompact text item) false items

/-- Appends fields, with a comma before each but the first of its object. -/
def appendCompactFields (text : String) (first : Bool) : List (String × Json) → String
  | [] => text
  | (name, value) :: fields =>
    let text := if first then text else text.push ','
    let text := (appendString text name).push ':'
    appendCompactFields (appendCompact text value) false fields

end

def compact (j : Json) : String :=
  appendCompact "" j

/-! ### Indented text -/

/-- Appends a line feed and the blanks of a depth. -/
def appendIndent (text : String) (depth : Nat) : String :=
  text ++ String.ofList ('\n' :: List.replicate (2 * depth) ' ')

mutual

/-- Appends the indented text of a value at a depth. -/
def appendIndented (text : String) (depth : Nat) : Json → String
  | null => text ++ "null"
  | bool true => text ++ "true"
  | bool false => text ++ "false"
  | number n => text ++ toString n
  | string s => appendString text s
  | array [] => text ++ "[]"
  | array (item :: items) =>
    let text := appendIndentedItems (text.push '[') (depth + 1) true (item :: items)
    (appendIndent text depth).push ']'
  | object [] => text ++ "\x7b\x7d"
  | object (field :: fields) =>
    let text := appendIndentedFields (text.push '\x7b') (depth + 1) true (field :: fields)
    (appendIndent text depth).push '\x7d'

/-- Appends items at a depth, with a comma before each but the first of its array. -/
def appendIndentedItems (text : String) (depth : Nat) (first : Bool) : List Json → String
  | [] => text
  | item :: items =>
    let text := appendIndent (if first then text else text.push ',') depth
    appendIndentedItems (appendIndented text depth item) depth false items

/-- Appends fields at a depth, with a comma before each but the first of its object. -/
def appendIndentedFields (text : String) (depth : Nat) (first : Bool) :
    List (String × Json) → String
  | [] => text
  | (name, value) :: fields =>
    let text := appendIndent (if first then text else text.push ',') depth
    let text := appendString text name ++ ": "
    appendIndentedFields (appendIndented text depth value) depth false fields

end

def indented (j : Json) : String :=
  appendIndented "" 0 j

end Json

end TernaryMachine
