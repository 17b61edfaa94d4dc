import Pinboard.Json.Basic
import Pinboard.Text.Quoted

/-! Two texts of a JSON value. `compact` is JSON without blanks: in strings the quote, the backslash and the
    control characters below the space are escaped and nothing else, and members stand in the order in
    which the object holds them. `shown` names the kind of each value and is what messages quote. Both write
    at the end of a given text, so a long array takes time in proportion to its length. -/

namespace Pinboard.Json

/-- A lower-case hexadecimal digit. -/
def hexDigit (n : Nat) : Char := Nat.digitChar n

/-- How a character is written inside a JSON string. -/
def escapeChar (c : Char) : String :=
  if c = '"' then "\\\""
  else if c = '\\' then "\\\\"
  else if c = '\x08' then "\\b"
  else if c = '\x0c' then "\\f"
  else if c = '\n' then "\\n"
  else if c = '\r' then "\\r"
  else if c = '\t' then "\\t"
  else if c.toNat < 0x20 then (("\\u00").push (hexDigit (c.toNat / 16))).push (hexDigit (c.toNat % 16))
  else c.toString

/-- Writes a string in JSON after `acc`. -/
def appendString (acc : String) (s : String) : String :=
  (s.toList.foldl (fun out c => out ++ escapeChar c) (acc.push '"')).push '"'

mutual

/-- Writes a value in JSON after `acc`. -/
def append (acc : String) : Json → String
  | .null => acc ++ "null"
  | .bool true => acc ++ "true"
  | .bool false => acc ++ "false"
  | .number n => acc ++ n.text
  | .string s => appendString acc s
  | .array items => (appendItems (acc.push '[') true items).push ']'
  | .object members => (appendMembers (acc.push '\x7b') true members).push '\x7d'

/-- Writes the values with a comma before each, which the first one goes without. -/
def appendItems (acc : String) (first : Bool) : List Json → String
  | [] => acc
  | j :: rest => appendItems (append (if first then acc else acc.push ',') j) false rest

/-- Writes the members with a comma before each, which the first one goes without. -/
def appendMembers (acc : String) (first : Bool) : List (String × Json) → String
  | [] => acc
  | (name, j) :: rest =>
    appendMembers (append ((appendString (if first then acc else acc.push ',') name).push ':') j) false rest

end

/-- The value as JSON without blanks. -/
def compact (j : Json) : String := append "" j

mutual

/-- Writes a value with its kind after `acc`. -/
def appendShown (acc : String) : Json → String
  | .null => acc ++ "Null"
  | .bool true => acc ++ "Bool(true)"
  | .bool false => acc ++ "Bool(false)"
  | .number n => acc ++ "Number(" ++ n.text ++ ")"
  | .string s => (Text.appendQuoted (acc ++ "String(") s).push ')'
  | .array items => (appendShownItems (acc ++ "Array [") true items).push ']'
  | .object members => (appendShownMembers (acc ++ "Object \x7b") true members).push '\x7d'

/-- Writes the values with a comma and a blank before each, which the first one goes without. -/
def appendShownItems (acc : String) (first : Bool) : List Json → String
  | [] => acc
  | j :: rest => appendShownItems (appendShown (if first then acc else acc ++ ", ") j) false rest

/-- Writes the members with a comma and a blank before each, which the first one goes without. -/
def appendShownMembers (acc : String) (first : Bool) : List (String × Json) → String
  | [] => acc
  | (name, j) :: rest =>
    appendShownMembers (appendShown (Text.appendQuoted (if first then acc else acc ++ ", ") name ++ ": ") j) false rest

end

/-- The value with its kind. -/
def shown (j : Json) : String := appendShown "" j

end Pinboard.Json
