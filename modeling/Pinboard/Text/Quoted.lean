import Pinboard.Text.Unprintable

/-! Quoted text, as values are shown in messages and on the terminal: between double quotes, with the quote
    and the backslash escaped, the common controls by a letter, and every other character that would not
    show as itself by its code in braces. -/

namespace Pinboard.Text

/-- The code of a character in braces, in lower-case hexadecimal without leading zeros. -/
def escapeCode (c : Char) : String := "\\u\x7b" ++ String.ofList (Nat.toDigits 16 c.toNat) ++ "\x7d"

/-- What a character looks like between the quotes. -/
def escapeQuoted (c : Char) : String :=
  if c = '"' then "\\\""
  else if c = '\\' then "\\\\"
  else if c = '\n' then "\\n"
  else if c = '\r' then "\\r"
  else if c = '\t' then "\\t"
  else if c = '\x00' then "\\0"
  else if isUnprintable c then escapeCode c
  else c.toString

/-- Writes the text quoted after `acc`. -/
def appendQuoted (acc : String) (s : String) : String :=
  (s.toList.foldl (fun out c => out ++ escapeQuoted c) (acc.push '"')).push '"'

/-- The text in quotes. -/
def quoted (s : String) : String := appendQuoted "" s

/-- The texts in quotes between brackets, separated by a comma and a space. -/
def quotedList (texts : List String) : String :=
  "[" ++ ", ".intercalate (texts.map quoted) ++ "]"

/-- A record as text: its name, and its fields with their texts between braces. -/
def shownRecord (name : String) (fields : List (String × String)) : String :=
  name ++ " \x7b " ++ ", ".intercalate (fields.map fun (field, text) => field ++ ": " ++ text) ++ " \x7d"

end Pinboard.Text
