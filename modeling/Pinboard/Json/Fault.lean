import Pinboard.Json.Printer

/-! Why a text is not the JSON that was asked for, and where. A cause is of one of three kinds: the text
    ends too early, it is not JSON, or it is JSON of another shape. A place is a line and a column, both
    counted in bytes: the column is the number of bytes of that line that were read. -/

namespace Pinboard.Json

/-- What was being read when the text ended. -/
inductive Unfinished
  | list
  | object
  | string
  | value
  deriving DecidableEq, Repr

/-- What stood in the place of something else. -/
inductive Found
  | null
  | bool (b : Bool)
  | number (n : Number)
  | string (s : String)
  | list
  | object
  | bareVariant
  deriving DecidableEq, Repr

/-- Why a text is not the JSON that was asked for. -/
inductive Cause
  | ended (inside : Unfinished)
  | expectedColon
  | expectedListEnd
  | expectedObjectEnd
  | expectedWord
  | expectedValue
  | badEscape
  | badNumber
  | numberTooLarge
  | badCodePoint
  | controlCharacter
  | keyNotString
  | loneSurrogate
  | trailingComma
  | trailingCharacters
  | halfSurrogatePair
  | tooDeep
  | wrongType (found : Found) (expected : String)
  | wrongValue (found : Found) (expected : String)
  | wrongLength (length : Nat) (expected : String)
  | missingField (name : String)
  | duplicateField (name : String)
  | unknownVariant (name : String) (known : List String)
  deriving DecidableEq, Repr

/-- The three kinds of causes. -/
inductive Category
  | early
  | malformed
  | shape
  deriving DecidableEq, Repr

/-- The kind of a cause. -/
def Cause.category : Cause → Category
  | .ended _ => .early
  | .wrongType .. | .wrongValue .. | .wrongLength .. | .missingField _ | .duplicateField _ | .unknownVariant .. => .shape
  | _ => .malformed

/-- A name between backquotes. -/
def named (name : String) : String := "\x60" ++ name ++ "\x60"

/-- What was found, in words. -/
def Found.text : Found → String
  | .null => "null"
  | .bool b => "boolean " ++ named (if b then "true" else "false")
  | .number (.integer n) => "integer " ++ named (Int.repr n)
  | .number (.double bits) => "floating point " ++ named (Number.text (.double bits))
  | .string s => "string " ++ Text.quoted s
  | .list => "sequence"
  | .object => "map"
  | .bareVariant => "unit variant"

/-- A choice of names: two are joined by a word, more are listed. -/
def choice : List String → String
  | [] => ""
  | [a] => named a
  | [a, b] => named a ++ " or " ++ named b
  | names => "one of " ++ ", ".intercalate (names.map named)

/-- The cause in words. -/
def Cause.text : Cause → String
  | .ended .list => "EOF while parsing a list"
  | .ended .object => "EOF while parsing an object"
  | .ended .string => "EOF while parsing a string"
  | .ended .value => "EOF while parsing a value"
  | .expectedColon => "expected \x60:\x60"
  | .expectedListEnd => "expected \x60,\x60 or \x60]\x60"
  | .expectedObjectEnd => "expected \x60,\x60 or \x60\x7d\x60"
  | .expectedWord => "expected ident"
  | .expectedValue => "expected value"
  | .badEscape => "invalid escape"
  | .badNumber => "invalid number"
  | .numberTooLarge => "number out of range"
  | .badCodePoint => "invalid unicode code point"
  | .controlCharacter => "control character (\\u0000-\\u001F) found while parsing a string"
  | .keyNotString => "key must be a string"
  | .loneSurrogate => "lone leading surrogate in hex escape"
  | .trailingComma => "trailing comma"
  | .trailingCharacters => "trailing characters"
  | .halfSurrogatePair => "unexpected end of hex escape"
  | .tooDeep => "recursion limit exceeded"
  | .wrongType found expected => "invalid type: " ++ found.text ++ ", expected " ++ expected
  | .wrongValue found expected => "invalid value: " ++ found.text ++ ", expected " ++ expected
  | .wrongLength length expected => "invalid length " ++ Nat.repr length ++ ", expected " ++ expected
  | .missingField name => "missing field " ++ named name
  | .duplicateField name => "duplicate field " ++ named name
  | .unknownVariant name known => "unknown variant " ++ named name ++ ", expected " ++ choice known

/-- A place in a text. -/
structure Position where
  line : Nat
  column : Nat
  deriving DecidableEq, Repr

/-- The place after the given bytes: a line feed ends a line, and the column counts the bytes after the last
    one. -/
def Position.after (bytes : List UInt8) : Position :=
  bytes.foldl (fun p b => if b = 0x0a then ⟨p.line + 1, 0⟩ else ⟨p.line, p.column + 1⟩) ⟨1, 0⟩

/-- A cause and its place. A fault in a value that was not read from text has none. -/
structure Fault where
  cause : Cause
  position : Option Position
  deriving DecidableEq, Repr

/-- The fault in words, with its place. -/
def Fault.message (f : Fault) : String :=
  match f.position with
  | none => f.cause.text
  | some p => f.cause.text ++ " at line " ++ Nat.repr p.line ++ " column " ++ Nat.repr p.column

/-- The fault with its parts named; no place is line and column zero. -/
def Fault.shown (f : Fault) : String :=
  let p := f.position.getD ⟨0, 0⟩
  "Error(" ++ Text.quoted f.cause.text ++ ", line: " ++ Nat.repr p.line ++ ", column: " ++ Nat.repr p.column ++ ")"

end Pinboard.Json
