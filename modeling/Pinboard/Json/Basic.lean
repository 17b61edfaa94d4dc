import Pinboard.Decimal.Layout

/-! JSON values. A number is a whole number between `-2^63` and `2^64`, or a double kept as its bits, so `1`
    and `1.0` stay apart. An object holds its members in the order in which they are written; a value read
    from text has them in ascending order of their names, each name once. -/

namespace Pinboard

/-- A JSON number. -/
inductive Json.Number
  | integer (n : Int)
  | double (bits : UInt64)
  deriving DecidableEq, Repr

/-- A JSON value. -/
inductive Json
  | null
  | bool (b : Bool)
  | number (n : Json.Number)
  | string (s : String)
  | array (items : List Json)
  | object (members : List (String × Json))
  deriving Repr, Inhabited

namespace Json

/-- Doubles are written positionally from `10 ^ -5` up to below `10 ^ 16`, with one digit or more after the
    point, and otherwise with a signed exponent without leading zeros. -/
def doubleLayout : Decimal.Layout := ⟨-5, 16, "e", "+"⟩

/-- A number as text. -/
def Number.text : Number → String
  | .integer n => Int.repr n
  | .double bits => doubleLayout.writeDouble bits

/-- Puts a member among members in ascending order of names. A member of that name is replaced. -/
def insertMember (name : String) (value : Json) : List (String × Json) → List (String × Json)
  | [] => [(name, value)]
  | (n, v) :: rest =>
    if name = n then (name, value) :: rest
    else if name < n then (name, value) :: (n, v) :: rest
    else (n, v) :: insertMember name value rest

/-- A byte string as an array of numbers. -/
def ofBytes (bytes : List UInt8) : Json := .array (bytes.map fun b => .number (.integer b.toNat))

end Json

end Pinboard
