import Pinboard.Json.Fault

/-! Values as byte strings. A byte is a whole number up to 255, a byte string a list of them. The first item that
    is something else is the fault of the whole, and no part of a list is given. -/

namespace Pinboard.Json

/-- What a value is called where another kind was expected. -/
def found : Json → Found
  | .null => .null
  | .bool b => .bool b
  | .number n => .number n
  | .string s => .string s
  | .array _ => .list
  | .object _ => .object

/-- The byte that a value is: a whole number up to 255. -/
def byte : Json → Except Cause UInt8
  | .number (.integer n) =>
    if 0 ≤ n ∧ n ≤ 255 then .ok n.toNat.toUInt8 else .error (.wrongValue (.number (.integer n)) "u8")
  | j => .error (.wrongType j.found "u8")

/-- The items of a list, each read by `read`, up to the first fault. `taken` are those before, newest first. -/
def itemsFrom {α : Type} (read : Json → Except Cause α) (taken : List α) : List Json → Except Cause (List α)
  | [] => .ok taken.reverse
  | j :: rest =>
    match read j with
    | .error cause => .error cause
    | .ok a => itemsFrom read (a :: taken) rest

/-- The list that a value is, its items read by `read`. -/
def list {α : Type} (read : Json → Except Cause α) : Json → Except Cause (List α)
  | .array items => itemsFrom read [] items
  | j => .error (.wrongType j.found "a sequence")

/-- The byte strings that a value lists. -/
def byteLists (j : Json) : Except Cause (List (List UInt8)) := j.list fun item => item.list byte

end Pinboard.Json
