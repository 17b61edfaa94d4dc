import Pinboard.Message.Basic

/-! Fresh call ids. An id is made from 16 random bytes, six bits of which are fixed: four say that the id is a
    random one, and two which layout it has. It is written as hexadecimal digits in five groups, 36
    characters in all. -/

namespace Pinboard.CallId

/-- How many bytes each group shows. -/
def groupSizes : List Nat := [4, 2, 2, 2, 6]

/-- The bytes with the fixed bits set. -/
def fixBits (bytes : List UInt8) : List UInt8 :=
  (bytes.modify 6 fun b => b &&& 0x0f ||| 0x40).modify 8 fun b => b &&& 0x3f ||| 0x80

/-- A byte as two hexadecimal digits. -/
def hexByte (b : UInt8) : List Char := [Nat.digitChar (b.toNat / 16), Nat.digitChar (b.toNat % 16)]

/-- Cuts bytes into groups of the given sizes, each as its digits. -/
def hexGroups : List Nat → List UInt8 → List String
  | [], _ => []
  | n :: ns, bytes => String.ofList ((bytes.take n).flatMap hexByte) :: hexGroups ns (bytes.drop n)

/-- The id made from random bytes. -/
def ofRandom (bytes : List UInt8) : CallId := ⟨"-".intercalate (hexGroups groupSizes (fixBits bytes))⟩

end Pinboard.CallId
