import Mathlib.Data.List.Forall2
import Pinboard.Json.Reader

/-! The grammar of JSON, apart from the readers: which bytes spell a string, a number, a value, and which are a value
    that nobody asks for. A relation holds of the bytes of one thing alone; the blanks in front of it belong to what
    it stands in. Lists and objects are told apart from their items, which are kept as bytes, so that the
    same two relations serve for values, for records, and for what is passed over. -/

namespace Pinboard.Json

/-- Bytes that are all blank. -/
def Blanks (w : List UInt8) : Prop := ∀ b ∈ w, isBlank b = true

/-! ### Strings -/

/-- What follows the backslash of an escape, and the bytes of the character that it stands for. A character outside the
    basic plane takes a pair of code units, and no half of a pair stands alone. -/
inductive Escaped : List UInt8 → List UInt8 → Prop
  | short {b c : UInt8} (letter : Scan.shortEscape? b = some c) : Escaped [b] [c]
  | unit {a b c d : UInt8} {n : Nat} (digits : Scan.hexNumber? [a, b, c, d] = some n)
      (whole : ¬(0xd800 ≤ n ∧ n ≤ 0xdfff)) : Escaped [0x75, a, b, c, d] (Scan.codeBytes n)
  | pair {a b c d a' b' c' d' : UInt8} {high low : Nat} (digits : Scan.hexNumber? [a, b, c, d] = some high)
      (digits' : Scan.hexNumber? [a', b', c', d'] = some low) (isHigh : 0xd800 ≤ high ∧ high ≤ 0xdbff)
      (isLow : 0xdc00 ≤ low ∧ low ≤ 0xdfff) :
      Escaped [0x75, a, b, c, d, 0x5c, 0x75, a', b', c', d']
        (Scan.codeBytes (0x10000 + (high - 0xd800) * 0x400 + (low - 0xdc00)))

/-- A byte that stands for itself in a string: no control character, no quote and no backslash. -/
def Raw (b : UInt8) : Prop := ¬b < 0x20 ∧ b ≠ 0x22 ∧ b ≠ 0x5c

/-- The bytes between two quotes, and those that they stand for. -/
inductive Resolves : List UInt8 → List UInt8 → Prop
  | nil : Resolves [] []
  | raw {b : UInt8} {w out : List UInt8} (plain : Raw b) (rest : Resolves w out) : Resolves (b :: w) (b :: out)
  | escape {e c w out : List UInt8} (escaped : Escaped e c) (rest : Resolves w out) :
      Resolves (0x5c :: (e ++ w)) (c ++ out)

/-- The bytes between two quotes spell the string: they stand for its bytes. -/
def SpellsText (w : List UInt8) (s : String) : Prop := Resolves w (Utf8.encode s)

/-- The bytes between two quotes of a string that is passed over. An escaped code unit may be half of a pair. -/
inductive Skipped : List UInt8 → Prop
  | nil : Skipped []
  | raw {b : UInt8} {w : List UInt8} (plain : Raw b) (rest : Skipped w) : Skipped (b :: w)
  | short {b c : UInt8} {w : List UInt8} (letter : Scan.shortEscape? b = some c) (rest : Skipped w) :
      Skipped (0x5c :: b :: w)
  | unit {digits w : List UInt8} (four : digits.length = 4) (hex : ∀ b ∈ digits, (Scan.hexValue? b).isSome = true)
      (rest : Skipped w) : Skipped (0x5c :: 0x75 :: (digits ++ w))

/-! ### Numbers -/

/-- Bytes that are all digits. -/
def Digits (w : List UInt8) : Prop := ∀ b ∈ w, Scan.isDigit b = true

/-- The number with digits written after it. -/
def addDigits (n : Nat) (w : List UInt8) : Nat := w.foldl (fun n b => n * 10 + Scan.digitValue b) n

/-- The number that digits spell. -/
def digitsValue (w : List UInt8) : Nat := addDigits 0 w

/-- The exponent of a number: its mark, its sign if it has one, and its digits. -/
structure Exponent where
  mark : UInt8
  sign : List UInt8
  digits : List UInt8

/-- The bytes of an exponent. -/
def Exponent.bytes (e : Exponent) : List UInt8 := e.mark :: (e.sign ++ e.digits)

/-- An exponent as JSON has it. -/
structure Exponent.Legal (e : Exponent) : Prop where
  mark : Scan.isExponentMark e.mark = true
  sign : e.sign = [] ∨ e.sign = [0x2b] ∨ e.sign = [0x2d]
  digits : e.digits ≠ [] ∧ Digits e.digits

/-- The bytes of an exponent that may be left out. -/
def exponentBytes (e : Option Exponent) : List UInt8 := (e.map Exponent.bytes).getD []

/-- The double that a significand times a power of ten is read as, once the exponent is counted in. An exponent that 31
    bits do not hold leaves only zero in range. -/
def Exponent.double? (e : Exponent) (negative : Bool) (significand : Nat) (shift : Int) : Option UInt64 :=
  let n := digitsValue e.digits
  if n < Nat.pow 2 31 then
    Decimal.toDouble? negative significand (if e.sign = [0x2d] then shift - n else shift + n)
  else if significand ≠ 0 ∧ e.sign ≠ [0x2d] then none
  else some (Decimal.zeroBits negative)

/-- A number as it is spelled: its sign, the digits before the point, those behind it, of which there are none if there
    is no point, and its exponent. -/
structure Numeral where
  negative : Bool
  whole : List UInt8
  fraction : List UInt8
  exponent : Option Exponent

/-- The point and the digits behind it, if there are any. -/
def fractionBytes (digits : List UInt8) : List UInt8 := if digits = [] then [] else 0x2e :: digits

namespace Numeral

/-- The bytes of a numeral after its sign. -/
def magnitude (t : Numeral) : List UInt8 := t.whole ++ (fractionBytes t.fraction ++ exponentBytes t.exponent)

/-- The bytes of a numeral. -/
def bytes (t : Numeral) : List UInt8 := if t.negative then 0x2d :: t.magnitude else t.magnitude

/-- A numeral as JSON has it: no zero stands in front of other digits. -/
structure Legal (t : Numeral) : Prop where
  whole : t.whole ≠ [] ∧ Digits t.whole
  zero : t.whole.head? = some 0x30 → t.whole = [0x30]
  fraction : Digits t.fraction
  exponent : ∀ e, t.exponent = some e → e.Legal

/-- A plain integer in the range of whole numbers: no fraction, no exponent, not the negative zero, from `-2^63` up to
    below `2^64`. -/
def IsWhole (t : Numeral) : Prop :=
  t.fraction = [] ∧ t.exponent = none ∧
    if t.negative then digitsValue t.whole ≠ 0 ∧ digitsValue t.whole ≤ Nat.pow 2 63
    else digitsValue t.whole ≤ Scan.maxSignificand

instance (t : Numeral) : Decidable t.IsWhole :=
  have : Decidable (t.exponent = none) := decidable_of_iff (t.exponent.isNone = true) Option.isNone_iff_eq_none
  inferInstanceAs (Decidable (_ ∧ _ ∧ _))

/-- The integer that the digits before the point spell. -/
def integer (t : Numeral) : Int := if t.negative then -(digitsValue t.whole : Int) else digitsValue t.whole

/-- The first digits of a numeral, as many as 64 bits hold, and the power of ten that they are multiples of. -/
def scaled (t : Numeral) : Nat × Int :=
  let (significand, shift) := Scan.wholePart 0 t.whole
  let (significand, count) := Scan.fractionPart significand 0 t.fraction
  (significand, (shift : Int) - count)

/-- The double that a numeral is read as, unless it is too large. -/
def double? (t : Numeral) : Option UInt64 :=
  match t.exponent with
  | none => Decimal.toDouble? t.negative t.scaled.1 t.scaled.2
  | some e => e.double? t.negative t.scaled.1 t.scaled.2

/-- The number that a numeral is read as, unless it is too large. -/
def value? (t : Numeral) : Option Number :=
  if t.IsWhole then some (.integer t.integer) else t.double?.map .double

end Numeral

/-! ### Lists and objects -/

/-- What stands in front of an item: blanks, and a comma unless it is the first. -/
inductive Lead : Bool → List UInt8 → Prop
  | first {w : List UInt8} (blanks : Blanks w) : Lead true w
  | next {w w' : List UInt8} (blanks : Blanks w) (blanks' : Blanks w') : Lead false (w ++ 0x2c :: w')

/-- What follows the opening bracket of a list or, if `first` does not hold, one of its items, up to and with the closing
    bracket; and the bytes of the items. -/
inductive Listed : Bool → List UInt8 → List (List UInt8) → Prop
  | close {first : Bool} {w : List UInt8} (blanks : Blanks w) : Listed first (w ++ [0x5d]) []
  | item {first : Bool} {lead w c : List UInt8} {ws : List (List UInt8)} (leads : Lead first lead)
      (rest : Listed false c ws) : Listed first (lead ++ (w ++ c)) (w :: ws)

/-- A member of an object: its name, and the bytes of its value. -/
structure Member (ν : Type) where
  name : ν
  bytes : List UInt8

/-- What follows the opening bracket of an object or, if `first` does not hold, one of its members, up to and with the
    closing bracket; and the members. `Names` tells how names are spelled. -/
inductive Named {ν : Type} (Names : List UInt8 → ν → Prop) : Bool → List UInt8 → List (Member ν) → Prop
  | close {first : Bool} {w : List UInt8} (blanks : Blanks w) : Named Names first (w ++ [0x7d]) []
  | member {first : Bool} {lead n w w' v c : List UInt8} {name : ν} {ms : List (Member ν)} (leads : Lead first lead)
      (names : Names n name) (blanks : Blanks w) (blanks' : Blanks w') (rest : Named Names false c ms) :
      Named Names first (lead ++ 0x22 :: (n ++ 0x22 :: (w ++ 0x3a :: (w' ++ (v ++ c))))) (⟨name, v⟩ :: ms)

/-! ### Values -/

/-- The members with the given ones put in, one after the other. -/
def insertAll (taken : List (String × Json)) (ms : List (Member String × Json)) : List (String × Json) :=
  ms.foldl (fun taken m => insertMember m.1.name m.2 taken) taken

/-- The bytes spell the value, of which at most so many brackets are open at a time. A member of an object replaces
    earlier ones of its name. -/
inductive Spells : Nat → List UInt8 → Json → Prop
  | null {d : Nat} : Spells d (0x6e :: nullTail) .null
  | true {d : Nat} : Spells d (0x74 :: trueTail) (.bool true)
  | false {d : Nat} : Spells d (0x66 :: falseTail) (.bool false)
  | number {d : Nat} {t : Numeral} {n : Number} (legal : t.Legal) (value : t.value? = some n) :
      Spells d t.bytes (.number n)
  | string {d : Nat} {w : List UInt8} {s : String} (text : SpellsText w s) :
      Spells d (0x22 :: (w ++ [0x22])) (.string s)
  | array {d : Nat} {c : List UInt8} {items : List (List UInt8 × Json)} (listed : Listed true c (items.map (·.1)))
      (spelled : ∀ i ∈ items, Spells d i.1 i.2) : Spells (d + 1) (0x5b :: c) (.array (items.map (·.2)))
  | object {d : Nat} {c : List UInt8} {members : List (Member String × Json)}
      (named : Named SpellsText true c (members.map (·.1))) (spelled : ∀ m ∈ members, Spells d m.1.bytes m.2) :
      Spells (d + 1) (0x7b :: c) (.object (insertAll [] members))

/-- The bytes are a value, whatever it is. It may nest without limit, and its numbers may be of any size. -/
inductive Passed : List UInt8 → Prop
  | null : Passed (0x6e :: nullTail)
  | true : Passed (0x74 :: trueTail)
  | false : Passed (0x66 :: falseTail)
  | number {t : Numeral} (legal : t.Legal) : Passed t.bytes
  | string {w : List UInt8} (skipped : Skipped w) : Passed (0x22 :: (w ++ [0x22]))
  | list {c : List UInt8} {ws : List (List UInt8)} (listed : Listed true c ws) (items : ∀ w ∈ ws, Passed w) :
      Passed (0x5b :: c)
  | object {c : List UInt8} {ms : List (Member Unit)} (named : Named (fun n _ => Skipped n) true c ms)
      (values : ∀ m ∈ ms, Passed m.bytes) : Passed (0x7b :: c)

/-! ### Records -/

/-- What a record is written with: members of an object, or items of a list. -/
inductive Contents
  | members (ms : List (Member String))
  | items (ws : List (List UInt8))

/-- The bytes are an object of these members, or a list of these items. -/
inductive Contents.Written : List UInt8 → Contents → Prop
  | object {c : List UInt8} {ms : List (Member String)} (named : Named SpellsText true c ms) :
      Contents.Written (0x7b :: c) (.members ms)
  | list {c : List UInt8} {ws : List (List UInt8)} (listed : Listed true c ws) :
      Contents.Written (0x5b :: c) (.items ws)

/-- A field of a record with its value: its name, what spells the value, and whether an object may leave it out. -/
structure FieldEntry where
  name : String
  Spelled : List UInt8 → Prop
  absent : Prop

/-- The members of a name. -/
def membersOf (name : String) (ms : List (Member String)) : List (Member String) := ms.filter (·.name = name)

/-- A record has these fields, in this order. An object has each of them once, in any order; what else it has may be
    anything. A list has them and nothing else. -/
def Contents.Holds : Contents → List FieldEntry → Prop
  | .members ms, entries =>
    (∀ e ∈ entries, (e.absent ∧ membersOf e.name ms = []) ∨ ∃ w, membersOf e.name ms = [⟨e.name, w⟩] ∧ e.Spelled w) ∧
      ∀ m ∈ ms, m.name ∉ entries.map (·.name) → Passed m.bytes
  | .items ws, entries => List.Forall₂ (fun w e => e.Spelled w) ws entries

end Pinboard.Json
