import Pinboard.Json.Fault
import Pinboard.Text.Utf8

/-! The tokens of JSON on a list of bytes: blanks, the three words, numbers and strings. A reader takes the
    bytes that are left and gives what it read with the bytes after it. Where it stops, it says why, and the
    bytes that were left at the fault mark the place. -/

namespace Pinboard.Json

/-- Why reading stops, and the bytes after the place at which it does; `none` where no place is told. -/
structure Stop where
  cause : Cause
  rest : Option (List UInt8)
  deriving DecidableEq, Repr

/-- Reads an `α` off the front of the bytes. -/
abbrev Reader (α : Type) := List UInt8 → Except Stop (α × List UInt8)

/-- Stops in front of `rest`. -/
def stopAt {α : Type} (cause : Cause) (rest : List UInt8) : Except Stop α := .error ⟨cause, some rest⟩

/-- Stops at the first byte of `rest`, which counts as read, or at the end. -/
def stopOn {α : Type} (cause : Cause) (rest : List UInt8) : Except Stop α := .error ⟨cause, some (rest.drop 1)⟩

/-- A blank of JSON: space, tab, line feed or carriage return. -/
def isBlank (b : UInt8) : Bool := b = 0x20 || b = 0x09 || b = 0x0a || b = 0x0d

/-- Passes over blanks. -/
def skipBlanks : List UInt8 → List UInt8
  | [] => []
  | b :: rest => if isBlank b then skipBlanks rest else b :: rest

/-- Takes the given bytes off the front, one by one. -/
def word : List UInt8 → List UInt8 → Except Stop (List UInt8)
  | [], rest => .ok rest
  | _ :: _, [] => stopAt (.ended .value) []
  | w :: ws, b :: rest => if b = w then word ws rest else stopAt .expectedWord rest

/-- What follows the first letter of `null`. -/
def nullTail : List UInt8 := [0x75, 0x6c, 0x6c]

/-- What follows the first letter of `true`. -/
def trueTail : List UInt8 := [0x72, 0x75, 0x65]

/-- What follows the first letter of `false`. -/
def falseTail : List UInt8 := [0x61, 0x6c, 0x73, 0x65]

/-! ### Numbers -/

namespace Scan

/-- The byte is a decimal digit. -/
def isDigit (b : UInt8) : Bool := 0x30 ≤ b && b ≤ 0x39

/-- The value of a decimal digit. -/
def digitValue (b : UInt8) : Nat := b.toNat - 0x30

/-- The byte begins an exponent. -/
def isExponentMark (b : UInt8) : Bool := b = 0x65 || b = 0x45

/-- The largest significand: what 64 bits hold. -/
def maxSignificand : Nat := Nat.pow 2 64 - 1

/-- Adds digits to a significand while it fits in 64 bits. Of the digits after that only the number is kept,
    the second component. -/
def wholePart (significand : Nat) : List UInt8 → Nat × Nat
  | [] => (significand, 0)
  | d :: ds =>
    let next := significand * 10 + digitValue d
    if next ≤ maxSignificand then wholePart next ds else (significand, ds.length + 1)

/-- Adds digits behind the point while the significand fits in 64 bits, and counts those that did. -/
def fractionPart (significand : Nat) (count : Nat) : List UInt8 → Nat × Nat
  | [] => (significand, count)
  | d :: ds =>
    let next := significand * 10 + digitValue d
    if next ≤ maxSignificand then fractionPart next (count + 1) ds else (significand, count)

/-- A double from its decimal parts. -/
def double (negative : Bool) (significand : Nat) (exponent : Int) : Reader Number := fun rest =>
  match Decimal.toDouble? negative significand exponent with
  | some bits => .ok (.double bits, rest)
  | none => stopAt .numberTooLarge rest

/-- The digits of an exponent after the first. `none` once it exceeds 31 bits, after the digit that did it. -/
def exponentDigits (exponent : Nat) : List UInt8 → Option Nat × List UInt8
  | [] => (some exponent, [])
  | b :: rest =>
    if isDigit b then
      let next := exponent * 10 + digitValue b
      if next < Nat.pow 2 31 then exponentDigits next rest else (none, rest)
    else (some exponent, b :: rest)

/-- Passes over the sign of an exponent; the exponent is positive without one. -/
def exponentSign : List UInt8 → Bool × List UInt8
  | [] => (true, [])
  | b :: rest => if b = 0x2b then (true, rest) else if b = 0x2d then (false, rest) else (true, b :: rest)

/-- The exponent, after its mark, of a number that has the given parts so far. An exponent too long to hold is
    harmless unless it makes the number too large. -/
def exponent (negative : Bool) (significand : Nat) (shift : Int) : Reader Number := fun input =>
  let (positive, digits) := exponentSign input
  match digits with
  | [] => stopAt (.ended .value) []
  | b :: rest =>
    if isDigit b then
      match exponentDigits (digitValue b) rest with
      | (some e, rest) => double negative significand (if positive then shift + e else shift - e) rest
      | (none, rest) =>
        if significand ≠ 0 ∧ positive then stopAt .numberTooLarge rest
        else .ok (.double (Decimal.zeroBits negative), rest.dropWhile isDigit)
    else stopAt .badNumber rest

/-- The digits after the point. -/
def fraction (negative : Bool) (significand : Nat) (shift : Nat) : Reader Number := fun input =>
  let digits := input.takeWhile isDigit
  let rest := input.dropWhile isDigit
  if digits.isEmpty then
    if rest.isEmpty then stopAt (.ended .value) [] else stopOn .badNumber rest
  else
    let (significand, count) := fractionPart significand 0 digits
    let shift : Int := shift - count
    match rest with
    | [] => double negative significand shift []
    | b :: after =>
      if isExponentMark b then exponent negative significand shift after
      else double negative significand shift rest

/-- A number without point or exponent. It is whole if 64 bits hold it, and `-0` is a double. -/
def whole (negative : Bool) (significand : Nat) : Reader Number := fun rest =>
  if negative then
    if significand = 0 ∨ Nat.pow 2 63 < significand then double true significand 0 rest
    else .ok (.integer (-significand), rest)
  else .ok (.integer significand, rest)

/-- A number after its sign. A zero is not followed by a digit. -/
def number (negative : Bool) : Reader Number
  | [] => stopAt (.ended .value) []
  | b :: rest =>
    if !isDigit b then stopAt .badNumber rest
    else
      let digits := rest.takeWhile isDigit
      if b = 0x30 ∧ digits ≠ [] then stopOn .badNumber rest
      else
        let (significand, shift) := wholePart (digitValue b) digits
        let after := rest.dropWhile isDigit
        match after with
        | [] => if shift = 0 then whole negative significand [] else double negative significand shift []
        | c :: beyond =>
          if c = 0x2e then fraction negative significand shift beyond
          else if isExponentMark c then exponent negative significand shift beyond
          else if shift = 0 then whole negative significand after
          else double negative significand shift after

/-! ### Strings -/

/-- The value of a hexadecimal digit of either case. -/
def hexValue? (b : UInt8) : Option Nat :=
  if isDigit b then some (digitValue b)
  else if 0x61 ≤ b ∧ b ≤ 0x66 then some (b.toNat - 0x57)
  else if 0x41 ≤ b ∧ b ≤ 0x46 then some (b.toNat - 0x37)
  else none

/-- The value of hexadecimal digits, most significant first. -/
def hexNumber? : List UInt8 → Option Nat
  | [] => some 0
  | digits => digits.foldl (fun acc b => do return (← acc) * 16 + (← hexValue? b)) (some 0)

/-- What an escape of one letter stands for. -/
def shortEscape? (b : UInt8) : Option UInt8 :=
  if b = 0x22 ∨ b = 0x5c ∨ b = 0x2f then some b
  else if b = 0x62 then some 0x08
  else if b = 0x66 then some 0x0c
  else if b = 0x6e then some 0x0a
  else if b = 0x72 then some 0x0d
  else if b = 0x74 then some 0x09
  else none

/-- Where a reader of a string stands inside an escape: after the backslash, in the four digits of a code unit
    (the newest first), or in what has to follow the first half of a surrogate pair. -/
inductive Escape
  | start
  | unit (digits : List UInt8)
  | pair (high : Nat)
  | pairStart (high : Nat)
  | pairUnit (high : Nat) (digits : List UInt8)
  deriving DecidableEq, Repr

/-- The bytes of the character with the given code. -/
def codeBytes (code : Nat) : List UInt8 := Utf8.encode (Char.ofNat code).toString

/-- What a code unit of four digits leads to. -/
def takeUnit (digits : List UInt8) : Except Cause (List UInt8 × Option Escape) :=
  match hexNumber? digits with
  | none => .error .badEscape
  | some n =>
    if 0xdc00 ≤ n ∧ n ≤ 0xdfff then .error .loneSurrogate
    else if 0xd800 ≤ n ∧ n ≤ 0xdbff then .ok ([], some (.pair n))
    else .ok (codeBytes n, none)

/-- What the second code unit of a pair leads to. -/
def takePair (high : Nat) (digits : List UInt8) : Except Cause (List UInt8 × Option Escape) :=
  match hexNumber? digits with
  | none => .error .badEscape
  | some n =>
    if 0xdc00 ≤ n ∧ n ≤ 0xdfff then .ok (codeBytes (0x10000 + (high - 0xd800) * 0x400 + (n - 0xdc00)), none)
    else .error .loneSurrogate

/-- Takes one byte of an escape: the bytes that it completes, and where the reader stands then, `none` once
    the escape is over. -/
def Escape.step (e : Escape) (b : UInt8) : Except Cause (List UInt8 × Option Escape) :=
  match e with
  | .start =>
    if b = 0x75 then .ok ([], some (.unit []))
    else match shortEscape? b with
      | some c => .ok ([c], none)
      | none => .error .badEscape
  | .unit digits => if digits.length < 3 then .ok ([], some (.unit (b :: digits))) else takeUnit (b :: digits).reverse
  | .pair high => if b = 0x5c then .ok ([], some (.pairStart high)) else .error .halfSurrogatePair
  | .pairStart high => if b = 0x75 then .ok ([], some (.pairUnit high [])) else .error .halfSurrogatePair
  | .pairUnit high digits =>
    if digits.length < 3 then .ok ([], some (.pairUnit high (b :: digits))) else takePair high (b :: digits).reverse

/-- The bytes of a string up to its closing quote, escapes resolved. `taken` holds those before, newest first,
    and `inside` the escape that is not over. -/
def stringBytes (taken : List UInt8) (inside : Option Escape) : List UInt8 → Except Stop (List UInt8 × List UInt8)
  | [] => stopAt (.ended .string) []
  | b :: rest =>
    match inside with
    | none =>
      if b = 0x22 then .ok (taken.reverse, rest)
      else if b = 0x5c then stringBytes taken (some .start) rest
      else if b < 0x20 then stopAt .controlCharacter rest
      else stringBytes (b :: taken) none rest
    | some e =>
      match e.step b with
      | .ok (bytes, next) => stringBytes (bytes.reverseAux taken) next rest
      | .error cause => stopAt cause rest

/-- A string after its opening quote. Its bytes must be UTF-8, which is looked at once the closing quote is
    found. The fault is placed before the end of the string, by as many bytes as there are, escapes resolved,
    from the first one on that belongs to no character. -/
def string : Reader String := fun input =>
  match stringBytes [] none input with
  | .error stop => .error stop
  | .ok (bytes, rest) =>
    match Utf8.decode bytes with
    | .ok s => .ok (s, rest)
    | .error fault =>
      let wrong := bytes.length - fault.validUpTo
      stopAt .badCodePoint (input.drop (input.length - rest.length - wrong))

/-! ### Tokens that are passed over

A value that nobody asked for is passed over: a number may be of any size, and a string may hold any bytes and
lone surrogates. -/

/-- Passes over an exponent after its mark. -/
def passExponent (input : List UInt8) : Except Stop (List UInt8) :=
  match (exponentSign input).2 with
  | [] => stopAt .badNumber []
  | b :: rest => if isDigit b then .ok (rest.dropWhile isDigit) else stopAt .badNumber rest

/-- Passes over the digits after the point. -/
def passFraction (input : List UInt8) : Except Stop (List UInt8) :=
  match input with
  | [] => stopOn .badNumber []
  | d :: _ =>
    if isDigit d then
      match input.dropWhile isDigit with
      | [] => .ok []
      | b :: rest => if isExponentMark b then passExponent rest else .ok (b :: rest)
    else stopOn .badNumber input

/-- Passes over a number after its sign. -/
def passNumber : List UInt8 → Except Stop (List UInt8)
  | [] => stopAt .badNumber []
  | b :: rest =>
    if !isDigit b then stopAt .badNumber rest
    else if b = 0x30 ∧ rest.takeWhile isDigit ≠ [] then stopOn .badNumber rest
    else
      match rest.dropWhile isDigit with
      | [] => .ok []
      | c :: beyond =>
        if c = 0x2e then passFraction beyond
        else if isExponentMark c then passExponent beyond
        else .ok (c :: beyond)

/-- Passes over a string after its opening quote; `inside` is the escape that is not over. A control character
    is faulted before it is read. -/
def passString (inside : Option Escape) : List UInt8 → Except Stop (List UInt8)
  | [] => stopAt (.ended .string) []
  | b :: rest =>
    match inside with
    | none =>
      if b = 0x22 then .ok rest
      else if b = 0x5c then passString (some .start) rest
      else if b < 0x20 then stopAt .controlCharacter (b :: rest)
      else passString none rest
    | some (.unit digits) =>
      if digits.length < 3 then passString (some (.unit (b :: digits))) rest
      else if (hexNumber? (b :: digits)).isSome then passString none rest
      else stopAt .badEscape rest
    | some _ =>
      if b = 0x75 then passString (some (.unit [])) rest
      else if (shortEscape? b).isSome then passString none rest
      else stopAt .badEscape rest

end Scan

end Pinboard.Json
