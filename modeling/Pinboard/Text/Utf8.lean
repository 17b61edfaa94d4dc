/-! UTF-8 as bytes: `encode` writes a text, `decode` reads one. The reader is a machine that takes one byte
    at a time. Between characters it takes a first byte, which says how many bytes are owed and what the
    next of them may be; the bounds on the second byte alone keep out overlong forms, surrogates and code
    points above the last one. A `Fault` names the longest well-formed beginning and how much after it is
    wrong. -/

namespace Pinboard.Utf8

/-- The bytes of a text. -/
def encode (s : String) : List UInt8 := s.toByteArray.data.toList

/-- Where a byte string stops being UTF-8. The first `validUpTo` bytes are well formed. What follows is the
    beginning of a character cut off by the end (`badLength = none`), or so many bytes that begin none. -/
structure Fault where
  validUpTo : Nat
  badLength : Option Nat
  deriving DecidableEq, Repr

/-- A character of which some bytes have been read: its bits so far, how many bytes that were, how many are
    owed after the next one, and the bounds on the next one. -/
structure Pending where
  bits : Nat
  taken : Nat
  owed : Nat
  low : UInt8
  high : UInt8
  deriving DecidableEq, Repr

/-- What a first byte above ASCII promises; `none` if it begins no character. -/
def Pending.begin? (b : UInt8) : Option Pending :=
  if b < 0xc2 then none
  else if b < 0xe0 then some ⟨b.toNat - 0xc0, 1, 0, 0x80, 0xbf⟩
  else if b = 0xe0 then some ⟨0, 1, 1, 0xa0, 0xbf⟩
  else if b = 0xed then some ⟨0xd, 1, 1, 0x80, 0x9f⟩
  else if b < 0xf0 then some ⟨b.toNat - 0xe0, 1, 1, 0x80, 0xbf⟩
  else if b = 0xf0 then some ⟨0, 1, 2, 0x90, 0xbf⟩
  else if b < 0xf4 then some ⟨b.toNat - 0xf0, 1, 2, 0x80, 0xbf⟩
  else if b = 0xf4 then some ⟨4, 1, 2, 0x80, 0x8f⟩
  else none

/-- The six bits that a byte after the first adds. -/
def Pending.extend (p : Pending) (b : UInt8) : Nat := p.bits * 64 + (b.toNat - 0x80)

/-- Reads on: `index` bytes are whole characters, gathered in `text`, and `pending` is begun after them. -/
def decodeFrom (index : Nat) (text : String) (pending : Option Pending) : List UInt8 → Except Fault String
  | [] =>
    match pending with
    | none => .ok text
    | some _ => .error ⟨index, none⟩
  | b :: rest =>
    match pending with
    | none =>
      if b < 0x80 then decodeFrom (index + 1) (text.push (Char.ofUInt8 b)) none rest
      else
        match Pending.begin? b with
        | none => .error ⟨index, some 1⟩
        | some p => decodeFrom index text (some p) rest
    | some p =>
      if p.low ≤ b ∧ b ≤ p.high then
        match p.owed with
        | 0 => decodeFrom (index + p.taken + 1) (text.push (Char.ofNat (p.extend b))) none rest
        | owed + 1 => decodeFrom index text (some ⟨p.extend b, p.taken + 1, owed, 0x80, 0xbf⟩) rest
      else .error ⟨index, some p.taken⟩

/-- The text that the bytes spell, or the first place where they spell none. No byte is skipped. -/
def decode (bytes : List UInt8) : Except Fault String := decodeFrom 0 "" none bytes

/-- The text that the bytes spell, if they spell one. -/
def decode? (bytes : List UInt8) : Option String := (decode bytes).toOption

/-- The fault in words. -/
def Fault.message (f : Fault) : String :=
  match f.badLength with
  | none => s!"incomplete utf-8 byte sequence from index {f.validUpTo}"
  | some n => s!"invalid utf-8 sequence of {n} bytes from index {f.validUpTo}"

end Pinboard.Utf8
