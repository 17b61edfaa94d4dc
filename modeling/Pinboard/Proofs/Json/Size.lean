import Mathlib.Algebra.Ring.Nat
import Pinboard.Proofs.Json.Printing

/-! How many bytes a value is written in. A value adds the same number wherever it stands, so the length of a text is a sum
    over the parts of the value. The numbers of characters and of bytes are given by themselves here, and the printer is
    shown to keep to them. -/

namespace Pinboard.Json

/-! ### Texts and byte strings -/

/-- The characters that a letter stands for behind a backslash. -/
def shortEscapes : List Char := ['"', '\\', '\x08', '\x0c', '\n', '\r', '\t']

/-- How many bytes a character takes inside a string: two for those with a letter, six for the other control characters,
    and otherwise as many as it has in UTF-8. -/
def charSize (c : Char) : Nat :=
  if c ∈ shortEscapes then 2 else if c.toNat < 0x20 then 6 else c.utf8Size

/-- How many bytes a text takes between its quotes. -/
def textSize (s : String) : Nat := (s.toList.map charSize).sum

/-- How many decimal digits a byte has. -/
def digitCount (b : UInt8) : Nat := if b < 10 then 1 else if b < 100 then 2 else 3

/-- How many bytes a byte string takes: two brackets, the digits of every byte and a comma between neighbours. -/
def bytesSize (bytes : List UInt8) : Nat := 2 + (bytes.map digitCount).sum + (bytes.length - 1)

@[simp] theorem textSize_append (s t : String) : textSize (s ++ t) = textSize s + textSize t := by
  simp [textSize]

theorem bytesSize_replicate (n : Nat) (b : UInt8) :
    bytesSize (List.replicate n b) = 2 + n * digitCount b + (n - 1) := by
  rw [bytesSize, List.map_replicate, List.sum_replicate_nat, List.length_replicate]

theorem length_encode_escapeChar (c : Char) : (Utf8.encode (escapeChar c)).length = charSize c := by
  rw [charSize]
  by_cases hshort : c ∈ shortEscapes
  · have hall : shortEscapes.all (fun c => (Utf8.encode (escapeChar c)).length = 2) := by decide +kernel
    rw [if_pos hshort, of_decide_eq_true (List.all_eq_true.mp hall c hshort)]
  · rw [if_neg hshort]
    simp only [shortEscapes, List.mem_cons, List.not_mem_nil, or_false, not_or] at hshort
    simp only [escapeChar, hshort, if_false]
    split
    · rename_i hcontrol
      obtain ⟨a, b, hbytes, -⟩ := hexNumber?_control ⟨c.toNat, hcontrol⟩
      rw [hbytes]
      rfl
    · have hchar : Utf8.encode c.toString = String.utf8EncodeChar c := by
        rw [← codeBytes_toNat, Scan.codeBytes, Char.ofNat_toNat]
      rw [hchar, String.length_utf8EncodeChar]

theorem length_encode_appendString (acc s : String) :
    (Utf8.encode (appendString acc s)).length = (Utf8.encode acc).length + (2 + textSize s) := by
  have hquote : String.utf8EncodeChar '"' = [0x22] := rfl
  have hchars : (s.toList.flatMap fun c => Utf8.encode (escapeChar c)).length = textSize s := by
    simp only [List.length_flatMap, length_encode_escapeChar, textSize]
  rw [appendString, Utf8.encode_push, encode_foldl, Utf8.encode_push, hquote]
  simp only [List.length_append, List.length_singleton, hchars]
  omega

theorem length_encode_repr (b : UInt8) : (Utf8.encode (Int.repr b.toNat)).length = digitCount b := by
  have hall : ∀ n < 256, (Utf8.encode (Int.repr (n : Nat))).length =
      if n < 10 then 1 else if n < 100 then 2 else 3 := by decide +kernel
  rw [hall b.toNat b.toNat_lt, digitCount]
  simp only [UInt8.lt_iff_toNat_lt]
  rfl

/-! ### Values -/

mutual

/-- How many bytes a value is written in. -/
def size : Json → Nat
  | .null => 4
  | .bool true => 4
  | .bool false => 5
  | .number n => (Utf8.encode n.text).length
  | .string s => 2 + textSize s
  | .array items => 2 + sizeItems true items
  | .object members => 2 + sizeMembers true members

/-- How many bytes items take, with a comma before each, which the first one goes without. -/
def sizeItems (first : Bool) : List Json → Nat
  | [] => 0
  | j :: rest => (comma first).length + size j + sizeItems false rest

/-- How many bytes members take, with a comma before each, which the first one goes without. -/
def sizeMembers (first : Bool) : List (String × Json) → Nat
  | [] => 0
  | (name, j) :: rest => (comma first).length + (2 + textSize name) + 1 + size j + sizeMembers false rest

end

theorem length_encode_push {c : Char} (h : c.toNat < 0x80) (s : String) :
    (Utf8.encode (s.push c)).length = (Utf8.encode s).length + 1 := by
  rw [Utf8.encode_push, Utf8.utf8EncodeChar_ascii h, List.length_append, List.length_singleton]

theorem length_encode_comma (first : Bool) (acc : String) :
    (Utf8.encode (if first then acc else acc.push ',')).length = (Utf8.encode acc).length + (comma first).length := by
  rw [encode_comma, List.length_append]

mutual

theorem length_encode_append (acc : String) :
    (j : Json) → (Utf8.encode (append acc j)).length = (Utf8.encode acc).length + j.size
  | .null => by rw [append, Utf8.encode_append, List.length_append]; rfl
  | .bool true => by rw [append, Utf8.encode_append, List.length_append]; rfl
  | .bool false => by rw [append, Utf8.encode_append, List.length_append]; rfl
  | .number n => by rw [append, Utf8.encode_append, List.length_append, size]
  | .string s => by rw [append, length_encode_appendString, size]
  | .array items => by
    rw [append, length_encode_push (by decide), length_encode_appendItems, length_encode_push (by decide), size]
    omega
  | .object members => by
    rw [append, length_encode_push (by decide), length_encode_appendMembers, length_encode_push (by decide), size]
    omega

theorem length_encode_appendItems (acc : String) (first : Bool) :
    (items : List Json) →
      (Utf8.encode (appendItems acc first items)).length = (Utf8.encode acc).length + sizeItems first items
  | [] => rfl
  | j :: rest => by
    rw [appendItems, length_encode_appendItems, length_encode_append, length_encode_comma, sizeItems]
    omega

theorem length_encode_appendMembers (acc : String) (first : Bool) :
    (members : List (String × Json)) →
      (Utf8.encode (appendMembers acc first members)).length = (Utf8.encode acc).length + sizeMembers first members
  | [] => rfl
  | (name, j) :: rest => by
    rw [appendMembers, length_encode_appendMembers, length_encode_append, length_encode_push (by decide),
      length_encode_appendString, length_encode_comma, sizeMembers]
    omega

end

theorem length_encode_compact (j : Json) : (Utf8.encode j.compact).length = j.size := by
  have hempty : (Utf8.encode "").length = 0 := rfl
  rw [compact, length_encode_append, hempty, Nat.zero_add]

/-- Behind another item every byte has its comma. -/
theorem sizeItems_bytes (bytes : List UInt8) :
    sizeItems false (bytes.map fun b => .number (.integer b.toNat)) = (bytes.map digitCount).sum + bytes.length := by
  induction bytes with
  | nil => rfl
  | cons b bytes ih =>
    rw [List.map_cons, sizeItems, ih, size, Number.text, length_encode_repr, List.map_cons, List.sum_cons, List.length_cons,
      comma, if_neg Bool.false_ne_true, List.length_singleton]
    omega

theorem size_ofBytes (bytes : List UInt8) : (ofBytes bytes).size = bytesSize bytes := by
  cases bytes with
  | nil => rfl
  | cons b bytes =>
    rw [ofBytes, size, bytesSize, List.map_cons, sizeItems, sizeItems_bytes, size, Number.text, length_encode_repr,
      List.map_cons, List.sum_cons, List.length_cons, comma, if_pos rfl, List.length_nil]
    omega

/-! ### Bounds -/

theorem digitCount_bounds (b : UInt8) : 1 ≤ digitCount b ∧ digitCount b ≤ 3 := by
  rw [digitCount]
  split
  · decide
  split
  · decide
  · decide

theorem sum_digitCount_bounds (bytes : List UInt8) :
    bytes.length ≤ (bytes.map digitCount).sum ∧ (bytes.map digitCount).sum ≤ 3 * bytes.length := by
  induction bytes with
  | nil => exact ⟨Nat.le_refl 0, Nat.le_refl 0⟩
  | cons b bytes ih =>
    have := digitCount_bounds b
    rw [List.map_cons, List.sum_cons, List.length_cons]
    omega

/-- A byte takes from two bytes to four, of which one is the comma. -/
theorem bytesSize_bounds (bytes : List UInt8) :
    2 * bytes.length + 1 ≤ bytesSize bytes ∧ bytesSize bytes ≤ 4 * bytes.length + 2 := by
  have := sum_digitCount_bounds bytes
  rw [bytesSize]
  omega

end Pinboard.Json
