import Mathlib.Algebra.Group.Nat.Defs
import Pinboard.Text.Utf8

/-! The reader of UTF-8 is the inverse of the writer. A character is a first byte, which tells how many bytes follow,
    and bytes of six bits each. The bounds that a first byte sets for the second leave just the code points that
    are characters and need so many bytes. -/

namespace Pinboard.Utf8

/-! ### Characters as bytes -/

/-- The last `k` bytes of a code point, of which each holds six bits. -/
def tail : Nat → Nat → List UInt8
  | 0, _ => []
  | k + 1, n => (n / 64 ^ k % 64 + 0x80).toUInt8 :: tail k n

theorem tail_succ (k n : Nat) : tail (k + 1) n = (n / 64 ^ k % 64 + 0x80).toUInt8 :: tail k n := rfl

/-- The first byte of a code point, and how many bytes follow. -/
def lead (n : Nat) : UInt8 × Nat :=
  if n < 0x80 then (n.toUInt8, 0)
  else if n < 0x800 then ((n / 64 + 0xc0).toUInt8, 1)
  else if n < 0x10000 then ((n / 4096 + 0xe0).toUInt8, 2)
  else ((n / 262144 + 0xf0).toUInt8, 3)

theorem lead_one {n : Nat} (h : n < 0x80) : lead n = (n.toUInt8, 0) := if_pos h

theorem lead_two {n : Nat} (h : 0x80 ≤ n) (h' : n < 0x800) : lead n = ((n / 64 + 0xc0).toUInt8, 1) := by
  rw [lead, if_neg (by omega), if_pos h']

theorem lead_three {n : Nat} (h : 0x800 ≤ n) (h' : n < 0x10000) : lead n = ((n / 4096 + 0xe0).toUInt8, 2) := by
  rw [lead, if_neg (by omega), if_neg (by omega), if_pos h']

theorem lead_four {n : Nat} (h : 0x10000 ≤ n) : lead n = ((n / 262144 + 0xf0).toUInt8, 3) := by
  rw [lead, if_neg (by omega), if_neg (by omega), if_neg (by omega)]

theorem toUInt8_toNat {n : Nat} (h : n < 256) : n.toUInt8.toNat = n := by
  rw [Nat.toUInt8_eq, UInt8.toNat_ofNat']
  exact Nat.mod_eq_of_lt h

theorem eq_toUInt8 {b : UInt8} {n : Nat} (h : b.toNat = n) : b = n.toUInt8 := by
  rw [← h, Nat.toUInt8_eq, UInt8.ofNat_toNat]

theorem toNat_lt (c : Char) : c.toNat < 0x110000 := by
  rcases c.valid with h | h <;> simp only [Char.toNat, UInt32.toNat] at * <;> omega

theorem utf8EncodeChar_eq (c : Char) :
    String.utf8EncodeChar c = (lead c.toNat).1 :: tail (lead c.toNat).2 c.toNat := by
  have hlt := toNat_lt c
  have htoNat : c.val.toNat = c.toNat := rfl
  simp only [String.utf8EncodeChar, htoNat]
  generalize c.toNat = n at hlt
  by_cases h1 : n < 0x80
  · rw [if_pos (by omega), lead_one h1]
    rfl
  · rw [if_neg (by omega)]
    by_cases h2 : n < 0x800
    · have hmod : n / 64 % 0x20 = n / 64 := by omega
      rw [if_pos (by omega), lead_two (by omega) h2]
      simp only [tail, hmod, Nat.pow_zero, Nat.div_one, Nat.toUInt8_eq]
    · rw [if_neg (by omega)]
      by_cases h3 : n < 0x10000
      · have hmod : n / 4096 % 0x10 = n / 4096 := by omega
        rw [if_pos (by omega), lead_three (by omega) h3]
        simp only [tail, hmod, Nat.pow_zero, Nat.pow_one, Nat.div_one, Nat.toUInt8_eq]
      · have hmod : n / 262144 % 0x08 = n / 262144 := by omega
        rw [if_neg (by omega), lead_four (by omega)]
        simp only [tail, hmod, Nat.pow_zero, Nat.pow_one, Nat.div_one, Nat.toUInt8_eq, show 64 ^ 2 = 4096 from rfl]

/-! ### The bytes after the first -/

/-- The code point continues what has been read, and its next byte is within the bounds. -/
structure Pending.Fits (p : Pending) (n : Nat) : Prop where
  bits : n / 64 ^ (p.owed + 1) = p.bits
  low : p.low.toNat ≤ n / 64 ^ p.owed % 64 + 0x80
  high : n / 64 ^ p.owed % 64 + 0x80 ≤ p.high.toNat

/-- The bounds allow only bytes that follow a first one. -/
structure Pending.Follows (p : Pending) : Prop where
  low : 0x80 ≤ p.low.toNat
  high : p.high.toNat ≤ 0xbf

theorem begin?_eq (b : UInt8) : Pending.begin? b =
    if b.toNat < 0xc2 then none
    else if b.toNat < 0xe0 then some ⟨b.toNat - 0xc0, 1, 0, 0x80, 0xbf⟩
    else if b.toNat = 0xe0 then some ⟨0, 1, 1, 0xa0, 0xbf⟩
    else if b.toNat = 0xed then some ⟨0xd, 1, 1, 0x80, 0x9f⟩
    else if b.toNat < 0xf0 then some ⟨b.toNat - 0xe0, 1, 1, 0x80, 0xbf⟩
    else if b.toNat = 0xf0 then some ⟨0, 1, 2, 0x90, 0xbf⟩
    else if b.toNat < 0xf4 then some ⟨b.toNat - 0xf0, 1, 2, 0x80, 0xbf⟩
    else if b.toNat = 0xf4 then some ⟨4, 1, 2, 0x80, 0x8f⟩
    else none := by
  simp only [Pending.begin?, UInt8.lt_iff_toNat_lt, ← UInt8.toNat_inj]
  rfl

/-- Every character that needs more than one byte is promised by its first one. -/
theorem exists_begin {n : Nat} (valid : n.isValidChar) (h : 0x80 ≤ n) :
    ∃ p, Pending.begin? (lead n).1 = some p ∧ (lead n).2 = p.owed + 1 ∧ p.Fits n := by
  simp only [Nat.isValidChar] at valid
  by_cases h2 : n < 0x800
  · rw [lead_two h h2, begin?_eq, toUInt8_toNat (by omega), if_neg (by omega), if_pos (by omega)]
    exact ⟨_, rfl, rfl, ⟨by simp, by simp, by simp; omega⟩⟩
  by_cases h3 : n < 0x10000
  · rw [lead_three (by omega) h3, begin?_eq, toUInt8_toNat (by omega), if_neg (by omega), if_neg (by omega)]
    by_cases he0 : n / 4096 = 0
    · rw [if_pos (by omega)]
      exact ⟨_, rfl, rfl, ⟨by simp; omega, by simp; omega, by simp; omega⟩⟩
    · rw [if_neg (by omega)]
      by_cases hed : n / 4096 = 0xd
      · rw [if_pos (by omega)]
        exact ⟨_, rfl, rfl, ⟨by simp; omega, by simp, by simp; omega⟩⟩
      · rw [if_neg (by omega), if_pos (by omega)]
        exact ⟨_, rfl, rfl, ⟨by simp, by simp, by simp; omega⟩⟩
  · rw [lead_four (by omega), begin?_eq, toUInt8_toNat (by omega), if_neg (by omega), if_neg (by omega),
      if_neg (by omega), if_neg (by omega), if_neg (by omega)]
    by_cases hf0 : n / 262144 = 0
    · rw [if_pos (by omega)]
      exact ⟨_, rfl, rfl, ⟨by simp; omega, by simp; omega, by simp; omega⟩⟩
    · rw [if_neg (by omega)]
      by_cases hf4 : n / 262144 = 4
      · rw [if_neg (by omega), if_pos (by omega)]
        exact ⟨_, rfl, rfl, ⟨by simp; omega, by simp, by simp; omega⟩⟩
      · rw [if_pos (by omega)]
        exact ⟨_, rfl, rfl, ⟨by simp, by simp, by simp; omega⟩⟩

/-- A first byte promises only characters of which it is the first byte. -/
theorem lead_of_begin {b : UInt8} {p : Pending} (h : Pending.begin? b = some p) {n : Nat} (hn : p.Fits n) :
    n.isValidChar ∧ lead n = (b, p.owed + 1) := by
  rw [begin?_eq] at h
  simp only [Nat.isValidChar]
  split at h
  · cases h
  split at h
  · obtain rfl := Option.some.inj h
    have hbits : n / 64 = b.toNat - 0xc0 := hn.bits
    refine ⟨by omega, ?_⟩
    rw [lead_two (by omega) (by omega), ← eq_toUInt8 (b := b) (by omega)]
  -- Of three bytes: the second decides after `0xe0` and `0xed`.
  split at h
  · obtain rfl := Option.some.inj h
    have hbits : n / 4096 = 0 := hn.bits
    have hlow : 0xa0 ≤ n / 64 % 64 + 0x80 := hn.low
    refine ⟨by omega, ?_⟩
    rw [lead_three (by omega) (by omega), ← eq_toUInt8 (b := b) (by omega)]
  split at h
  · obtain rfl := Option.some.inj h
    have hbits : n / 4096 = 0xd := hn.bits
    have hhigh : n / 64 % 64 + 0x80 ≤ 0x9f := hn.high
    refine ⟨by omega, ?_⟩
    rw [lead_three (by omega) (by omega), ← eq_toUInt8 (b := b) (by omega)]
  split at h
  · obtain rfl := Option.some.inj h
    have hbits : n / 4096 = b.toNat - 0xe0 := hn.bits
    refine ⟨by omega, ?_⟩
    rw [lead_three (by omega) (by omega), ← eq_toUInt8 (b := b) (by omega)]
  -- Of four bytes: the second decides after `0xf0` and `0xf4`.
  split at h
  · obtain rfl := Option.some.inj h
    have hbits : n / 262144 = 0 := hn.bits
    have hlow : 0x90 ≤ n / 4096 % 64 + 0x80 := hn.low
    refine ⟨by omega, ?_⟩
    rw [lead_four (by omega), ← eq_toUInt8 (b := b) (by omega)]
  split at h
  · obtain rfl := Option.some.inj h
    have hbits : n / 262144 = b.toNat - 0xf0 := hn.bits
    refine ⟨by omega, ?_⟩
    rw [lead_four (by omega), ← eq_toUInt8 (b := b) (by omega)]
  split at h
  · obtain rfl := Option.some.inj h
    have hbits : n / 262144 = 4 := hn.bits
    have hhigh : n / 4096 % 64 + 0x80 ≤ 0x8f := hn.high
    refine ⟨by omega, ?_⟩
    rw [lead_four (by omega), ← eq_toUInt8 (b := b) (by omega)]
  · cases h

theorem follows_of_begin {b : UInt8} {p : Pending} (h : Pending.begin? b = some p) :
    p.Follows ∧ p.taken = 1 ∧ ¬b < 0x80 := by
  have hlarge : ¬b.toNat < 0x80 := by
    intro hb
    rw [begin?_eq, if_pos (by omega)] at h
    cases h
  refine ⟨?_, ?_, fun hb => hlarge (UInt8.lt_iff_toNat_lt.mp hb)⟩
  · rw [begin?_eq] at h
    repeat' split at h
    all_goals first
      | obtain rfl := Option.some.inj h
        exact ⟨Nat.le_of_ble_eq_true rfl, Nat.le_of_ble_eq_true rfl⟩
      | cases h
  · rw [begin?_eq] at h
    repeat' split at h
    all_goals first
      | obtain rfl := Option.some.inj h
        rfl
      | cases h

@[simp] theorem length_tail (k n : Nat) : (tail k n).length = k := by
  induction k with
  | zero => rfl
  | succ k ih => rw [tail, List.length_cons, ih]

/-! ### Reading -/

variable {index : Nat} {text out : String} {p : Pending} {n : Nat} {b : UInt8} {bytes rest : List UInt8}

theorem Pending.Fits.within (h : p.Fits n) :
    p.low ≤ (n / 64 ^ p.owed % 64 + 0x80).toUInt8 ∧ (n / 64 ^ p.owed % 64 + 0x80).toUInt8 ≤ p.high ∧
      p.extend (n / 64 ^ p.owed % 64 + 0x80).toUInt8 = n / 64 ^ p.owed := by
  obtain ⟨hbits, hlow, hhigh⟩ := h
  rw [Nat.pow_succ, ← Nat.div_div_eq_div_mul] at hbits
  generalize n / 64 ^ p.owed = m at hbits hlow hhigh ⊢
  have hbyte : (m % 64 + 0x80).toUInt8.toNat = m % 64 + 0x80 := toUInt8_toNat (by omega)
  have hextend : p.bits * 64 + (m % 64 + 0x80 - 0x80) = m := by
    rw [Nat.add_sub_cancel, ← hbits]
    omega
  refine ⟨?_, ?_, ?_⟩
  · rw [UInt8.le_iff_toNat_le, hbyte]
    exact hlow
  · rw [UInt8.le_iff_toNat_le, hbyte]
    exact hhigh
  · exact (congrArg (fun byte => p.bits * 64 + (byte - 0x80)) hbyte).trans hextend

/-- The bytes that are owed complete the character. -/
theorem decodeFrom_tail (h : p.Fits n) :
    decodeFrom index text (some p) (tail (p.owed + 1) n ++ rest) =
      decodeFrom (index + p.taken + p.owed + 1) (text.push (Char.ofNat n)) none rest := by
  induction hk : p.owed generalizing p with
  | zero =>
    obtain ⟨hlow, hhigh, hextend⟩ := h.within
    rw [hk] at hlow hhigh hextend
    rw [tail, List.cons_append, decodeFrom, if_pos ⟨hlow, hhigh⟩, hk]
    simp only [hextend]
    simp only [tail, Nat.pow_zero, Nat.div_one, List.nil_append, Nat.add_zero]
  | succ k ih =>
    obtain ⟨hlow, hhigh, hextend⟩ := h.within
    rw [hk] at hlow hhigh hextend
    rw [tail, List.cons_append, decodeFrom, if_pos ⟨hlow, hhigh⟩, hk]
    have hnext : Pending.Fits ⟨n / 64 ^ (k + 1), p.taken + 1, k, 0x80, 0xbf⟩ n :=
      ⟨rfl, Nat.le_add_left _ _, Nat.add_le_add_right (Nat.le_of_lt_succ (Nat.mod_lt _ (by decide))) 0x80⟩
    have hindex : index + (p.taken + 1) + k + 1 = index + p.taken + (k + 1) + 1 := by omega
    simp only [hextend]
    exact (ih hnext rfl).trans (congrArg (decodeFrom · (text.push (Char.ofNat n)) none rest) hindex)

/-- A byte within the bounds is the next one of every code point that goes on with its bits. -/
theorem Pending.Follows.fits (follows : p.Follows) (hlow : p.low ≤ b) (hhigh : b ≤ p.high)
    (h : n / 64 ^ p.owed = p.extend b) : p.Fits n ∧ (n / 64 ^ p.owed % 64 + 0x80).toUInt8 = b := by
  obtain ⟨hle, hge⟩ := follows
  rw [UInt8.le_iff_toNat_le] at hlow hhigh
  have hextend : n / 64 ^ p.owed = p.bits * 64 + (b.toNat - 0x80) := h
  have hmod : n / 64 ^ p.owed % 64 + 0x80 = b.toNat := by
    rw [hextend]
    omega
  have hdiv : n / 64 ^ p.owed / 64 = p.bits := by
    rw [hextend]
    omega
  refine ⟨⟨?_, hmod ▸ hlow, hmod ▸ hhigh⟩, (eq_toUInt8 hmod.symm).symm⟩
  rw [Nat.pow_succ, ← Nat.div_div_eq_div_mul]
  exact hdiv

theorem exists_tail (follows : p.Follows) (h : decodeFrom index text (some p) bytes = .ok out) :
    ∃ n rest, bytes = tail (p.owed + 1) n ++ rest ∧ p.Fits n ∧
      decodeFrom (index + p.taken + p.owed + 1) (text.push (Char.ofNat n)) none rest = .ok out := by
  induction hk : p.owed generalizing p bytes with
  | zero =>
    cases bytes with
    | nil => cases h
    | cons b rest =>
      rw [decodeFrom] at h
      split at h
      · rename_i hbounds
        obtain ⟨hfits, hbyte⟩ := follows.fits (n := p.extend b) hbounds.1 hbounds.2 (by rw [hk, Nat.pow_zero, Nat.div_one])
        rw [hk] at hbyte
        simp only [hk] at h
        refine ⟨p.extend b, rest, ?_, hfits, h⟩
        rw [tail_succ, hbyte, List.cons_append]
        rfl
      · cases h
  | succ k ih =>
    cases bytes with
    | nil => cases h
    | cons b rest =>
      rw [decodeFrom] at h
      split at h
      · rename_i hbounds
        simp only [hk] at h
        obtain ⟨n, rest, rfl, hnext, hdecode⟩ := ih ⟨Nat.le_refl _, Nat.le_refl _⟩ h rfl
        obtain ⟨hfits, hbyte⟩ := follows.fits (n := n) hbounds.1 hbounds.2 (by rw [hk]; exact hnext.bits)
        rw [hk] at hbyte
        refine ⟨n, rest, by rw [tail_succ (k + 1), hbyte, List.cons_append], hfits, ?_⟩
        rw [show index + p.taken + (k + 1) + 1 = index + (p.taken + 1) + k + 1 from by omega]
        exact hdecode
      · cases h

theorem ofUInt8_eq (b : UInt8) : Char.ofUInt8 b = Char.ofNat b.toNat :=
  (Char.ofNat_toNat (Char.ofUInt8 b)).symm

theorem toNat_ofNat {n : Nat} (valid : n.isValidChar) : (Char.ofNat n).toNat = n := by
  rw [Char.ofNat, dif_pos valid]
  rfl

theorem decodeFrom_char (c : Char) :
    decodeFrom index text none (String.utf8EncodeChar c ++ rest) =
      decodeFrom (index + (String.utf8EncodeChar c).length) (text.push c) none rest := by
  rw [utf8EncodeChar_eq, List.length_cons, length_tail, List.cons_append]
  by_cases hascii : c.toNat < 0x80
  · have hbyte : c.toNat.toUInt8.toNat = c.toNat := toUInt8_toNat (by omega)
    have hlt : c.toNat.toUInt8 < 0x80 := by
      rw [UInt8.lt_iff_toNat_lt, hbyte]
      exact hascii
    rw [lead_one hascii, decodeFrom, if_pos hlt, ofUInt8_eq, hbyte, Char.ofNat_toNat]
    rfl
  · obtain ⟨p, hbegin, hlength, hfits⟩ := exists_begin (n := c.toNat) c.valid (Nat.le_of_not_lt hascii)
    obtain ⟨-, htaken, hlarge⟩ := follows_of_begin hbegin
    rw [decodeFrom, if_neg hlarge, hbegin, hlength]
    simp only
    rw [decodeFrom_tail hfits, htaken, Char.ofNat_toNat]
    congr 1
    omega

theorem exists_char (h : decodeFrom index text none (b :: bytes) = .ok out) :
    ∃ c rest, b :: bytes = String.utf8EncodeChar c ++ rest := by
  rw [decodeFrom] at h
  split at h
  · rename_i hascii
    rw [UInt8.lt_iff_toNat_lt] at hascii
    have hvalid : b.toNat.isValidChar := Or.inl (Nat.lt_trans hascii (by decide))
    refine ⟨Char.ofNat b.toNat, bytes, ?_⟩
    rw [utf8EncodeChar_eq, toNat_ofNat hvalid, lead_one hascii, ← eq_toUInt8 (b := b) rfl]
    rfl
  · split at h
    · cases h
    · rename_i p hbegin
      obtain ⟨n, rest, rfl, hfits, -⟩ := exists_tail (follows_of_begin hbegin).1 h
      obtain ⟨hvalid, hlead⟩ := lead_of_begin hbegin hfits
      refine ⟨Char.ofNat n, rest, ?_⟩
      rw [utf8EncodeChar_eq, toNat_ofNat hvalid, hlead, List.cons_append]

/-! ### Texts -/

theorem encode_eq (s : String) : encode s = s.toList.flatMap String.utf8EncodeChar := by
  rw [encode, ← String.utf8Encode_toList, List.utf8Encode, List.data_toByteArray]

theorem encode_ofList (cs : List Char) : encode (String.ofList cs) = cs.flatMap String.utf8EncodeChar := by
  rw [encode_eq, String.toList_ofList]

theorem encode_append (s t : String) : encode (s ++ t) = encode s ++ encode t := by
  rw [encode_eq, encode_eq, encode_eq, String.toList_append, List.flatMap_append]

theorem encode_push (s : String) (c : Char) : encode (s.push c) = encode s ++ String.utf8EncodeChar c := by
  rw [String.push_eq_append, encode_append, encode_eq (String.singleton c), String.toList_singleton,
    List.flatMap_singleton]

theorem utf8EncodeChar_ascii {c : Char} (h : c.toNat < 0x80) : String.utf8EncodeChar c = [c.toNat.toUInt8] := by
  rw [utf8EncodeChar_eq, lead_one h]
  rfl

/-- A character outside of ASCII has no byte of ASCII. -/
theorem large_of_mem {c : Char} (h : 0x80 ≤ c.toNat) : ∀ b ∈ String.utf8EncodeChar c, 0x80 ≤ b.toNat := by
  have htail : ∀ k n, ∀ b ∈ tail k n, 0x80 ≤ b.toNat := by
    intro k n
    induction k with
    | zero => exact nofun
    | succ k ih =>
      rw [tail]
      refine List.forall_mem_cons.mpr ⟨?_, ih⟩
      rw [toUInt8_toNat (by omega)]
      omega
  have hlt := toNat_lt c
  rw [utf8EncodeChar_eq]
  refine List.forall_mem_cons.mpr ⟨?_, htail _ _⟩
  rw [lead]
  split
  · omega
  split
  · rw [toUInt8_toNat (by omega)]
    omega
  split
  · rw [toUInt8_toNat (by omega)]
    omega
  · rw [toUInt8_toNat (by omega)]
    omega

theorem decodeFrom_chars (cs : List Char) (index : Nat) (text : String) :
    decodeFrom index text none (cs.flatMap String.utf8EncodeChar) = .ok (text ++ String.ofList cs) := by
  induction cs generalizing index text with
  | nil => rw [List.flatMap_nil, decodeFrom, String.ofList_nil, String.append_empty]
  | cons c cs ih =>
    rw [List.flatMap_cons, decodeFrom_char, ih, String.push_eq_append, String.append_assoc, String.ofList_cons]

theorem exists_chars (h : decodeFrom index text none bytes = .ok out) :
    ∃ cs : List Char, bytes = cs.flatMap String.utf8EncodeChar := by
  induction hn : bytes.length using Nat.strongRecOn generalizing bytes index text with
  | ind n ih =>
    cases bytes with
    | nil => exact ⟨[], rfl⟩
    | cons b bytes =>
      obtain ⟨c, rest, hsplit⟩ := exists_char h
      rw [hsplit, decodeFrom_char] at h
      -- No character is without bytes, so less is left to read.
      have hlt : rest.length < n := by
        rw [← hn, hsplit, List.length_append]
        exact Nat.lt_add_of_pos_left (List.length_pos_iff.mpr String.utf8EncodeChar_ne_nil)
      obtain ⟨cs, rfl⟩ := ih _ hlt h rfl
      exact ⟨c :: cs, by rw [hsplit, List.flatMap_cons]⟩

/-- Bytes are read as a text just if they are its bytes. -/
theorem decode_ok_iff {s : String} : decode bytes = .ok s ↔ encode s = bytes := by
  constructor
  · intro h
    obtain ⟨cs, rfl⟩ := exists_chars h
    rw [decode, decodeFrom_chars, String.empty_append, Except.ok.injEq] at h
    rw [← h, encode_ofList]
  · rintro rfl
    rw [decode, encode_eq, decodeFrom_chars, String.empty_append, String.ofList_toList]

theorem decode?_eq_some_iff {s : String} : decode? bytes = some s ↔ encode s = bytes := by
  rw [← decode_ok_iff, decode?]
  cases decode bytes with
  | error fault => exact ⟨nofun, nofun⟩
  | ok text => exact ⟨fun h => congrArg _ (Option.some.inj h), fun h => congrArg _ (Except.ok.inj h)⟩

theorem bind_decode?_eq_some_iff {bytes? : Option (List UInt8)} {s : String} :
    bytes?.bind decode? = some s ↔ bytes? = some (encode s) := by
  rw [Option.bind_eq_some_iff]
  constructor
  · rintro ⟨bytes, rfl, hbytes⟩
    rw [decode?_eq_some_iff.mp hbytes]
  · rintro rfl
    exact ⟨_, rfl, decode?_eq_some_iff.mpr rfl⟩

theorem encode_injective {s t : String} (h : encode s = encode t) : s = t := by
  have hs := decode_ok_iff.mpr h
  rw [decode_ok_iff.mpr rfl, Except.ok.injEq] at hs
  exact hs.symm

/-- The bytes are UTF-8 as the standard library has it: the forms of characters, one after another. -/
def WellFormed (bytes : List UInt8) : Prop := bytes.toByteArray.IsValidUTF8

theorem wellFormed_iff : WellFormed bytes ↔ ∃ s, bytes = encode s := by
  constructor
  · rintro ⟨cs, h⟩
    refine ⟨String.ofList cs, ?_⟩
    have hdata := congrArg (fun b : ByteArray => b.data.toList) h
    simp only [List.utf8Encode, List.data_toByteArray] at hdata
    rw [encode_ofList, hdata]
  · rintro ⟨s, rfl⟩
    have hsame : (encode s).toByteArray = s.toByteArray := ByteArray.ext (by rw [List.data_toByteArray, encode])
    rw [WellFormed, hsame]
    exact s.isValidUTF8

end Pinboard.Utf8
