import Pinboard.Proofs.Text.Utf8

/-! Where bytes stop being UTF-8. The reader goes from character to character, so it stops behind the longest
    well-formed beginning. There it stands in front of bytes that begin with no character: either all that is left is
    the beginning of one, or a byte does not go on with what has begun, and the bytes before that one are as many as
    begin any character. -/

namespace Pinboard.Utf8

variable {index : Nat} {text : String} {b : UInt8} {p q : Pending} {n : Nat} {bytes good rest : List UInt8}

/-! ### Code points in so many bytes -/

/-- What the first byte of a code point has besides bits of it, if `k` bytes follow. -/
def mark : Nat → Nat
  | 0 => 0
  | 1 => 0xc0
  | 2 => 0xe0
  | _ => 0xf0

/-- The first code point for which one byte and `k` more have too few bits. -/
def limit : Nat → Nat
  | 0 => 0x80
  | 1 => 0x800
  | 2 => 0x10000
  | _ => 0x200000

/-- A number in one byte and `k` more, whether or not it is a character or would need so many. -/
def spelling (k n : Nat) : List UInt8 := (n / 64 ^ k + mark k).toUInt8 :: tail k n

theorem lead_eq (h : n < 0x200000) :
    ∃ k ≤ 3, lead n = ((n / 64 ^ k + mark k).toUInt8, k) ∧ n < limit k ∧ ∀ j < k, limit j ≤ n := by
  by_cases h1 : n < 0x80
  · exact ⟨0, by omega, by rw [lead_one h1, Nat.pow_zero, Nat.div_one, mark, Nat.add_zero], h1, nofun⟩
  by_cases h2 : n < 0x800
  · refine ⟨1, by omega, lead_two (by omega) h2, h2, fun j hj => ?_⟩
    obtain rfl : j = 0 := by omega
    exact Nat.le_of_not_lt h1
  by_cases h3 : n < 0x10000
  · refine ⟨2, by omega, lead_three (by omega) h3, h3, fun j hj => ?_⟩
    obtain rfl | rfl : j = 0 ∨ j = 1 := by omega
    · exact Nat.le_of_not_lt h1
    · exact Nat.le_of_not_lt h2
  · refine ⟨3, by omega, lead_four (by omega), h, fun j hj => ?_⟩
    obtain rfl | rfl | rfl : j = 0 ∨ j = 1 ∨ j = 2 := by omega
    · exact Nat.le_of_not_lt h1
    · exact Nat.le_of_not_lt h2
    · exact Nat.le_of_not_lt h3

/-- A character is spelled in the fewest bytes that have bits enough. -/
theorem exists_spelling (c : Char) :
    ∃ k ≤ 3, String.utf8EncodeChar c = spelling k c.toNat ∧ c.toNat < limit k ∧ ∀ j < k, limit j ≤ c.toNat := by
  obtain ⟨k, hk, hlead, hlt, hfewest⟩ := lead_eq (Nat.lt_trans (toNat_lt c) (by decide))
  exact ⟨k, hk, by rw [utf8EncodeChar_eq, hlead, spelling], hlt, hfewest⟩

/-- How many bytes follow a first one. -/
def following (head : Nat) : Nat := if head < 0x80 then 0 else if head < 0xe0 then 1 else if head < 0xf0 then 2 else 3

theorem following_head {k : Nat} (hk : k ≤ 3) (hn : n < limit k) :
    n / 64 ^ k + mark k < 256 ∧ following (n / 64 ^ k + mark k) = k := by
  rw [following]
  match k, hk with
  | 0, _ =>
    have hbits : n / 64 ^ 0 + mark 0 < 0x80 := by
      rw [Nat.pow_zero, Nat.div_one]
      exact hn
    exact ⟨by omega, if_pos hbits⟩
  | 1, _ =>
    have hbits : n / 64 ^ 1 < 0x20 := Nat.div_lt_of_lt_mul hn
    simp only [mark]
    exact ⟨by omega, by rw [if_neg (by omega), if_pos (by omega)]⟩
  | 2, _ =>
    have hbits : n / 64 ^ 2 < 0x10 := Nat.div_lt_of_lt_mul hn
    simp only [mark]
    exact ⟨by omega, by rw [if_neg (by omega), if_neg (by omega), if_pos (by omega)]⟩
  | 3, _ =>
    have hbits : n / 64 ^ 3 < 0x08 := Nat.div_lt_of_lt_mul hn
    simp only [mark]
    exact ⟨by omega, by rw [if_neg (by omega), if_neg (by omega), if_neg (by omega)]⟩

theorem tail_inj {k m : Nat} (h : tail k n = tail k m) : n % 64 ^ k = m % 64 ^ k := by
  induction k with
  | zero => rw [Nat.pow_zero, Nat.mod_one, Nat.mod_one]
  | succ k ih =>
    obtain ⟨hhead, htail⟩ := List.cons.inj h
    have hhead := congrArg UInt8.toNat hhead
    rw [toUInt8_toNat (by omega), toUInt8_toNat (by omega), Nat.add_right_cancel_iff] at hhead
    rw [Nat.pow_succ, Nat.mod_mul, Nat.mod_mul, ih htail, hhead]

/-- No bytes begin with the spellings of two numbers. -/
theorem spelling_inj {k j m : Nat} (hk : k ≤ 3) (hn : n < limit k) (hj : j ≤ 3) (hm : m < limit j)
    (h : spelling k n = spelling j m ++ rest) : k = j ∧ n = m := by
  obtain ⟨hhead, htail⟩ := List.cons.inj h
  have hhead := congrArg UInt8.toNat hhead
  obtain ⟨hsmall, hfollowing⟩ := following_head hk hn
  obtain ⟨hsmall', hfollowing'⟩ := following_head hj hm
  rw [toUInt8_toNat hsmall, toUInt8_toNat hsmall'] at hhead
  obtain rfl : k = j := hfollowing.symm.trans ((congrArg following hhead).trans hfollowing')
  have htail := (List.append_inj ((List.append_nil _).trans htail) (by rw [length_tail, length_tail])).1
  refine ⟨rfl, ?_⟩
  rw [← Nat.div_add_mod n (64 ^ k), ← Nat.div_add_mod m (64 ^ k), tail_inj htail, Nat.add_right_cancel hhead]

/-- What is well formed is no longer than it needs to be, no surrogate, and not above the last code point. -/
theorem wellFormed_spelling_iff {k : Nat} (hk : k ≤ 3) (hn : n < limit k) :
    WellFormed (spelling k n) ↔ n.isValidChar ∧ ∀ j < k, limit j ≤ n := by
  constructor
  · intro h
    obtain ⟨s, hs⟩ := wellFormed_iff.mp h
    rw [encode_eq] at hs
    cases hcs : s.toList with
    | nil =>
      rw [hcs] at hs
      cases hs
    | cons c cs =>
      obtain ⟨j, hj, hspelling, hlt, hfewest⟩ := exists_spelling c
      rw [hcs, List.flatMap_cons, hspelling] at hs
      obtain ⟨rfl, rfl⟩ := spelling_inj hk hn hj hlt hs
      exact ⟨c.valid, hfewest⟩
  · rintro ⟨hvalid, hfewest⟩
    obtain ⟨j, hj, hspelling, hlt, hfewest'⟩ := exists_spelling (Char.ofNat n)
    rw [toNat_ofNat hvalid] at hspelling hlt hfewest'
    obtain rfl : j = k := by
      rcases Nat.lt_trichotomy j k with h | h | h
      · exact absurd hlt (Nat.not_lt.mpr (hfewest j h))
      · exact h
      · exact absurd hn (Nat.not_lt.mpr (hfewest' k h))
    refine wellFormed_iff.mpr ⟨String.singleton (Char.ofNat n), ?_⟩
    rw [encode_eq, String.toList_singleton, List.flatMap_singleton, hspelling]

/-! ### Characters that have begun -/

/-- The bytes go on with a character that has begun, more of it is owed behind them, and `q` is what is pending then. -/
inductive Pending.Takes : Pending → List UInt8 → Pending → Prop
  | nil {p : Pending} : Takes p [] p
  | cons {p q : Pending} {b : UInt8} {bytes : List UInt8} {owed : Nat} (within : p.low ≤ b ∧ b ≤ p.high)
      (more : p.owed = owed + 1) (rest : Takes ⟨p.extend b, p.taken + 1, owed, 0x80, 0xbf⟩ bytes q) : Takes p (b :: bytes) q

/-- Some byte is within the bounds, and all are taken before the fourth. -/
structure Pending.Open (p : Pending) : Prop where
  follows : p.Follows
  bounds : p.low.toNat ≤ p.high.toNat
  short : p.taken + p.owed ≤ 3

theorem open_of_begin (h : Pending.begin? b = some p) : p.Open := by
  obtain ⟨follows, -, -⟩ := follows_of_begin h
  rw [begin?_eq] at h
  repeat' split at h
  all_goals first
    | obtain rfl := Option.some.inj h
      exact ⟨follows, Nat.le_of_ble_eq_true rfl, Nat.le_of_ble_eq_true rfl⟩
    | cases h

namespace Pending

theorem Open.next {owed : Nat} (h : p.Open) (more : p.owed = owed + 1) (bits : Nat) :
    Open ⟨bits, p.taken + 1, owed, 0x80, 0xbf⟩ where
  follows := ⟨Nat.le_refl _, Nat.le_refl _⟩
  bounds := Nat.le_of_ble_eq_true rfl
  short := by
    have := h.short
    simp only
    omega

/-- Bounds that let a byte through leave a code point to go on to. -/
theorem Open.exists_fits (h : p.Open) : ∃ n, p.Fits n := by
  obtain ⟨⟨hlow, hhigh⟩, hbounds, -⟩ := h
  refine ⟨(p.bits * 64 + (p.low.toNat - 0x80)) * 64 ^ p.owed, ?_⟩
  have hdiv : (p.bits * 64 + (p.low.toNat - 0x80)) * 64 ^ p.owed / 64 ^ p.owed = p.bits * 64 + (p.low.toNat - 0x80) :=
    Nat.mul_div_cancel _ (Nat.pow_pos (by decide))
  refine ⟨?_, ?_, ?_⟩
  · rw [Nat.pow_succ, ← Nat.div_div_eq_div_mul, hdiv]
    omega
  · rw [hdiv]
    omega
  · rw [hdiv]
    omega

/-- A code point goes on with a byte within the bounds if it has the bits that are known then. -/
theorem Open.goesOn (h : p.Open) (within : p.low ≤ b ∧ b ≤ p.high) (hn : n / 64 ^ p.owed = p.extend b) :
    p.Fits n ∧ tail (p.owed + 1) n = b :: tail p.owed n := by
  obtain ⟨hfits, hbyte⟩ := h.follows.fits within.1 within.2 hn
  exact ⟨hfits, by rw [tail_succ, hbyte]⟩

theorem Fits.next {owed : Nat} (h : p.Fits n) (more : p.owed = owed + 1) :
    Fits ⟨p.extend (n / 64 ^ p.owed % 64 + 0x80).toUInt8, p.taken + 1, owed, 0x80, 0xbf⟩ n where
  bits := by
    rw [h.within.2.2, more]
  low := Nat.le_add_left _ _
  high := Nat.add_le_add_right (Nat.le_of_lt_succ (Nat.mod_lt _ (by decide))) 0x80

namespace Takes

theorem taken (h : p.Takes good q) (hopen : p.Open) : q.taken = p.taken + good.length ∧ q.Open := by
  induction h with
  | nil => exact ⟨rfl, hopen⟩
  | cons within more rest ih =>
    obtain ⟨htaken, hq⟩ := ih (hopen.next more _)
    refine ⟨?_, hq⟩
    rw [htaken, List.length_cons]
    simp only
    omega

/-- A code point that goes on behind the bytes has gone on with them. -/
theorem tail_eq (h : p.Takes good q) (hopen : p.Open) (hn : q.Fits n) :
    p.Fits n ∧ tail (p.owed + 1) n = good ++ tail (q.owed + 1) n := by
  induction h with
  | nil => exact ⟨hn, rfl⟩
  | @cons p q b bytes owed within more rest ih =>
    obtain ⟨hnext, htail⟩ := ih (hopen.next more _) hn
    obtain ⟨hfits, htail'⟩ := hopen.goesOn within (more ▸ hnext.bits)
    exact ⟨hfits, by rw [htail', more, htail, List.cons_append]⟩

/-- A code point that goes on with the bytes goes on behind them. -/
theorem fits_of_prefix (h : p.Takes good q) (hn : p.Fits n) (hgood : good <+: tail (p.owed + 1) n) :
    q.Fits n ∧ tail (p.owed + 1) n = good ++ tail (q.owed + 1) n := by
  induction h with
  | nil => exact ⟨hn, rfl⟩
  | @cons p q b bytes owed within more rest ih =>
    rw [tail_succ, List.cons_prefix_cons, more] at hgood
    obtain ⟨rfl, hbytes⟩ := hgood
    obtain ⟨hq, htail⟩ := ih (more ▸ hn.next more) hbytes
    refine ⟨hq, ?_⟩
    rw [tail_succ, more, htail, List.cons_append]

end Takes

end Pending

/-- A character of more than one byte is what its first byte has promised. -/
theorem begin_of_char {c : Char} (h : String.utf8EncodeChar c = b :: bytes) (hlarge : ¬b < 0x80) :
    ∃ p, Pending.begin? b = some p ∧ p.Fits c.toNat ∧ bytes = tail (p.owed + 1) c.toNat := by
  rw [utf8EncodeChar_eq] at h
  obtain ⟨rfl, rfl⟩ := List.cons.inj h
  have hn : 0x80 ≤ c.toNat := by
    refine Nat.le_of_not_lt fun hlt => hlarge ?_
    rw [lead_one hlt, UInt8.lt_iff_toNat_lt, toUInt8_toNat (by omega)]
    exact hlt
  obtain ⟨p, hbegin, howed, hfits⟩ := exists_begin (n := c.toNat) c.valid hn
  exact ⟨p, hbegin, hfits, by rw [howed]⟩

/-- What a first byte has promised is a character that goes on behind the bytes which are taken. -/
theorem exists_char_of_takes (h : Pending.begin? b = some p) (takes : p.Takes good q) :
    ∃ c : Char, String.utf8EncodeChar c = b :: (good ++ tail (q.owed + 1) c.toNat) := by
  have hopen := open_of_begin h
  obtain ⟨n, hn⟩ := (takes.taken hopen).2.exists_fits
  obtain ⟨hfits, htail⟩ := takes.tail_eq hopen hn
  obtain ⟨hvalid, hlead⟩ := lead_of_begin h hfits
  refine ⟨Char.ofNat n, ?_⟩
  rw [utf8EncodeChar_eq, toNat_ofNat hvalid, hlead, htail]

/-! ### Bytes at which the reader stops -/

/-- The reader stops in front of these bytes, and tells how many of them begin no character, unless it is for the end. -/
inductive Stuck : List UInt8 → Option Nat → Prop
  /-- The first byte begins none. -/
  | first {b : UInt8} {rest : List UInt8} (large : ¬b < 0x80) (none_begins : Pending.begin? b = none) :
      Stuck (b :: rest) (some 1)
  /-- A character has begun, and nothing is left. -/
  | cut {b : UInt8} {p q : Pending} {good : List UInt8} (begins : Pending.begin? b = some p) (takes : p.Takes good q) :
      Stuck (b :: good) none
  /-- A character has begun, and a byte does not go on with it. -/
  | later {b x : UInt8} {p q : Pending} {good rest : List UInt8} (begins : Pending.begin? b = some p)
      (takes : p.Takes good q) (without : ¬(q.low ≤ x ∧ x ≤ q.high)) : Stuck (b :: (good ++ x :: rest)) (some q.taken)

/-- A character that has begun is read to its end, or bytes run out, or one of them does not go on with it. -/
theorem decodeFrom_pending (index : Nat) (text : String) (hopen : p.Open) (bytes : List UInt8) :
    (∃ n rest, bytes = tail (p.owed + 1) n ++ rest ∧ p.Fits n) ∨
      (∃ q, p.Takes bytes q ∧ decodeFrom index text (some p) bytes = .error ⟨index, none⟩) ∨
        ∃ good x rest q, bytes = good ++ x :: rest ∧ p.Takes good q ∧ ¬(q.low ≤ x ∧ x ≤ q.high) ∧
          decodeFrom index text (some p) bytes = .error ⟨index, some q.taken⟩ := by
  induction bytes generalizing p with
  | nil => exact Or.inr (Or.inl ⟨p, .nil, rfl⟩)
  | cons b bytes ih =>
    by_cases within : p.low ≤ b ∧ b ≤ p.high
    · cases howed : p.owed with
      | zero =>
        obtain ⟨hfits, htail⟩ := hopen.goesOn within (by rw [howed, Nat.pow_zero, Nat.div_one])
        refine Or.inl ⟨p.extend b, bytes, ?_, hfits⟩
        rw [← howed, htail, howed]
        rfl
      | succ owed =>
        rcases ih (hopen.next howed (p.extend b)) with
          ⟨n, rest, rfl, hnext⟩ | ⟨q, takes, hdecode⟩ | ⟨good, x, rest, q, hsplit, takes, without, hdecode⟩
        · obtain ⟨hfits, htail⟩ := hopen.goesOn within (howed ▸ hnext.bits)
          exact Or.inl ⟨n, rest, by rw [← howed, htail, howed, List.cons_append], hfits⟩
        · refine Or.inr (Or.inl ⟨q, .cons within howed takes, ?_⟩)
          rw [decodeFrom, if_pos within, howed]
          exact hdecode
        · refine Or.inr (Or.inr ⟨b :: good, x, rest, q, by rw [hsplit, List.cons_append], .cons within howed takes,
            without, ?_⟩)
          rw [decodeFrom, if_pos within, howed]
          exact hdecode
    · refine Or.inr (Or.inr ⟨[], b, bytes, p, rfl, .nil, within, ?_⟩)
      rw [decodeFrom, if_neg within]

/-- In front of bytes the reader reads a whole character, or it stops there. -/
theorem char_or_stuck (index : Nat) (text : String) (b : UInt8) (bytes : List UInt8) :
    (∃ c rest, b :: bytes = String.utf8EncodeChar c ++ rest) ∨
      ∃ bad?, Stuck (b :: bytes) bad? ∧ decodeFrom index text none (b :: bytes) = .error ⟨index, bad?⟩ := by
  by_cases hlarge : b < 0x80
  · rw [UInt8.lt_iff_toNat_lt] at hlarge
    have hvalid : b.toNat.isValidChar := Or.inl (Nat.lt_trans hlarge (by decide))
    refine Or.inl ⟨Char.ofNat b.toNat, bytes, ?_⟩
    rw [utf8EncodeChar_eq, toNat_ofNat hvalid, lead_one hlarge, ← eq_toUInt8 (b := b) rfl]
    rfl
  · cases hbegin : Pending.begin? b with
    | none => exact Or.inr ⟨some 1, .first hlarge hbegin, by rw [decodeFrom, if_neg hlarge, hbegin]⟩
    | some p =>
      have hopen := open_of_begin hbegin
      have hstart : decodeFrom index text none (b :: bytes) = decodeFrom index text (some p) bytes := by
        rw [decodeFrom, if_neg hlarge, hbegin]
      rw [hstart]
      rcases decodeFrom_pending index text hopen bytes with
        ⟨n, rest, rfl, hfits⟩ | ⟨q, takes, hdecode⟩ | ⟨good, x, rest, q, rfl, takes, without, hdecode⟩
      · obtain ⟨hvalid, hlead⟩ := lead_of_begin hbegin hfits
        refine Or.inl ⟨Char.ofNat n, rest, ?_⟩
        rw [utf8EncodeChar_eq, toNat_ofNat hvalid, hlead, List.cons_append]
      · exact Or.inr ⟨none, .cut hbegin takes, hdecode⟩
      · exact Or.inr ⟨some q.taken, .later hbegin takes without, hdecode⟩

/-- The reader stops behind whole characters. -/
theorem exists_stuck {f : Fault} (h : decodeFrom index text none bytes = .error f) :
    ∃ (cs : List Char) (rest : List UInt8), bytes = cs.flatMap String.utf8EncodeChar ++ rest ∧
      f.validUpTo = index + (cs.flatMap String.utf8EncodeChar).length ∧ Stuck rest f.badLength := by
  induction hn : bytes.length using Nat.strongRecOn generalizing bytes index text with
  | ind n ih =>
    cases bytes with
    | nil => cases h
    | cons b bytes =>
      rcases char_or_stuck index text b bytes with ⟨c, rest, hsplit⟩ | ⟨bad?, stuck, hdecode⟩
      · rw [hsplit, decodeFrom_char] at h
        have hlt : rest.length < n := by
          rw [← hn, hsplit, List.length_append]
          exact Nat.lt_add_of_pos_left (List.length_pos_iff.mpr String.utf8EncodeChar_ne_nil)
        obtain ⟨cs, rest, rfl, hindex, stuck⟩ := ih _ hlt h rfl
        refine ⟨c :: cs, rest, by rw [hsplit, List.flatMap_cons, List.append_assoc], ?_, stuck⟩
        rw [hindex, List.flatMap_cons, List.length_append, Nat.add_assoc]
      · rw [hdecode, Except.error.injEq] at h
        obtain rfl := h
        exact ⟨[], b :: bytes, rfl, rfl, stuck⟩

/-- The bytes are the beginning of a character, or all of it. -/
def Begins (bytes : List UInt8) : Prop := ∃ c : Char, bytes <+: String.utf8EncodeChar c

/-- The bytes are the beginning of a character of which more is owed. -/
def CutOff (bytes : List UInt8) : Prop :=
  bytes ≠ [] ∧ ∃ c : Char, bytes <+: String.utf8EncodeChar c ∧ bytes ≠ String.utf8EncodeChar c

namespace Stuck

variable {bad? : Option Nat} {bad : Nat}

theorem ne_nil (h : Stuck rest bad?) : rest ≠ [] := by
  cases h <;> exact List.cons_ne_nil _ _

theorem cutOff (h : Stuck rest none) : CutOff rest := by
  cases h with
  | @cut b p q good begins takes =>
    obtain ⟨c, hc⟩ := exists_char_of_takes begins takes
    refine ⟨List.cons_ne_nil _ _, c, ⟨tail (q.owed + 1) c.toNat, hc.symm⟩, fun heq => ?_⟩
    have hlength := congrArg List.length (heq.trans hc)
    simp only [List.length_cons, List.length_append, length_tail] at hlength
    omega

/-- No character goes on with a byte that is refused. -/
theorem not_char_of_without {x : UInt8} (begins : Pending.begin? b = some p) (takes : p.Takes good q)
    (without : ¬(q.low ≤ x ∧ x ≤ q.high)) (c : Char) : String.utf8EncodeChar c ≠ b :: (good ++ x :: bytes) := by
  intro hc
  obtain ⟨-, -, large⟩ := follows_of_begin begins
  obtain ⟨p', hbegin, hfits, htail⟩ := begin_of_char hc large
  obtain rfl : p = p' := Option.some.inj (begins.symm.trans hbegin)
  obtain ⟨hnext, heq⟩ := takes.fits_of_prefix hfits ⟨x :: bytes, htail⟩
  rw [← htail, List.append_cancel_left_eq, tail_succ] at heq
  obtain ⟨hlow, hhigh, -⟩ := hnext.within
  rw [← (List.cons.inj heq).1] at hlow hhigh
  exact without ⟨hlow, hhigh⟩

/-- All bytes that begin a character are counted, and they are not all that is left. -/
theorem longest (h : Stuck rest (some bad)) :
    ∃ k ≤ 3, bad = max 1 k ∧ k < rest.length ∧ Begins (rest.take k) ∧ ∀ m ≤ rest.length, Begins (rest.take m) → m ≤ k := by
  cases h with
  | @first b rest large none_begins =>
    refine ⟨0, by omega, rfl, Nat.succ_pos _, ⟨'a', List.nil_prefix⟩, fun m _ ⟨c, more, hc⟩ => ?_⟩
    cases m with
    | zero => exact Nat.le_refl 0
    | succ m =>
      obtain ⟨p, hbegin, -⟩ := begin_of_char hc.symm large
      rw [none_begins] at hbegin
      cases hbegin
  | @later b x p q good rest begins takes without =>
    obtain ⟨-, hone, -⟩ := follows_of_begin begins
    obtain ⟨htaken, hq⟩ := takes.taken (open_of_begin begins)
    have hshort := hq.short
    refine ⟨good.length + 1, by omega, by omega, by simp, ?_, fun m _ ⟨c, more, hc⟩ => ?_⟩
    · obtain ⟨c, hc⟩ := exists_char_of_takes begins takes
      refine ⟨c, tail (q.owed + 1) c.toNat, ?_⟩
      rw [List.take_succ_cons, List.take_left, hc, List.cons_append]
    · refine Nat.le_of_not_lt fun hlt => ?_
      obtain ⟨j, rfl⟩ : ∃ j, m = good.length + (j + 1) + 1 := ⟨m - good.length - 2, by omega⟩
      rw [List.take_succ_cons, List.take_length_add_append, List.take_succ_cons, List.cons_append, List.append_assoc,
        List.cons_append] at hc
      exact not_char_of_without begins takes without c hc.symm

/-- It is for the end that the reader stops just if a character is cut off there. -/
theorem eq_none_iff (h : Stuck rest bad?) : bad? = none ↔ CutOff rest := by
  constructor
  · rintro rfl
    exact h.cutOff
  · rintro ⟨-, c, hc, -⟩
    cases bad? with
    | none => rfl
    | some bad =>
      obtain ⟨k, -, -, hshort, -, hall⟩ := h.longest
      have := hall rest.length (Nat.le_refl _) (by rw [List.take_length]; exact ⟨c, hc⟩)
      omega

end Stuck

/-! ### Faults -/

theorem decodeFrom_append (cs : List Char) (index : Nat) (text : String) (rest : List UInt8) :
    decodeFrom index text none (cs.flatMap String.utf8EncodeChar ++ rest) =
      decodeFrom (index + (cs.flatMap String.utf8EncodeChar).length) (text ++ String.ofList cs) none rest := by
  induction cs generalizing index text with
  | nil => simp
  | cons c cs ih =>
    rw [List.flatMap_cons, List.append_assoc, decodeFrom_char, ih, List.length_append, Nat.add_assoc, String.push_eq_append,
      String.append_assoc, String.ofList_cons]

theorem wellFormed_chars (cs : List Char) : WellFormed (cs.flatMap String.utf8EncodeChar) :=
  wellFormed_iff.mpr ⟨String.ofList cs, (encode_ofList cs).symm⟩

theorem exists_chars_of_wellFormed (h : WellFormed bytes) : ∃ cs : List Char, bytes = cs.flatMap String.utf8EncodeChar := by
  obtain ⟨s, rfl⟩ := wellFormed_iff.mp h
  exact ⟨s.toList, encode_eq s⟩

/-- A fault tells where bytes stop being UTF-8, and how. -/
structure Locates (bytes : List UInt8) (f : Fault) : Prop where
  /-- It points behind the longest well-formed beginning. -/
  beginning : f.validUpTo ≤ bytes.length ∧ WellFormed (bytes.take f.validUpTo)
  longest : ∀ n ≤ bytes.length, WellFormed (bytes.take n) → n ≤ f.validUpTo
  /-- It calls the bytes incomplete if the rest of them is a character that is cut off, or as well, if with more bytes
      behind they would be well formed. -/
  incomplete_iff : f.badLength = none ↔ CutOff (bytes.drop f.validUpTo)
  completes_iff : f.badLength = none ↔ ∃ more, WellFormed (bytes ++ more)
  /-- Otherwise it counts the bytes of the rest that begin a character, and the first in any case. -/
  counts : ∀ bad, f.badLength = some bad → ∃ k ≤ 3, bad = max 1 k ∧ k ≤ (bytes.drop f.validUpTo).length ∧
    Begins ((bytes.drop f.validUpTo).take k) ∧
    ∀ m ≤ (bytes.drop f.validUpTo).length, Begins ((bytes.drop f.validUpTo).take m) → m ≤ k

/-- The reader gets over every well-formed beginning before it stops. -/
theorem le_validUpTo {f : Fault} (h : decode bytes = .error f) (hn : n ≤ bytes.length) (hwell : WellFormed (bytes.take n)) :
    n ≤ f.validUpTo := by
  obtain ⟨cs, hcs⟩ := exists_chars_of_wellFormed hwell
  have hlength := congrArg List.length hcs
  rw [List.length_take, Nat.min_eq_left hn] at hlength
  rw [decode, ← List.take_append_drop n bytes, hcs, decodeFrom_append] at h
  obtain ⟨_, _, -, hstop, -⟩ := exists_stuck h
  omega

theorem ne_char_of_error {f : Fault} {cs : List Char} (h : decode (cs.flatMap String.utf8EncodeChar ++ rest) = .error f)
    (hindex : f.validUpTo = (cs.flatMap String.utf8EncodeChar).length) (c : Char) (after : List UInt8) :
    rest ≠ String.utf8EncodeChar c ++ after := by
  rintro rfl
  have hwell : WellFormed ((cs.flatMap String.utf8EncodeChar ++ (String.utf8EncodeChar c ++ after)).take
      (f.validUpTo + (String.utf8EncodeChar c).length)) := by
    rw [hindex, List.take_length_add_append, List.take_left, ← List.flatMap_singleton String.utf8EncodeChar c,
      ← List.flatMap_append]
    exact wellFormed_chars _
  have hle := le_validUpTo h (by rw [hindex, List.length_append, List.length_append]; omega) hwell
  have := List.length_pos_iff.mpr (@String.utf8EncodeChar_ne_nil c)
  omega

/-- Where no character stands, more bytes can help only if one is cut off there. -/
theorem cutOff_iff_completes {cs : List Char} (hrest : rest ≠ [])
    (hnot : ∀ (c : Char) (after : List UInt8), rest ≠ String.utf8EncodeChar c ++ after) :
    CutOff rest ↔ ∃ more, WellFormed (cs.flatMap String.utf8EncodeChar ++ rest ++ more) := by
  constructor
  · rintro ⟨-, c, ⟨more, hmore⟩, -⟩
    refine ⟨more, ?_⟩
    rw [List.append_assoc, hmore, ← List.flatMap_singleton String.utf8EncodeChar c, ← List.flatMap_append]
    exact wellFormed_chars _
  · rintro ⟨more, hwell⟩
    obtain ⟨b, r, rfl⟩ := List.exists_cons_of_ne_nil hrest
    obtain ⟨s, hs⟩ := wellFormed_iff.mp hwell
    have hread := decode_ok_iff.mpr hs.symm
    rw [decode, List.append_assoc, decodeFrom_append, List.cons_append] at hread
    obtain ⟨c, after, hsplit⟩ := exists_char hread
    rw [← List.cons_append, List.append_eq_append_iff] at hsplit
    rcases hsplit with ⟨owed, hc, -⟩ | ⟨left, hr, -⟩
    · exact ⟨hrest, c, ⟨owed, hc.symm⟩, fun heq => hnot c [] (heq.trans (List.append_nil _).symm)⟩
    · exact absurd hr (hnot c left)

theorem locates {f : Fault} (h : decode bytes = .error f) : Locates bytes f := by
  obtain ⟨cs, rest, rfl, hindex, stuck⟩ := exists_stuck h
  rw [Nat.zero_add] at hindex
  have hdrop : (cs.flatMap String.utf8EncodeChar ++ rest).drop f.validUpTo = rest := by rw [hindex, List.drop_left]
  refine ⟨⟨?_, ?_⟩, fun n hn hwell => le_validUpTo h hn hwell, ?_, ?_, fun bad hbad => ?_⟩
  · rw [hindex, List.length_append]
    omega
  · rw [hindex, List.take_left]
    exact wellFormed_chars cs
  · rw [hdrop]
    exact stuck.eq_none_iff
  · rw [stuck.eq_none_iff]
    exact cutOff_iff_completes stuck.ne_nil (ne_char_of_error h hindex)
  · obtain ⟨k, hk, hmax, hshort, hbegins, hall⟩ := (hbad ▸ stuck).longest
    rw [hdrop]
    exact ⟨k, hk, hmax, Nat.le_of_lt hshort, hbegins, hall⟩

theorem message_incomplete {f : Fault} (h : f.badLength = none) :
    f.message = "incomplete utf-8 byte sequence from index " ++ Nat.repr f.validUpTo := by
  unfold Fault.message
  rw [h]
  rfl

theorem message_invalid {f : Fault} {bad : Nat} (h : f.badLength = some bad) :
    f.message = "invalid utf-8 sequence of " ++ Nat.repr bad ++ " bytes from index " ++ Nat.repr f.validUpTo := by
  unfold Fault.message
  rw [h]
  rfl

end Pinboard.Utf8
