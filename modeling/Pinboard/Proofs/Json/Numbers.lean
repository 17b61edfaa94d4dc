import Pinboard.Proofs.Json.Grammar

/-! Numbers are read as the grammar spells them, up to the first byte that does not go on with them. What is read would
    be passed over as well, so the shape of a number is found once, for the reader that passes over it;
    the reader that keeps the value then runs on a numeral whose parts are known. -/

namespace Pinboard.Json

/-- No digit comes next. -/
def NoDigit (rest : List UInt8) : Prop := ∀ b ∈ rest.head?, Scan.isDigit b = false

/-- What comes after digits and an exponent, if there is one, does not go on with them. -/
structure Ends (e : Option Exponent) (rest : List UInt8) : Prop where
  digit : NoDigit rest
  mark : e = none → ∀ b ∈ rest.head?, Scan.isExponentMark b = false

/-- What comes after a numeral that has the given digits behind the point and the exponent does not go on with it. -/
structure Follows (f : List UInt8) (e : Option Exponent) (rest : List UInt8) : Prop extends Ends e rest where
  point : e = none → f = [] → ∀ b ∈ rest.head?, b ≠ 0x2e

namespace Scan

theorem noDigit_cons {b : UInt8} {rest : List UInt8} (h : isDigit b = false) : NoDigit (b :: rest) := by
  rintro c ⟨⟩
  exact h

theorem takeWhile_digits {w rest : List UInt8} (hw : Digits w) (hrest : NoDigit rest) :
    (w ++ rest).takeWhile isDigit = w := by
  rw [List.takeWhile_append_of_pos hw]
  cases rest with
  | nil => exact List.append_nil w
  | cons b rest => rw [List.takeWhile_cons, hrest b rfl, if_neg Bool.false_ne_true, List.append_nil]

theorem dropWhile_digits {w rest : List UInt8} (hw : Digits w) (hrest : NoDigit rest) :
    (w ++ rest).dropWhile isDigit = rest := by
  rw [List.dropWhile_append_of_pos hw]
  cases rest with
  | nil => rfl
  | cons b rest => rw [List.dropWhile_cons, hrest b rfl, if_neg Bool.false_ne_true]

theorem exists_digits (input : List UInt8) : ∃ w rest, Digits w ∧ NoDigit rest ∧ input = w ++ rest := by
  induction input with
  | nil => exact ⟨[], [], nofun, nofun, rfl⟩
  | cons b input ih =>
    obtain ⟨w, rest, hw, hrest, hsplit⟩ := ih
    cases hb : isDigit b with
    | true => exact ⟨b :: w, rest, List.forall_mem_cons.mpr ⟨hb, hw⟩, hrest, hsplit ▸ rfl⟩
    | false => exact ⟨[], b :: input, nofun, noDigit_cons hb, rfl⟩

theorem isDigit_mark {b : UInt8} (h : isExponentMark b = true) : isDigit b = false := by
  rw [isExponentMark, Bool.or_eq_true, decide_eq_true_iff, decide_eq_true_iff] at h
  obtain rfl | rfl := h <;> rfl

theorem ne_point_of_mark {b : UInt8} (h : isExponentMark b = true) : b ≠ 0x2e := by
  rintro rfl
  cases h

/-! ### Numbers that are passed over -/

theorem exponentSign_digits {sign : List UInt8} (h : sign = [] ∨ sign = [0x2b] ∨ sign = [0x2d]) {b : UInt8}
    (hb : isDigit b = true) (rest : List UInt8) :
    exponentSign (sign ++ b :: rest) = (decide (sign ≠ [0x2d]), b :: rest) := by
  obtain rfl | rfl | rfl := h
  · have hplus : b ≠ 0x2b := by
      rintro rfl
      cases hb
    have hminus : b ≠ 0x2d := by
      rintro rfl
      cases hb
    rw [List.nil_append, exponentSign, if_neg hplus, if_neg hminus]
    rfl
  · rfl
  · rfl

/-- An exponent splits into its sign and the rest. -/
theorem exists_sign (input : List UInt8) :
    ∃ sign, (sign = [] ∨ sign = [0x2b] ∨ sign = [0x2d]) ∧ input = sign ++ (exponentSign input).2 := by
  fun_cases exponentSign input with
  | case1 => exact ⟨[], .inl rfl, rfl⟩
  | case2 rest => exact ⟨[0x2b], .inr (.inl rfl), rfl⟩
  | case3 rest => exact ⟨[0x2d], .inr (.inr rfl), rfl⟩
  | case4 b rest => exact ⟨[], .inl rfl, rfl⟩

theorem passExponent_ok_iff {mark : UInt8} (hmark : isExponentMark mark = true) {input rest : List UInt8} :
    passExponent input = .ok rest ↔
      ∃ e : Exponent, e.Legal ∧ NoDigit rest ∧ mark :: input = e.bytes ++ rest := by
  constructor
  · intro h
    obtain ⟨sign, hsign, hinput⟩ := exists_sign input
    rw [passExponent] at h
    split at h
    · cases h
    · rename_i b after hdigits
      split at h
      · rename_i hb
        obtain ⟨w, r, hw, hr, rfl⟩ := exists_digits after
        rw [dropWhile_digits hw hr] at h
        obtain rfl := Except.ok.inj h
        refine ⟨⟨mark, sign, b :: w⟩, ⟨hmark, hsign, nofun, List.forall_mem_cons.mpr ⟨hb, hw⟩⟩, hr, ?_⟩
        rw [hinput, hdigits, Exponent.bytes, List.cons_append, List.append_assoc, List.cons_append]
      · cases h
  · rintro ⟨⟨m, sign, digits⟩, ⟨-, hsign, hne, hdigits⟩, hrest, hinput⟩
    cases digits with
    | nil => exact absurd rfl hne
    | cons b w =>
      obtain ⟨hb, hw⟩ := List.forall_mem_cons.mp hdigits
      rw [Exponent.bytes, List.cons_append, List.append_assoc, List.cons_append, List.cons.injEq] at hinput
      rw [hinput.2, passExponent, exponentSign_digits hsign hb]
      simp only [hb, if_pos, dropWhile_digits hw hrest]

/-- Passes over an exponent, if one comes next. -/
def passTail (input : List UInt8) : Except Stop (List UInt8) :=
  match input with
  | [] => .ok []
  | b :: rest => if isExponentMark b then passExponent rest else .ok (b :: rest)

theorem passTail_ok_iff {input rest : List UInt8} (h : NoDigit input) :
    passTail input = .ok rest ↔
      ∃ e : Option Exponent, (∀ x, e = some x → x.Legal) ∧ Ends e rest ∧ input = exponentBytes e ++ rest := by
  constructor
  · intro hpass
    cases input with
    | nil =>
      obtain rfl := Except.ok.inj hpass
      exact ⟨none, nofun, ⟨h, nofun⟩, rfl⟩
    | cons b input =>
      rw [passTail] at hpass
      cases hb : isExponentMark b with
      | true =>
        rw [if_pos hb, passExponent_ok_iff hb] at hpass
        obtain ⟨e, he, hrest, hinput⟩ := hpass
        exact ⟨some e, fun x hx => Option.some.inj hx ▸ he, ⟨hrest, nofun⟩, hinput⟩
      | false =>
        rw [hb, if_neg Bool.false_ne_true] at hpass
        obtain rfl := Except.ok.inj hpass
        refine ⟨none, nofun, ⟨h, fun _ => ?_⟩, rfl⟩
        rintro c ⟨⟩
        exact hb
  · rintro ⟨e, he, hends, rfl⟩
    cases e with
    | none =>
      cases rest with
      | nil => rfl
      | cons b rest =>
        show passTail (b :: rest) = .ok (b :: rest)
        rw [passTail, hends.mark rfl b rfl, if_neg Bool.false_ne_true]
    | some e =>
      show (if isExponentMark e.mark = true then passExponent (e.sign ++ e.digits ++ rest) else _) = _
      rw [if_pos (he e rfl).mark, passExponent_ok_iff (he e rfl).mark]
      exact ⟨e, he e rfl, hends.digit, rfl⟩

theorem noDigit_tail {e : Option Exponent} (he : ∀ x, e = some x → x.Legal) {rest : List UInt8} (h : NoDigit rest) :
    NoDigit (exponentBytes e ++ rest) := by
  cases e with
  | none => exact h
  | some e => exact noDigit_cons (isDigit_mark (he e rfl).mark)

theorem passFraction_eq {b : UInt8} {rest : List UInt8} (h : isDigit b = true) :
    passFraction (b :: rest) = passTail ((b :: rest).dropWhile isDigit) := by
  rw [passFraction, if_pos h]
  rfl

theorem passFraction_ok_iff {input rest : List UInt8} :
    passFraction input = .ok rest ↔
      ∃ f e, f ≠ [] ∧ Digits f ∧ (∀ x : Exponent, e = some x → x.Legal) ∧ Ends e rest ∧
        input = f ++ (exponentBytes e ++ rest) := by
  constructor
  · intro h
    cases input with
    | nil => cases h
    | cons b input =>
      cases hb : isDigit b with
      | false =>
        rw [passFraction, hb, if_neg Bool.false_ne_true] at h
        cases h
      | true =>
        obtain ⟨w, r, hw, hr, rfl⟩ := exists_digits input
        have hf : Digits (b :: w) := List.forall_mem_cons.mpr ⟨hb, hw⟩
        rw [passFraction_eq hb, ← List.cons_append, dropWhile_digits hf hr, passTail_ok_iff hr] at h
        obtain ⟨e, he, hends, rfl⟩ := h
        exact ⟨b :: w, e, nofun, hf, he, hends, rfl⟩
  · rintro ⟨f, e, hne, hf, he, hends, rfl⟩
    cases f with
    | nil => exact absurd rfl hne
    | cons b w =>
      have htail := noDigit_tail he hends.digit
      rw [List.cons_append, passFraction_eq (hf b List.mem_cons_self), ← List.cons_append, dropWhile_digits hf htail,
        passTail_ok_iff htail]
      exact ⟨e, he, hends, rfl⟩

/-- Passes over the point and the exponent of a number, if they come next. -/
def passPointed : List UInt8 → Except Stop (List UInt8)
  | [] => .ok []
  | b :: rest => if b = 0x2e then passFraction rest else passTail (b :: rest)

theorem passNumber_eq {b : UInt8} {rest : List UInt8} (h : isDigit b = true)
    (hzero : ¬(b = 0x30 ∧ rest.takeWhile isDigit ≠ [])) :
    passNumber (b :: rest) = passPointed (rest.dropWhile isDigit) := by
  rw [passNumber, h]
  simp only [Bool.not_true, Bool.false_eq_true, if_false, if_neg hzero]
  cases rest.dropWhile isDigit <;> rfl

theorem noDigit_pointed {f : List UInt8} {e : Option Exponent} (he : ∀ x, e = some x → x.Legal) {rest : List UInt8}
    (h : NoDigit rest) : NoDigit (fractionBytes f ++ (exponentBytes e ++ rest)) := by
  rw [fractionBytes]
  split
  · exact noDigit_tail he h
  · exact noDigit_cons rfl

theorem passPointed_ok_iff {input rest : List UInt8} (h : NoDigit input) :
    passPointed input = .ok rest ↔
      ∃ f e, Digits f ∧ (∀ x, e = some x → x.Legal) ∧ Follows f e rest ∧
        input = fractionBytes f ++ (exponentBytes e ++ rest) := by
  constructor
  · intro hpass
    cases input with
    | nil =>
      obtain rfl := Except.ok.inj hpass
      exact ⟨[], none, nofun, nofun, ⟨⟨h, nofun⟩, nofun⟩, rfl⟩
    | cons b input =>
      rw [passPointed] at hpass
      split at hpass
      · rename_i hb
        obtain ⟨f, e, hne, hf, he, hends, rfl⟩ := passFraction_ok_iff.mp hpass
        refine ⟨f, e, hf, he, ⟨hends, fun _ hnil => absurd hnil hne⟩, ?_⟩
        rw [fractionBytes, if_neg hne, hb, List.cons_append]
      · rename_i hb
        obtain ⟨e, he, hends, hinput⟩ := (passTail_ok_iff h).mp hpass
        refine ⟨[], e, nofun, he, ⟨hends, ?_⟩, hinput⟩
        rintro rfl - c hc
        have hrest : b :: input = rest := hinput
        rw [← hrest] at hc
        obtain rfl := Option.some.inj hc
        exact hb
  · rintro ⟨f, e, hf, he, hfollows, rfl⟩
    cases f with
    | cons d f =>
      have hpoint : fractionBytes (d :: f) = 0x2e :: d :: f := if_neg (List.cons_ne_nil d f)
      rw [hpoint, List.cons_append, passPointed, if_pos rfl, passFraction_ok_iff]
      exact ⟨d :: f, e, nofun, hf, he, hfollows.toEnds, rfl⟩
    | nil =>
      have hpass := (passTail_ok_iff h).mpr ⟨e, he, hfollows.toEnds, rfl⟩
      rw [fractionBytes, if_pos rfl, List.nil_append] at hpass ⊢
      cases e with
      | some e =>
        show (if e.mark = 0x2e then _ else passTail (exponentBytes (some e) ++ rest)) = _
        rw [if_neg (ne_point_of_mark (he e rfl).mark), hpass]
      | none =>
        cases rest with
        | nil => rfl
        | cons b rest =>
          show (if b = 0x2e then _ else passTail (b :: rest)) = _
          rw [if_neg (hfollows.point rfl rfl b rfl)]
          exact hpass

theorem magnitude_append (t : Numeral) (rest : List UInt8) :
    t.magnitude ++ rest = t.whole ++ (fractionBytes t.fraction ++ (exponentBytes t.exponent ++ rest)) := by
  rw [Numeral.magnitude, List.append_assoc, List.append_assoc]

/-- A number is passed over just if it is one and nothing after it goes on with it. -/
theorem passNumber_ok_iff {input rest : List UInt8} (negative : Bool) :
    passNumber input = .ok rest ↔
      ∃ t : Numeral, t.negative = negative ∧ t.Legal ∧ Follows t.fraction t.exponent rest ∧
        input = t.magnitude ++ rest := by
  constructor
  · intro h
    cases input with
    | nil => cases h
    | cons b input =>
      cases hb : isDigit b with
      | false =>
        rw [passNumber, hb] at h
        cases h
      | true =>
        obtain ⟨w, r, hw, hr, rfl⟩ := exists_digits input
        by_cases hzero : b = 0x30 ∧ (w ++ r).takeWhile isDigit ≠ []
        · rw [passNumber, hb, if_pos hzero] at h
          cases h
        · rw [passNumber_eq hb hzero, dropWhile_digits hw hr, passPointed_ok_iff hr] at h
          rw [takeWhile_digits hw hr] at hzero
          obtain ⟨f, e, hf, he, hfollows, rfl⟩ := h
          refine ⟨⟨negative, b :: w, f, e⟩, rfl, ⟨⟨nofun, List.forall_mem_cons.mpr ⟨hb, hw⟩⟩, fun hhead => ?_, hf, he⟩,
            hfollows, (magnitude_append ⟨negative, b :: w, f, e⟩ rest).symm⟩
          obtain rfl := Option.some.inj hhead
          rw [Classical.byContradiction fun hne => hzero ⟨rfl, hne⟩]
  · rintro ⟨⟨n, whole, f, e⟩, -, ⟨⟨hne, hwhole⟩, hzero, hf, he⟩, hfollows, rfl⟩
    cases whole with
    | nil => exact absurd rfl hne
    | cons b w =>
      obtain ⟨hb, hw⟩ := List.forall_mem_cons.mp hwhole
      have hpointed : NoDigit (fractionBytes f ++ (exponentBytes e ++ rest)) := noDigit_pointed he hfollows.digit
      rw [magnitude_append, List.cons_append, passNumber_eq hb, dropWhile_digits hw hpointed,
        passPointed_ok_iff hpointed]
      · exact ⟨f, e, hf, he, hfollows, rfl⟩
      · rw [takeWhile_digits hw hpointed]
        rintro ⟨rfl, hw'⟩
        exact hw' (List.cons.inj (hzero rfl)).2

/-! ### Numbers that are read -/

theorem le_addDigits (n : Nat) (w : List UInt8) : n ≤ addDigits n w := by
  induction w generalizing n with
  | nil => exact Nat.le_refl n
  | cons b w ih =>
    have := ih (n * 10 + digitValue b)
    rw [addDigits, List.foldl_cons]
    exact Nat.le_trans (by omega) this

/-- Digits are added to an exponent until it is too long to hold. -/
theorem exponentDigits_digits {w rest : List UInt8} (hw : Digits w) (hrest : NoDigit rest) {n : Nat}
    (hn : n < Nat.pow 2 31) :
    exponentDigits n (w ++ rest) = (some (addDigits n w), rest) ∧ addDigits n w < Nat.pow 2 31 ∨
      ∃ w', Digits w' ∧ exponentDigits n (w ++ rest) = (none, w' ++ rest) ∧ Nat.pow 2 31 ≤ addDigits n w := by
  induction w generalizing n with
  | nil =>
    refine .inl ⟨?_, hn⟩
    cases rest with
    | nil => rfl
    | cons b rest =>
      rw [List.nil_append, exponentDigits, hrest b rfl, if_neg Bool.false_ne_true]
      rfl
  | cons b w ih =>
    obtain ⟨hb, hw⟩ := List.forall_mem_cons.mp hw
    rw [List.cons_append, exponentDigits, if_pos hb]
    by_cases hnext : n * 10 + digitValue b < Nat.pow 2 31
    · simp only [if_pos hnext]
      exact ih hw hnext
    · simp only [if_neg hnext]
      exact .inr ⟨w, hw, rfl, Nat.le_trans (Nat.le_of_not_lt hnext) (le_addDigits _ w)⟩

theorem digitValue_le (b : UInt8) : digitValue b ≤ 255 := by
  have := b.toNat_lt
  rw [digitValue]
  omega

/-- Digits are added to a significand until 64 bits do not hold it. -/
theorem wholePart_digits {n : Nat} (w : List UInt8) (hn : n ≤ maxSignificand) :
    wholePart n w = (addDigits n w, 0) ∧ addDigits n w ≤ maxSignificand ∨
      (wholePart n w).2 ≠ 0 ∧ maxSignificand < addDigits n w := by
  induction w generalizing n with
  | nil => exact .inl ⟨rfl, hn⟩
  | cons b w ih =>
    rw [wholePart]
    by_cases hnext : n * 10 + digitValue b ≤ maxSignificand
    · simp only [if_pos hnext]
      exact ih hnext
    · simp only [if_neg hnext]
      exact .inr ⟨Nat.succ_ne_zero _, Nat.lt_of_lt_of_le (Nat.lt_of_not_le hnext) (le_addDigits _ w)⟩

theorem toOption_double (negative : Bool) (significand : Nat) (shift : Int) (rest : List UInt8) :
    (double negative significand shift rest).toOption =
      ((Decimal.toDouble? negative significand shift).map Number.double).map (·, rest) := by
  rw [double]
  cases Decimal.toDouble? negative significand shift <;> rfl

theorem exponent_digits {e : Exponent} (he : e.Legal) {rest : List UInt8} (hrest : NoDigit rest) (negative : Bool)
    (significand : Nat) (shift : Int) :
    (exponent negative significand shift (e.sign ++ (e.digits ++ rest))).toOption =
      ((e.double? negative significand shift).map Number.double).map (·, rest) := by
  obtain ⟨mark, sign, digits⟩ := e
  obtain ⟨-, hsign, hne, hdigits⟩ := he
  cases digits with
  | nil => exact absurd rfl hne
  | cons b w =>
    obtain ⟨hb, hw⟩ := List.forall_mem_cons.mp hdigits
    have hvalue : digitsValue (b :: w) = addDigits (digitValue b) w := by
      rw [digitsValue, addDigits, List.foldl_cons, Nat.zero_mul, Nat.zero_add, addDigits]
    have hfirst : digitValue b < Nat.pow 2 31 := Nat.lt_of_le_of_lt (digitValue_le b) (by decide)
    rw [List.cons_append, exponent, exponentSign_digits hsign hb]
    simp only [hb, if_pos, Exponent.double?, hvalue]
    obtain ⟨hread, hlt⟩ | ⟨w', hw', hread, hle⟩ := exponentDigits_digits hw hrest hfirst
    · simp only [hread, if_pos hlt, toOption_double]
      by_cases hminus : sign = [0x2d] <;> simp [hminus]
    · simp only [hread, if_neg (Nat.not_lt_of_le hle)]
      by_cases hminus : sign = [0x2d] <;> by_cases hzero : significand = 0 <;>
        simp [hminus, hzero, dropWhile_digits hw' hrest, stopAt, Except.toOption]

/-- An exponent that is read would be passed over as well. -/
theorem passExponent_of_exponent {negative : Bool} {significand : Nat} {shift : Int} {input rest : List UInt8}
    {n : Number} (h : exponent negative significand shift input = .ok (n, rest)) : passExponent input = .ok rest := by
  rw [exponent] at h
  rw [passExponent]
  cases hsign : (exponentSign input).2 with
  | nil =>
    simp only [hsign] at h
    cases h
  | cons b after =>
    simp only [hsign] at h
    cases hb : isDigit b with
    | false =>
      rw [hb] at h
      cases h
    | true =>
      obtain ⟨w, r, hw, hr, rfl⟩ := exists_digits after
      simp only [hb, if_true] at h ⊢
      rw [dropWhile_digits hw hr]
      have hfirst : digitValue b < Nat.pow 2 31 := Nat.lt_of_le_of_lt (digitValue_le b) (by decide)
      obtain ⟨hread, -⟩ | ⟨w', hw', hread, -⟩ := exponentDigits_digits hw hr hfirst
      · simp only [hread, double] at h
        split at h
        · exact congrArg Except.ok (Prod.mk.inj (Except.ok.inj h)).2
        · cases h
      · simp only [hread] at h
        split at h
        · cases h
        · rw [dropWhile_digits hw' hr] at h
          exact congrArg Except.ok (Prod.mk.inj (Except.ok.inj h)).2

theorem rest_of_double {negative : Bool} {significand : Nat} {shift : Int} {input rest : List UInt8} {n : Number}
    (h : double negative significand shift input = .ok (n, rest)) : input = rest := by
  rw [double] at h
  split at h
  · exact (Prod.mk.inj (Except.ok.inj h)).2
  · cases h

/-- The exponent of a number and its value, if an exponent comes next. -/
def tail (negative : Bool) (significand : Nat) (shift : Int) : Reader Number
  | [] => double negative significand shift []
  | b :: rest =>
    if isExponentMark b then exponent negative significand shift rest
    else double negative significand shift (b :: rest)

theorem passTail_of_tail {negative : Bool} {significand : Nat} {shift : Int} {input rest : List UInt8} {n : Number}
    (h : tail negative significand shift input = .ok (n, rest)) : passTail input = .ok rest := by
  cases input with
  | nil => rw [← rest_of_double h, passTail]
  | cons b input =>
    rw [tail] at h
    rw [passTail]
    split at h
    · rw [if_pos ‹_›, passExponent_of_exponent h]
    · rw [if_neg ‹_›, rest_of_double h]

theorem toOption_tail {e : Option Exponent} (he : ∀ x, e = some x → x.Legal) {rest : List UInt8} (hends : Ends e rest)
    (negative : Bool) (significand : Nat) (shift : Int) :
    (tail negative significand shift (exponentBytes e ++ rest)).toOption =
      ((match e with
        | none => Decimal.toDouble? negative significand shift
        | some e => e.double? negative significand shift).map Number.double).map (·, rest) := by
  cases e with
  | none =>
    cases rest with
    | nil => exact toOption_double ..
    | cons b rest =>
      show (tail negative significand shift (b :: rest)).toOption = _
      rw [tail, hends.mark rfl b rfl, if_neg Bool.false_ne_true]
      exact toOption_double ..
  | some e =>
    show (if isExponentMark e.mark = true then exponent negative significand shift (e.sign ++ e.digits ++ rest)
      else _).toOption = _
    rw [if_pos (he e rfl).mark, List.append_assoc]
    exact exponent_digits (he e rfl) hends.digit ..

theorem fraction_eq {negative : Bool} {significand shift : Nat} {f rest : List UInt8} (hne : f ≠ []) (hf : Digits f)
    (hrest : NoDigit rest) :
    fraction negative significand shift (f ++ rest) =
      tail negative (fractionPart significand 0 f).1 ((shift : Int) - (fractionPart significand 0 f).2) rest := by
  cases f with
  | nil => exact absurd rfl hne
  | cons d f =>
    rw [fraction, takeWhile_digits hf hrest, dropWhile_digits hf hrest]
    cases rest <;> rfl

/-- What a number is, from the point on. -/
def pointed (negative : Bool) (significand shift : Nat) : Reader Number
  | [] => if shift = 0 then whole negative significand [] else double negative significand shift []
  | b :: rest =>
    if b = 0x2e then fraction negative significand shift rest
    else if isExponentMark b then exponent negative significand shift rest
    else if shift = 0 then whole negative significand (b :: rest)
    else double negative significand shift (b :: rest)

theorem number_eq {negative : Bool} {b : UInt8} {rest : List UInt8} (h : isDigit b = true)
    (hzero : ¬(b = 0x30 ∧ rest.takeWhile isDigit ≠ [])) :
    number negative (b :: rest) =
      pointed negative (wholePart 0 (b :: rest.takeWhile isDigit)).1 (wholePart 0 (b :: rest.takeWhile isDigit)).2
        (rest.dropWhile isDigit) := by
  have hfirst : wholePart 0 (b :: rest.takeWhile isDigit) = wholePart (digitValue b) (rest.takeWhile isDigit) := by
    rw [wholePart]
    simp only [Nat.zero_mul, Nat.zero_add]
    exact if_pos (Nat.le_trans (digitValue_le b) (by decide))
  rw [number, h, hfirst]
  simp only [Bool.not_true, Bool.false_eq_true, if_false, if_neg hzero]
  cases rest.dropWhile isDigit <;> rfl

theorem rest_of_whole {negative : Bool} {significand : Nat} {input rest : List UInt8} {n : Number}
    (h : whole negative significand input = .ok (n, rest)) : input = rest := by
  rw [whole] at h
  split at h
  · split at h
    · exact rest_of_double h
    · exact (Prod.mk.inj (Except.ok.inj h)).2
  · exact (Prod.mk.inj (Except.ok.inj h)).2

theorem passFraction_of_fraction {negative : Bool} {significand shift : Nat} {input rest : List UInt8} {n : Number}
    (h : fraction negative significand shift input = .ok (n, rest)) : passFraction input = .ok rest := by
  obtain ⟨f, r, hf, hr, rfl⟩ := exists_digits input
  cases f with
  | nil =>
    rw [fraction, takeWhile_digits hf hr] at h
    simp only [List.isEmpty_nil, if_true] at h
    split at h <;> cases h
  | cons d f =>
    rw [fraction_eq (List.cons_ne_nil d f) hf hr] at h
    rw [List.cons_append, passFraction_eq (hf d List.mem_cons_self), ← List.cons_append, dropWhile_digits hf hr]
    exact passTail_of_tail h

theorem passPointed_of_pointed {negative : Bool} {significand shift : Nat} {input rest : List UInt8} {n : Number}
    (h : pointed negative significand shift input = .ok (n, rest)) : passPointed input = .ok rest := by
  cases input with
  | nil =>
    rw [pointed] at h
    split at h
    · rw [← rest_of_whole h, passPointed]
    · rw [← rest_of_double h, passPointed]
  | cons b input =>
    rw [pointed] at h
    rw [passPointed, passTail]
    split at h
    · rw [if_pos ‹_›, passFraction_of_fraction h]
    · rw [if_neg ‹_›]
      split at h
      · rw [if_pos ‹_›, passExponent_of_exponent h]
      · rw [if_neg ‹_›]
        split at h
        · rw [rest_of_whole h]
        · rw [rest_of_double h]

/-- A number that is read would be passed over as well. -/
theorem passNumber_of_number {negative : Bool} {input rest : List UInt8} {n : Number}
    (h : number negative input = .ok (n, rest)) : passNumber input = .ok rest := by
  cases input with
  | nil => cases h
  | cons b input =>
    cases hb : isDigit b with
    | false =>
      rw [number, hb] at h
      cases h
    | true =>
      by_cases hzero : b = 0x30 ∧ input.takeWhile isDigit ≠ []
      · rw [number, hb] at h
        simp only [Bool.not_true, Bool.false_eq_true, if_false, if_pos hzero] at h
        cases h
      · rw [number_eq hb hzero] at h
        rw [passNumber_eq hb hzero]
        exact passPointed_of_pointed h

theorem toOption_whole (negative : Bool) (w rest : List UInt8) (hw : addDigits 0 w ≤ maxSignificand) :
    (whole negative (addDigits 0 w) rest).toOption = (Numeral.mk negative w [] none).value?.map (·, rest) := by
  rw [whole, Numeral.value?]
  cases negative with
  | false =>
    have hwhole : (Numeral.mk false w [] none).IsWhole := ⟨rfl, rfl, hw⟩
    rw [if_pos hwhole, if_neg Bool.false_ne_true]
    rfl
  | true =>
    by_cases hzero : addDigits 0 w = 0 ∨ Nat.pow 2 63 < addDigits 0 w
    · have hwhole : ¬(Numeral.mk true w [] none).IsWhole := fun ⟨_, _, hne, hle⟩ =>
        hzero.elim hne (Nat.not_lt_of_le hle)
      have hscaled : (Numeral.mk true w [] none).scaled = (addDigits 0 w, 0) := by
        obtain ⟨hpart, -⟩ | ⟨-, hlt⟩ := wholePart_digits w (Nat.zero_le maxSignificand)
        · rw [Numeral.scaled, hpart]
          rfl
        · exact absurd hw (Nat.not_le_of_lt hlt)
      rw [if_neg hwhole, if_pos rfl, if_pos hzero, toOption_double, Numeral.double?, hscaled]
    · have hwhole : (Numeral.mk true w [] none).IsWhole :=
        ⟨rfl, rfl, fun hne => hzero (.inl hne), Nat.le_of_not_lt fun hlt => hzero (.inr hlt)⟩
      rw [if_pos hwhole, if_pos rfl, if_neg hzero]
      rfl

theorem toOption_pointed {t : Numeral} (legal : t.Legal) {rest : List UInt8}
    (follows : Follows t.fraction t.exponent rest) :
    (pointed t.negative (wholePart 0 t.whole).1 (wholePart 0 t.whole).2
      (fractionBytes t.fraction ++ (exponentBytes t.exponent ++ rest))).toOption = t.value?.map (·, rest) := by
  obtain ⟨negative, w, f, e⟩ := t
  have hdouble : ¬(Numeral.mk negative w f e).IsWhole →
      (Numeral.mk negative w f e).value? = (Numeral.mk negative w f e).double?.map .double := fun h => if_neg h
  cases f with
  | cons d f =>
    have hpoint : fractionBytes (d :: f) = 0x2e :: d :: f := if_neg (List.cons_ne_nil d f)
    have hfraction : Digits (d :: f) := legal.fraction
    rw [hdouble (fun h => nomatch h.1), hpoint, List.cons_append, pointed, if_pos rfl,
      fraction_eq (List.cons_ne_nil d f) hfraction (noDigit_tail legal.exponent follows.digit),
      toOption_tail legal.exponent follows.toEnds]
    rfl
  | nil =>
    cases e with
    | some e =>
      have hmark : isExponentMark e.mark = true := (legal.exponent e rfl).mark
      have hexp := exponent_digits (legal.exponent e rfl) follows.digit negative (wholePart 0 w).1 (wholePart 0 w).2
      rw [hdouble (fun h => nomatch h.2.1)]
      show (if e.mark = 0x2e then _ else if isExponentMark e.mark = true
        then exponent negative (wholePart 0 w).1 (wholePart 0 w).2 (e.sign ++ e.digits ++ rest) else _).toOption = _
      rw [if_neg (ne_point_of_mark hmark), if_pos hmark, List.append_assoc, hexp, Numeral.double?, Numeral.scaled]
      simp [fractionPart]
    | none =>
      have hpointed : pointed negative (wholePart 0 w).1 (wholePart 0 w).2 rest =
          if (wholePart 0 w).2 = 0 then whole negative (wholePart 0 w).1 rest
          else double negative (wholePart 0 w).1 (wholePart 0 w).2 rest := by
        cases rest with
        | nil => rfl
        | cons b rest =>
          rw [pointed, if_neg (follows.point rfl rfl b rfl), follows.mark rfl b rfl, if_neg Bool.false_ne_true]
      show (pointed negative (wholePart 0 w).1 (wholePart 0 w).2 rest).toOption = _
      rw [hpointed]
      obtain ⟨hpart, hle⟩ | ⟨hshift, hlt⟩ := wholePart_digits w (Nat.zero_le maxSignificand)
      · rw [hpart, if_pos rfl]
        exact toOption_whole negative w rest hle
      · have hwhole : ¬(Numeral.mk negative w [] none).IsWhole := by
          rintro ⟨-, -, hrange⟩
          have hmax : Nat.pow 2 63 ≤ maxSignificand := by decide
          have hvalue : digitsValue w = addDigits 0 w := rfl
          cases negative with
          | false => exact Nat.not_le_of_lt hlt hrange
          | true => exact Nat.not_le_of_lt hlt (Nat.le_trans hrange.2 hmax)
        rw [hdouble hwhole, if_neg hshift, toOption_double, Numeral.double?, Numeral.scaled]
        simp [fractionPart]

theorem toOption_number {t : Numeral} (legal : t.Legal) {rest : List UInt8}
    (follows : Follows t.fraction t.exponent rest) :
    (number t.negative (t.magnitude ++ rest)).toOption = t.value?.map (·, rest) := by
  have hpointed := toOption_pointed legal follows
  obtain ⟨negative, whole, f, e⟩ := t
  obtain ⟨⟨hne, hwhole⟩, hzero, hf, he⟩ := legal
  cases whole with
  | nil => exact absurd rfl hne
  | cons b w =>
    obtain ⟨hb, hw⟩ := List.forall_mem_cons.mp hwhole
    have hafter : NoDigit (fractionBytes f ++ (exponentBytes e ++ rest)) := noDigit_pointed he follows.digit
    rw [magnitude_append, List.cons_append, number_eq hb, takeWhile_digits hw hafter, dropWhile_digits hw hafter]
    · exact hpointed
    · rw [takeWhile_digits hw hafter]
      rintro ⟨rfl, hw'⟩
      exact hw' (List.cons.inj (hzero rfl)).2

theorem toOption_eq_some {α β : Type} {x : Except α β} {b : β} : x.toOption = some b ↔ x = .ok b := by
  cases x with
  | error a => exact ⟨nofun, nofun⟩
  | ok c => exact ⟨fun h => congrArg Except.ok (Option.some.inj h), fun h => congrArg some (Except.ok.inj h)⟩

/-- A number is read just if it is one, is not too large and nothing after it goes on with it. -/
theorem number_ok_iff {negative : Bool} {input rest : List UInt8} {n : Number} :
    number negative input = .ok (n, rest) ↔
      ∃ t : Numeral, t.negative = negative ∧ t.Legal ∧ t.value? = some n ∧ Follows t.fraction t.exponent rest ∧
        input = t.magnitude ++ rest := by
  constructor
  · intro h
    obtain ⟨t, rfl, legal, follows, rfl⟩ := (passNumber_ok_iff negative).mp (passNumber_of_number h)
    have hvalue := toOption_number legal follows
    rw [toOption_eq_some.mpr h, eq_comm, Option.map_eq_some_iff] at hvalue
    obtain ⟨m, hm, heq⟩ := hvalue
    exact ⟨t, rfl, legal, (Prod.mk.inj heq).1 ▸ hm, follows, rfl⟩
  · rintro ⟨t, rfl, legal, hvalue, follows, rfl⟩
    rw [← toOption_eq_some, toOption_number legal follows, hvalue, Option.map_some]

end Scan

end Pinboard.Json
