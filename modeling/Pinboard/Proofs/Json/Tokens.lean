import Pinboard.Proofs.Json.Grammar
import Pinboard.Proofs.Text.Utf8

/-! The readers of blanks, words and strings read what the grammar says, and nothing else. A string is followed through
    its escapes: `Escape.Read` ties the place inside an escape to the bytes that led there, and a step of the
    reader either goes on from there or ends an escape of the grammar. -/

namespace Pinboard.Json

/-! ### Blanks -/

theorem skipBlanks_blanks {w : List UInt8} (h : Blanks w) (rest : List UInt8) :
    skipBlanks (w ++ rest) = skipBlanks rest := by
  induction w with
  | nil => rfl
  | cons b w ih =>
    obtain ⟨hb, hw⟩ := List.forall_mem_cons.mp h
    rw [List.cons_append, skipBlanks, if_pos hb]
    exact ih hw

theorem skipBlanks_cons {b : UInt8} (h : isBlank b = false) (rest : List UInt8) :
    skipBlanks (b :: rest) = b :: rest := by
  rw [skipBlanks, if_neg (by rw [h]; exact Bool.false_ne_true)]

theorem skipBlanks_lead {w : List UInt8} {b : UInt8} (hw : Blanks w) (hb : isBlank b = false) (rest : List UInt8) :
    skipBlanks (w ++ b :: rest) = b :: rest := by
  rw [skipBlanks_blanks hw, skipBlanks_cons hb]

theorem exists_blanks (input : List UInt8) :
    ∃ w, Blanks w ∧ input = w ++ skipBlanks input ∧ ∀ b rest, skipBlanks input = b :: rest → isBlank b = false := by
  induction input with
  | nil => exact ⟨[], nofun, rfl, nofun⟩
  | cons b input ih =>
    obtain ⟨w, hw, hsplit, hfirst⟩ := ih
    cases hb : isBlank b with
    | true =>
      have hskip : skipBlanks (b :: input) = skipBlanks input := by rw [skipBlanks, if_pos hb]
      refine ⟨b :: w, List.forall_mem_cons.mpr ⟨hb, hw⟩, ?_, hskip ▸ hfirst⟩
      rw [hskip, List.cons_append, ← hsplit]
    | false =>
      rw [skipBlanks_cons hb]
      refine ⟨[], nofun, rfl, fun c rest h => ?_⟩
      rw [List.cons.injEq] at h
      exact h.1 ▸ hb

/-- What a reader finds behind the blanks. -/
theorem eq_of_skipBlanks {input rest : List UInt8} {b : UInt8} (h : skipBlanks input = b :: rest) :
    ∃ w, Blanks w ∧ isBlank b = false ∧ input = w ++ b :: rest := by
  obtain ⟨w, hw, hsplit, hfirst⟩ := exists_blanks input
  exact ⟨w, hw, hfirst b rest h, h ▸ hsplit⟩

theorem blanks_of_skipBlanks {input : List UInt8} (h : skipBlanks input = []) : Blanks input := by
  obtain ⟨w, hw, hsplit, -⟩ := exists_blanks input
  rw [h, List.append_nil] at hsplit
  exact hsplit ▸ hw

/-! ### Words -/

theorem word_ok_iff {letters input rest : List UInt8} : word letters input = .ok rest ↔ input = letters ++ rest := by
  induction letters generalizing input with
  | nil =>
    rw [word, Except.ok.injEq]
    rfl
  | cons l letters ih =>
    cases input with
    | nil => exact ⟨nofun, nofun⟩
    | cons b input =>
      rw [word]
      by_cases h : b = l
      · rw [if_pos h, ih, h, List.cons_append, List.cons.injEq, and_iff_right rfl]
      · rw [if_neg h]
        refine ⟨nofun, fun hinput => ?_⟩
        rw [List.cons_append, List.cons.injEq] at hinput
        exact absurd hinput.1 h

theorem constant_ok_iff {α : Type} {a x : α} {letters input rest : List UInt8} :
    constant a letters input = .ok (x, rest) ↔ x = a ∧ input = letters ++ rest := by
  rw [constant, ← word_ok_iff]
  cases word letters input with
  | error stop => exact ⟨nofun, fun h => nomatch h.2⟩
  | ok r =>
    simp only [Except.ok.injEq, Prod.mk.injEq]
    exact and_congr_left fun _ => eq_comm

theorem mapReader_ok_iff {α β : Type} {f : α → β} {r : Reader α} {input rest : List UInt8} {b : β} :
    mapReader f r input = .ok (b, rest) ↔ ∃ a, r input = .ok (a, rest) ∧ b = f a := by
  rw [mapReader]
  cases r input with
  | error stop => exact ⟨nofun, fun ⟨_, h, _⟩ => nomatch h⟩
  | ok x =>
    simp only [Except.ok.injEq, Prod.mk.injEq]
    constructor
    · rintro ⟨rfl, rfl⟩
      exact ⟨x.1, rfl, rfl⟩
    · rintro ⟨a, rfl, rfl⟩
      exact ⟨rfl, rfl⟩

/-! ### Strings -/

namespace Scan

/-- What has been read of an escape behind its backslash. -/
inductive Escape.Read : Escape → List UInt8 → Prop
  | start : Escape.Read .start []
  | unit {digits : List UInt8} (few : digits.length ≤ 3) : Escape.Read (.unit digits) (0x75 :: digits.reverse)
  | pair {a b c d : UInt8} {n : Nat} (digits : hexNumber? [a, b, c, d] = some n) (isHigh : 0xd800 ≤ n ∧ n ≤ 0xdbff) :
      Escape.Read (.pair n) [0x75, a, b, c, d]
  | pairStart {a b c d : UInt8} {n : Nat} (digits : hexNumber? [a, b, c, d] = some n)
      (isHigh : 0xd800 ≤ n ∧ n ≤ 0xdbff) : Escape.Read (.pairStart n) [0x75, a, b, c, d, 0x5c]
  | pairUnit {a b c d : UInt8} {n : Nat} {low : List UInt8} (digits : hexNumber? [a, b, c, d] = some n)
      (isHigh : 0xd800 ≤ n ∧ n ≤ 0xdbff) (few : low.length ≤ 3) :
      Escape.Read (.pairUnit n low) ([0x75, a, b, c, d, 0x5c, 0x75] ++ low.reverse)

theorem reverse_three {b : UInt8} {digits : List UInt8} (h : digits.length = 3) :
    ∃ x y z, digits.reverse = [x, y, z] ∧ (b :: digits).reverse = [x, y, z, b] := by
  match digits, h with
  | [z, y, x], _ => exact ⟨x, y, z, rfl, rfl⟩

/-- What a byte makes of an escape: it goes on, or it is over and stands for bytes. -/
inductive Escape.Stepped (pre : List UInt8) (b : UInt8) : List UInt8 × Option Escape → Prop
  | on {e : Escape} (read : e.Read (pre ++ [b])) : Escape.Stepped pre b ([], some e)
  | ended {c : List UInt8} (escaped : Escaped (pre ++ [b]) c) : Escape.Stepped pre b (c, none)

theorem takeUnit_stepped {x y z b : UInt8} {r : List UInt8 × Option Escape} (h : takeUnit [x, y, z, b] = .ok r) :
    Escape.Stepped [0x75, x, y, z] b r := by
  rw [takeUnit] at h
  split at h
  · cases h
  · rename_i n digits
    split at h
    · cases h
    · split at h
      · rename_i isHigh
        obtain rfl := Except.ok.inj h
        exact .on (.pair digits isHigh)
      · obtain rfl := Except.ok.inj h
        exact .ended (.unit digits (by omega))

theorem takePair_stepped {p q s t x y z b : UInt8} {n : Nat} {r : List UInt8 × Option Escape}
    (digits : hexNumber? [p, q, s, t] = some n) (isHigh : 0xd800 ≤ n ∧ n ≤ 0xdbff)
    (h : takePair n [x, y, z, b] = .ok r) : Escape.Stepped [0x75, p, q, s, t, 0x5c, 0x75, x, y, z] b r := by
  rw [takePair] at h
  split at h
  · cases h
  · rename_i m digits'
    split at h
    · rename_i isLow
      obtain rfl := Except.ok.inj h
      exact .ended (.pair digits digits' isHigh isLow)
    · cases h

theorem stepped {e : Escape} {pre : List UInt8} (read : e.Read pre) {b : UInt8} {r : List UInt8 × Option Escape}
    (h : e.step b = .ok r) : Escape.Stepped pre b r := by
  cases read with
  | start =>
    simp only [Escape.step] at h
    split at h
    · rename_i hb
      obtain rfl := Except.ok.inj h
      exact .on (hb ▸ .unit (Nat.zero_le _))
    · split at h
      · rename_i c hc
        obtain rfl := Except.ok.inj h
        exact .ended (.short hc)
      · cases h
  | @unit digits few =>
    simp only [Escape.step] at h
    split at h
    · rename_i hlt
      obtain rfl := Except.ok.inj h
      refine .on ?_
      rw [List.cons_append, ← List.reverse_cons]
      exact .unit hlt
    · obtain ⟨x, y, z, hpre, hall⟩ := @reverse_three b digits (by omega)
      rw [hall] at h
      exact hpre ▸ takeUnit_stepped h
  | pair digits isHigh =>
    simp only [Escape.step] at h
    split at h
    · rename_i hb
      obtain rfl := Except.ok.inj h
      exact .on (hb ▸ .pairStart digits isHigh)
    · cases h
  | pairStart digits isHigh =>
    simp only [Escape.step] at h
    split at h
    · rename_i hb
      subst hb
      obtain rfl := Except.ok.inj h
      exact .on (.pairUnit digits isHigh (Nat.zero_le _))
    · cases h
  | @pairUnit p q s t n low digits isHigh few =>
    simp only [Escape.step] at h
    split at h
    · rename_i hlt
      obtain rfl := Except.ok.inj h
      refine .on ?_
      rw [List.append_assoc, ← List.reverse_cons]
      exact .pairUnit digits isHigh hlt
    · obtain ⟨x, y, z, hpre, hall⟩ := @reverse_three b low (by omega)
      rw [hall] at h
      exact hpre ▸ takePair_stepped digits isHigh h

/-- What the rest of a string stands for, inside an escape or outside. -/
def Completes : Option Escape → List UInt8 → List UInt8 → Prop
  | none, w, out => Resolves w out
  | some e, w, out => ∀ pre, e.Read pre → Resolves (0x5c :: (pre ++ w)) out

theorem exists_completes {inside : Option Escape} {taken input bytes rest : List UInt8}
    (h : stringBytes taken inside input = .ok (bytes, rest)) :
    ∃ w out, input = w ++ 0x22 :: rest ∧ bytes = taken.reverse ++ out ∧ Completes inside w out := by
  induction input generalizing inside taken with
  | nil => cases h
  | cons b input ih =>
    cases inside with
    | none =>
      rw [stringBytes] at h
      split at h
      · rename_i hb
        rw [Except.ok.injEq, Prod.mk.injEq] at h
        exact ⟨[], [], by rw [hb, h.2]; rfl, by rw [← h.1, List.append_nil], .nil⟩
      · split at h
        · rename_i hb
          obtain ⟨w, out, rfl, hout, hcompletes⟩ := ih h
          exact ⟨b :: w, out, rfl, hout, hb ▸ hcompletes [] .start⟩
        · split at h
          · cases h
          · rename_i hquote hslash hcontrol
            obtain ⟨w, out, rfl, hout, hresolves⟩ := ih h
            refine ⟨b :: w, b :: out, rfl, ?_, .raw ⟨hcontrol, hquote, hslash⟩ hresolves⟩
            rw [hout, List.reverse_cons, List.append_assoc, List.singleton_append]
    | some e =>
      rw [stringBytes] at h
      split at h
      · rename_i bs next hstep
        obtain ⟨w, out, rfl, hout, hcompletes⟩ := ih h
        refine ⟨b :: w, bs ++ out, rfl, ?_, fun pre hpre => ?_⟩
        · rw [hout, List.reverseAux_eq, List.reverse_append, List.reverse_reverse, List.append_assoc]
        · have hsplit : pre ++ b :: w = pre ++ [b] ++ w := by rw [List.append_assoc, List.singleton_append]
          rw [hsplit]
          cases stepped hpre hstep with
          | on read => exact hcompletes _ read
          | ended escaped => exact .escape escaped hcompletes
      · cases h

theorem stringBytes_escaped {e c : List UInt8} (h : Escaped e c) (taken input : List UInt8) :
    stringBytes taken none (0x5c :: (e ++ input)) = stringBytes (c.reverseAux taken) none input := by
  have start : stringBytes taken none (0x5c :: (e ++ input)) = stringBytes taken (some .start) (e ++ input) := by
    rw [stringBytes]
    rfl
  rw [start]
  cases h with
  | @short b c letter =>
    have hb : b ≠ 0x75 := by
      rintro rfl
      cases letter
    rw [List.singleton_append, stringBytes]
    simp only [Escape.step, if_neg hb, letter]
  | @unit a b c d n digits whole =>
    have hlow : ¬(0xdc00 ≤ n ∧ n ≤ 0xdfff) := by omega
    have hhigh : ¬(0xd800 ≤ n ∧ n ≤ 0xdbff) := by omega
    simp [stringBytes, Escape.step, takeUnit, digits, hlow, hhigh]
  | @pair a b c d a' b' c' d' high low digits digits' isHigh isLow =>
    have hnot : ¬(0xdc00 ≤ high ∧ high ≤ 0xdfff) := by omega
    simp [stringBytes, Escape.step, takeUnit, takePair, digits, digits', hnot, isHigh, isLow]

theorem stringBytes_resolves {w out : List UInt8} (h : Resolves w out) (taken rest : List UInt8) :
    stringBytes taken none (w ++ 0x22 :: rest) = .ok (taken.reverse ++ out, rest) := by
  induction h generalizing taken with
  | nil =>
    rw [List.nil_append, stringBytes, List.append_nil]
    rfl
  | @raw b w out plain _ ih =>
    rw [List.cons_append, stringBytes]
    simp only [if_neg plain.2.1, if_neg plain.2.2, if_neg plain.1, ih, List.reverse_cons, List.append_assoc,
      List.singleton_append]
  | @escape e c w out escaped _ ih =>
    rw [List.cons_append, List.append_assoc, stringBytes_escaped escaped, ih, List.reverseAux_eq, List.reverse_append,
      List.reverse_reverse, List.append_assoc]

/-- A string is read just if the bytes up to a quote spell it. -/
theorem string_ok_iff {input rest : List UInt8} {s : String} :
    string input = .ok (s, rest) ↔ ∃ w, SpellsText w s ∧ input = w ++ 0x22 :: rest := by
  constructor
  · intro h
    rw [string] at h
    split at h
    · cases h
    · rename_i bytes r hbytes
      split at h
      · rename_i s' hs
        rw [Except.ok.injEq, Prod.mk.injEq] at h
        obtain ⟨rfl, rfl⟩ := h
        obtain ⟨w, out, hinput, hout, hresolves⟩ := exists_completes hbytes
        rw [List.reverse_nil, List.nil_append] at hout
        refine ⟨w, ?_, hinput⟩
        rw [SpellsText, Utf8.decode_ok_iff.mp hs, hout]
        exact hresolves
      · cases h
  · rintro ⟨w, hw, rfl⟩
    rw [string, stringBytes_resolves hw]
    simp only [List.reverse_nil, List.nil_append, Utf8.decode_ok_iff.mpr rfl]

theorem isSome_hexNumber? (digits : List UInt8) :
    (hexNumber? digits).isSome = true ↔ ∀ b ∈ digits, (hexValue? b).isSome = true := by
  suffices h : ∀ acc : Option Nat,
      (digits.foldl (fun acc b => do return (← acc) * 16 + (← hexValue? b)) acc).isSome = true ↔
        acc.isSome = true ∧ ∀ b ∈ digits, (hexValue? b).isSome = true by
    cases digits with
    | nil => exact ⟨nofun, fun _ => rfl⟩
    | cons b digits => exact (h (some 0)).trans ⟨fun h => h.2, fun h => ⟨rfl, h⟩⟩
  induction digits with
  | nil => exact fun acc => ⟨fun h => ⟨h, nofun⟩, fun h => h.1⟩
  | cons b digits ih =>
    intro acc
    rw [List.foldl_cons, ih, List.forall_mem_cons]
    cases acc <;> cases hexValue? b <;> simp

/-- What the rest of a string that is passed over has to be, inside an escape or outside. -/
def Skips : Option Escape → List UInt8 → Prop
  | none, w => Skipped w
  | some (.unit digits), w => digits.length ≤ 3 → Skipped (0x5c :: 0x75 :: (digits.reverse ++ w))
  | some _, w => Skipped (0x5c :: w)

theorem skips_of_not_unit {e : Escape} (h : ∀ digits, e = .unit digits → False) {w : List UInt8} :
    Skips (some e) w ↔ Skipped (0x5c :: w) := by
  cases e with
  | unit digits => exact (h digits rfl).elim
  | start => exact Iff.rfl
  | pair high => exact Iff.rfl
  | pairStart high => exact Iff.rfl
  | pairUnit high digits => exact Iff.rfl

theorem exists_skips {inside : Option Escape} {input rest : List UInt8} (h : passString inside input = .ok rest) :
    ∃ w, input = w ++ 0x22 :: rest ∧ Skips inside w := by
  fun_induction passString inside input with
  | case1 => cases h
  | case2 =>
    obtain rfl := Except.ok.inj h
    exact ⟨[], rfl, .nil⟩
  | case3 r _ ih =>
    obtain ⟨w, rfl, hskips⟩ := ih h
    exact ⟨0x5c :: w, rfl, hskips⟩
  | case4 => cases h
  | case5 b r hquote hslash hcontrol ih =>
    obtain ⟨w, rfl, hskips⟩ := ih h
    exact ⟨b :: w, rfl, .raw ⟨hcontrol, hquote, hslash⟩ hskips⟩
  | case6 b r digits hlt ih =>
    obtain ⟨w, rfl, hskips⟩ := ih h
    refine ⟨b :: w, rfl, fun _ => ?_⟩
    have := hskips hlt
    rwa [List.reverse_cons, List.append_assoc, List.singleton_append] at this
  | case7 b r digits hlt hex ih =>
    obtain ⟨w, rfl, hskips⟩ := ih h
    refine ⟨b :: w, rfl, fun hle => ?_⟩
    have hall := (isSome_hexNumber? (b :: digits)).mp hex
    have hunit : Skipped (0x5c :: 0x75 :: ((b :: digits).reverse ++ w)) :=
      .unit (by rw [List.length_reverse, List.length_cons]; omega) (fun x hx => hall x (List.mem_reverse.mp hx)) hskips
    rwa [List.reverse_cons, List.append_assoc, List.singleton_append] at hunit
  | case8 => cases h
  | case9 r e hunit ih =>
    obtain ⟨w, rfl, hskips⟩ := ih h
    exact ⟨0x75 :: w, rfl, (skips_of_not_unit hunit).mpr (hskips (Nat.zero_le _))⟩
  | case10 b r e hunit _ hshort ih =>
    obtain ⟨w, rfl, hskips⟩ := ih h
    obtain ⟨c, hc⟩ := Option.isSome_iff_exists.mp hshort
    exact ⟨b :: w, rfl, (skips_of_not_unit hunit).mpr (.short hc hskips)⟩
  | case11 => cases h

theorem passString_skipped {w : List UInt8} (h : Skipped w) (rest : List UInt8) :
    passString none (w ++ 0x22 :: rest) = .ok rest := by
  induction h with
  | nil =>
    rw [List.nil_append, passString]
    rfl
  | raw plain _ ih =>
    rw [List.cons_append, passString]
    rw [if_neg plain.2.1, if_neg plain.2.2, if_neg plain.1, ih]
  | @short b c w letter _ ih =>
    have hb : b ≠ 0x75 := by
      rintro rfl
      cases letter
    simp [passString, hb, letter, ih]
  | @unit digits w four hex _ ih =>
    match digits, four with
    | [a, b, c, d], _ =>
      have hall : (hexNumber? [d, c, b, a]).isSome = true :=
        (isSome_hexNumber? _).mpr fun x hx => hex x (List.mem_reverse.mp (by simpa using hx))
      simp [passString, hall, ih]

/-- A string is passed over just if the bytes up to a quote are one. -/
theorem passString_ok_iff {input rest : List UInt8} :
    passString none input = .ok rest ↔ ∃ w, Skipped w ∧ input = w ++ 0x22 :: rest := by
  constructor
  · intro h
    obtain ⟨w, hinput, hskips⟩ := exists_skips h
    exact ⟨w, hskips, hinput⟩
  · rintro ⟨w, hw, rfl⟩
    exact passString_skipped hw rest

end Scan

end Pinboard.Json
