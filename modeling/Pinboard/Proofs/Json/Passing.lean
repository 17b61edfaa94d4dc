import Pinboard.Proofs.Json.Values

/-! What is passed over is a value of the grammar, up to its end. The open brackets are a stack: `Closes` says what
    closes all of them, and it is what a step of the reader leaves to be read. -/

namespace Pinboard.Json

/-- The names of members that are passed over. -/
abbrev Unread (n : List UInt8) (_ : Unit) : Prop := Skipped n

/-- What closes the open brackets, innermost first. `first` tells whether the innermost one has had no item yet. -/
def Closes (first : Bool) : List Bracket → List UInt8 → Prop
  | [], c => c = []
  | .list :: outer, c =>
    ∃ c₁ ws c₂, Listed first c₁ ws ∧ (∀ w ∈ ws, Passed w) ∧ Closes false outer c₂ ∧ c = c₁ ++ c₂
  | .object :: outer, c =>
    ∃ c₁ ms c₂, Named Unread first c₁ ms ∧ (∀ m ∈ ms, Passed m.bytes) ∧ Closes false outer c₂ ∧ c = c₁ ++ c₂

theorem Closes.delimited {brackets : List Bracket} {c rest : List UInt8} (h : Closes false brackets c)
    (hrest : Delimited rest) : Delimited (c ++ rest) := by
  match brackets, h with
  | [], rfl => exact hrest
  | .list :: outer, ⟨c₁, ws, c₂, listed, _, _, hc⟩ =>
    rw [hc, List.append_assoc]
    exact listed.delimited _
  | .object :: outer, ⟨c₁, ms, c₂, named, _, _, hc⟩ =>
    rw [hc, List.append_assoc]
    exact named.delimited _

theorem Passed.opens {w : List UInt8} (h : Passed w) : Opens w := by
  cases h with
  | number legal => exact legal.opens
  | _ => exact ⟨_, _, rfl, rfl, by decide⟩

theorem passName_ok_iff {input rest : List UInt8} :
    passName input = .ok rest ↔
      ∃ w n w', Blanks w ∧ Skipped n ∧ Blanks w' ∧ input = w ++ 0x22 :: (n ++ 0x22 :: (w' ++ 0x3a :: rest)) := by
  constructor
  · intro h
    rw [passName] at h
    split at h
    · cases h
    · rename_i b r hskip
      obtain ⟨w, hw, -, rfl⟩ := eq_of_skipBlanks hskip
      split at h
      · rename_i hb
        split at h
        · cases h
        · rename_i r' hstring
          obtain ⟨n, hn, rfl⟩ := Scan.passString_ok_iff.mp hstring
          obtain ⟨w', hw', rfl⟩ := colon_ok_iff.mp h
          exact ⟨w, n, w', hw, hn, hw', by rw [hb]⟩
      · cases h
  · rintro ⟨w, n, w', hw, hn, hw', rfl⟩
    rw [passName, skipBlanks_lead hw rfl]
    simp only [if_true, Scan.passString_ok_iff.mpr ⟨n, hn, rfl⟩, colon_ok_iff.mpr ⟨w', hw', rfl⟩]

/-- A token that opens no bracket leaves what its reader leaves. -/
theorem leaf_ok_iff {x : Except Stop (List UInt8)} {opened : Option Bracket} {rest : List UInt8} :
    (match x with
      | .error stop => .error stop
      | .ok rest => .ok (none, rest)) = (Except.ok (opened, rest) : Except Stop (Option Bracket × List UInt8)) ↔
      opened = none ∧ x = .ok rest := by
  cases x with
  | error stop => exact ⟨nofun, nofun⟩
  | ok r => simp only [Except.ok.injEq, Prod.mk.injEq, eq_comm]

/-- The tokens that begin a value, and the bracket that they open. -/
inductive Token : Option Bracket → List UInt8 → Prop
  | null : Token none (0x6e :: nullTail)
  | true : Token none (0x74 :: trueTail)
  | false : Token none (0x66 :: falseTail)
  | number {t : Numeral} (legal : t.Legal) : Token none t.bytes
  | string {w : List UInt8} (skipped : Skipped w) : Token none (0x22 :: (w ++ [0x22]))
  | list : Token (some .list) [0x5b]
  | object : Token (some .object) [0x7b]

theorem passToken_sound {input rest : List UInt8} {opened : Option Bracket} (h : passToken input = .ok (opened, rest)) :
    ∃ bl w, Blanks bl ∧ Token opened w ∧ input = bl ++ (w ++ rest) := by
  rw [passToken] at h
  split at h
  · cases h
  · rename_i b r hskip
    obtain ⟨bl, hbl, -, rfl⟩ := eq_of_skipBlanks hskip
    suffices hw : ∃ w, Token opened w ∧ b :: r = w ++ rest by
      obtain ⟨w, hw, hinput⟩ := hw
      exact ⟨bl, w, hbl, hw, by rw [hinput]⟩
    simp only at h
    split at h
    · obtain ⟨rfl, hword⟩ := leaf_ok_iff.mp h
      exact ⟨_, .null, by rw [‹b = _›, word_ok_iff.mp hword, List.cons_append]⟩
    split at h
    · obtain ⟨rfl, hword⟩ := leaf_ok_iff.mp h
      exact ⟨_, .true, by rw [‹b = _›, word_ok_iff.mp hword, List.cons_append]⟩
    split at h
    · obtain ⟨rfl, hword⟩ := leaf_ok_iff.mp h
      exact ⟨_, .false, by rw [‹b = _›, word_ok_iff.mp hword, List.cons_append]⟩
    split at h
    · obtain ⟨rfl, hnumber⟩ := leaf_ok_iff.mp h
      obtain ⟨t, hnegative, legal, -, rfl⟩ := (Scan.passNumber_ok_iff true).mp hnumber
      exact ⟨t.bytes, .number legal, by rw [‹b = _›, Numeral.bytes, if_pos hnegative, List.cons_append]⟩
    split at h
    · obtain ⟨rfl, hnumber⟩ := leaf_ok_iff.mp h
      obtain ⟨t, hnegative, legal, -, hinput⟩ := (Scan.passNumber_ok_iff false).mp hnumber
      refine ⟨t.bytes, .number legal, ?_⟩
      rw [hinput, Numeral.bytes, hnegative, if_neg Bool.false_ne_true]
    split at h
    · obtain ⟨rfl, hstring⟩ := leaf_ok_iff.mp h
      obtain ⟨t, ht, rfl⟩ := Scan.passString_ok_iff.mp hstring
      exact ⟨_, .string ht, by rw [‹b = _›, List.cons_append, List.append_assoc, List.singleton_append]⟩
    split at h
    · cases h
      exact ⟨_, .list, by rw [‹b = _›, List.singleton_append]⟩
    split at h
    · cases h
      exact ⟨_, .object, by rw [‹b = _›, List.singleton_append]⟩
    · cases h

theorem passToken_complete {w rest : List UInt8} {opened : Option Bracket} (h : Token opened w) {bl : List UInt8}
    (hbl : Blanks bl) (hrest : opened = none → Delimited rest) :
    passToken (bl ++ (w ++ rest)) = .ok (opened, rest) := by
  cases h with
  | null =>
    have hword : word nullTail (nullTail ++ rest) = .ok rest := word_ok_iff.mpr rfl
    simp [passToken, skipBlanks_lead hbl (show isBlank 0x6e = false from rfl), hword]
  | true =>
    have hword : word trueTail (trueTail ++ rest) = .ok rest := word_ok_iff.mpr rfl
    simp [passToken, skipBlanks_lead hbl (show isBlank 0x74 = false from rfl), hword]
  | false =>
    have hword : word falseTail (falseTail ++ rest) = .ok rest := word_ok_iff.mpr rfl
    simp [passToken, skipBlanks_lead hbl (show isBlank 0x66 = false from rfl), hword]
  | @number t legal =>
    have hpass : Scan.passNumber (t.magnitude ++ rest) = .ok rest :=
      (Scan.passNumber_ok_iff t.negative).mpr ⟨t, rfl, legal, (hrest rfl).follows _ _, rfl⟩
    cases hnegative : t.negative with
    | true => simp [passToken, Numeral.bytes, hnegative, skipBlanks_lead hbl (show isBlank 0x2d = false from rfl), hpass]
    | false =>
      obtain ⟨b, w, hmagnitude, hb⟩ := legal.first
      have hne : ∀ {c}, Scan.isDigit c = false → b ≠ c := ne_of_isDigit hb
      obtain ⟨_, _, ⟨⟩, hblank, -⟩ := opens_of_isDigit hb w
      rw [hmagnitude, List.cons_append] at hpass
      rw [passToken, Numeral.bytes, hnegative, if_neg Bool.false_ne_true, hmagnitude, List.cons_append,
        skipBlanks_lead hbl hblank]
      simp only [if_neg (@hne 0x6e rfl), if_neg (@hne 0x74 rfl), if_neg (@hne 0x66 rfl), if_neg (@hne 0x2d rfl), hb,
        if_true, hpass]
  | @string w skipped =>
    have hstring : Scan.passString none (w ++ 0x22 :: rest) = .ok rest := Scan.passString_ok_iff.mpr ⟨w, skipped, rfl⟩
    simp [passToken, skipBlanks_lead hbl (show isBlank 0x22 = false from rfl), hstring, Scan.isDigit]
  | list => simp [passToken, skipBlanks_lead hbl (show isBlank 0x5b = false from rfl), Scan.isDigit]
  | object => simp [passToken, skipBlanks_lead hbl (show isBlank 0x7b = false from rfl), Scan.isDigit]

/-- A value and what closes the brackets around it. -/
def AtValue (brackets : List Bracket) (c : List UInt8) : Prop :=
  ∃ bl w c', Blanks bl ∧ Passed w ∧ Closes false brackets c' ∧ c = bl ++ (w ++ c')

/-- What is left where the reader stops between two values: nothing if no bracket is open. -/
def Ahead : List Bracket → List UInt8 → Prop
  | [], c => c = []
  | brackets, c => AtValue brackets c

theorem closes_list_end {first : Bool} {outer : List Bracket} {bl c : List UInt8} (hbl : Blanks bl)
    (h : Closes false outer c) : Closes first (.list :: outer) (bl ++ 0x5d :: c) :=
  ⟨bl ++ [0x5d], [], c, .close hbl, nofun, h, List.append_cons bl 0x5d c⟩

theorem closes_object_end {first : Bool} {outer : List Bracket} {bl c : List UInt8} (hbl : Blanks bl)
    (h : Closes false outer c) : Closes first (.object :: outer) (bl ++ 0x7d :: c) :=
  ⟨bl ++ [0x7d], [], c, .close hbl, nofun, h, List.append_cons bl 0x7d c⟩

theorem closes_list_item {first : Bool} {outer : List Bracket} {lead c : List UInt8} (hlead : Lead first lead)
    (h : AtValue (.list :: outer) c) : Closes first (.list :: outer) (lead ++ c) := by
  obtain ⟨bl, w, -, hbl, hw, ⟨c₁, ws, c₂, listed, passed, hc, rfl⟩, rfl⟩ := h
  refine ⟨(lead ++ bl) ++ (w ++ c₁), w :: ws, c₂, .item (hlead.append_blanks hbl) listed,
    List.forall_mem_cons.mpr ⟨hw, passed⟩, hc, ?_⟩
  simp only [List.append_assoc]

theorem closes_object_member {first : Bool} {outer : List Bracket} {lead n w' c : List UInt8} (hlead : Lead first lead)
    (hn : Skipped n) (hw' : Blanks w') (h : AtValue (.object :: outer) c) :
    Closes first (.object :: outer) (lead ++ 0x22 :: (n ++ 0x22 :: (w' ++ 0x3a :: c))) := by
  obtain ⟨bl, w, -, hbl, hw, ⟨c₁, ms, c₂, named, passed, hc, rfl⟩, rfl⟩ := h
  refine ⟨_, ⟨(), w⟩ :: ms, c₂, .member hlead hn hw' hbl named, List.forall_mem_cons.mpr ⟨hw, passed⟩, hc, ?_⟩
  simp only [List.append_assoc, List.cons_append]

/-- What leads to the next value, and all that follows, closes the open brackets. -/
theorem lead_sound {first : Bool} {inner : Bracket} {outer brackets' : List Bracket} {lead input rest c : List UInt8}
    (hlead : Lead first lead)
    (h : (match inner with
      | .list => .ok (.list :: outer, input)
      | .object =>
        match passName input with
        | .error stop => .error stop
        | .ok rest => .ok (.object :: outer, rest)) =
      (Except.ok (brackets', c ++ rest) : Except Stop (List Bracket × List UInt8))) (ahead : Ahead brackets' c) :
    ∃ c', Closes first (inner :: outer) c' ∧ lead ++ input = c' ++ rest := by
  cases inner with
  | list =>
    cases h
    exact ⟨lead ++ c, closes_list_item hlead ahead, by rw [List.append_assoc]⟩
  | object =>
    simp only at h
    split at h
    · cases h
    · rename_i r hname
      cases h
      obtain ⟨w, n, w', hw, hn, hw', rfl⟩ := passName_ok_iff.mp hname
      refine ⟨_, closes_object_member (hlead.append_blanks hw) hn hw' ahead, ?_⟩
      simp only [List.append_assoc, List.cons_append]

theorem passEnds_sound {afterItem : Bool} {steps : Nat} {brackets brackets' : List Bracket} {input rest c : List UInt8}
    (h : passEnds afterItem steps brackets input = .ok (brackets', c ++ rest)) (ahead : Ahead brackets' c) :
    ∃ c', Closes (!afterItem) brackets c' ∧ input = c' ++ rest := by
  induction steps generalizing afterItem brackets input with
  | zero =>
    cases brackets with
    | nil =>
      cases h
      exact ⟨[], rfl, by rw [show c = [] from ahead]⟩
    | cons inner outer => cases h
  | succ steps ih =>
    cases brackets with
    | nil =>
      cases h
      exact ⟨[], rfl, by rw [show c = [] from ahead]⟩
    | cons inner outer =>
      rw [passEnds] at h
      split at h
      · cases h
      · rename_i b r hskip
        obtain ⟨bl, hbl, -, rfl⟩ := eq_of_skipBlanks hskip
        split at h
        · rename_i hcomma
          simp only [Bool.and_eq_true, decide_eq_true_iff] at hcomma
          obtain ⟨rfl, rfl⟩ := hcomma
          have hlead : Lead false (bl ++ [0x2c]) := .next hbl nofun
          rw [List.append_cons]
          exact lead_sound hlead h ahead
        split at h
        · rename_i hclose
          obtain ⟨c', hc', rfl⟩ := ih h
          simp only [Bool.or_eq_true, Bool.and_eq_true, decide_eq_true_iff] at hclose
          obtain ⟨rfl, rfl⟩ | ⟨rfl, rfl⟩ := hclose
          · exact ⟨_, closes_list_end hbl hc', by rw [List.append_assoc, List.cons_append]⟩
          · exact ⟨_, closes_object_end hbl hc', by rw [List.append_assoc, List.cons_append]⟩
        split at h
        · cases h
        · rename_i hfirst
          rw [Bool.not_eq_true] at hfirst
          subst hfirst
          exact lead_sound (.first hbl) h ahead

/-- A token with what closes its bracket is a value. -/
theorem passed_of_token {opened : Option Bracket} {w c : List UInt8} {outer : List Bracket} (h : Token opened w)
    (hc : Closes (!opened.isNone) (opened.toList ++ outer) c) :
    ∃ v c', Passed v ∧ Closes false outer c' ∧ w ++ c = v ++ c' := by
  cases h with
  | list =>
    obtain ⟨c₁, ws, c₂, listed, passed, hc₂, rfl⟩ := hc
    exact ⟨0x5b :: c₁, c₂, .list listed passed, hc₂, rfl⟩
  | object =>
    obtain ⟨c₁, ms, c₂, named, passed, hc₂, rfl⟩ := hc
    exact ⟨0x7b :: c₁, c₂, .object named passed, hc₂, rfl⟩
  | null => exact ⟨_, c, .null, hc, rfl⟩
  | true => exact ⟨_, c, .true, hc, rfl⟩
  | false => exact ⟨_, c, .false, hc, rfl⟩
  | number legal => exact ⟨_, c, .number legal, hc, rfl⟩
  | string skipped => exact ⟨_, c, .string skipped, hc, rfl⟩

theorem exists_token {v c : List UInt8} {outer : List Bracket} (h : Passed v) (hc : Closes false outer c) :
    ∃ opened w c', Token opened w ∧ Closes (!opened.isNone) (opened.toList ++ outer) c' ∧ v ++ c = w ++ c' := by
  cases h with
  | @list c₁ ws listed passed => exact ⟨_, _, c₁ ++ c, .list, ⟨c₁, ws, c, listed, passed, hc, rfl⟩, rfl⟩
  | @object c₁ ms named passed => exact ⟨_, _, c₁ ++ c, .object, ⟨c₁, ms, c, named, passed, hc, rfl⟩, rfl⟩
  | null => exact ⟨none, _, c, .null, hc, rfl⟩
  | true => exact ⟨none, _, c, .true, hc, rfl⟩
  | false => exact ⟨none, _, c, .false, hc, rfl⟩
  | number legal => exact ⟨none, _, c, .number legal, hc, rfl⟩
  | string skipped => exact ⟨none, _, c, .string skipped, hc, rfl⟩

theorem passValue_sound {steps : Nat} {outer : List Bracket} {input rest : List UInt8}
    (h : passValue steps outer input = .ok rest) : ∃ c, AtValue outer c ∧ input = c ++ rest := by
  induction steps generalizing outer input with
  | zero => cases h
  | succ steps ih =>
    rw [passValue] at h
    split at h
    · cases h
    · rename_i opened r htoken
      obtain ⟨bl, w, hbl, token, rfl⟩ := passToken_sound htoken
      suffices hends : ∃ brackets' c, Ahead brackets' c ∧
          passEnds opened.isNone steps (opened.toList ++ outer) r = .ok (brackets', c ++ rest) by
        obtain ⟨brackets', c, ahead, hends⟩ := hends
        obtain ⟨c', hc', rfl⟩ := passEnds_sound hends ahead
        obtain ⟨v, c'', hv, hc'', hsplit⟩ := passed_of_token token hc'
        exact ⟨bl ++ (v ++ c''), ⟨bl, v, c'', hbl, hv, hc'', rfl⟩, by rw [← hsplit]; simp only [List.append_assoc]⟩
      simp only at h
      split at h
      · cases h
      · rename_i r' hends
        cases h
        exact ⟨[], [], rfl, hends⟩
      · rename_i brackets' r' hne hends
        obtain ⟨c, hc, rfl⟩ := ih h
        cases brackets' with
        | nil => exact (hne rfl).elim
        | cons inner outer' => exact ⟨inner :: outer', c, hc, hends⟩

/-! ### What may be passed over -/

/-- Inside a list, what closes it begins with the bracket or leads to an item. -/
theorem closes_list_cases {first : Bool} {outer : List Bracket} {c : List UInt8} (h : Closes first (.list :: outer) c) :
    (∃ bl c', Blanks bl ∧ Closes false outer c' ∧ c = bl ++ 0x5d :: c') ∨
      ∃ lead w c', Lead first lead ∧ Passed w ∧ Closes false (.list :: outer) c' ∧ c = lead ++ (w ++ c') := by
  obtain ⟨c₁, ws, c₂, listed, passed, hc, rfl⟩ := h
  cases listed with
  | @close _ w blanks => exact .inl ⟨w, c₂, blanks, hc, by rw [List.append_assoc, List.singleton_append]⟩
  | @item _ lead w c ws leads rest =>
    obtain ⟨hw, passed⟩ := List.forall_mem_cons.mp passed
    exact .inr ⟨lead, w, c ++ c₂, leads, hw, ⟨c, ws, c₂, rest, passed, hc, rfl⟩, by simp only [List.append_assoc]⟩

/-- Inside an object, what closes it begins with the bracket or leads to a member. -/
theorem closes_object_cases {first : Bool} {outer : List Bracket} {c : List UInt8}
    (h : Closes first (.object :: outer) c) :
    (∃ bl c', Blanks bl ∧ Closes false outer c' ∧ c = bl ++ 0x7d :: c') ∨
      ∃ lead n w' c', Lead first lead ∧ Skipped n ∧ Blanks w' ∧ AtValue (.object :: outer) c' ∧
        c = lead ++ 0x22 :: (n ++ 0x22 :: (w' ++ 0x3a :: c')) := by
  obtain ⟨c₁, ms, c₂, named, passed, hc, rfl⟩ := h
  cases named with
  | @close _ w blanks => exact .inl ⟨w, c₂, blanks, hc, by rw [List.append_assoc, List.singleton_append]⟩
  | @member _ lead n w w' v c name ms leads names blanks blanks' rest =>
    obtain ⟨hv, passed⟩ := List.forall_mem_cons.mp passed
    refine .inr ⟨lead, n, w, w' ++ (v ++ (c ++ c₂)), leads, names, blanks,
      ⟨w', v, c ++ c₂, blanks', hv, ⟨c, ms, c₂, rest, passed, hc, rfl⟩, rfl⟩, ?_⟩
    simp only [List.append_assoc, List.cons_append]

/-- What leads to an item of a list is passed over, but for blanks behind a comma. -/
theorem passEnds_item {afterItem : Bool} {lead w : List UInt8} (hlead : Lead (!afterItem) lead) (hw : Passed w)
    (steps : Nat) (outer : List Bracket) (rest : List UInt8) :
    ∃ bl, Blanks bl ∧ bl.length ≤ lead.length ∧
      passEnds afterItem (steps + 1) (.list :: outer) (lead ++ (w ++ rest)) = .ok (.list :: outer, bl ++ (w ++ rest)) := by
  cases afterItem with
  | true =>
    cases hlead with
    | @next bl bl' hbl hbl' =>
      refine ⟨bl', hbl', by rw [List.length_append, List.length_cons]; omega, ?_⟩
      rw [List.append_assoc, List.cons_append, passEnds, skipBlanks_lead hbl (show isBlank 0x2c = false from rfl)]
      rfl
  | false =>
    cases hlead with
    | first hbl =>
      obtain ⟨b, v, rfl, hb, -, hlist, -⟩ := hw.opens
      refine ⟨[], nofun, Nat.zero_le _, ?_⟩
      rw [List.cons_append, passEnds, skipBlanks_lead hbl hb]
      simp [hlist]

/-- What leads to a member of an object is passed over, and so is its name. -/
theorem passEnds_member {afterItem : Bool} {lead n w : List UInt8} (hlead : Lead (!afterItem) lead) (hn : Skipped n)
    (hw : Blanks w) (steps : Nat) (outer : List Bracket) (rest : List UInt8) :
    passEnds afterItem (steps + 1) (.object :: outer) (lead ++ 0x22 :: (n ++ 0x22 :: (w ++ 0x3a :: rest))) =
      .ok (.object :: outer, rest) := by
  have hname : ∀ bl, Blanks bl → passName (bl ++ 0x22 :: (n ++ 0x22 :: (w ++ 0x3a :: rest))) = .ok rest := fun bl hbl =>
    passName_ok_iff.mpr ⟨bl, n, w, hbl, hn, hw, rfl⟩
  cases afterItem with
  | true =>
    cases hlead with
    | @next bl bl' hbl hbl' =>
      rw [List.append_assoc, List.cons_append, passEnds, skipBlanks_lead hbl (show isBlank 0x2c = false from rfl)]
      simp only [hname bl' hbl']
      rfl
  | false =>
    cases hlead with
    | first hbl =>
      have hquote := hname [] nofun
      rw [List.nil_append] at hquote
      rw [passEnds, skipBlanks_lead hbl (show isBlank 0x22 = false from rfl)]
      simp [hquote]

/-- What closes the open brackets is passed over up to the next value, or to its end if there is none. -/
theorem passEnds_complete {afterItem : Bool} {steps : Nat} {brackets : List Bracket} {c rest : List UInt8}
    (h : Closes (!afterItem) brackets c) (hsteps : (c ++ rest).length < steps) :
    ∃ brackets' c', Ahead brackets' c' ∧ c'.length ≤ c.length ∧
      passEnds afterItem steps brackets (c ++ rest) = .ok (brackets', c' ++ rest) := by
  induction steps generalizing afterItem brackets c with
  | zero => exact absurd hsteps (Nat.not_lt_zero _)
  | succ steps ih =>
    match brackets, h with
    | [], rfl => exact ⟨[], [], rfl, Nat.le_refl _, rfl⟩
    | .list :: outer, h =>
      obtain ⟨bl, c', hbl, hc', rfl⟩ | ⟨lead, w, c', hlead, hw, hc', rfl⟩ := closes_list_cases h
      · simp only [List.length_append, List.length_cons] at hsteps
        obtain ⟨brackets', c'', ahead, hle, hpass⟩ := @ih true outer c' hc' (by rw [List.length_append]; omega)
        refine ⟨brackets', c'', ahead, by rw [List.length_append, List.length_cons]; omega, ?_⟩
        rw [List.append_assoc, List.cons_append, passEnds, skipBlanks_lead hbl rfl]
        simpa using hpass
      · obtain ⟨bl, hbl, hle, hpass⟩ := passEnds_item hlead hw steps outer (c' ++ rest)
        refine ⟨.list :: outer, bl ++ (w ++ c'), ⟨bl, w, c', hbl, hw, hc', rfl⟩, ?_, ?_⟩
        · simp only [List.length_append]
          omega
        · simp only [List.append_assoc, hpass]
    | .object :: outer, h =>
      obtain ⟨bl, c', hbl, hc', rfl⟩ | ⟨lead, n, w', c', hlead, hn, hw', hc', rfl⟩ := closes_object_cases h
      · simp only [List.length_append, List.length_cons] at hsteps
        obtain ⟨brackets', c'', ahead, hle, hpass⟩ := @ih true outer c' hc' (by rw [List.length_append]; omega)
        refine ⟨brackets', c'', ahead, by rw [List.length_append, List.length_cons]; omega, ?_⟩
        rw [List.append_assoc, List.cons_append, passEnds, skipBlanks_lead hbl rfl]
        simpa using hpass
      · refine ⟨.object :: outer, c', hc', ?_, ?_⟩
        · simp only [List.length_append, List.length_cons]
          omega
        · simp only [List.append_assoc, List.cons_append, passEnds_member hlead hn hw']

theorem Token.length_pos {opened : Option Bracket} {w : List UInt8} (h : Token opened w) : 0 < w.length := by
  cases h with
  | number legal =>
    obtain ⟨b, v, hopen, -⟩ := legal.opens
    rw [hopen]
    exact Nat.zero_lt_succ _
  | _ => exact Nat.zero_lt_succ _

theorem passValue_complete {steps : Nat} {outer : List Bracket} {c rest : List UInt8} (h : AtValue outer c)
    (hrest : Delimited rest) (hsteps : (c ++ rest).length < steps) : passValue steps outer (c ++ rest) = .ok rest := by
  induction steps generalizing outer c with
  | zero => exact absurd hsteps (Nat.not_lt_zero _)
  | succ steps ih =>
    obtain ⟨bl, v, c', hbl, hv, hc', rfl⟩ := h
    obtain ⟨opened, w, c'', token, hc'', hsplit⟩ := exists_token hv hc'
    have hpos := token.length_pos
    rw [hsplit] at hsteps ⊢
    simp only [List.length_append] at hsteps
    have hdelimited : opened = none → Delimited (c'' ++ rest) := by
      rintro rfl
      exact Closes.delimited hc'' hrest
    obtain ⟨brackets', d, ahead, hle, hends⟩ :=
      @passEnds_complete _ steps _ _ rest hc'' (by rw [List.length_append]; omega)
    rw [List.append_assoc, List.append_assoc, passValue, passToken_complete token hbl hdelimited]
    simp only [hends]
    cases brackets' with
    | nil => rw [show d = [] from ahead, List.nil_append]
    | cons inner outer' => exact ih ahead (by rw [List.length_append]; omega)

/-- What is passed over is one value. -/
theorem passes_sound {steps : Nat} {input rest : List UInt8} (h : passValue steps [] input = .ok rest) :
    ∃ bl w, Blanks bl ∧ Passed w ∧ input = bl ++ (w ++ rest) := by
  obtain ⟨-, ⟨bl, w, -, hbl, hw, rfl, rfl⟩, rfl⟩ := passValue_sound h
  exact ⟨bl, w, hbl, hw, by rw [List.append_nil, List.append_assoc]⟩

/-- Every value is passed over. -/
theorem passes_complete {steps : Nat} {bl w rest : List UInt8} (hbl : Blanks bl) (hw : Passed w) (hrest : Delimited rest)
    (hsteps : (bl ++ (w ++ rest)).length < steps) : passValue steps [] (bl ++ (w ++ rest)) = .ok rest := by
  have hvalue : AtValue [] (bl ++ w) := ⟨bl, w, [], hbl, hw, rfl, by rw [List.append_nil]⟩
  rw [← List.append_assoc] at hsteps ⊢
  exact passValue_complete hvalue hrest hsteps

end Pinboard.Json
