import Pinboard.Proofs.Json.Numbers
import Pinboard.Proofs.Json.Tokens

/-! Values are read as the grammar spells them. A reader is told by the bytes that it takes: what it gives is spelled by
    what it took, and what spells a value is read as that value, wherever it stands. -/

namespace Pinboard.Json

/-- What stands behind a value: the end, a blank, a comma or a closing bracket. -/
def Delimited (rest : List UInt8) : Prop := ∀ b ∈ rest.head?, isBlank b = true ∨ b = 0x2c ∨ b = 0x5d ∨ b = 0x7d

/-- How a value begins: not with a blank, a comma or a closing bracket. -/
def Opens (w : List UInt8) : Prop :=
  ∃ b v, w = b :: v ∧ isBlank b = false ∧ b ≠ 0x2c ∧ b ≠ 0x5d ∧ b ≠ 0x7d

/-- The reader reads just what is spelled, with blanks in front of it, if there are as many steps as the input is
    long. -/
structure Reads {α : Type} (steps : Nat) (read : Reader α) (Spelled : List UInt8 → α → Prop) : Prop where
  blanks : ∀ {bl : List UInt8} (input : List UInt8), Blanks bl → read (bl ++ input) = read input
  sound : ∀ {input rest : List UInt8} {a : α}, read input = .ok (a, rest) →
    ∃ bl w, Blanks bl ∧ Spelled w a ∧ input = bl ++ (w ++ rest)
  complete : ∀ {w rest : List UInt8} {a : α}, Spelled w a → Delimited rest → (w ++ rest).length < steps →
    read (w ++ rest) = .ok (a, rest)
  opens : ∀ {w : List UInt8} {a : α}, Spelled w a → Opens w

theorem delimited_nil : Delimited [] := nofun

theorem delimited_blanks {w rest : List UInt8} (hw : Blanks w) (hrest : Delimited rest) : Delimited (w ++ rest) := by
  cases w with
  | nil => exact hrest
  | cons b w =>
    rintro c ⟨⟩
    exact .inl (hw b List.mem_cons_self)

theorem delimited_cons {b : UInt8} (h : b = 0x2c ∨ b = 0x5d ∨ b = 0x7d) (rest : List UInt8) :
    Delimited (b :: rest) := by
  rintro c ⟨⟩
  exact .inr h

theorem Delimited.follows {rest : List UInt8} (h : Delimited rest) (f : List UInt8) (e : Option Exponent) :
    Follows f e rest := by
  have hbyte : ∀ b ∈ rest.head?, Scan.isDigit b = false ∧ Scan.isExponentMark b = false ∧ b ≠ 0x2e := by
    intro b hb
    obtain hblank | rfl | rfl | rfl := h b hb
    · simp only [isBlank, Bool.or_eq_true, decide_eq_true_iff] at hblank
      obtain ((rfl | rfl) | rfl) | rfl := hblank <;> exact ⟨rfl, rfl, by decide⟩
    all_goals exact ⟨rfl, rfl, by decide⟩
  exact ⟨⟨fun b hb => (hbyte b hb).1, fun _ b hb => (hbyte b hb).2.1⟩, fun _ _ b hb => (hbyte b hb).2.2⟩

/-! ### What stands between items -/

theorem blanks_append {w w' : List UInt8} (hw : Blanks w) (hw' : Blanks w') : Blanks (w ++ w') :=
  fun b hb => (List.mem_append.mp hb).elim (hw b) (hw' b)

/-- Blanks in front of an item belong to what stands in front of it. -/
theorem Lead.append_blanks {first : Bool} {w w' : List UInt8} (h : Lead first w) (hw' : Blanks w') :
    Lead first (w ++ w') := by
  cases h with
  | first blanks => exact .first (blanks_append blanks hw')
  | next blanks blanks' =>
    rw [List.append_assoc, List.cons_append]
    exact .next blanks (blanks_append blanks' hw')

theorem Opens.append {w : List UInt8} (h : Opens w) (rest : List UInt8) : Opens (w ++ rest) := by
  obtain ⟨b, v, rfl, hb⟩ := h
  exact ⟨b, v ++ rest, rfl, hb⟩

/-- What follows an item ends it: blanks, and then a comma or the closing bracket. -/
theorem Listed.delimited {c : List UInt8} {ws : List (List UInt8)} (h : Listed false c ws) (rest : List UInt8) :
    Delimited (c ++ rest) := by
  cases h with
  | close blanks =>
    rw [List.append_assoc]
    exact delimited_blanks blanks (delimited_cons (.inr (.inl rfl)) rest)
  | item leads _ =>
    cases leads with
    | next blanks _ =>
      rw [List.append_assoc, List.append_assoc]
      exact delimited_blanks blanks (delimited_cons (.inl rfl) _)

theorem Named.delimited {ν : Type} {Names : List UInt8 → ν → Prop} {c : List UInt8} {ms : List (Member ν)}
    (h : Named Names false c ms) (rest : List UInt8) : Delimited (c ++ rest) := by
  cases h with
  | close blanks =>
    rw [List.append_assoc]
    exact delimited_blanks blanks (delimited_cons (.inr (.inr rfl)) rest)
  | member leads _ _ _ _ =>
    cases leads with
    | next blanks _ =>
      rw [List.append_assoc, List.append_assoc]
      exact delimited_blanks blanks (delimited_cons (.inl rfl) _)

theorem nextItem_close {input rest : List UInt8} {first : Bool} (h : nextItem first input = .ok (.close rest)) :
    ∃ w r, Blanks w ∧ input = w ++ 0x5d :: r ∧ rest = 0x5d :: r := by
  rw [nextItem] at h
  split at h
  · cases h
  · rename_i b r hskip
    obtain ⟨w, hw, -, rfl⟩ := eq_of_skipBlanks hskip
    split at h
    · rename_i hb
      cases h
      exact ⟨w, r, hw, hb ▸ rfl, hb ▸ rfl⟩
    · split at h
      · cases h
      · split at h
        · split at h
          · cases h
          · split at h <;> cases h
        · cases h

theorem nextItem_item {input rest : List UInt8} {first : Bool} (h : nextItem first input = .ok (.item rest)) :
    ∃ lead, Lead first lead ∧ input = lead ++ rest := by
  rw [nextItem] at h
  split at h
  · cases h
  · rename_i b r hskip
    obtain ⟨w, hw, -, rfl⟩ := eq_of_skipBlanks hskip
    split at h
    · cases h
    · split at h
      · rename_i hfirst
        cases h
        exact ⟨w, hfirst ▸ .first hw, rfl⟩
      · rename_i hfirst
        rw [Bool.not_eq_true] at hfirst
        split at h
        · rename_i hb
          split at h
          · cases h
          · rename_i c after hskip'
            obtain ⟨w', hw', -, rfl⟩ := eq_of_skipBlanks hskip'
            split at h
            · cases h
            · cases h
              refine ⟨w ++ 0x2c :: w', hfirst ▸ .next hw hw', ?_⟩
              rw [hb, List.append_assoc, List.cons_append]
        · cases h

theorem nextItem_of_close {w : List UInt8} (hw : Blanks w) (first : Bool) (rest : List UInt8) :
    nextItem first (w ++ 0x5d :: rest) = .ok (.close (0x5d :: rest)) := by
  rw [nextItem, skipBlanks_lead hw rfl]
  rfl

theorem nextItem_of_item {first : Bool} {lead w : List UInt8} (hlead : Lead first lead) (hw : Opens w) :
    nextItem first (lead ++ w) = .ok (.item w) := by
  obtain ⟨b, v, rfl, hb, -, hclose, -⟩ := hw
  cases hlead with
  | first blanks =>
    rw [nextItem, skipBlanks_lead blanks hb]
    simp only [if_neg hclose, if_true]
  | @next w w' blanks blanks' =>
    rw [List.append_assoc, List.cons_append, nextItem, skipBlanks_lead blanks rfl]
    simp only [skipBlanks_lead blanks' hb, if_neg hclose]
    rfl

theorem nextMember_close {input rest : List UInt8} {first : Bool} (h : nextMember first input = .ok (.close rest)) :
    ∃ w r, Blanks w ∧ input = w ++ 0x7d :: r ∧ rest = 0x7d :: r := by
  rw [nextMember] at h
  split at h
  · cases h
  · rename_i b r hskip
    obtain ⟨w, hw, -, rfl⟩ := eq_of_skipBlanks hskip
    split at h
    · rename_i hb
      cases h
      exact ⟨w, r, hw, hb ▸ rfl, hb ▸ rfl⟩
    · split at h
      · split at h <;> cases h
      · split at h
        · split at h
          · cases h
          · split at h
            · cases h
            · split at h <;> cases h
        · cases h

theorem nextMember_item {input rest : List UInt8} {first : Bool} (h : nextMember first input = .ok (.item rest)) :
    ∃ lead, Lead first lead ∧ input = lead ++ 0x22 :: rest := by
  rw [nextMember] at h
  split at h
  · cases h
  · rename_i b r hskip
    obtain ⟨w, hw, -, rfl⟩ := eq_of_skipBlanks hskip
    split at h
    · cases h
    · split at h
      · rename_i hfirst
        split at h
        · rename_i hb
          cases h
          exact ⟨w, hfirst ▸ .first hw, hb ▸ rfl⟩
        · cases h
      · rename_i hfirst
        rw [Bool.not_eq_true] at hfirst
        split at h
        · rename_i hb
          split at h
          · cases h
          · rename_i c after hskip'
            obtain ⟨w', hw', -, rfl⟩ := eq_of_skipBlanks hskip'
            split at h
            · rename_i hc
              cases h
              refine ⟨w ++ 0x2c :: w', hfirst ▸ .next hw hw', ?_⟩
              rw [hb, hc, List.append_assoc, List.cons_append]
            · split at h <;> cases h
        · cases h

theorem nextMember_of_close {w : List UInt8} (hw : Blanks w) (first : Bool) (rest : List UInt8) :
    nextMember first (w ++ 0x7d :: rest) = .ok (.close (0x7d :: rest)) := by
  rw [nextMember, skipBlanks_lead hw rfl]
  rfl

theorem nextMember_of_item {first : Bool} {lead : List UInt8} (hlead : Lead first lead) (rest : List UInt8) :
    nextMember first (lead ++ 0x22 :: rest) = .ok (.item rest) := by
  cases hlead with
  | first blanks =>
    rw [nextMember, skipBlanks_lead blanks rfl]
    rfl
  | @next w w' blanks blanks' =>
    rw [List.append_assoc, List.cons_append, nextMember, skipBlanks_lead blanks rfl]
    simp only [skipBlanks_lead blanks' (show isBlank 0x22 = false from rfl)]
    rfl

theorem colon_ok_iff {input rest : List UInt8} :
    colon input = .ok rest ↔ ∃ w, Blanks w ∧ input = w ++ 0x3a :: rest := by
  constructor
  · intro h
    rw [colon] at h
    split at h
    · cases h
    · rename_i b r hskip
      obtain ⟨w, hw, -, rfl⟩ := eq_of_skipBlanks hskip
      split at h
      · rename_i hb
        cases h
        exact ⟨w, hw, hb ▸ rfl⟩
      · cases h
  · rintro ⟨w, hw, rfl⟩
    rw [colon, skipBlanks_lead hw rfl]
    rfl

/-! ### Lists and objects -/

section Loops

variable {steps n : Nat} {read : Reader Json} {Spelled : List UInt8 → Json → Prop} {first : Bool}

theorem items_sound (reads : Reads steps read Spelled) {taken js : List Json} {input rest : List UInt8}
    (h : items read taken first n input = .ok (js, rest)) :
    ∃ c, ∃ its : List (List UInt8 × Json), Listed first c (its.map (·.1)) ∧ (∀ i ∈ its, Spelled i.1 i.2) ∧
      js = taken.reverse ++ its.map (·.2) ∧ input = c ++ rest := by
  induction n generalizing taken first input with
  | zero => cases h
  | succ n ih =>
    rw [items] at h
    split at h
    · cases h
    · rename_i r hnext
      obtain ⟨w, v, hw, rfl, rfl⟩ := nextItem_close hnext
      cases h
      exact ⟨w ++ [0x5d], [], .close hw, nofun, (List.append_nil _).symm, List.append_cons w 0x5d v⟩
    · rename_i r hnext
      obtain ⟨lead, hlead, rfl⟩ := nextItem_item hnext
      split at h
      · cases h
      · rename_i j after hread
        obtain ⟨bl, w, hbl, hw, rfl⟩ := reads.sound hread
        obtain ⟨c, its, listed, spelled, rfl, rfl⟩ := ih h
        refine ⟨(lead ++ bl) ++ (w ++ c), (w, j) :: its, .item (hlead.append_blanks hbl) listed,
          List.forall_mem_cons.mpr ⟨hw, spelled⟩, ?_, ?_⟩
        · rw [List.reverse_cons, List.append_assoc, List.singleton_append, List.map_cons]
        · simp only [List.append_assoc]

theorem items_complete (reads : Reads steps read Spelled) {taken : List Json} {c rest : List UInt8}
    {its : List (List UInt8 × Json)} (listed : Listed first c (its.map (·.1))) (spelled : ∀ i ∈ its, Spelled i.1 i.2)
    (hn : (c ++ rest).length < n) (hsteps : (c ++ rest).length < steps) :
    items read taken first n (c ++ rest) = .ok (taken.reverse ++ its.map (·.2), rest) := by
  induction n generalizing taken first c its with
  | zero => exact absurd hn (Nat.not_lt_zero _)
  | succ n ih =>
    cases its with
    | nil =>
      cases listed with
      | close blanks =>
        rw [List.append_assoc, List.singleton_append, items, nextItem_of_close blanks, List.map_nil, List.append_nil]
        rfl
    | cons i its =>
      obtain ⟨hi, spelled⟩ := List.forall_mem_cons.mp spelled
      cases listed with
      | @item _ lead w c _ leads listed =>
        obtain ⟨b, v, hopen, -⟩ := reads.opens hi
        have hdelimited : Delimited (c ++ rest) := listed.delimited rest
        have hw : Opens (i.1 ++ (c ++ rest)) := (reads.opens hi).append _
        simp only [List.append_assoc, List.length_append, hopen, List.length_cons] at hn hsteps
        rw [List.append_assoc, List.append_assoc, items, nextItem_of_item leads hw]
        simp only
        rw [reads.complete hi hdelimited (by simp only [List.length_append, hopen, List.length_cons]; omega)]
        simp only
        rw [ih listed spelled (by rw [List.length_append]; omega) (by rw [List.length_append]; omega),
          List.reverse_cons, List.append_assoc, List.singleton_append, List.map_cons]

theorem members_sound (reads : Reads steps read Spelled) {taken out : List (String × Json)} {input rest : List UInt8}
    (h : members read taken first n input = .ok (out, rest)) :
    ∃ c, ∃ ms : List (Member String × Json), Named SpellsText first c (ms.map (·.1)) ∧
      (∀ m ∈ ms, Spelled m.1.bytes m.2) ∧ out = insertAll taken ms ∧ input = c ++ rest := by
  induction n generalizing taken first input with
  | zero => cases h
  | succ n ih =>
    rw [members] at h
    split at h
    · cases h
    · rename_i r hnext
      obtain ⟨w, v, hw, rfl, rfl⟩ := nextMember_close hnext
      cases h
      exact ⟨w ++ [0x7d], [], .close hw, nofun, rfl, List.append_cons w 0x7d v⟩
    · rename_i r hnext
      obtain ⟨lead, hlead, rfl⟩ := nextMember_item hnext
      split at h
      · cases h
      · rename_i name r' hname
        obtain ⟨t, ht, rfl⟩ := Scan.string_ok_iff.mp hname
        split at h
        · cases h
        · rename_i r'' hcolon
          obtain ⟨bl, hbl, rfl⟩ := colon_ok_iff.mp hcolon
          split at h
          · cases h
          · rename_i j after hread
            obtain ⟨bl', w, hbl', hw, rfl⟩ := reads.sound hread
            obtain ⟨c, ms, named, spelled, rfl, rfl⟩ := ih h
            refine ⟨_, (⟨name, w⟩, j) :: ms, .member hlead ht hbl hbl' named, List.forall_mem_cons.mpr ⟨hw, spelled⟩,
              rfl, ?_⟩
            simp only [List.append_assoc, List.cons_append]

theorem members_complete (reads : Reads steps read Spelled) {taken : List (String × Json)} {c rest : List UInt8}
    {ms : List (Member String × Json)} (named : Named SpellsText first c (ms.map (·.1)))
    (spelled : ∀ m ∈ ms, Spelled m.1.bytes m.2) (hn : (c ++ rest).length < n) (hsteps : (c ++ rest).length < steps) :
    members read taken first n (c ++ rest) = .ok (insertAll taken ms, rest) := by
  induction n generalizing taken first c ms with
  | zero => exact absurd hn (Nat.not_lt_zero _)
  | succ n ih =>
    cases ms with
    | nil =>
      cases named with
      | close blanks =>
        rw [List.append_assoc, List.singleton_append, members, nextMember_of_close blanks]
        rfl
    | cons m ms =>
      obtain ⟨⟨name, v⟩, j⟩ := m
      obtain ⟨hv, spelled⟩ := List.forall_mem_cons.mp spelled
      cases named with
      | @member _ lead t w w' _ c _ _ leads names blanks blanks' named =>
        simp only [List.append_assoc, List.cons_append, List.length_append, List.length_cons] at hn hsteps ⊢
        rw [members, nextMember_of_item leads]
        simp only [Scan.string_ok_iff.mpr ⟨t, names, rfl⟩, colon_ok_iff.mpr ⟨w, blanks, rfl⟩, reads.blanks _ blanks']
        rw [reads.complete hv (named.delimited rest) (by simp only [List.length_append]; omega)]
        exact ih named spelled (by rw [List.length_append]; omega) (by rw [List.length_append]; omega)

end Loops

/-! ### Values -/

theorem ne_of_isDigit {b c : UInt8} (hb : Scan.isDigit b = true) (hc : Scan.isDigit c = false) : b ≠ c := by
  rintro rfl
  rw [hb] at hc
  cases hc

theorem opens_of_isDigit {b : UInt8} (hb : Scan.isDigit b = true) (w : List UInt8) : Opens (b :: w) := by
  refine ⟨b, w, rfl, ?_, ne_of_isDigit hb rfl, ne_of_isDigit hb rfl, ne_of_isDigit hb rfl⟩
  cases hblank : isBlank b with
  | false => rfl
  | true =>
    simp only [isBlank, Bool.or_eq_true, decide_eq_true_iff] at hblank
    obtain ((rfl | rfl) | rfl) | rfl := hblank <;> cases hb

/-- A numeral begins with a digit, behind its sign. -/
theorem Numeral.Legal.first {t : Numeral} (legal : t.Legal) :
    ∃ b w, t.magnitude = b :: w ∧ Scan.isDigit b = true := by
  obtain ⟨hne, hdigits⟩ := legal.whole
  obtain ⟨b, w, hw⟩ := List.exists_cons_of_ne_nil hne
  exact ⟨b, _, by rw [Numeral.magnitude, hw, List.cons_append], hdigits b (hw ▸ List.mem_cons_self)⟩

theorem Numeral.Legal.opens {t : Numeral} (legal : t.Legal) : Opens t.bytes := by
  rw [Numeral.bytes]
  split
  · exact ⟨0x2d, t.magnitude, rfl, rfl, by decide⟩
  · obtain ⟨b, w, hw, hb⟩ := legal.first
    rw [hw]
    exact opens_of_isDigit hb w

theorem Spells.opens {d : Nat} {w : List UInt8} {j : Json} (h : Spells d w j) : Opens w := by
  cases h with
  | number legal _ => exact legal.opens
  | _ => exact ⟨_, _, rfl, rfl, by decide⟩

section Value

variable {steps d : Nat}

theorem value_blanks {bl : List UInt8} (h : Blanks bl) (input : List UInt8) :
    value steps d (bl ++ input) = value steps d input := by
  rw [value, value, skipBlanks_blanks h]

theorem value_sound (inner : ∀ d', d = d' + 1 → Reads steps (value steps d') (Spells d')) {input rest : List UInt8}
    {j : Json} (h : value steps d input = .ok (j, rest)) :
    ∃ bl w, Blanks bl ∧ Spells d w j ∧ input = bl ++ (w ++ rest) := by
  rw [value] at h
  split at h
  · cases h
  · rename_i b r hskip
    obtain ⟨bl, hbl, -, rfl⟩ := eq_of_skipBlanks hskip
    suffices hw : ∃ w, Spells d w j ∧ b :: r = w ++ rest by
      obtain ⟨w, hw, hinput⟩ := hw
      exact ⟨bl, w, hbl, hw, by rw [hinput]⟩
    split at h
    · obtain ⟨rfl, rfl⟩ := constant_ok_iff.mp h
      exact ⟨_, .null, by rw [‹b = _›, List.cons_append]⟩
    split at h
    · obtain ⟨rfl, rfl⟩ := constant_ok_iff.mp h
      exact ⟨_, .true, by rw [‹b = _›, List.cons_append]⟩
    split at h
    · obtain ⟨rfl, rfl⟩ := constant_ok_iff.mp h
      exact ⟨_, .false, by rw [‹b = _›, List.cons_append]⟩
    split at h
    · obtain ⟨n, hn, rfl⟩ := mapReader_ok_iff.mp h
      obtain ⟨t, hnegative, legal, hvalue, -, rfl⟩ := Scan.number_ok_iff.mp hn
      exact ⟨t.bytes, .number legal hvalue, by rw [‹b = _›, Numeral.bytes, if_pos hnegative, List.cons_append]⟩
    split at h
    · obtain ⟨n, hn, rfl⟩ := mapReader_ok_iff.mp h
      obtain ⟨t, hnegative, legal, hvalue, -, hinput⟩ := Scan.number_ok_iff.mp hn
      refine ⟨t.bytes, .number legal hvalue, ?_⟩
      rw [hinput, Numeral.bytes, hnegative, if_neg Bool.false_ne_true]
    split at h
    · obtain ⟨s, hs, rfl⟩ := mapReader_ok_iff.mp h
      obtain ⟨t, ht, rfl⟩ := Scan.string_ok_iff.mp hs
      exact ⟨_, .string ht, by rw [‹b = _›, List.cons_append, List.append_assoc, List.singleton_append]⟩
    split at h
    · cases d with
      | zero => cases h
      | succ d =>
        obtain ⟨js, hjs, rfl⟩ := mapReader_ok_iff.mp h
        obtain ⟨c, its, listed, spelled, rfl, rfl⟩ := items_sound (inner d rfl) hjs
        exact ⟨0x5b :: c, .array listed spelled, by rw [‹b = _›, List.cons_append]⟩
    split at h
    · cases d with
      | zero => cases h
      | succ d =>
        obtain ⟨ms, hms, rfl⟩ := mapReader_ok_iff.mp h
        obtain ⟨c, ms, named, spelled, rfl, rfl⟩ := members_sound (inner d rfl) hms
        exact ⟨0x7b :: c, .object named spelled, by rw [‹b = _›, List.cons_append]⟩
    · cases h

theorem value_complete (inner : ∀ d', d = d' + 1 → Reads steps (value steps d') (Spells d')) {w rest : List UInt8}
    {j : Json} (hw : Spells d w j) (hrest : Delimited rest) (hsteps : (w ++ rest).length < steps) :
    value steps d (w ++ rest) = .ok (j, rest) := by
  obtain ⟨b, v, hopen, hblank, -⟩ := hw.opens
  rw [value, hopen, List.cons_append, skipBlanks_cons hblank]
  cases hw with
  | null =>
    cases hopen
    show constant Json.null nullTail (nullTail ++ rest) = _
    exact constant_ok_iff.mpr ⟨rfl, rfl⟩
  | true =>
    cases hopen
    show constant (Json.bool true) trueTail (trueTail ++ rest) = _
    exact constant_ok_iff.mpr ⟨rfl, rfl⟩
  | false =>
    cases hopen
    show constant (Json.bool false) falseTail (falseTail ++ rest) = _
    exact constant_ok_iff.mpr ⟨rfl, rfl⟩
  | @number _ t n legal hvalue =>
    rw [Numeral.bytes] at hopen
    split at hopen
    · rename_i hnegative
      cases hopen
      exact mapReader_ok_iff.mpr ⟨n, Scan.number_ok_iff.mpr ⟨t, hnegative, legal, hvalue, hrest.follows _ _, rfl⟩, rfl⟩
    · rename_i hnegative
      rw [Bool.not_eq_true] at hnegative
      have hb : Scan.isDigit b = true := by
        obtain ⟨c, u, hu, hc⟩ := legal.first
        rw [hu, List.cons.injEq] at hopen
        exact hopen.1 ▸ hc
      have hne : ∀ {c}, Scan.isDigit c = false → b ≠ c := ne_of_isDigit hb
      simp only [if_neg (@hne 0x6e rfl), if_neg (@hne 0x74 rfl), if_neg (@hne 0x66 rfl), if_neg (@hne 0x2d rfl), hb, if_true]
      exact mapReader_ok_iff.mpr ⟨n, Scan.number_ok_iff.mpr
        ⟨t, hnegative, legal, hvalue, hrest.follows _ _, by rw [hopen, List.cons_append]⟩, rfl⟩
  | @string _ t s text =>
    cases hopen
    rw [List.append_assoc, List.singleton_append]
    exact mapReader_ok_iff.mpr ⟨s, Scan.string_ok_iff.mpr ⟨t, text, rfl⟩, rfl⟩
  | @array d _ its listed spelled =>
    cases hopen
    have hc : (v ++ rest).length < steps := Nat.lt_trans (Nat.lt_succ_self _) hsteps
    exact mapReader_ok_iff.mpr ⟨_, items_complete (inner d rfl) listed spelled hc hc, rfl⟩
  | @object d _ ms named spelled =>
    cases hopen
    have hc : (v ++ rest).length < steps := Nat.lt_trans (Nat.lt_succ_self _) hsteps
    exact mapReader_ok_iff.mpr ⟨_, members_complete (inner d rfl) named spelled hc hc, rfl⟩

end Value

/-- A value is read just if the bytes spell it. -/
theorem reads_value (steps d : Nat) : Reads steps (value steps d) (Spells d) := by
  induction d with
  | zero =>
    have inner : ∀ d', 0 = d' + 1 → Reads steps (value steps d') (Spells d') := fun _ h => nomatch h
    exact ⟨fun input h => value_blanks h input, value_sound inner, value_complete inner, Spells.opens⟩
  | succ d ih =>
    have inner : ∀ d', d + 1 = d' + 1 → Reads steps (value steps d') (Spells d') := fun d' h => Nat.succ.inj h ▸ ih
    exact ⟨fun input h => value_blanks h input, value_sound inner, value_complete inner, Spells.opens⟩

end Pinboard.Json
