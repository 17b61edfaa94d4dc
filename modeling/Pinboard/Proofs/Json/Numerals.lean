import Pinboard.Proofs.Json.Printing
import Pinboard.Proofs.Json.Unique

/-! The numbers of a text, found without reading it as JSON: outside of strings, whatever begins with a digit or a minus
    sign and goes on with bytes that numbers are made of. In a text that is JSON these are its numerals, so a
    text in which all of them are whole numbers spells a plain value. -/

namespace Pinboard.Json

/-- A byte that numbers are made of. -/
def isNumeral (b : UInt8) : Bool := Scan.isDigit b || Scan.isExponentMark b || b = 0x2b || b = 0x2d || b = 0x2e

/-- Where a search for numbers stands: between tokens, in a string, behind a backslash, or in a number of which some bytes
    have been taken, newest first. -/
inductive Place
  | outside
  | string
  | escape
  | number (taken : List UInt8)

/-- Where the search stands behind a byte that begins a token. -/
def Place.enter (b : UInt8) : Place :=
  if b = 0x22 then .string else if Scan.isDigit b || b = 0x2d then .number [b] else .outside

/-- The numbers that are found from a place on. -/
def numeralsFrom : Place → List UInt8 → List (List UInt8)
  | .number taken, [] => [taken.reverse]
  | _, [] => []
  | .outside, b :: rest => numeralsFrom (.enter b) rest
  | .string, b :: rest => numeralsFrom (if b = 0x22 then .outside else if b = 0x5c then .escape else .string) rest
  | .escape, _ :: rest => numeralsFrom .string rest
  | .number taken, b :: rest =>
    if isNumeral b then numeralsFrom (.number (b :: taken)) rest
    else taken.reverse :: numeralsFrom (.enter b) rest

/-- The numbers of a text. -/
def numerals (bytes : List UInt8) : List (List UInt8) := numeralsFrom .outside bytes

example : numerals (Utf8.encode "[1,-2.5e3,true,\"4\"]") = [Utf8.encode "1", Utf8.encode "-2.5e3"] := rfl

/-- The text of a whole number in the range of whole numbers: no fraction, no exponent, not the negative zero. -/
def WholeText (w : List UInt8) : Prop := ∃ n, InRange n ∧ w = Utf8.encode (Int.repr n)

theorem numerals_cons {b : UInt8} (h : Place.enter b = .outside) (rest : List UInt8) :
    numerals (b :: rest) = numerals rest := by
  rw [numerals, numeralsFrom, h, numerals]

theorem numerals_append {w : List UInt8} (h : ∀ b ∈ w, Place.enter b = .outside) (rest : List UInt8) :
    numerals (w ++ rest) = numerals rest := by
  induction w with
  | nil => rfl
  | cons b w ih =>
    obtain ⟨hb, hw⟩ := List.forall_mem_cons.mp h
    rw [List.cons_append, numerals_cons hb, ih hw]

theorem numerals_blanks {w : List UInt8} (h : Blanks w) (rest : List UInt8) : numerals (w ++ rest) = numerals rest := by
  refine numerals_append (fun b hb => ?_) rest
  have hblank := h b hb
  simp only [isBlank, Bool.or_eq_true, decide_eq_true_iff] at hblank
  obtain ((rfl | rfl) | rfl) | rfl := hblank <;> rfl

theorem numerals_lead {first : Bool} {lead : List UInt8} (h : Lead first lead) (rest : List UInt8) :
    numerals (lead ++ rest) = numerals rest := by
  cases h with
  | first blanks => exact numerals_blanks blanks rest
  | next blanks blanks' =>
    rw [List.append_assoc, numerals_blanks blanks, List.cons_append, numerals_cons rfl, numerals_blanks blanks']

theorem numeralsFrom_raw {w : List UInt8} (h : ∀ b ∈ w, b ≠ 0x22 ∧ b ≠ 0x5c) (rest : List UInt8) :
    numeralsFrom .string (w ++ rest) = numeralsFrom .string rest := by
  induction w with
  | nil => rfl
  | cons b w ih =>
    obtain ⟨⟨hquote, hslash⟩, hw⟩ := List.forall_mem_cons.mp h
    rw [List.cons_append, numeralsFrom, if_neg hquote, if_neg hslash, ih hw]

/-- There are no numbers in a string. -/
theorem numeralsFrom_skipped {w : List UInt8} (h : Skipped w) (rest : List UInt8) :
    numeralsFrom .string (w ++ 0x22 :: rest) = numerals rest := by
  induction h with
  | nil => rfl
  | @raw b w plain _ ih =>
    rw [List.cons_append, numeralsFrom, if_neg plain.2.1, if_neg plain.2.2, ih]
  | @short b c w letter _ ih =>
    have hstep : numeralsFrom .string (0x5c :: b :: w ++ 0x22 :: rest) = numeralsFrom .string (w ++ 0x22 :: rest) := rfl
    rw [hstep, ih]
  | @unit digits w four hex _ ih =>
    have hstep : numeralsFrom .string (0x5c :: 0x75 :: (digits ++ w) ++ 0x22 :: rest) =
        numeralsFrom .string (digits ++ (w ++ 0x22 :: rest)) := by
      rw [← List.append_assoc]
      rfl
    rw [hstep, numeralsFrom_raw, ih]
    intro b hb
    have hsome := hex b hb
    constructor
    · rintro rfl
      cases hsome
    · rintro rfl
      cases hsome

theorem numerals_string {w : List UInt8} (h : Skipped w) (rest : List UInt8) :
    numerals (0x22 :: (w ++ 0x22 :: rest)) = numerals rest := numeralsFrom_skipped h rest

theorem isNumeral_of_digits {w : List UInt8} (h : Digits w) : ∀ b ∈ w, isNumeral b = true := by
  intro b hb
  rw [isNumeral, h b hb]
  rfl

theorem Exponent.Legal.isNumeral {e : Exponent} (legal : e.Legal) : ∀ b ∈ e.bytes, isNumeral b = true := by
  obtain ⟨mark, sign, digits⟩ := e
  refine List.forall_mem_cons.mpr ⟨?_, fun b hb => (List.mem_append.mp hb).elim (fun hb => ?_) fun hb => ?_⟩
  · rw [Json.isNumeral, legal.mark, Bool.or_true]
    rfl
  · obtain rfl | rfl | rfl := legal.sign
    · cases hb
    · obtain rfl := List.mem_singleton.mp hb
      rfl
    · obtain rfl := List.mem_singleton.mp hb
      rfl
  · exact isNumeral_of_digits legal.digits.2 b hb

theorem Numeral.Legal.isNumeral {t : Numeral} (legal : t.Legal) : ∀ b ∈ t.bytes, isNumeral b = true := by
  have hfraction : ∀ b ∈ fractionBytes t.fraction, Json.isNumeral b = true := by
    rw [fractionBytes]
    split
    · exact List.forall_mem_nil _
    · exact List.forall_mem_cons.mpr ⟨rfl, isNumeral_of_digits legal.fraction⟩
  have hexponent : ∀ b ∈ exponentBytes t.exponent, Json.isNumeral b = true := by
    cases h : t.exponent with
    | none => exact List.forall_mem_nil _
    | some e => exact (legal.exponent e h).isNumeral
  have hmagnitude : ∀ b ∈ t.magnitude, Json.isNumeral b = true := fun b hb =>
    (List.mem_append.mp hb).elim (isNumeral_of_digits legal.whole.2 b) fun hb =>
      (List.mem_append.mp hb).elim (hfraction b) (hexponent b)
  rw [Numeral.bytes]
  split
  · exact List.forall_mem_cons.mpr ⟨rfl, hmagnitude⟩
  · exact hmagnitude

theorem numeralsFrom_number {w rest : List UInt8} (hw : ∀ b ∈ w, isNumeral b = true)
    (hrest : ∀ b ∈ rest.head?, isNumeral b = false) (taken : List UInt8) :
    numeralsFrom (.number taken) (w ++ rest) = (taken.reverse ++ w) :: numerals rest := by
  induction w generalizing taken with
  | nil =>
    rw [List.nil_append, List.append_nil]
    cases rest with
    | nil => rfl
    | cons b rest => rw [numeralsFrom, hrest b rfl, if_neg Bool.false_ne_true]; rfl
  | cons b w ih =>
    obtain ⟨hb, hw⟩ := List.forall_mem_cons.mp hw
    rw [List.cons_append, numeralsFrom, if_pos hb, ih hw, List.reverse_cons, List.append_assoc, List.singleton_append]

theorem Delimited.isNumeral {rest : List UInt8} (h : Delimited rest) : ∀ b ∈ rest.head?, isNumeral b = false := by
  intro b hb
  obtain hblank | rfl | rfl | rfl := h b hb
  · simp only [isBlank, Bool.or_eq_true, decide_eq_true_iff] at hblank
    obtain ((rfl | rfl) | rfl) | rfl := hblank <;> rfl
  all_goals rfl

/-- A numeral is found as one number. -/
theorem numerals_number {t : Numeral} (legal : t.Legal) {rest : List UInt8} (hrest : Delimited rest) :
    numerals (t.bytes ++ rest) = t.bytes :: numerals rest := by
  obtain ⟨b, v, hbytes, hb⟩ : ∃ b v, t.bytes = b :: v ∧ Place.enter b = .number [b] := by
    rw [Numeral.bytes]
    split
    · exact ⟨0x2d, t.magnitude, rfl, rfl⟩
    · obtain ⟨b, w, hw, hb⟩ := legal.first
      exact ⟨b, w, hw, by rw [Place.enter, if_neg (ne_of_isDigit hb rfl), hb]; rfl⟩
  have hv : ∀ c ∈ v, isNumeral c = true := fun c hc => legal.isNumeral c (hbytes ▸ List.mem_cons_of_mem b hc)
  rw [hbytes, List.cons_append, numerals, numeralsFrom, hb, numeralsFrom_number hv hrest.isNumeral]
  rfl

/-! ### The numbers of lists and objects -/

/-- The numbers of a text that begins with these bytes are theirs and those of the rest. -/
def Splits (w : List UInt8) : Prop := ∀ rest, Delimited rest → numerals (w ++ rest) = numerals w ++ numerals rest

theorem numerals_listed {first : Bool} {c : List UInt8} {ws : List (List UInt8)} (h : Listed first c ws)
    (hws : ∀ w ∈ ws, Splits w) (rest : List UInt8) : numerals (c ++ rest) = ws.flatMap numerals ++ numerals rest := by
  induction h with
  | close blanks =>
    rw [List.append_assoc, numerals_blanks blanks, List.singleton_append, numerals_cons rfl]
    rfl
  | item leads listed ih =>
    obtain ⟨hw, hws⟩ := List.forall_mem_cons.mp hws
    rw [List.append_assoc, numerals_lead leads, List.append_assoc, hw _ (listed.delimited rest), ih hws,
      List.flatMap_cons, List.append_assoc]

theorem numerals_named {ν : Type} {Names : List UInt8 → ν → Prop} (hnames : ∀ {n name}, Names n name → Skipped n)
    {first : Bool} {c : List UInt8} {ms : List (Member ν)} (h : Named Names first c ms)
    (hms : ∀ m ∈ ms, Splits m.bytes) (rest : List UInt8) :
    numerals (c ++ rest) = ms.flatMap (fun m => numerals m.bytes) ++ numerals rest := by
  induction h with
  | close blanks =>
    rw [List.append_assoc, numerals_blanks blanks, List.singleton_append, numerals_cons rfl]
    rfl
  | member leads names blanks blanks' named ih =>
    obtain ⟨hv, hms⟩ := List.forall_mem_cons.mp hms
    simp only [List.append_assoc, List.cons_append]
    rw [numerals_lead leads, numerals_string (hnames names), numerals_blanks blanks, numerals_cons rfl,
      numerals_blanks blanks', hv _ (named.delimited rest), ih hms, List.flatMap_cons, List.append_assoc]

theorem Passed.splits {w : List UInt8} (h : Passed w) : Splits w := by
  intro rest hrest
  induction h generalizing rest with
  | null => rfl
  | true => rfl
  | false => rfl
  | @number t legal =>
    have hself := numerals_number legal delimited_nil
    rw [List.append_nil] at hself
    rw [numerals_number legal hrest, hself]
    rfl
  | @string w skipped =>
    rw [List.cons_append, List.append_assoc, List.singleton_append, numerals_string skipped,
      numerals_string skipped []]
    rfl
  | @list c ws listed _ ih =>
    have hlist := numerals_listed listed ih
    have hself := hlist []
    rw [List.append_nil] at hself
    rw [List.cons_append, numerals_cons rfl, numerals_cons rfl, hlist, hself]
    simp [numerals, numeralsFrom]
  | @object c ms named _ ih =>
    have hobject := numerals_named id named ih
    have hself := hobject []
    rw [List.append_nil] at hself
    rw [List.cons_append, numerals_cons rfl, numerals_cons rfl, hobject, hself]
    simp [numerals, numeralsFrom]

/-- What is spelled with whole numbers alone is a plain value. -/
theorem Spells.plain {d : Nat} {w : List UInt8} {j : Json} (h : Spells d w j) (whole : ∀ t ∈ numerals w, WholeText t) :
    Plain j := by
  induction h with
  | null => exact .null
  | true => exact .bool _
  | false => exact .bool _
  | @number d t n legal hvalue =>
    have hself := numerals_number legal delimited_nil
    rw [List.append_nil] at hself
    obtain ⟨m, range, hm⟩ := whole t.bytes (hself ▸ List.mem_cons_self)
    have hspelled : Spells d t.bytes (.number n) := .number legal hvalue
    rw [hspelled.unique (hm ▸ spells_repr range d)]
    exact .integer range
  | string _ => exact .string _
  | @array d c its listed spelled ih =>
    have hlist := numerals_listed listed (fun w hw => by
      obtain ⟨i, hi, rfl⟩ := List.mem_map.mp hw
      exact (spelled i hi).passed.splits) []
    rw [List.append_nil] at hlist
    refine .array fun j hj => ?_
    obtain ⟨i, hi, rfl⟩ := List.mem_map.mp hj
    refine ih i hi fun t ht => whole t ?_
    rw [numerals_cons rfl, hlist]
    exact List.mem_append_left _ (List.mem_flatMap.mpr ⟨i.1, List.mem_map_of_mem hi, ht⟩)
  | @object d c ms named spelled ih =>
    have hobject := numerals_named (fun h => h.skipped) named (fun m hm => by
      obtain ⟨x, hx, rfl⟩ := List.mem_map.mp hm
      exact (spelled x hx).passed.splits) []
    rw [List.append_nil] at hobject
    refine .object (ascending_insertAll List.Pairwise.nil ms) fun m hm => ?_
    rcases mem_insertAll hm with hm | ⟨x, hx, rfl⟩
    · cases hm
    · refine ih x hx fun t ht => whole t ?_
      rw [numerals_cons rfl, hobject]
      exact List.mem_append_left _ (List.mem_flatMap.mpr ⟨x.1, List.mem_map_of_mem hx, ht⟩)

end Pinboard.Json
