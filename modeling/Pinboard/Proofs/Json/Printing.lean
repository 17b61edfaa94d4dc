import Pinboard.Proofs.Json.Plain
import Pinboard.Proofs.Text.Utf8

/-! A plain value is written as one of its spellings. Whatever has been written before, a value adds bytes of its own, and
    those spell it; each lemma gives these bytes and says both. -/

namespace Pinboard.Json

/-! ### Strings -/

theorem raw_of_ascii {n : Nat} (hlow : 0x20 ≤ n) (hhigh : n < 0x80) (hquote : n ≠ 0x22) (hslash : n ≠ 0x5c) :
    Raw n.toUInt8 := by
  have htoNat : n.toUInt8.toNat = n := Utf8.toUInt8_toNat (by omega)
  refine ⟨fun hlt => ?_, fun heq => ?_, fun heq => ?_⟩
  · have : n.toUInt8.toNat < 0x20 := UInt8.lt_iff_toNat_lt.mp hlt
    omega
  · exact hquote (by rw [← htoNat, heq]; rfl)
  · exact hslash (by rw [← htoNat, heq]; rfl)

theorem raw_of_large {b : UInt8} (h : 0x80 ≤ b.toNat) : Raw b := by
  refine ⟨fun hlt => ?_, fun heq => ?_, fun heq => ?_⟩
  · have : b.toNat < 0x20 := UInt8.lt_iff_toNat_lt.mp hlt
    omega
  · subst heq
    exact absurd h (by decide)
  · subst heq
    exact absurd h (by decide)

theorem resolves_raw {v w out : List UInt8} (hv : ∀ b ∈ v, Raw b) (h : Resolves w out) :
    Resolves (v ++ w) (v ++ out) := by
  induction v with
  | nil => exact h
  | cons b v ih =>
    obtain ⟨hb, hv⟩ := List.forall_mem_cons.mp hv
    exact .raw hb (ih hv)

/-- A control character is written by its code, in four digits. -/
theorem hexNumber?_control (n : Fin 32) :
    ∃ a b, Utf8.encode (("\\u00".push (hexDigit (n / 16))).push (hexDigit (n % 16))) = [0x5c, 0x75, 0x30, 0x30, a, b] ∧
      Scan.hexNumber? [0x30, 0x30, a, b] = some n.val :=
  ⟨(hexDigit (n / 16)).toNat.toUInt8, (hexDigit (n % 16)).toNat.toUInt8, by revert n; decide +kernel⟩

theorem codeBytes_toNat (c : Char) : Scan.codeBytes c.toNat = String.utf8EncodeChar c := by
  have hc : c.toString = String.singleton c := rfl
  rw [Scan.codeBytes, Char.ofNat_toNat, hc, Utf8.encode_eq, String.toList_singleton, List.flatMap_singleton]

/-- A character is written as bytes that stand for it. -/
theorem resolves_escapeChar (c : Char) {w out : List UInt8} (h : Resolves w out) :
    Resolves (Utf8.encode (escapeChar c) ++ w) (String.utf8EncodeChar c ++ out) := by
  have short : ∀ {l d : UInt8}, Scan.shortEscape? l = some d → Resolves ([0x5c, l] ++ w) ([d] ++ out) :=
    fun letter => .escape (.short letter) h
  rw [escapeChar]
  split
  · exact ‹c = _› ▸ @short 0x22 _ rfl
  split
  · exact ‹c = _› ▸ @short 0x5c _ rfl
  split
  · exact ‹c = _› ▸ @short 0x62 _ rfl
  split
  · exact ‹c = _› ▸ @short 0x66 _ rfl
  split
  · exact ‹c = _› ▸ @short 0x6e _ rfl
  split
  · exact ‹c = _› ▸ @short 0x72 _ rfl
  split
  · exact ‹c = _› ▸ @short 0x74 _ rfl
  split
  · rename_i hcontrol
    obtain ⟨a, b, hbytes, hnumber⟩ := hexNumber?_control ⟨c.toNat, hcontrol⟩
    rw [hbytes, ← codeBytes_toNat]
    exact .escape (.unit hnumber (by omega)) h
  · rename_i hquote hslash _ _ _ _ _ hcontrol
    have hplain : Utf8.encode c.toString = String.utf8EncodeChar c := by
      rw [← codeBytes_toNat, Scan.codeBytes, Char.ofNat_toNat]
    rw [hplain]
    refine resolves_raw ?_ h
    by_cases hascii : c.toNat < 0x80
    · have hne : ∀ {d : Char}, c ≠ d → c.toNat ≠ d.toNat := fun hcd heq => hcd (Char.toNat_inj.mp heq)
      rw [Utf8.utf8EncodeChar_ascii hascii]
      exact List.forall_mem_singleton.mpr (raw_of_ascii (Nat.le_of_not_lt hcontrol) hascii (hne hquote) (hne hslash))
    · exact fun b hb => raw_of_large (Utf8.large_of_mem (Nat.le_of_not_lt hascii) b hb)

theorem encode_foldl (f : Char → String) (acc : String) (cs : List Char) :
    Utf8.encode (cs.foldl (fun out c => out ++ f c) acc) =
      Utf8.encode acc ++ cs.flatMap fun c => Utf8.encode (f c) := by
  induction cs generalizing acc with
  | nil => rw [List.foldl_nil, List.flatMap_nil, List.append_nil]
  | cons c cs ih => rw [List.foldl_cons, ih, Utf8.encode_append, List.flatMap_cons, List.append_assoc]

/-- A string is written between quotes, with bytes that spell it. -/
theorem exists_string (s : String) :
    ∃ w, SpellsText w s ∧ ∀ acc, Utf8.encode (appendString acc s) = Utf8.encode acc ++ 0x22 :: (w ++ [0x22]) := by
  refine ⟨s.toList.flatMap fun c => Utf8.encode (escapeChar c), ?_, fun acc => ?_⟩
  · rw [SpellsText, Utf8.encode_eq]
    induction s.toList with
    | nil => exact .nil
    | cons c cs ih =>
      rw [List.flatMap_cons, List.flatMap_cons]
      exact resolves_escapeChar c ih
  · have hquote : String.utf8EncodeChar '"' = [0x22] := rfl
    rw [appendString, Utf8.encode_push, encode_foldl, Utf8.encode_push, hquote, List.append_assoc, List.append_assoc,
      List.singleton_append]

theorem length_codeBytes_le (n : Nat) : (Scan.codeBytes n).length ≤ 4 := by
  have hc (c : Char) : c.toString = String.singleton c := rfl
  rw [Scan.codeBytes, hc, Utf8.encode_eq, String.toList_singleton, List.flatMap_singleton, String.length_utf8EncodeChar]
  exact Char.utf8Size_le_four _

theorem Escaped.length_le {e c : List UInt8} (h : Escaped e c) : c.length ≤ e.length := by
  cases h with
  | short letter => exact Nat.le_refl 1
  | unit digits whole => exact Nat.le_trans (length_codeBytes_le _) (Nat.le_add_left 4 1)
  | pair digits digits' isHigh isLow => exact Nat.le_trans (length_codeBytes_le _) (Nat.le_add_left 4 7)

/-- A string is spelled in no fewer bytes than it has. -/
theorem Resolves.length_le {w out : List UInt8} (h : Resolves w out) : out.length ≤ w.length := by
  induction h with
  | nil => exact Nat.le_refl 0
  | raw plain rest ih => exact Nat.succ_le_succ ih
  | escape escaped rest ih =>
    have := escaped.length_le
    rw [List.length_append, List.length_cons, List.length_append]
    omega

/-! ### Whole numbers -/

theorem toNat_of_isDigit {c : Char} (h : c.isDigit = true) : 48 ≤ c.toNat ∧ c.toNat ≤ 57 := by
  rw [Char.isDigit, Bool.and_eq_true, decide_eq_true_iff, decide_eq_true_iff] at h
  exact ⟨UInt32.le_iff_toNat_le.mp h.1, UInt32.le_iff_toNat_le.mp h.2⟩

theorem digit_of_isDigit {c : Char} (h : c.isDigit = true) :
    String.utf8EncodeChar c = [c.toNat.toUInt8] ∧ Scan.isDigit c.toNat.toUInt8 = true ∧
      Scan.digitValue c.toNat.toUInt8 = c.toNat - 48 := by
  obtain ⟨hlow, hhigh⟩ := toNat_of_isDigit h
  have htoNat : c.toNat.toUInt8.toNat = c.toNat := Utf8.toUInt8_toNat (by omega)
  refine ⟨Utf8.utf8EncodeChar_ascii (by omega), ?_, by rw [Scan.digitValue, htoNat]⟩
  rw [Scan.isDigit, Bool.and_eq_true, decide_eq_true_iff, decide_eq_true_iff, UInt8.le_iff_toNat_le,
    UInt8.le_iff_toNat_le, htoNat]
  exact ⟨hlow, hhigh⟩

theorem digits_of_isDigit {cs : List Char} (h : ∀ c ∈ cs, c.isDigit = true) :
    Digits (cs.flatMap String.utf8EncodeChar) ∧
      ∀ n, addDigits n (cs.flatMap String.utf8EncodeChar) = Nat.ofDigitChars 10 cs n := by
  induction cs with
  | nil => exact ⟨nofun, fun _ => rfl⟩
  | cons c cs ih =>
    obtain ⟨hc, hcs⟩ := List.forall_mem_cons.mp h
    obtain ⟨hbytes, hdigit, hvalue⟩ := digit_of_isDigit hc
    obtain ⟨hdigits, hadd⟩ := ih hcs
    rw [List.flatMap_cons, hbytes, List.singleton_append]
    refine ⟨List.forall_mem_cons.mpr ⟨hdigit, hdigits⟩, fun n => ?_⟩
    have hstep : addDigits n (c.toNat.toUInt8 :: cs.flatMap String.utf8EncodeChar) =
        addDigits (10 * n + (c.toNat - 48)) (cs.flatMap String.utf8EncodeChar) := by
      rw [addDigits, List.foldl_cons, hvalue, Nat.mul_comm, addDigits]
    rw [hstep, hadd]
    rfl

/-- No zero stands in front of other digits. -/
theorem head?_toDigits {n : Nat} (h : 0 < n) : (Nat.toDigits 10 n).head? ≠ some '0' := by
  induction n using Nat.strongRecOn with
  | ind n ih =>
    by_cases hn : n < 10
    · have hsmall : ∀ n < 10, 0 < n → some n.digitChar ≠ some '0' := by decide
      rw [Nat.toDigits_of_lt_base hn, List.head?_cons]
      exact hsmall n hn h
    · rw [Nat.toDigits_of_base_le (by decide) (Nat.le_of_not_lt hn), List.head?_append_of_ne_nil _ Nat.toDigits_ne_nil]
      exact ih (n / 10) (by omega) (by omega)

/-- The bytes are the digits of a number. -/
structure DigitsOf (n : Nat) (w : List UInt8) : Prop where
  digits : w ≠ [] ∧ Digits w
  value : digitsValue w = n
  zero : w.head? = some 0x30 → w = [0x30]

theorem digitsOf_repr (n : Nat) : DigitsOf n (Utf8.encode (Nat.repr n)) := by
  have hdigit : ∀ c ∈ Nat.toDigits 10 n, c.isDigit = true :=
    fun c hc => Nat.isDigit_of_mem_toDigits (by decide) (by decide) hc
  obtain ⟨hdigits, hadd⟩ := digits_of_isDigit hdigit
  obtain ⟨c, cs, hcs⟩ := List.exists_cons_of_ne_nil (@Nat.toDigits_ne_nil n 10)
  have hc : c.isDigit = true := hdigit c (hcs ▸ List.mem_cons_self)
  obtain ⟨hbytes, -⟩ := digit_of_isDigit hc
  rw [Nat.repr_eq_ofList_toDigits, Utf8.encode_ofList]
  refine ⟨⟨?_, hdigits⟩, by rw [digitsValue, hadd, Nat.ofDigitChars_ten_toDigits], fun hhead => ?_⟩
  · rw [hcs, List.flatMap_cons, hbytes]
    exact List.cons_ne_nil _ _
  · have hzero : c = '0' := by
      rw [hcs, List.flatMap_cons, hbytes] at hhead
      have htoNat := congrArg UInt8.toNat (Option.some.inj hhead)
      rw [Utf8.toUInt8_toNat (by have := toNat_of_isDigit hc; omega)] at htoNat
      exact Char.toNat_inj.mp htoNat
    cases n with
    | zero => rw [Nat.toDigits_zero]; rfl
    | succ n => exact absurd (by rw [hcs, hzero, List.head?_cons]) (head?_toDigits (Nat.succ_pos n))

/-- A whole number is written as a numeral that is read as it. -/
theorem exists_numeral {n : Int} (range : InRange n) :
    ∃ t : Numeral, t.Legal ∧ t.value? = some (.integer n) ∧ Utf8.encode (Int.repr n) = t.bytes := by
  obtain ⟨hlow, hhigh⟩ := range
  have htop : Nat.pow 2 64 = Scan.maxSignificand + 1 := by decide
  cases n with
  | ofNat m =>
    obtain ⟨hdigits, hvalue, hzero⟩ := digitsOf_repr m
    refine ⟨⟨false, Utf8.encode (Nat.repr m), [], none⟩, ⟨hdigits, hzero, List.forall_mem_nil _, by simp⟩, ?_, ?_⟩
    · have hle : digitsValue (Utf8.encode (Nat.repr m)) ≤ Scan.maxSignificand := by
        have hm : (m : Int) < (Nat.pow 2 64 : Int) := hhigh
        rw [hvalue]
        omega
      have hwhole : (Numeral.mk false (Utf8.encode (Nat.repr m)) [] none).IsWhole := ⟨rfl, rfl, hle⟩
      rw [Numeral.value?, if_pos hwhole, Numeral.integer, hvalue]
      rfl
    · exact (List.append_nil _).symm
  | negSucc m =>
    obtain ⟨hdigits, hvalue, hzero⟩ := digitsOf_repr (m + 1)
    refine ⟨⟨true, Utf8.encode (Nat.repr (m + 1)), [], none⟩, ⟨hdigits, hzero, List.forall_mem_nil _, by simp⟩, ?_, ?_⟩
    · have hwhole : (Numeral.mk true (Utf8.encode (Nat.repr (m + 1))) [] none).IsWhole := by
        refine ⟨rfl, rfl, ?_⟩
        show digitsValue _ ≠ 0 ∧ digitsValue _ ≤ Nat.pow 2 63
        rw [hvalue]
        omega
      rw [Numeral.value?, if_pos hwhole, Numeral.integer, hvalue]
      rfl
    · show Utf8.encode ("-" ++ Nat.repr (m + 1)) = 0x2d :: (Utf8.encode (Nat.repr (m + 1)) ++ [])
      rw [Utf8.encode_append, List.append_nil]
      rfl

theorem spells_repr {n : Int} (range : InRange n) (d : Nat) :
    Spells d (Utf8.encode (Int.repr n)) (.number (.integer n)) := by
  obtain ⟨t, legal, hvalue, hbytes⟩ := exists_numeral range
  exact hbytes ▸ .number legal hvalue

/-! ### Values -/

/-- Whatever stands before it, the value is written as these bytes. -/
def WrittenAs (j : Json) (w : List UInt8) : Prop := ∀ acc, Utf8.encode (append acc j) = Utf8.encode acc ++ w

/-- The comma that an item is written behind, unless it is the first. -/
def comma (first : Bool) : List UInt8 := if first then [] else [0x2c]

theorem blanks_nil : Blanks [] := nofun

theorem lead_comma (first : Bool) : Lead first (comma first) := by
  cases first with
  | true => exact .first blanks_nil
  | false => exact .next blanks_nil blanks_nil

theorem encode_comma (first : Bool) (acc : String) :
    Utf8.encode (if first then acc else acc.push ',') = Utf8.encode acc ++ comma first := by
  cases first with
  | true => exact (List.append_nil _).symm
  | false => exact Utf8.encode_push acc ','

theorem exists_items {d : Nat} {items : List Json} (h : ∀ j ∈ items, ∃ w, Spells d w j ∧ WrittenAs j w) (first : Bool) :
    ∃ c, ∃ its : List (List UInt8 × Json), its.map (·.2) = items ∧ Listed first (c ++ [0x5d]) (its.map (·.1)) ∧
      (∀ i ∈ its, Spells d i.1 i.2) ∧ ∀ acc, Utf8.encode (appendItems acc first items) = Utf8.encode acc ++ c := by
  induction items generalizing first with
  | nil => exact ⟨[], [], rfl, .close blanks_nil, nofun, fun acc => (List.append_nil _).symm⟩
  | cons j items ih =>
    obtain ⟨⟨w, hw, hwritten⟩, hitems⟩ := List.forall_mem_cons.mp h
    obtain ⟨c, its, rfl, listed, spelled, hc⟩ := ih hitems false
    refine ⟨comma first ++ (w ++ c), (w, j) :: its, rfl, ?_, List.forall_mem_cons.mpr ⟨hw, spelled⟩, fun acc => ?_⟩
    · rw [List.append_assoc, List.append_assoc]
      exact .item (lead_comma first) listed
    · rw [appendItems, hc, hwritten, encode_comma, List.append_assoc, List.append_assoc]

theorem exists_members {ι : Type} {name : ι → String} {value : ι → Json} {Spelled : ι → List UInt8 → Prop} {xs : List ι}
    (h : ∀ x ∈ xs, ∃ w, Spelled x w ∧ WrittenAs (value x) w) (first : Bool) :
    ∃ c, ∃ ms : List (ι × List UInt8), ms.map (·.1) = xs ∧
      Named SpellsText first (c ++ [0x7d]) (ms.map fun m => ⟨name m.1, m.2⟩) ∧ (∀ m ∈ ms, Spelled m.1 m.2) ∧
      ∀ acc, Utf8.encode (appendMembers acc first (xs.map fun x => (name x, value x))) = Utf8.encode acc ++ c := by
  induction xs generalizing first with
  | nil => exact ⟨[], [], rfl, .close blanks_nil, nofun, fun acc => (List.append_nil _).symm⟩
  | cons x xs ih =>
    obtain ⟨⟨w, hw, hwritten⟩, hxs⟩ := List.forall_mem_cons.mp h
    obtain ⟨n, hn, hname⟩ := exists_string (name x)
    obtain ⟨c, ms, rfl, named, spelled, hc⟩ := ih hxs false
    refine ⟨comma first ++ 0x22 :: (n ++ 0x22 :: 0x3a :: (w ++ c)), (x, w) :: ms, rfl, ?_,
      List.forall_mem_cons.mpr ⟨hw, spelled⟩, fun acc => ?_⟩
    · have hmember := @Named.member _ SpellsText first _ n [] [] w _ (name x) _ (lead_comma first) hn blanks_nil
        blanks_nil
        named
      simpa only [List.map_cons, List.append_assoc, List.cons_append, List.nil_append] using hmember
    · have hcolon : String.utf8EncodeChar ':' = [0x3a] := rfl
      rw [List.map_cons, appendMembers, hc, hwritten, Utf8.encode_push, hname, encode_comma, hcolon]
      simp only [List.append_assoc, List.cons_append, List.nil_append]

theorem WrittenAs.object {members : List (String × Json)} {c : List UInt8}
    (h : ∀ acc, Utf8.encode (appendMembers acc true members) = Utf8.encode acc ++ c) :
    WrittenAs (.object members) (0x7b :: (c ++ [0x7d])) := by
  intro acc
  have hopen : String.utf8EncodeChar '\x7b' = [0x7b] := rfl
  have hclose : String.utf8EncodeChar '\x7d' = [0x7d] := rfl
  rw [append, Utf8.encode_push, h, Utf8.encode_push, hopen, hclose, List.append_assoc, List.append_assoc,
    List.singleton_append]

/-- A plain value is written as bytes that spell it. -/
theorem Plain.exists_written {j : Json} (h : Plain j) {d : Nat} (hd : j.depth ≤ d) :
    ∃ w, Spells d w j ∧ WrittenAs j w := by
  induction h generalizing d with
  | null => exact ⟨_, .null, fun acc => by rw [append, Utf8.encode_append]; rfl⟩
  | bool b =>
    cases b with
    | true => exact ⟨_, .true, fun acc => by rw [append, Utf8.encode_append]; rfl⟩
    | false => exact ⟨_, .false, fun acc => by rw [append, Utf8.encode_append]; rfl⟩
  | integer range => exact ⟨_, spells_repr range d, fun acc => by rw [append, Utf8.encode_append]; rfl⟩
  | string s =>
    obtain ⟨w, hw, hwritten⟩ := exists_string s
    exact ⟨_, .string hw, hwritten⟩
  | @array items _ ih =>
    obtain ⟨d, rfl⟩ : ∃ k, d = k + 1 := ⟨d - 1, by rw [depth] at hd; omega⟩
    have hitems := depthItems_le.mp (Nat.le_of_succ_le_succ hd)
    obtain ⟨c, its, rfl, listed, spelled, hc⟩ := exists_items (fun j hj => ih j hj (hitems j hj)) true
    refine ⟨_, .array listed spelled, fun acc => ?_⟩
    have hopen : String.utf8EncodeChar '[' = [0x5b] := rfl
    have hclose : String.utf8EncodeChar ']' = [0x5d] := rfl
    rw [append, Utf8.encode_push, hc, Utf8.encode_push, hopen, hclose, List.append_assoc, List.append_assoc,
      List.singleton_append]
  | @object members ascending _ ih =>
    obtain ⟨d, rfl⟩ : ∃ k, d = k + 1 := ⟨d - 1, by rw [depth] at hd; omega⟩
    have hmembers := depthMembers_le.mp (Nat.le_of_succ_le_succ hd)
    obtain ⟨c, ms, rfl, named, spelled, hc⟩ := @exists_members _ (·.1) (·.2) (fun m w => Spells d w m.2) _
      (fun m hm => ih m hm (hmembers m hm)) true
    have hnames : ((ms.map fun m => ((⟨m.1.1, m.2⟩ : Member String), m.1.2)).map fun m => (m.1.name, m.2)) =
        ms.map (·.1) := List.map_map
    have hobject := @insertAll_ascending [] (ms.map fun m => (⟨m.1.1, m.2⟩, m.1.2)) (hnames ▸ ascending)
    rw [hnames, List.nil_append] at hobject
    refine ⟨0x7b :: (c ++ [0x7d]), ?_, .object ?_⟩
    · rw [← hobject]
      refine .object ?_ (List.forall_mem_map.mpr spelled)
      rwa [List.map_map]
    · rwa [List.map_id'] at hc

end Pinboard.Json
