import Pinboard.Text.Quoted

/-! Lists of quoted texts, read back. Which characters are not shown as themselves is a matter of taste, so it is a
    parameter here: whatever it is, a reader that does not know of it gets every text back, character by character. And
    as long as it covers the control characters, none of them is in what is written. -/

namespace Pinboard.Text

/-! ### Characters of texts -/

theorem forall_mem_toDigits {p : Char → Prop} {b : Nat} (hb : 1 < b) (hdigit : ∀ d < b, p (Nat.digitChar d)) (n : Nat) :
    ∀ c ∈ Nat.toDigits b n, p c := by
  induction n using Nat.strongRecOn with
  | ind n ih =>
    rw [Nat.toDigits_eq_if hb]
    split
    · rename_i hn
      exact List.forall_mem_singleton.mpr (hdigit n hn)
    · rw [List.forall_mem_append]
      exact ⟨ih (n / b) (Nat.div_lt_self (by omega) hb),
        List.forall_mem_singleton.mpr (hdigit (n % b) (Nat.mod_lt n (by omega)))⟩

theorem forall_mem_intercalate {p : Char → Prop} {separator : String} {texts : List String}
    (hseparator : ∀ c ∈ separator.toList, p c) (h : ∀ t ∈ texts, ∀ c ∈ t.toList, p c) :
    ∀ c ∈ (separator.intercalate texts).toList, p c := by
  induction texts with
  | nil => exact String.intercalate_nil ▸ nofun
  | cons t texts ih =>
    obtain ⟨ht, htexts⟩ := List.forall_mem_cons.mp h
    cases texts with
    | nil => exact String.intercalate_singleton ▸ ht
    | cons u texts =>
      rw [String.intercalate_cons_cons, String.toList_append, String.toList_append, List.forall_mem_append,
        List.forall_mem_append]
      exact ⟨⟨ht, hseparator⟩, ih htexts⟩

/-! ### Writing -/

section
variable (hidden : Char → Bool)

/-- What a character looks like between the quotes where the characters `hidden` are not shown as themselves. -/
def escapeWith (c : Char) : String :=
  if c = '"' then "\\\""
  else if c = '\\' then "\\\\"
  else if c = '\n' then "\\n"
  else if c = '\r' then "\\r"
  else if c = '\t' then "\\t"
  else if c = '\x00' then "\\0"
  else if hidden c then escapeCode c
  else c.toString

def quotedWith (s : String) : String :=
  (s.toList.foldl (fun out c => out ++ escapeWith hidden c) ("".push '"')).push '"'

def quotedListWith (texts : List String) : String :=
  "[" ++ ", ".intercalate (texts.map (quotedWith hidden)) ++ "]"

end

theorem quotedListWith_isUnprintable : quotedListWith isUnprintable = quotedList := rfl

variable {hidden : Char → Bool}

theorem toList_quotedWith (s : String) :
    (quotedWith hidden s).toList = '"' :: (s.toList.flatMap fun c => (escapeWith hidden c).toList) ++ ['"'] := by
  have hfold (cs : List Char) (acc : String) :
      (cs.foldl (fun out c => out ++ escapeWith hidden c) acc).toList =
        acc.toList ++ cs.flatMap fun c => (escapeWith hidden c).toList := by
    induction cs generalizing acc with
    | nil => exact (List.append_nil _).symm
    | cons c cs ih => rw [List.foldl_cons, ih, String.toList_append, List.flatMap_cons, List.append_assoc]
  rw [quotedWith, String.toList_push, hfold]
  rfl

/-! ### Reading -/

/-- Where a reader of a list stands: outside of the texts, inside of one, behind a backslash, or in a code. -/
inductive Place
  | outside
  | inside
  | escape
  | code (n : Nat)
  deriving DecidableEq, Repr

/-- A list that is being read: the texts that are complete, and the one that is begun. -/
structure Reading where
  place : Place
  texts : List String
  text : String
  deriving DecidableEq, Repr

namespace Reading

def push (r : Reading) (c : Char) : Reading := { r with place := .inside, text := r.text.push c }

/-- The character that a letter behind a backslash stands for. -/
def short (c : Char) : Char :=
  if c = 'n' then '\n' else if c = 'r' then '\r' else if c = 't' then '\t' else if c = '0' then '\x00' else c

def digitValue (c : Char) : Nat := if c.toNat < 0x3a then c.toNat - 0x30 else c.toNat - 0x57

/-- Reads one character of a list. -/
def step (r : Reading) (c : Char) : Reading :=
  match r.place with
  | .outside => if c = '"' then { r with place := .inside } else r
  | .inside =>
    if c = '"' then ⟨.outside, r.texts ++ [r.text], ""⟩
    else if c = '\\' then { r with place := .escape }
    else r.push c
  | .escape => if c = 'u' then { r with place := .code 0 } else r.push (short c)
  | .code n =>
    if c = '\x7b' then r
    else if c = '\x7d' then r.push (Char.ofNat n)
    else { r with place := .code (16 * n + digitValue c) }

def run (r : Reading) (cs : List Char) : Reading := cs.foldl step r

@[simp] theorem run_nil (r : Reading) : r.run [] = r := rfl

theorem run_cons (r : Reading) (c : Char) (cs : List Char) : r.run (c :: cs) = (r.step c).run cs := rfl

theorem run_append (r : Reading) (cs ds : List Char) : r.run (cs ++ ds) = (r.run cs).run ds := List.foldl_append

end Reading

/-- The texts of a list. -/
def readTexts (s : String) : List String := (Reading.run ⟨.outside, [], ""⟩ s.toList).texts

namespace Reading

variable {texts : List String} {text : String}

theorem digitValue_digitChar {n : Nat} (h : n < 16) :
    Nat.digitChar n ≠ '\x7b' ∧ Nat.digitChar n ≠ '\x7d' ∧ digitValue (Nat.digitChar n) = n := by
  have hall : ∀ n < 16, Nat.digitChar n ≠ '\x7b' ∧ Nat.digitChar n ≠ '\x7d' ∧ digitValue (Nat.digitChar n) = n := by decide
  exact hall n h

theorem step_digit {d : Nat} (h : d < 16) (n : Nat) :
    step ⟨.code n, texts, text⟩ (Nat.digitChar d) = ⟨.code (16 * n + d), texts, text⟩ := by
  obtain ⟨hopen, hclose, hvalue⟩ := digitValue_digitChar h
  simp only [step, if_neg hopen, if_neg hclose, hvalue]

/-- The digits of a number are read as that number. -/
theorem run_toDigits (n : Nat) : run ⟨.code 0, texts, text⟩ (Nat.toDigits 16 n) = ⟨.code n, texts, text⟩ := by
  induction n using Nat.strongRecOn with
  | ind n ih =>
    rw [Nat.toDigits_eq_if (by decide)]
    split
    · rename_i hn
      rw [run_cons, step_digit hn, run_nil]
      simp
    -- The last digit is read last.
    · rw [run_append, ih (n / 16) (by omega), run_cons, step_digit (Nat.mod_lt n (by decide)), run_nil]
      simp [Nat.div_add_mod]

/-- Whichever way a character is written, it is read as itself. -/
theorem run_escapeWith (hidden : Char → Bool) (c : Char) :
    run ⟨.inside, texts, text⟩ (escapeWith hidden c).toList = ⟨.inside, texts, text.push c⟩ := by
  rw [escapeWith]
  split
  · exact ‹c = _› ▸ rfl
  rename_i hquote
  split
  · exact ‹c = _› ▸ rfl
  rename_i hslash
  split
  · exact ‹c = _› ▸ rfl
  split
  · exact ‹c = _› ▸ rfl
  split
  · exact ‹c = _› ▸ rfl
  split
  · exact ‹c = _› ▸ rfl
  split
  · have hopen : "\\u\x7b".toList = ['\\', 'u', '\x7b'] := rfl
    have hclose : "\x7d".toList = ['\x7d'] := rfl
    have hbegin : run ⟨.inside, texts, text⟩ ['\\', 'u', '\x7b'] = ⟨.code 0, texts, text⟩ := rfl
    rw [escapeCode, String.toList_append, String.toList_append, hopen, hclose, String.toList_ofList, run_append, run_append,
      hbegin, run_toDigits, run_cons, run_nil]
    simp [step, push]
  · rw [Char.toString, String.toList_singleton, run_cons, run_nil]
    simp [step, push, hquote, hslash]

theorem run_flatMap_escapeWith (hidden : Char → Bool) (cs : List Char) (text : String) :
    run ⟨.inside, texts, text⟩ (cs.flatMap fun c => (escapeWith hidden c).toList) =
      ⟨.inside, texts, text ++ String.ofList cs⟩ := by
  induction cs generalizing text with
  | nil => simp
  | cons c cs ih =>
    rw [List.flatMap_cons, run_append, run_escapeWith, ih, String.ofList_cons, String.push_eq_append, String.append_assoc]

/-- A text in quotes is one text more. -/
theorem run_quotedWith (hidden : Char → Bool) (s : String) :
    run ⟨.outside, texts, ""⟩ (quotedWith hidden s).toList = ⟨.outside, texts ++ [s], ""⟩ := by
  have hopen : step ⟨.outside, texts, ""⟩ '"' = ⟨.inside, texts, ""⟩ := rfl
  rw [toList_quotedWith, List.cons_append, run_cons, hopen, run_append, run_flatMap_escapeWith, run_cons, run_nil,
    String.ofList_toList, String.empty_append]
  rfl

theorem run_intercalate (hidden : Char → Bool) (values : List String) :
    run ⟨.outside, texts, ""⟩ (", ".intercalate (values.map (quotedWith hidden))).toList =
      ⟨.outside, texts ++ values, ""⟩ := by
  have hcomma (texts : List String) : run ⟨.outside, texts, ""⟩ ", ".toList = ⟨.outside, texts, ""⟩ := rfl
  induction values generalizing texts with
  | nil => simp
  | cons s values ih =>
    cases values with
    | nil => simp [run_quotedWith]
    | cons t values =>
      rw [List.map_cons, List.map_cons, String.intercalate_cons_cons, ← List.map_cons, String.toList_append,
        String.toList_append, run_append, run_append, run_quotedWith, hcomma, ih, List.append_assoc, List.singleton_append]

end Reading

/-- A list is read back from what is written of it, whichever characters were hidden. -/
theorem readTexts_quotedListWith (hidden : Char → Bool) (texts : List String) :
    readTexts (quotedListWith hidden texts) = texts := by
  have hopen : Reading.run ⟨.outside, [], ""⟩ "[".toList = ⟨.outside, [], ""⟩ := rfl
  rw [readTexts, quotedListWith, String.toList_append, String.toList_append, Reading.run_append, Reading.run_append, hopen,
    Reading.run_intercalate]
  rfl

/-! ### Control characters -/

def IsControl (c : Char) : Prop := c.toNat < 0x20 ∨ 0x7f ≤ c.toNat ∧ c.toNat < 0xa0

instance (c : Char) : Decidable (IsControl c) := inferInstanceAs (Decidable (_ ∨ _))

/-- No control character is shown as itself. -/
def Covers (hidden : Char → Bool) : Prop := ∀ c, IsControl c → hidden c = true

def Clean (s : String) : Prop := ∀ c ∈ s.toList, ¬IsControl c

instance (s : String) : Decidable (Clean s) := List.decidableBAll (¬IsControl ·) s.toList

variable {s t : String}

theorem clean_append : Clean (s ++ t) ↔ Clean s ∧ Clean t := by
  simp only [Clean, String.toList_append, List.forall_mem_append]

theorem covers_isUnprintable : Covers isUnprintable := by
  have hall : ∀ n < 0xa0, IsControl (Char.ofNat n) → isUnprintable (Char.ofNat n) = true := by decide +kernel
  intro c hc
  have := hall c.toNat (by rcases hc with h | h <;> omega)
  rw [Char.ofNat_toNat] at this
  exact this hc

theorem clean_escapeWith (covers : Covers hidden) (c : Char) : Clean (escapeWith hidden c) := by
  rw [escapeWith]
  split
  · decide
  split
  · decide
  split
  · decide
  split
  · decide
  split
  · decide
  split
  · decide
  split
  · rw [escapeCode, clean_append, clean_append]
    refine ⟨⟨by decide, ?_⟩, by decide⟩
    rw [Clean, String.toList_ofList]
    exact forall_mem_toDigits (by decide) (by decide) c.toNat
  · rename_i hshown
    rw [Clean, Char.toString, String.toList_singleton, List.forall_mem_singleton]
    exact fun hc => hshown (covers c hc)

theorem clean_quotedWith (covers : Covers hidden) (s : String) : Clean (quotedWith hidden s) := by
  have hquote : ¬IsControl '"' := by decide
  rw [Clean, toList_quotedWith, List.forall_mem_append, List.forall_mem_cons, List.forall_mem_flatMap]
  exact ⟨⟨hquote, fun c _ => clean_escapeWith covers c⟩, List.forall_mem_singleton.mpr hquote⟩

/-- No control character is in a list of quoted texts, whatever the texts hold. -/
theorem clean_quotedListWith (covers : Covers hidden) (texts : List String) : Clean (quotedListWith hidden texts) := by
  have hitems : Clean (", ".intercalate (texts.map (quotedWith hidden))) :=
    forall_mem_intercalate (by decide : Clean ", ") (List.forall_mem_map.mpr fun s _ => clean_quotedWith covers s)
  rw [quotedListWith, clean_append, clean_append]
  exact ⟨⟨by decide, hitems⟩, by decide⟩

end Pinboard.Text
