import Mathlib.Data.List.Nodup
import Pinboard.Message.Reader
import Pinboard.Proofs.Json.Passing

/-! Data of a declared shape is read just if the bytes spell it. A record is read into a draft, field by field: a `Slot`
    is a field with its place in the draft, and reading an object or a list leaves a draft whose
    slots hold what the members or the items spell. -/

namespace Pinboard.Json

/-! ### Single values -/

theorem wrongType_ne_ok {α : Type} {expected : String} {input rest : List UInt8} {a : α} :
    wrongType expected input ≠ .ok (a, rest) := by
  intro h
  unfold wrongType at h
  split at h
  · cases h
  · simp only at h
    repeat' split at h
    all_goals cases h

theorem spells_string_iff {d : Nat} {w : List UInt8} {s : String} :
    Spells d w (.string s) ↔ ∃ t, SpellsText t s ∧ w = 0x22 :: (t ++ [0x22]) := by
  constructor
  · intro h
    cases h with
    | string text => exact ⟨_, text, rfl⟩
  · rintro ⟨t, ht, rfl⟩
    exact .string ht

theorem spells_bool_iff {d : Nat} {w : List UInt8} {b : Bool} :
    Spells d w (.bool b) ↔ w = if b then 0x74 :: trueTail else 0x66 :: falseTail := by
  constructor
  · intro h
    cases h <;> rfl
  · rintro rfl
    cases b
    · exact .false
    · exact .true

theorem spells_null_iff {d : Nat} {w : List UInt8} : Spells d w .null ↔ w = 0x6e :: nullTail := by
  constructor
  · intro h
    cases h
    rfl
  · rintro rfl
    exact .null

theorem reads_text (steps : Nat) : Reads steps text fun w s => Spells 0 w (.string s) where
  blanks input h := by rw [text, text, skipBlanks_blanks h]
  sound h := by
    rw [text] at h
    split at h
    · cases h
    · rename_i b r hskip
      obtain ⟨bl, hbl, -, rfl⟩ := eq_of_skipBlanks hskip
      split at h
      · obtain ⟨t, ht, rfl⟩ := Scan.string_ok_iff.mp h
        exact ⟨bl, _, hbl, .string ht, by rw [‹b = _›, List.cons_append, List.append_assoc, List.singleton_append]⟩
      · exact absurd h wrongType_ne_ok
  complete h _ _ := by
    obtain ⟨t, ht, rfl⟩ := spells_string_iff.mp h
    rw [text, List.cons_append, skipBlanks_cons rfl, List.append_assoc]
    exact Scan.string_ok_iff.mpr ⟨t, ht, rfl⟩
  opens := Spells.opens

theorem reads_flag (steps : Nat) : Reads steps flag fun w b => Spells 0 w (.bool b) where
  blanks input h := by rw [flag, flag, skipBlanks_blanks h]
  sound h := by
    rw [flag] at h
    split at h
    · cases h
    · rename_i b r hskip
      obtain ⟨bl, hbl, -, rfl⟩ := eq_of_skipBlanks hskip
      split at h
      · obtain ⟨rfl, rfl⟩ := constant_ok_iff.mp h
        exact ⟨bl, _, hbl, .true, by rw [‹b = _›, List.cons_append]⟩
      split at h
      · obtain ⟨rfl, rfl⟩ := constant_ok_iff.mp h
        exact ⟨bl, _, hbl, .false, by rw [‹b = _›, List.cons_append]⟩
      · exact absurd h wrongType_ne_ok
  complete {w rest b} h _ _ := by
    obtain rfl := spells_bool_iff.mp h
    cases b with
    | true =>
      show flag (0x74 :: (trueTail ++ rest)) = _
      rw [flag, skipBlanks_cons rfl]
      show constant true trueTail (trueTail ++ rest) = _
      exact constant_ok_iff.mpr ⟨rfl, rfl⟩
    | false =>
      show flag (0x66 :: (falseTail ++ rest)) = _
      rw [flag, skipBlanks_cons rfl]
      show constant false falseTail (falseTail ++ rest) = _
      exact constant_ok_iff.mpr ⟨rfl, rfl⟩
  opens := Spells.opens

theorem Reads.of_iff {α : Type} {steps : Nat} {read : Reader α} {Spelled Spelled' : List UInt8 → α → Prop}
    (reads : Reads steps read Spelled) (h : ∀ w a, Spelled' w a ↔ Spelled w a) : Reads steps read Spelled' := by
  obtain rfl : Spelled' = Spelled := funext fun w => funext fun a => propext (h w a)
  exact reads

theorem Reads.map {α β : Type} {steps : Nat} {read : Reader α} {Spelled : List UInt8 → α → Prop}
    (reads : Reads steps read Spelled) {f : α → β} {Spelled' : List UInt8 → β → Prop}
    (h : ∀ w b, Spelled' w b ↔ ∃ a, Spelled w a ∧ b = f a) : Reads steps (mapReader f read) Spelled' where
  blanks input hbl := by rw [mapReader, mapReader, reads.blanks input hbl]
  sound hread := by
    obtain ⟨a, ha, rfl⟩ := mapReader_ok_iff.mp hread
    obtain ⟨bl, w, hbl, hw, rfl⟩ := reads.sound ha
    exact ⟨bl, w, hbl, (h w _).mpr ⟨a, hw, rfl⟩, rfl⟩
  complete hw hrest hsteps := by
    obtain ⟨a, ha, rfl⟩ := (h _ _).mp hw
    exact mapReader_ok_iff.mpr ⟨a, reads.complete ha hrest hsteps, rfl⟩
  opens hw := by
    obtain ⟨a, ha, -⟩ := (h _ _).mp hw
    exact reads.opens ha

theorem Reads.optional {α : Type} {steps : Nat} {read : Reader α} {Spelled : List UInt8 → α → Prop}
    (reads : Reads steps read Spelled) (hnull : ∀ {w a}, Spelled w a → w.head? ≠ some 0x6e)
    {Spelled' : List UInt8 → Option α → Prop} (hnone : ∀ w, Spelled' w none ↔ Spells 0 w .null)
    (hsome : ∀ w a, Spelled' w (some a) ↔ Spelled w a) : Reads steps (optional read) Spelled' where
  blanks input hbl := by rw [Json.optional, Json.optional, skipBlanks_blanks hbl]
  sound {input rest o} h := by
    rw [Json.optional] at h
    split at h
    · rename_i hskip
      obtain ⟨a, ha, rfl⟩ := mapReader_ok_iff.mp h
      obtain ⟨bl, w, hbl, hw, hsplit⟩ := reads.sound ha
      obtain ⟨b, v, rfl, -⟩ := reads.opens hw
      have hlength := congrArg List.length hsplit
      simp only [List.length_nil, List.length_append, List.length_cons] at hlength
      omega
    · rename_i b r hskip
      obtain ⟨bl, hbl, -, rfl⟩ := eq_of_skipBlanks hskip
      split at h
      · obtain ⟨rfl, rfl⟩ := constant_ok_iff.mp h
        exact ⟨bl, _, hbl, (hnone _).mpr .null, by rw [‹b = _›, List.cons_append]⟩
      · obtain ⟨a, ha, rfl⟩ := mapReader_ok_iff.mp h
        obtain ⟨bl', w, hbl', hw, hsplit⟩ := reads.sound ha
        exact ⟨bl ++ bl', w, blanks_append hbl hbl', (hsome w a).mpr hw, by rw [hsplit, List.append_assoc]⟩
  complete {w rest o} h hrest hsteps := by
    cases o with
    | none =>
      obtain rfl := spells_null_iff.mp ((hnone w).mp h)
      rw [Json.optional, List.cons_append, skipBlanks_cons rfl]
      show constant none nullTail (nullTail ++ rest) = _
      exact constant_ok_iff.mpr ⟨rfl, rfl⟩
    | some a =>
      have hw := (hsome w a).mp h
      have hread : mapReader some read (w ++ rest) = .ok (some a, rest) :=
        mapReader_ok_iff.mpr ⟨a, reads.complete hw hrest hsteps, rfl⟩
      obtain ⟨b, v, rfl, hb, -⟩ := reads.opens hw
      have hne : b ≠ 0x6e := fun hb => hnull hw (congrArg some hb)
      rw [Json.optional, List.cons_append, skipBlanks_cons hb]
      simp only [if_neg hne]
      exact hread
  opens {w o} h := by
    cases o with
    | none => exact ((hnone w).mp h).opens
    | some a => exact reads.opens ((hsome w a).mp h)

/-! ### Records -/

/-- A field and its place in the draft. -/
structure Slot (σ : Type) where
  Value : Type
  name : String
  get : σ → Option Value
  set : σ → Value → σ
  read : Reader Value
  Spelled : List UInt8 → Value → Prop

namespace Slot

variable {σ : Type}

/-- The field that is read into the slot. -/
def field (s : Slot σ) : Field σ := .of s.name s.get s.set s.read

/-- The bytes spell what the draft has in the slot. -/
def Kept (s : Slot σ) (draft : σ) (w : List UInt8) : Prop := ∃ v, s.get draft = some v ∧ s.Spelled w v

/-- The field with the value that the draft has. -/
def entry (s : Slot σ) (draft : σ) : FieldEntry := ⟨s.name, s.Kept draft, s.get draft = none⟩

end Slot

/-- The slots of a draft are apart from each other and are all that the draft holds. -/
structure Slots {σ : Type} (slots : List (Slot σ)) (empty : σ) (steps : Nat) : Prop where
  reads : ∀ s ∈ slots, Reads steps s.read s.Spelled
  get_set : ∀ s ∈ slots, ∀ draft v, s.get (s.set draft v) = some v
  get_set_ne : ∀ s ∈ slots, ∀ t ∈ slots, s.name ≠ t.name → ∀ draft v, t.get (s.set draft v) = t.get draft
  ext : ∀ draft draft', (∀ s ∈ slots, s.get draft = s.get draft') → draft = draft'
  empty : ∀ s ∈ slots, s.get empty = none
  distinct : (slots.map Slot.name).Nodup

/-- What the members that are still to be read make of a slot. -/
def Slot.Due {σ : Type} (s : Slot σ) (draft : σ) (ms : List (Member String)) (final : σ) : Prop :=
  (membersOf s.name ms = [] ∧ s.get final = s.get draft) ∨
    (s.get draft = none ∧ ∃ w, membersOf s.name ms = [⟨s.name, w⟩] ∧ s.Kept final w)

theorem membersOf_cons_self (name : String) (w : List UInt8) (ms : List (Member String)) :
    membersOf name (⟨name, w⟩ :: ms) = ⟨name, w⟩ :: membersOf name ms := by
  simp [membersOf]

theorem membersOf_cons_ne {name other : String} (h : other ≠ name) (w : List UInt8) (ms : List (Member String)) :
    membersOf name (⟨other, w⟩ :: ms) = membersOf name ms := by
  simp [membersOf, h]

section Records

variable {σ : Type} {slots : List (Slot σ)} {empty : σ} {steps : Nat}

theorem find?_field {name : String} {f : Field σ} (h : (slots.map Slot.field).find? (·.name = name) = some f) :
    ∃ s ∈ slots, s.name = name ∧ f = s.field := by
  have hname := List.find?_some h
  obtain ⟨s, hs, rfl⟩ := List.mem_map.mp (List.mem_of_find?_eq_some h)
  exact ⟨s, hs, of_decide_eq_true hname, rfl⟩

theorem find?_field_eq_none {name : String} :
    (slots.map Slot.field).find? (·.name = name) = none ↔ ∀ s ∈ slots, s.name ≠ name := by
  simp only [List.find?_eq_none, List.forall_mem_map, decide_eq_true_iff]
  exact Iff.rfl

theorem eq_of_name {s t : Slot σ} (h : (slots.map Slot.name).Nodup) (hs : s ∈ slots) (ht : t ∈ slots)
    (hname : s.name = t.name) : s = t := by
  exact List.inj_on_of_nodup_map h hs ht hname

/-- A member of a field that is not set yet fills its slot. -/
theorem Slots.due_cons (h : Slots slots empty steps) {s : Slot σ} (hs : s ∈ slots) {draft final : σ} {v : s.Value}
    {w : List UInt8} {ms : List (Member String)} (hnone : s.get draft = none) (hw : s.Spelled w v)
    (due : ∀ t ∈ slots, t.Due (s.set draft v) ms final) : ∀ t ∈ slots, t.Due draft (⟨s.name, w⟩ :: ms) final := by
  intro t ht
  by_cases hname : s.name = t.name
  · obtain rfl := eq_of_name h.distinct hs ht hname
    obtain ⟨hnil, hget⟩ | ⟨hset, -⟩ := due s hs
    · rw [h.get_set s hs] at hget
      exact .inr ⟨hnone, w, by rw [membersOf_cons_self, hnil], v, hget, hw⟩
    · rw [h.get_set s hs] at hset
      cases hset
  · have hget := h.get_set_ne s hs t ht hname draft v
    rw [Slot.Due, membersOf_cons_ne hname, ← hget]
    exact due t ht

theorem fieldsByName_sound (h : Slots slots empty steps) {passSteps n : Nat} {first : Bool} {draft final : σ}
    {input rest : List UInt8}
    (hread : fieldsByName (slots.map Slot.field) passSteps first n draft input = .ok (final, rest)) :
    ∃ c ms, Named SpellsText first c ms ∧ (∀ s ∈ slots, s.Due draft ms final) ∧
      (∀ m ∈ ms, (∀ s ∈ slots, s.name ≠ m.name) → Passed m.bytes) ∧ input = c ++ rest := by
  induction n generalizing first draft input with
  | zero => cases hread
  | succ n ih =>
    rw [fieldsByName] at hread
    split at hread
    · cases hread
    · rename_i r hnext
      obtain ⟨w, v, hw, rfl, rfl⟩ := nextMember_close hnext
      cases hread
      exact ⟨w ++ [0x7d], [], .close hw, fun s _ => .inl ⟨rfl, rfl⟩, nofun, List.append_cons w 0x7d v⟩
    · rename_i r hnext
      obtain ⟨lead, hlead, rfl⟩ := nextMember_item hnext
      split at hread
      · cases hread
      · rename_i name r' hname
        obtain ⟨t, ht, rfl⟩ := Scan.string_ok_iff.mp hname
        split at hread
        · rename_i f hfind
          obtain ⟨s, hs, rfl, rfl⟩ := find?_field hfind
          split at hread
          · cases hread
          · rename_i hset
            split at hread
            · cases hread
            · rename_i r'' hcolon
              obtain ⟨bl, hbl, rfl⟩ := colon_ok_iff.mp hcolon
              split at hread
              · cases hread
              · rename_i draft' after hvalue
                obtain ⟨v, hv, rfl⟩ := mapReader_ok_iff.mp hvalue
                obtain ⟨bl', w, hbl', hw, rfl⟩ := (h.reads s hs).sound hv
                obtain ⟨c, ms, named, due, passed, rfl⟩ := ih hread
                have hnone : s.get draft = none := Option.not_isSome_iff_eq_none.mp hset
                refine ⟨_, ⟨s.name, w⟩ :: ms, .member hlead ht hbl hbl' named, h.due_cons hs hnone hw due, ?_, ?_⟩
                · exact List.forall_mem_cons.mpr ⟨fun hother => absurd rfl (hother s hs), passed⟩
                · simp only [List.append_assoc, List.cons_append]
        · rename_i hfind
          split at hread
          · cases hread
          · rename_i r'' hcolon
            obtain ⟨bl, hbl, rfl⟩ := colon_ok_iff.mp hcolon
            split at hread
            · cases hread
            · rename_i after hpass
              obtain ⟨bl', w, hbl', hw, rfl⟩ := passes_sound hpass
              obtain ⟨c, ms, named, due, passed, rfl⟩ := ih hread
              have hother := find?_field_eq_none.mp hfind
              refine ⟨_, ⟨name, w⟩ :: ms, .member hlead ht hbl hbl' named, fun s hs => ?_,
                List.forall_mem_cons.mpr ⟨fun _ => hw, passed⟩, ?_⟩
              · rw [Slot.Due, membersOf_cons_ne (Ne.symm (hother s hs))]
                exact due s hs
              · simp only [List.append_assoc, List.cons_append]

/-- The slot of a field that comes next is not set yet, and the field does not come again. -/
theorem Slots.due_of_cons (h : Slots slots empty steps) {s : Slot σ} (hs : s ∈ slots) {draft final : σ}
    {w : List UInt8} {ms : List (Member String)} (due : ∀ t ∈ slots, t.Due draft (⟨s.name, w⟩ :: ms) final) :
    s.get draft = none ∧ ∃ v, s.Spelled w v ∧ ∀ t ∈ slots, t.Due (s.set draft v) ms final := by
  obtain ⟨hnil, -⟩ | ⟨hnone, w', honce, v, hfinal, hw⟩ := due s hs
  · rw [membersOf_cons_self] at hnil
    cases hnil
  · rw [membersOf_cons_self] at honce
    obtain ⟨hmember, hnil⟩ := List.cons.inj honce
    cases hmember
    refine ⟨hnone, v, hw, fun t ht => ?_⟩
    by_cases hname : s.name = t.name
    · obtain rfl := eq_of_name h.distinct hs ht hname
      exact .inl ⟨hnil, by rw [h.get_set s hs, hfinal]⟩
    · have hdue := due t ht
      rw [Slot.Due, membersOf_cons_ne hname, ← h.get_set_ne s hs t ht hname draft v] at hdue
      exact hdue

theorem fieldsByName_complete (h : Slots slots empty steps) {n : Nat} {first : Bool} {draft final : σ}
    {c rest : List UInt8} {ms : List (Member String)} (named : Named SpellsText first c ms)
    (due : ∀ s ∈ slots, s.Due draft ms final)
    (passed : ∀ m ∈ ms, (∀ s ∈ slots, s.name ≠ m.name) → Passed m.bytes) (hn : (c ++ rest).length < n)
    (hsteps : (c ++ rest).length < steps) :
    fieldsByName (slots.map Slot.field) steps first n draft (c ++ rest) = .ok (final, rest) := by
  induction n generalizing first draft c ms with
  | zero => exact absurd hn (Nat.not_lt_zero _)
  | succ n ih =>
    cases named with
    | close blanks =>
      have hfinal : draft = final := h.ext draft final fun s hs => by
        obtain ⟨-, hget⟩ | ⟨-, _, hnil, -⟩ := due s hs
        · exact hget.symm
        · cases hnil
      rw [List.append_assoc, List.singleton_append, fieldsByName, nextMember_of_close blanks, hfinal]
      rfl
    | @member _ lead t w w' v c name ms leads names blanks blanks' named =>
      obtain ⟨hpassed, hothers⟩ := List.forall_mem_cons.mp passed
      simp only [List.append_assoc, List.cons_append, List.length_append, List.length_cons] at hn hsteps ⊢
      rw [fieldsByName, nextMember_of_item leads]
      simp only [Scan.string_ok_iff.mpr ⟨t, names, rfl⟩, colon_ok_iff.mpr ⟨w, blanks, rfl⟩]
      cases hfind : (slots.map Slot.field).find? (·.name = name) with
      | some f =>
        obtain ⟨s, hs, rfl, rfl⟩ := find?_field hfind
        obtain ⟨hnone, a, ha, due⟩ := h.due_of_cons hs due
        have hset : ¬s.field.isSet draft = true := Option.not_isSome_iff_eq_none.mpr hnone
        have hread : s.field.read draft (w' ++ (v ++ (c ++ rest))) = .ok (s.set draft a, c ++ rest) := by
          refine mapReader_ok_iff.mpr ⟨a, ?_, rfl⟩
          rw [(h.reads s hs).blanks _ blanks']
          exact (h.reads s hs).complete ha (named.delimited rest) (by simp only [List.length_append]; omega)
        simp only [if_neg hset, hread]
        exact ih named due hothers (by rw [List.length_append]; omega) (by rw [List.length_append]; omega)
      | none =>
        have hother := find?_field_eq_none.mp hfind
        have hpass : passValue steps [] (w' ++ (v ++ (c ++ rest))) = .ok (c ++ rest) :=
          passes_complete blanks' (hpassed hother) (named.delimited rest) (by simp only [List.length_append]; omega)
        simp only [hpass]
        refine ih named (fun s hs => ?_) hothers (by rw [List.length_append]; omega) (by rw [List.length_append]; omega)
        have hdue := due s hs
        rwa [Slot.Due, membersOf_cons_ne (Ne.symm (hother s hs))] at hdue

theorem closeList_ok_iff {input rest : List UInt8} :
    closeList input = .ok rest ↔ ∃ w, Blanks w ∧ input = w ++ 0x5d :: rest := by
  constructor
  · intro h
    rw [closeList] at h
    split at h
    · cases h
    · rename_i b r hskip
      obtain ⟨w, hw, -, rfl⟩ := eq_of_skipBlanks hskip
      split at h
      · rename_i hb
        cases h
        exact ⟨w, hw, hb ▸ rfl⟩
      · split at h
        · split at h
          · cases h
          · split at h <;> cases h
        · cases h
  · rintro ⟨w, hw, rfl⟩
    rw [closeList, skipBlanks_lead hw rfl]
    rfl

theorem fieldsInOrder_sound (h : Slots slots empty steps) {expected : String} {count : Nat} {ss : List (Slot σ)}
    (hss : ∀ s ∈ ss, s ∈ slots) (hdistinct : (ss.map Slot.name).Nodup) {draft final : σ} {input r rest : List UInt8}
    (hread : fieldsInOrder expected count (ss.map Slot.field) draft input = .ok (final, r))
    (hclose : closeList r = .ok rest) :
    ∃ c ws, Listed (decide (count = 0)) c ws ∧ List.Forall₂ (fun w s => Slot.Kept s final w) ws ss ∧
      (∀ t ∈ slots, (∀ s ∈ ss, s.name ≠ t.name) → t.get final = t.get draft) ∧ input = c ++ rest := by
  induction ss generalizing count draft input with
  | nil =>
    cases hread
    obtain ⟨w, hw, rfl⟩ := closeList_ok_iff.mp hclose
    exact ⟨w ++ [0x5d], [], .close hw, .nil, fun _ _ _ => rfl, List.append_cons w 0x5d rest⟩
  | cons s ss ih =>
    obtain ⟨hs, hss⟩ := List.forall_mem_cons.mp hss
    obtain ⟨hnot, hdistinct⟩ := List.nodup_cons.mp hdistinct
    rw [List.map_cons, fieldsInOrder] at hread
    split at hread
    · cases hread
    · cases hread
    · rename_i r' hnext
      obtain ⟨lead, hlead, rfl⟩ := nextItem_item hnext
      split at hread
      · cases hread
      · rename_i draft' after hvalue
        obtain ⟨v, hv, rfl⟩ := mapReader_ok_iff.mp hvalue
        obtain ⟨bl, w, hbl, hw, rfl⟩ := (h.reads s hs).sound hv
        obtain ⟨c, ws, listed, kept, hget, rfl⟩ := ih hss hdistinct hread
        have hapart : ∀ t ∈ ss, t.name ≠ s.name := fun t ht hname => hnot (hname ▸ List.mem_map_of_mem ht)
        refine ⟨(lead ++ bl) ++ (w ++ c), w :: ws, .item (hlead.append_blanks hbl) listed,
          .cons ⟨v, by rw [hget s hs hapart, h.get_set s hs], hw⟩ kept, fun t ht hothers => ?_, ?_⟩
        · obtain ⟨hname, hothers⟩ := List.forall_mem_cons.mp hothers
          rw [hget t ht hothers, h.get_set_ne s hs t ht hname]
        · simp only [List.append_assoc]

theorem fieldsInOrder_complete (h : Slots slots empty steps) {expected : String} {count : Nat} {ss : List (Slot σ)}
    (hss : ∀ s ∈ ss, s ∈ slots) (hdistinct : (ss.map Slot.name).Nodup) {draft final : σ} {c rest : List UInt8}
    {ws : List (List UInt8)} (listed : Listed (decide (count = 0)) c ws)
    (kept : List.Forall₂ (fun w s => Slot.Kept s final w) ws ss)
    (hget : ∀ t ∈ slots, (∀ s ∈ ss, s.name ≠ t.name) → t.get final = t.get draft)
    (hsteps : (c ++ rest).length < steps) :
    ∃ r, fieldsInOrder expected count (ss.map Slot.field) draft (c ++ rest) = .ok (final, r) ∧
      closeList r = .ok rest := by
  induction ss generalizing count draft c ws with
  | nil =>
    cases kept
    cases listed with
    | @close _ w blanks =>
      obtain rfl : draft = final := h.ext draft final fun t ht => (hget t ht nofun).symm
      exact ⟨_, rfl, closeList_ok_iff.mpr ⟨w, blanks, by rw [List.append_assoc, List.singleton_append]⟩⟩
  | cons s ss ih =>
    obtain ⟨hs, hss⟩ := List.forall_mem_cons.mp hss
    obtain ⟨hnot, hdistinct⟩ := List.nodup_cons.mp hdistinct
    cases kept with
    | @cons w _ ws _ hkept kept =>
      obtain ⟨v, hfinal, hw⟩ := hkept
      cases listed with
      | @item _ lead _ c _ leads listed =>
        have hnext := nextItem_of_item leads (((h.reads s hs).opens hw).append (c ++ rest))
        simp only [List.append_assoc, List.length_append] at hsteps
        have hread : s.field.read draft (w ++ (c ++ rest)) = .ok (s.set draft v, c ++ rest) :=
          mapReader_ok_iff.mpr ⟨v, (h.reads s hs).complete hw (listed.delimited rest)
            (by simp only [List.length_append]; omega), rfl⟩
        have hrest : ∀ t ∈ slots, (∀ u ∈ ss, u.name ≠ t.name) → t.get final = t.get (s.set draft v) := by
          intro t ht hothers
          by_cases hname : s.name = t.name
          · obtain rfl := eq_of_name h.distinct hs ht hname
            rw [hfinal, h.get_set s hs]
          · rw [h.get_set_ne s hs t ht hname]
            exact hget t ht (List.forall_mem_cons.mpr ⟨hname, hothers⟩)
        rw [List.append_assoc, List.append_assoc, List.map_cons, fieldsInOrder, hnext]
        simp only [hread]
        exact @ih (count + 1) hss hdistinct _ _ _ listed kept hrest (by rw [List.length_append]; omega)

theorem Slots.holds_members (h : Slots slots empty steps) {ms : List (Member String)} {draft : σ} :
    (Contents.members ms).Holds (slots.map (·.entry draft)) ↔
      (∀ s ∈ slots, s.Due empty ms draft) ∧ ∀ m ∈ ms, (∀ s ∈ slots, s.name ≠ m.name) → Passed m.bytes := by
  have hnames : ∀ name : String, name ∉ (slots.map (·.entry draft)).map (·.name) ↔ ∀ s ∈ slots, s.name ≠ name := by
    intro name
    simp [Slot.entry]
  simp only [Contents.Holds, hnames, List.forall_mem_map]
  refine and_congr (forall₂_congr fun s hs => ?_) Iff.rfl
  rw [Slot.Due, h.empty s hs, and_iff_right rfl]
  exact or_congr and_comm Iff.rfl

theorem holds_items {ws : List (List UInt8)} {draft : σ} :
    (Contents.items ws).Holds (slots.map (·.entry draft)) ↔ List.Forall₂ (fun w s => Slot.Kept s draft w) ws slots := by
  rw [Contents.Holds, List.forall₂_map_right_iff]
  exact Iff.rfl

/-- A field that may be left out is there or is left out. -/
theorem Contents.holds_cons_iff {contents : Contents} {name : String} {Spelled : List UInt8 → Prop} {absent : Prop}
    {entries : List FieldEntry} : contents.Holds (⟨name, Spelled, absent⟩ :: entries) ↔
      contents.Holds (⟨name, Spelled, False⟩ :: entries) ∨
        absent ∧ contents.Holds (⟨name, fun _ => False, True⟩ :: entries) := by
  cases contents with
  | items ws => cases ws <;> simp [Contents.Holds]
  | members ms =>
    simp only [Contents.Holds, List.forall_mem_cons, List.map_cons]
    constructor
    · rintro ⟨⟨⟨habsent, hnil⟩ | hthere, hrest⟩, hothers⟩
      · exact .inr ⟨habsent, ⟨.inl ⟨trivial, hnil⟩, hrest⟩, hothers⟩
      · exact .inl ⟨⟨.inr hthere, hrest⟩, hothers⟩
    · rintro (⟨⟨⟨hfalse, -⟩ | hthere, hrest⟩, hothers⟩ | ⟨habsent, ⟨⟨-, hnil⟩ | ⟨w, -, hfalse⟩, hrest⟩, hothers⟩)
      · exact hfalse.elim
      · exact ⟨⟨.inr hthere, hrest⟩, hothers⟩
      · exact ⟨⟨.inl ⟨habsent, hnil⟩, hrest⟩, hothers⟩
      · exact hfalse.elim

variable {α : Type}

theorem complete_ok_iff {r : Record σ α} {draft : σ} {a : α} {input rest : List UInt8} :
    r.complete draft input = .ok (a, rest) ↔ r.finish draft = .ok a ∧ input = rest := by
  rw [Record.complete]
  cases r.finish draft with
  | error name => exact ⟨nofun, fun h => nomatch h.1⟩
  | ok b => simp only [Except.ok.injEq, Prod.mk.injEq]

/-- A record is read into slots, and what it is read as is told by its contents. -/
structure Layout (shape : Record σ α) (slots : List (Slot σ)) (steps : Nat) (Held : Contents → α → Prop) : Prop where
  apart : Slots slots shape.empty steps
  fields : shape.fields = slots.map Slot.field
  finish : ∀ contents a,
    Held contents a ↔ ∃ draft, shape.finish draft = .ok a ∧ contents.Holds (slots.map (·.entry draft))

/-- A record that is finished only from a draft of its own fields holds just these. -/
theorem held_iff {shape : Record σ α} {P : α → Prop} {entries : α → List FieldEntry}
    (back : ∀ draft a, shape.finish draft = .ok a → P a ∧ slots.map (·.entry draft) = entries a)
    (forth : ∀ a, P a → ∃ draft, shape.finish draft = .ok a) (contents : Contents) (a : α) :
    P a ∧ contents.Holds (entries a) ↔
      ∃ draft, shape.finish draft = .ok a ∧ contents.Holds (slots.map (·.entry draft)) := by
  constructor
  · rintro ⟨ha, h⟩
    obtain ⟨draft, hfinish⟩ := forth a ha
    exact ⟨draft, hfinish, (back draft a hfinish).2 ▸ h⟩
  · rintro ⟨draft, hfinish, h⟩
    obtain ⟨ha, hentries⟩ := back draft a hfinish
    exact ⟨ha, hentries ▸ h⟩

section Layouts

variable {d : Nat} {shape : Nat → Record σ α} {Held : Contents → α → Prop}

theorem record_sound (layout : Layout (shape d) slots steps Held) {input rest : List UInt8} {a : α}
    (h : record steps (d + 1) shape input = .ok (a, rest)) :
    ∃ bl w contents, Blanks bl ∧ Contents.Written w contents ∧ Held contents a ∧ input = bl ++ (w ++ rest) := by
  rw [record] at h
  split at h
  · cases h
  · rename_i b r hskip
    obtain ⟨bl, hbl, -, rfl⟩ := eq_of_skipBlanks hskip
    split at h
    · simp only at h
      split at h
      · cases h
      · rename_i draft r' hfields
        split at h
        · cases h
        · rename_i r'' hclose
          obtain ⟨hfinish, rfl⟩ := complete_ok_iff.mp h
          rw [layout.fields] at hfields
          obtain ⟨c, ws, listed, kept, -, rfl⟩ :=
            fieldsInOrder_sound layout.apart (fun _ hs => hs) layout.apart.distinct hfields hclose
          have held := (layout.finish _ _).mpr ⟨draft, hfinish, holds_items.mpr kept⟩
          exact ⟨bl, 0x5b :: c, .items ws, hbl, .list listed, held, by rw [‹b = _›, List.cons_append]⟩
    · split at h
      · simp only at h
        split at h
        · cases h
        · rename_i draft r' hfields
          obtain ⟨hfinish, rfl⟩ := complete_ok_iff.mp h
          rw [layout.fields] at hfields
          obtain ⟨c, ms, named, due, passed, rfl⟩ := fieldsByName_sound layout.apart hfields
          have held := (layout.finish _ _).mpr ⟨draft, hfinish, layout.apart.holds_members.mpr ⟨due, passed⟩⟩
          exact ⟨bl, 0x7b :: c, .members ms, hbl, .object named, held, by rw [‹b = _›, List.cons_append]⟩
      · exact absurd h wrongType_ne_ok

theorem record_complete (layout : Layout (shape d) slots steps Held) {w rest : List UInt8} {contents : Contents} {a : α}
    (written : Contents.Written w contents) (held : Held contents a) (hsteps : (w ++ rest).length < steps) :
    record steps (d + 1) shape (w ++ rest) = .ok (a, rest) := by
  obtain ⟨draft, hfinish, holds⟩ := (layout.finish _ _).mp held
  cases written with
  | @object c ms named =>
    obtain ⟨due, passed⟩ := layout.apart.holds_members.mp holds
    have hc : (c ++ rest).length < steps := Nat.lt_trans (Nat.lt_succ_self _) hsteps
    have hfields := fieldsByName_complete layout.apart named due passed hc hc
    rw [← layout.fields] at hfields
    rw [record, List.cons_append, skipBlanks_cons rfl]
    simp [hfields, complete_ok_iff.mpr ⟨hfinish, rfl⟩]
  | @list c ws listed =>
    have hc : (c ++ rest).length < steps := Nat.lt_trans (Nat.lt_succ_self _) hsteps
    obtain ⟨r, hfields, hclose⟩ : ∃ r, fieldsInOrder (shape d).expectedLength 0 (slots.map Slot.field) (shape d).empty
        (c ++ rest) = .ok (draft, r) ∧ closeList r = .ok rest :=
      fieldsInOrder_complete layout.apart (fun _ hs => hs) layout.apart.distinct listed (holds_items.mp holds)
        (fun t ht hothers => absurd rfl (hothers t ht)) hc
    rw [← layout.fields] at hfields
    rw [record, List.cons_append, skipBlanks_cons rfl]
    simp [hfields, hclose, complete_ok_iff.mpr ⟨hfinish, rfl⟩]

/-- A record is read just if it is an object or a list that holds what is read. -/
theorem reads_record (layout : Layout (shape d) slots steps Held) :
    Reads steps (record steps (d + 1) shape) fun w a => ∃ contents, Contents.Written w contents ∧ Held contents a where
  blanks input h := by rw [record, record, skipBlanks_blanks h]
  sound {input rest a} h := by
    obtain ⟨bl, w, contents, hbl, written, held, rfl⟩ := record_sound layout h
    exact ⟨bl, w, hbl, ⟨contents, written, held⟩, rfl⟩
  complete {w rest a} h hrest hsteps := by
    obtain ⟨contents, written, held⟩ := h
    exact record_complete layout written held hsteps
  opens {w a} h := by
    obtain ⟨contents, written, -⟩ := h
    cases written <;> exact ⟨_, _, rfl, rfl, by decide⟩

end Layouts

end Records

/-! ### Variants and documents -/

section Variants

variable {α : Type} {steps d : Nat} {variants : List (Variant α)} {Spelled : String → List UInt8 → α → Prop}

theorem of_find?_variant {name : String} {v : Variant α} (h : variants.find? (·.name = name) = some v) :
    v ∈ variants ∧ v.name = name := by
  have hname := List.find?_some h
  exact ⟨List.mem_of_find?_eq_some h, of_decide_eq_true hname⟩

theorem exists_find?_variant {name : String} (h : ∃ v ∈ variants, v.name = name) :
    ∃ v, variants.find? (·.name = name) = some v := by
  obtain ⟨v, hv, hname⟩ := h
  rw [← Option.isSome_iff_exists, List.find?_isSome]
  exact ⟨v, hv, decide_eq_true hname⟩

theorem variant_sound (reads : ∀ v ∈ variants, Reads steps (v.contents d) (Spelled v.name)) {input rest : List UInt8}
    {a : α} (h : variant (d + 1) variants input = .ok (a, rest)) :
    ∃ bl c name p, Blanks bl ∧ Named SpellsText true c [⟨name, p⟩] ∧ Spelled name p a ∧
      input = bl ++ 0x7b :: (c ++ rest) := by
  rw [variant] at h
  split at h
  · cases h
  · rename_i b r hskip
    obtain ⟨bl, hbl, -, rfl⟩ := eq_of_skipBlanks hskip
    split at h
    · simp only at h
      split at h
      · cases h
      · rename_i q r' hskip'
        obtain ⟨lead, hlead, -, rfl⟩ := eq_of_skipBlanks hskip'
        split at h
        · split at h
          · cases h
          · rename_i name r'' hname
            obtain ⟨t, ht, rfl⟩ := Scan.string_ok_iff.mp hname
            split at h
            · cases h
            · rename_i v hfind
              obtain ⟨hv, rfl⟩ := of_find?_variant hfind
              split at h
              · cases h
              · rename_i r₃ hcolon
                obtain ⟨w, hw, rfl⟩ := colon_ok_iff.mp hcolon
                split at h
                · cases h
                · rename_i a' r₄ hcontents
                  obtain ⟨w', p, hw', hp, rfl⟩ := (reads v hv).sound hcontents
                  split at h
                  · cases h
                  · rename_i c after hskip''
                    obtain ⟨w'', hw'', -, rfl⟩ := eq_of_skipBlanks hskip''
                    split at h
                    · rename_i hc
                      cases h
                      refine ⟨bl, _, v.name, p, hbl, .member (.first hlead) ht hw hw' (.close hw''), hp, ?_⟩
                      simp only [‹b = _›, ‹q = _›, hc, List.append_assoc, List.cons_append, List.nil_append]
                    · cases h
        · split at h <;> cases h
    · split at h
      · split at h
        · cases h
        · split at h <;> cases h
      · cases h

theorem variant_complete (reads : ∀ v ∈ variants, Reads steps (v.contents d) (Spelled v.name))
    (known : ∀ {name w a}, Spelled name w a → ∃ v ∈ variants, v.name = name) {c p rest : List UInt8} {name : String}
    {a : α} (named : Named SpellsText true c [⟨name, p⟩]) (hp : Spelled name p a) (hsteps : (c ++ rest).length < steps) :
    variant (d + 1) variants (0x7b :: (c ++ rest)) = .ok (a, rest) := by
  obtain ⟨v, hfind⟩ := exists_find?_variant (known hp)
  obtain ⟨hv, rfl⟩ := of_find?_variant hfind
  cases named with
  | @member _ lead t w w' _ c _ _ leads names blanks blanks' named =>
    cases leads with
    | first hlead =>
      cases named with
      | @close _ w'' blanks'' =>
        have hdelimited : Delimited (w'' ++ 0x7d :: rest) :=
          delimited_blanks blanks'' (delimited_cons (.inr (.inr rfl)) rest)
        simp only [List.append_assoc, List.cons_append, List.nil_append, List.length_append, List.length_cons]
          at hsteps ⊢
        have hcontents : v.contents d (w' ++ (p ++ (w'' ++ 0x7d :: rest))) = .ok (a, w'' ++ 0x7d :: rest) := by
          rw [(reads v hv).blanks _ blanks']
          exact (reads v hv).complete hp hdelimited (by simp only [List.length_append, List.length_cons]; omega)
        rw [variant, skipBlanks_cons rfl]
        simp [skipBlanks_lead hlead (show isBlank 0x22 = false from rfl), Scan.string_ok_iff.mpr ⟨t, names, rfl⟩,
          hfind, colon_ok_iff.mpr ⟨w, blanks, rfl⟩, hcontents,
          skipBlanks_lead blanks'' (show isBlank 0x7d = false from rfl)]

/-- A variant is read just if it is an object of one member, which is named for a variant and holds its contents. -/
theorem reads_variant (reads : ∀ v ∈ variants, Reads steps (v.contents d) (Spelled v.name))
    (known : ∀ {name w a}, Spelled name w a → ∃ v ∈ variants, v.name = name) :
    Reads steps (variant (d + 1) variants) fun w a =>
      ∃ c name p, w = 0x7b :: c ∧ Named SpellsText true c [⟨name, p⟩] ∧ Spelled name p a where
  blanks input h := by rw [variant, variant, skipBlanks_blanks h]
  sound {input rest a} h := by
    obtain ⟨bl, c, name, p, hbl, named, hp, rfl⟩ := variant_sound reads h
    exact ⟨bl, 0x7b :: c, hbl, ⟨c, name, p, rfl, named, hp⟩, rfl⟩
  complete {w rest a} h hrest hsteps := by
    obtain ⟨c, name, p, rfl, named, hp⟩ := h
    exact variant_complete reads known named hp (Nat.lt_trans (Nat.lt_succ_self _) hsteps)
  opens {w a} h := by
    obtain ⟨c, name, p, rfl, -⟩ := h
    exact ⟨_, _, rfl, rfl, by decide⟩

end Variants

/-- A document is what it spells, with nothing but blanks around it. -/
theorem document_ok_iff {α : Type} {reader : Nat → Reader α} {Spelled : List UInt8 → α → Prop}
    (reads : ∀ steps, Reads steps (reader steps) Spelled) {bytes : List UInt8} {a : α} :
    document reader bytes = .ok a ↔
      ∃ bl w bl', Blanks bl ∧ Spelled w a ∧ Blanks bl' ∧ bytes = bl ++ (w ++ bl') := by
  constructor
  · intro h
    rw [document] at h
    split at h
    · cases h
    · rename_i a' rest hread
      obtain ⟨bl, w, hbl, hw, rfl⟩ := (reads _).sound hread
      split at h
      · rename_i hskip
        cases h
        exact ⟨bl, w, rest, hbl, hw, blanks_of_skipBlanks hskip, rfl⟩
      · cases h
  · rintro ⟨bl, w, bl', hbl, hw, hbl', rfl⟩
    have hrest : Delimited bl' := by
      have := delimited_blanks hbl' delimited_nil
      rwa [List.append_nil] at this
    have hend : skipBlanks bl' = [] := by
      have := skipBlanks_blanks hbl' []
      rwa [List.append_nil] at this
    rw [document, (reads _).blanks _ hbl, (reads _).complete hw hrest (by simp only [List.length_append]; omega)]
    simp only [hend]

end Pinboard.Json
