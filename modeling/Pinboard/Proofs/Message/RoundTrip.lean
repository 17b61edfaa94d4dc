import Pinboard.Proofs.Json.Numerals
import Pinboard.Proofs.Message.Documents

/-! Writing a message and reading it again. A message whose free value is plain is written as one of its documents, so it is
    read back if it does not nest too deep. What was read from a text of whole numbers is such a message. -/

namespace Pinboard

open Json (FieldEntry Contents Spells SpellsText SpellsVariant Named Document Reads Plain WrittenAs Passed numerals
  WholeText)

namespace Json

/-! ### Records that are written -/

theorem membersOf_of_mem {ι : Type} {name : ι → String} {ms : List (ι × List UInt8)}
    (distinct : (ms.map fun m => name m.1).Nodup) {m : ι × List UInt8} (hm : m ∈ ms) :
    membersOf (name m.1) (ms.map fun m => ⟨name m.1, m.2⟩) = [⟨name m.1, m.2⟩] := by
  induction ms with
  | nil => cases hm
  | cons n ms ih =>
    obtain ⟨hnot, distinct⟩ := List.nodup_cons.mp distinct
    have hmap : ∀ k ∈ ms, name k.1 ∈ ms.map fun m => name m.1 :=
      fun k hk => List.mem_map.mpr ⟨k, hk, rfl⟩
    rw [List.map_cons]
    rcases List.mem_cons.mp hm with rfl | hm
    · have hnil : membersOf (name m.1) (ms.map fun m => ⟨name m.1, m.2⟩) = [] := by
        refine List.filter_eq_nil_iff.mpr fun member hmember => ?_
        obtain ⟨k, hk, rfl⟩ := List.mem_map.mp hmember
        intro heq
        have hname : name k.1 = name m.1 := of_decide_eq_true heq
        exact hnot (show name m.1 ∈ _ from hname ▸ hmap k hk)
      rw [membersOf_cons_self, hnil]
    · have hne : name n.1 ≠ name m.1 := fun heq => hnot (show name n.1 ∈ _ from heq ▸ hmap m hm)
      rw [membersOf_cons_ne hne, ih distinct hm]

/-- A record is written as an object of its fields. -/
theorem exists_record {xs : List (FieldEntry × Json)} (distinct : (xs.map fun x => x.1.name).Nodup)
    (h : ∀ x ∈ xs, ∃ w, x.1.Spelled w ∧ WrittenAs x.2 w) :
    ∃ w contents, Contents.Written w contents ∧ contents.Holds (xs.map (·.1)) ∧
      WrittenAs (.object (xs.map fun x => (x.1.name, x.2))) w := by
  obtain ⟨c, ms, rfl, named, spelled, hc⟩ := @exists_members _ (fun x : FieldEntry × Json => x.1.name) (·.2)
    (fun x w => x.1.Spelled w) _ h true
  refine ⟨_, _, .object named, ⟨fun e he => .inr ?_, fun m hm hother => ?_⟩, .object hc⟩
  · obtain ⟨x, hx, rfl⟩ := List.mem_map.mp he
    obtain ⟨m, hm, rfl⟩ := List.mem_map.mp hx
    rw [List.map_map] at distinct
    exact ⟨m.2, @membersOf_of_mem _ (fun x : FieldEntry × Json => x.1.name) ms distinct m hm, spelled m hm⟩
  · obtain ⟨k, hk, rfl⟩ := List.mem_map.mp hm
    exact absurd (List.mem_map.mpr ⟨k.1.1, List.mem_map_of_mem (List.mem_map_of_mem hk), rfl⟩) hother

theorem exists_variant {name : String} {xs : List (FieldEntry × Json)} (distinct : (xs.map fun x => x.1.name).Nodup)
    (h : ∀ x ∈ xs, ∃ w, x.1.Spelled w ∧ WrittenAs x.2 w) :
    ∃ w, SpellsVariant name (xs.map (·.1)) w ∧
      WrittenAs (.object [(name, .object (xs.map fun x => (x.1.name, x.2)))]) w := by
  obtain ⟨p, contents, written, holds, hp⟩ := exists_record distinct h
  obtain ⟨c, ms, hms, named, spelled, hc⟩ := @exists_members _ (fun _ : Unit => name)
    (fun _ => .object (xs.map fun x => (x.1.name, x.2))) (fun _ w => w = p) [()] (fun _ _ => ⟨p, rfl, hp⟩) true
  obtain ⟨m, rfl⟩ : ∃ m, ms = [m] := by
    match ms, hms with
    | [m], _ => exact ⟨m, rfl⟩
  obtain hm : m.2 = p := spelled m List.mem_cons_self
  refine ⟨_, ⟨_, p, contents, rfl, ?_, written, holds⟩, .object hc⟩
  rwa [List.map_singleton, hm] at named

theorem exists_text (s : String) : ∃ w, Spells 0 w (.string s) ∧ WrittenAs (.string s) w :=
  (Plain.string s).exists_written (Nat.le_refl 0)

/-! ### Fields of records -/

/-- Whatever is a field as the first says is one as the second says. -/
def FieldEntry.Below (e e' : FieldEntry) : Prop :=
  e.name = e'.name ∧ (e.absent → e'.absent) ∧ ∀ w, e.Spelled w → e'.Spelled w

theorem FieldEntry.Below.refl (e : FieldEntry) : e.Below e := ⟨rfl, id, fun _ => id⟩

section Below

variable {entries entries' : List FieldEntry}

theorem map_name_of_below (below : List.Forall₂ FieldEntry.Below entries entries') :
    entries.map (·.name) = entries'.map (·.name) := by
  induction below with
  | nil => rfl
  | cons hbelow _ ih => rw [List.map_cons, List.map_cons, hbelow.1, ih]

theorem exists_below (below : List.Forall₂ FieldEntry.Below entries entries') :
    ∀ e' ∈ entries', ∃ e ∈ entries, e.Below e' := by
  induction below with
  | nil => exact nofun
  | cons hbelow _ ih =>
    refine List.forall_mem_cons.mpr ⟨⟨_, List.mem_cons_self, hbelow⟩, fun e' he' => ?_⟩
    obtain ⟨e, he, hbelow⟩ := ih e' he'
    exact ⟨e, List.mem_cons_of_mem _ he, hbelow⟩

theorem Contents.Holds.mono {contents : Contents} (h : contents.Holds entries)
    (below : List.Forall₂ FieldEntry.Below entries entries') : contents.Holds entries' := by
  cases contents with
  | members ms =>
    refine ⟨fun e' he' => ?_, map_name_of_below below ▸ h.2⟩
    obtain ⟨e, he, hname, habsent, hspelled⟩ := exists_below below e' he'
    rw [← hname]
    obtain ⟨hnone, hnil⟩ | ⟨w, honce, hw⟩ := h.1 e he
    · exact .inl ⟨habsent hnone, hnil⟩
    · exact .inr ⟨w, honce, hspelled w hw⟩
  | items ws =>
    induction below generalizing ws with
    | nil => exact h
    | cons hbelow _ ih =>
      cases h with
      | cons hw hws => exact .cons (hbelow.2.2 _ hw) (ih _ hws)

end Below

theorem SpellsVariant.mono {name : String} {entries entries' : List FieldEntry} {w : List UInt8}
    (h : SpellsVariant name entries w) (below : List.Forall₂ FieldEntry.Below entries entries') :
    SpellsVariant name entries' w := by
  obtain ⟨c, p, contents, rfl, named, written, holds⟩ := h
  exact ⟨c, p, contents, rfl, named, written, holds.mono below⟩

/-- The bytes of the values that a record is written with. -/
def Contents.values : Contents → List (List UInt8)
  | .members ms => ms.map (·.bytes)
  | .items ws => ws

/-- A field that has to be there is among the values. -/
theorem Contents.Holds.exists_value {contents : Contents} {entries : List FieldEntry} (h : contents.Holds entries)
    {e : FieldEntry} (he : e ∈ entries) (present : ¬e.absent) : ∃ v ∈ contents.values, e.Spelled v := by
  cases contents with
  | members ms =>
    obtain ⟨habsent, -⟩ | ⟨w, honce, hw⟩ := h.1 e he
    · exact absurd habsent present
    · have hmember : (⟨e.name, w⟩ : Member String) ∈ membersOf e.name ms := honce ▸ List.mem_cons_self
      exact ⟨w, List.mem_map.mpr ⟨_, (List.mem_filter.mp hmember).1, rfl⟩, hw⟩
  | items ws =>
    induction h with
    | nil => cases he
    | cons hw _ ih =>
      rcases List.mem_cons.mp he with rfl | he
      · exact ⟨_, List.mem_cons_self, hw⟩
      · obtain ⟨v, hv, hspelled⟩ := ih he
        exact ⟨v, List.mem_cons_of_mem _ hv, hspelled⟩

/-- The numbers of the values of a record are numbers of the record. -/
theorem Contents.Written.numerals {w : List UInt8} {contents : Contents} (h : Contents.Written w contents)
    (passed : contents.Passed) {v : List UInt8} (hv : v ∈ contents.values) : ∀ t ∈ numerals v, t ∈ numerals w := by
  intro t ht
  cases h with
  | @object c ms named =>
    obtain ⟨m, hm, rfl⟩ := List.mem_map.mp hv
    have hobject := numerals_named (fun h => h.skipped) named (fun m hm => (passed m hm).splits) []
    rw [List.append_nil] at hobject
    rw [numerals_cons rfl, hobject]
    exact List.mem_append_left _ (List.mem_flatMap.mpr ⟨m, hm, ht⟩)
  | @list c ws listed =>
    have hlist := numerals_listed listed (fun w hw => (passed w hw).splits) []
    rw [List.append_nil] at hlist
    rw [numerals_cons rfl, hlist]
    exact List.mem_append_left _ (List.mem_flatMap.mpr ⟨v, hv, ht⟩)

/-- A field that has to be there is spelled in the document, and its numbers are numbers of the document. -/
theorem Document.exists_value {bytes : List UInt8} {name : String} {entries : List FieldEntry}
    (h : Document bytes name entries) (passed : ∀ e ∈ entries, ∀ w, e.Spelled w → Passed w) {e : FieldEntry}
    (he : e ∈ entries) (present : ¬e.absent) : ∃ v, e.Spelled v ∧ ∀ t ∈ numerals v, t ∈ numerals bytes := by
  obtain ⟨bl, _, bl', hbl, ⟨c, p, contents, rfl, named, written, holds⟩, -, rfl⟩ := h
  have hcontents := holds.passed passed
  obtain ⟨v, hv, hspelled⟩ := holds.exists_value he present
  refine ⟨v, hspelled, fun t ht => ?_⟩
  have hobject := numerals_named (fun h => h.skipped) named
    (List.forall_mem_singleton.mpr (written.passed hcontents).splits) bl'
  rw [numerals_blanks hbl, List.cons_append, numerals_cons rfl, hobject]
  exact List.mem_append_left _ (List.mem_flatMap.mpr ⟨_, List.mem_cons_self, written.numerals hcontents hv t ht⟩)

end Json

/-- A type of messages: its messages as values, the reader for so many brackets, the variants, the fields of a message
    for so many brackets in its free value, and the free value, if there is one. -/
structure Wire (α : Type) where
  toJson : α → Json
  reader : Nat → Nat → Json.Reader α
  name : α → String
  entries : Nat → α → List FieldEntry
  free? : α → Option Json

namespace Wire

variable {α : Type}

/-- The bytes of a message. -/
def body (wire : Wire α) (a : α) : List UInt8 := Utf8.encode (wire.toJson a).compact

/-- The message that the bytes spell. -/
def parse (wire : Wire α) : List UInt8 → Except Json.Fault α :=
  Json.document fun steps => wire.reader steps Json.maxDepth

/-- The free value of the message is plain. -/
def Plain (wire : Wire α) (a : α) : Prop := ∀ j, wire.free? a = some j → j.Plain

/-- A type of messages whose writer and reader are for the same fields. Two brackets are those of the message, and one
    more may be open in a field of a fixed shape. -/
structure Lawful (wire : Wire α) : Prop where
  reads : ∀ steps d, Reads steps (wire.reader steps (d + 3)) fun w a =>
    SpellsVariant (wire.name a) (wire.entries (d + 1) a) w
  passed : ∀ d a, ∀ e ∈ wire.entries d a, ∀ w, e.Spelled w → Passed w
  below : ∀ {d d'} a, d ≤ d' → List.Forall₂ FieldEntry.Below (wire.entries d a) (wire.entries d' a)
  free : ∀ {d a j}, wire.free? a = some j → ∃ e ∈ wire.entries d a, ¬e.absent ∧ e.Spelled = fun w => Spells d w j
  depth : ∀ {d a}, (wire.toJson a).depth ≤ d + 3 ↔ ∀ j, wire.free? a = some j → j.depth ≤ d + 1
  written : ∀ {d a}, wire.Plain a → (∀ j, wire.free? a = some j → j.depth ≤ d) →
    ∃ w, SpellsVariant (wire.name a) (wire.entries d a) w ∧ WrittenAs (wire.toJson a) w

namespace Lawful

variable {wire : Wire α} (lawful : wire.Lawful) {a b : α} {d : Nat} {bytes : List UInt8}

include lawful

/-- Documents for so many brackets are read by the reader for so many, and as what they are. -/
theorem document_ok_iff : Json.document (fun steps => wire.reader steps (d + 3)) bytes = .ok a ↔
    Document bytes (wire.name a) (wire.entries (d + 1) a) :=
  Json.document_ok_iff fun steps => lawful.reads steps d

theorem parse_ok_iff : wire.parse bytes = .ok a ↔ Document bytes (wire.name a) (wire.entries 125 a) :=
  lawful.document_ok_iff

theorem document_body (plain : wire.Plain a) (h : (wire.toJson a).depth ≤ d + 3) :
    Document (wire.body a) (wire.name a) (wire.entries (d + 1) a) := by
  obtain ⟨w, hw, hwritten⟩ := lawful.written plain (lawful.depth.mp h)
  refine ⟨[], w, [], Json.blanks_nil, hw, Json.blanks_nil, ?_⟩
  rw [Wire.body, Json.compact, hwritten, List.append_nil]
  rfl

/-- The free value of what a document spells nests as deep as the document may, and is plain if its numbers are whole. -/
theorem exists_free (h : Document bytes (wire.name a) (wire.entries d a)) {j : Json} (hj : wire.free? a = some j) :
    ∃ v, Spells d v j ∧ ∀ t ∈ numerals v, t ∈ numerals bytes := by
  obtain ⟨e, he, present, hspelled⟩ := lawful.free hj
  obtain ⟨v, hv, hnumerals⟩ := h.exists_value (lawful.passed d a) he present
  exact ⟨v, by rwa [hspelled] at hv, hnumerals⟩

theorem back (plain : wire.Plain a) (h : (wire.toJson a).depth ≤ Json.maxDepth) : wire.parse (wire.body a) = .ok a :=
  lawful.parse_ok_iff.mpr (lawful.document_body plain h)

theorem depth_le (h : wire.parse bytes = .ok a) : (wire.toJson a).depth ≤ Json.maxDepth := by
  refine lawful.depth.mpr fun j hj => ?_
  obtain ⟨v, hv, -⟩ := lawful.exists_free (lawful.parse_ok_iff.mp h) hj
  exact hv.depth_le

/-- A reader for more brackets reads what was written, so a reader for fewer cannot read it as anything else. -/
theorem deep (plain : wire.Plain a) (h : Json.maxDepth < (wire.toJson a).depth) :
    ∃ fault, wire.parse (wire.body a) = .error fault := by
  cases hparse : wire.parse (wire.body a) with
  | error fault => exact ⟨fault, rfl⟩
  | ok b =>
    obtain ⟨d, hd⟩ : ∃ d, (wire.toJson a).depth = d + 3 := ⟨(wire.toJson a).depth - 3, by
      have : Json.maxDepth = 127 := rfl
      omega⟩
    have hmore : 125 ≤ d + 1 := by
      have : Json.maxDepth = 127 := rfl
      omega
    obtain ⟨bl, w, bl', hbl, hw, hbl', hbytes⟩ := lawful.parse_ok_iff.mp hparse
    have hdocument : Document (wire.body a) (wire.name b) (wire.entries (d + 1) b) :=
      ⟨bl, w, bl', hbl, hw.mono (lawful.below b hmore), hbl', hbytes⟩
    have hread := lawful.document_ok_iff.mpr hdocument
    rw [lawful.document_ok_iff.mpr (lawful.document_body plain (Nat.le_of_eq hd)), Except.ok.injEq] at hread
    exact absurd (lawful.depth_le hparse) (Nat.not_le_of_lt (hread ▸ h))

theorem plain_of_numerals (h : wire.parse bytes = .ok a) (whole : ∀ t ∈ numerals bytes, WholeText t) :
    wire.Plain a := by
  intro j hj
  obtain ⟨v, hv, hnumerals⟩ := lawful.exists_free (lawful.parse_ok_iff.mp h) hj
  exact hv.plain fun t ht => whole t (hnumerals t ht)

end Lawful

end Wire

/-! ### Requests and responses -/

theorem ObjectAddress.exists_written (a : ObjectAddress) : ∃ w, a.SpelledBy w ∧ WrittenAs a.toJson w := by
  obtain ⟨w, contents, written, holds, hwritten⟩ := @Json.exists_record
    [(.text "destination" a.destination, .string a.destination), (.text "path" a.path, .string a.path),
      (.text "interface" a.interface, .string a.interface)]
    (show ["destination", "path", "interface"].Nodup by decide)
    (by simpa only [List.forall_mem_cons] using
      ⟨Json.exists_text _, Json.exists_text _, Json.exists_text _, List.forall_mem_nil _⟩)
  exact ⟨w, ⟨contents, written, holds⟩, hwritten⟩

namespace Request

/-- The arguments of a call. -/
def free? : Request → Option Json
  | .call _ _ _ args => some args
  | .hasObject _ => none

/-- Requests as they are written and read. -/
def wire : Wire Request := ⟨toJson, reader, variantName, entries, free?⟩

theorem lawful : wire.Lawful where
  reads := reads
  passed _ := passed
  below {d d'} r hd := by
    cases r with
    | call id target method args =>
      exact .cons (.refl _) (.cons (.refl _) (.cons (.refl _) (.cons ⟨rfl, fun h => h, fun _ h => h.mono hd⟩ .nil)))
    | hasObject name => exact .cons (.refl _) .nil
  free {d r j} h := by
    cases r with
    | call id target method args =>
      cases h
      exact ⟨.required "args" fun w => Spells d w j, by simp [wire, entries], fun h => h, rfl⟩
    | hasObject name => cases h
  depth {d r} := by
    cases r with
    | call id target method args =>
      simp only [wire, toJson, ObjectAddress.toJson, free?, Json.depth, Json.depthMembers, Option.some.injEq]
      constructor
      · rintro h j rfl
        omega
      · intro h
        have := h args rfl
        omega
    | hasObject name => simp [wire, toJson, free?, Json.depth, Json.depthMembers]
  written {d r} plain h := by
    cases r with
    | call id target method args =>
      exact @Json.exists_variant "Call"
        [(.text "call_id" id.text, .string id.text), (.required "target" target.SpelledBy, target.toJson),
          (.text "method" method, .string method), (.required "args" fun w => Spells d w args, args)]
        (show ["call_id", "target", "method", "args"].Nodup by decide)
        (by simpa only [List.forall_mem_cons] using ⟨Json.exists_text _, target.exists_written, Json.exists_text _,
          (plain args rfl).exists_written (h args rfl), List.forall_mem_nil _⟩)
    | hasObject name =>
      exact @Json.exists_variant "HasObject" [(.text "object_name" name, .string name)]
        (show ["object_name"].Nodup by decide)
        (by simpa only [List.forall_mem_cons] using ⟨Json.exists_text _, List.forall_mem_nil _⟩)

end Request

namespace Response

/-- The value of a result. -/
def free? : Response → Option Json
  | .result _ value => some value
  | _ => none

/-- Responses as they are written and read. -/
def wire : Wire Response := ⟨toJson, reader, variantName, entries, free?⟩

theorem lawful : wire.Lawful where
  reads steps d := reads steps (d + 1)
  passed _ := passed
  below {d d'} r hd := by
    cases r with
    | result id value => exact .cons (.refl _) (.cons ⟨rfl, fun h => h, fun _ h => h.mono hd⟩ .nil)
    | _ => exact .cons (.refl _) (.cons (.refl _) .nil)
  free {d r j} h := by
    cases r with
    | result id value =>
      cases h
      exact ⟨.required "value" fun w => Spells d w j, by simp [wire, entries], fun h => h, rfl⟩
    | _ => cases h
  depth {d r} := by
    cases r with
    | result id value =>
      simp only [wire, toJson, free?, Json.depth, Json.depthMembers, Option.some.injEq]
      constructor
      · rintro h j rfl
        omega
      · intro h
        have := h value rfl
        omega
    | error id message => cases id <;> simp [wire, toJson, free?, Json.depth, Json.depthMembers]
    | objectPresence name present => simp [wire, toJson, free?, Json.depth, Json.depthMembers]
  written {d r} plain h := by
    cases r with
    | result id value =>
      exact @Json.exists_variant "Result"
        [(.text "call_id" id.text, .string id.text), (.required "value" fun w => Spells d w value, value)]
        (show ["call_id", "value"].Nodup by decide)
        (by simpa only [List.forall_mem_cons] using ⟨Json.exists_text _,
          (plain value rfl).exists_written (h value rfl), List.forall_mem_nil _⟩)
    | error id message =>
      have hid : ∃ w, Spells 0 w (idJson id) ∧ WrittenAs (idJson id) w := by
        cases id with
        | none => exact Plain.null.exists_written (Nat.le_refl 0)
        | some id => exact Json.exists_text id.text
      exact @Json.exists_variant "Error"
        [(⟨"call_id", fun w => Spells 0 w (idJson id), id = none⟩, idJson id), (.text "message" message, .string message)]
        (show ["call_id", "message"].Nodup by decide)
        (by simpa only [List.forall_mem_cons] using ⟨hid, Json.exists_text _, List.forall_mem_nil _⟩)
    | objectPresence name present =>
      exact @Json.exists_variant "HasObjectResult"
        [(.text "object_name" name, .string name), (.required "exists" fun w => Spells 0 w (.bool present), .bool present)]
        (show ["object_name", "exists"].Nodup by decide)
        (by simpa only [List.forall_mem_cons] using ⟨Json.exists_text _,
          (Plain.bool present).exists_written (Nat.le_refl 0), List.forall_mem_nil _⟩)

end Response

/-- What is written is read again. Of the messages whose free value, if they have one, is made of `null`, truth values,
    strings, whole numbers, arrays and objects, those that nest no deeper than may be read are read back, and the
    others are refused. A message from a text of whole numbers is read back as it is. -/
structure RoundTrips {α : Type} (parse : List UInt8 → Except Json.Fault α) (body : α → List UInt8) (toJson : α → Json)
    (free? : α → Option Json) : Prop where
  back : ∀ a, (∀ j, free? a = some j → j.Plain) → (toJson a).depth ≤ Json.maxDepth → parse (body a) = .ok a
  deep : ∀ a, (∀ j, free? a = some j → j.Plain) → Json.maxDepth < (toJson a).depth →
    ∃ fault, parse (body a) = .error fault
  again : ∀ bytes a, parse bytes = .ok a → (∀ t ∈ numerals bytes, WholeText t) →
    parse (body a) = .ok a ∧ ∀ b, parse (body a) = .ok b → body b = body a
  apart : ∀ a b, (∀ j, free? a = some j → j.Plain) → (∀ j, free? b = some j → j.Plain) →
    (toJson a).depth ≤ Json.maxDepth → (toJson b).depth ≤ Json.maxDepth → body a = body b → a = b

theorem Wire.Lawful.roundTrips {α : Type} {wire : Wire α} (lawful : wire.Lawful) :
    RoundTrips wire.parse wire.body wire.toJson wire.free? where
  back _ plain h := lawful.back plain h
  deep _ plain h := lawful.deep plain h
  again bytes a h whole := by
    have hback := lawful.back (lawful.plain_of_numerals h whole) (lawful.depth_le h)
    refine ⟨hback, fun b hb => ?_⟩
    rw [hback, Except.ok.injEq] at hb
    rw [hb]
  apart a b plain plain' h h' hbody := by
    have hback := lawful.back plain h
    rw [hbody, lawful.back plain' h', Except.ok.injEq] at hback
    exact hback.symm

/-- Requests and responses are read again as they were written. -/
theorem roundTrips_messages :
    RoundTrips Request.parse Request.body Request.toJson Request.free? ∧
      RoundTrips Response.parse Response.body Response.toJson Response.free? :=
  ⟨Request.lawful.roundTrips, Response.lawful.roundTrips⟩

end Pinboard
