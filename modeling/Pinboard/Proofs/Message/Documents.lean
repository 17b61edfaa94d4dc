import Pinboard.Proofs.Json.Records
import Pinboard.Proofs.Json.Unique

/-! Which texts are read as messages, and as which. A message is read from an object of one member, named for its
    variant, that holds the declared fields: an object has each of them once, among whatever else, and a list has
    them in order. Nothing else about the text matters, and nothing else is read. -/

namespace Pinboard

open Json (FieldEntry Slot Slots Layout Spells Contents Reads Named SpellsText)

namespace Json

/-- A field that has to be there. -/
def FieldEntry.required (name : String) (Spelled : List UInt8 → Prop) : FieldEntry := ⟨name, Spelled, False⟩

/-- A field that is a string. -/
def FieldEntry.text (name : String) (s : String) : FieldEntry := .required name fun w => Spells 0 w (.string s)

/-- A slot that is a string. -/
def Slot.text {σ : Type} (name : String) (get : σ → Option String) (set : σ → String → σ) : Slot σ :=
  ⟨String, name, get, set, Json.text, fun w s => Spells 0 w (.string s)⟩

/-- The field of a slot that is set. -/
theorem Slot.entry_some {σ : Type} {s : Slot σ} {draft : σ} {v : s.Value} (h : s.get draft = some v) :
    s.entry draft = .required s.name fun w => s.Spelled w v := by
  have hkept : s.Kept draft = fun w => s.Spelled w v := by
    funext w
    refine propext ⟨?_, fun hw => ⟨v, h, hw⟩⟩
    rintro ⟨v', hv', hw⟩
    rw [h, Option.some.injEq] at hv'
    exact hv' ▸ hw
  rw [Slot.entry, hkept, h, FieldEntry.required, eq_false (Option.some_ne_none v)]

/-- The field of a slot that is not set. -/
theorem Slot.entry_none {σ : Type} {s : Slot σ} {draft : σ} (h : s.get draft = none) :
    s.entry draft = ⟨s.name, fun _ => False, True⟩ := by
  have hkept : s.Kept draft = fun _ => False := by
    funext w
    refine propext ⟨?_, False.elim⟩
    rintro ⟨v, hv, -⟩
    rw [h] at hv
    cases hv
  rw [Slot.entry, hkept, h, eq_self]

end Json

namespace ObjectAddress

/-- The fields of an object address. -/
def entries (a : ObjectAddress) : List FieldEntry :=
  [.text "destination" a.destination, .text "path" a.path, .text "interface" a.interface]

/-- The bytes are an object or a list that holds the fields of the address. -/
def SpelledBy (a : ObjectAddress) (w : List UInt8) : Prop :=
  ∃ contents, Contents.Written w contents ∧ contents.Holds a.entries

/-- The slots of an object address. -/
def slots : List (Slot Draft) :=
  [.text "destination" Draft.destination fun d s => { d with destination := some s },
    .text "path" Draft.path fun d s => { d with path := some s },
    .text "interface" Draft.interface fun d s => { d with interface := some s }]

theorem map_entry (a : ObjectAddress) :
    slots.map (·.entry ⟨some a.destination, some a.path, some a.interface⟩) = a.entries := by
  simp only [slots, entries, List.map_cons, List.map_nil, List.cons.injEq, and_true]
  refine ⟨?_, ?_, ?_⟩ <;> exact Json.Slot.entry_some rfl

theorem layout (steps : Nat) : Layout shape slots steps fun contents a => contents.Holds a.entries where
  apart := {
    reads := by simp [slots, Slot.text, Json.reads_text]
    get_set := by simp [slots, Slot.text]
    get_set_ne := by simp [slots, Slot.text]
    ext := by
      rintro ⟨⟩ ⟨⟩ h
      simpa [slots, Slot.text] using h
    empty := by simp [slots, Slot.text, shape]
    distinct := by decide }
  fields := rfl
  finish contents a := by
    refine (and_iff_right trivial).symm.trans (@Json.held_iff _ slots _ shape (fun _ => True) entries ?_ ?_ contents a)
    · rintro ⟨_ | destination, _ | path, _ | interface⟩ a hfinish <;> cases hfinish
      exact ⟨trivial, map_entry ⟨destination, path, interface⟩⟩
    · exact fun a _ => ⟨⟨some a.destination, some a.path, some a.interface⟩, rfl⟩

theorem reads (steps d : Nat) : Reads steps (reader steps (d + 1)) fun w a => a.SpelledBy w :=
  Json.reads_record (layout steps)

end ObjectAddress

namespace Json

/-- The bytes are an object of one member, which is named for the variant and holds the fields. -/
def SpellsVariant (name : String) (entries : List FieldEntry) (w : List UInt8) : Prop :=
  ∃ c p contents, w = 0x7b :: c ∧ Named SpellsText true c [⟨name, p⟩] ∧ Contents.Written p contents ∧
    contents.Holds entries

/-- The bytes spell a variant with these fields and have nothing but blanks around it. -/
def Document (bytes : List UInt8) (name : String) (entries : List FieldEntry) : Prop :=
  ∃ bl w bl', Blanks bl ∧ SpellsVariant name entries w ∧ Blanks bl' ∧ bytes = bl ++ (w ++ bl')

section Messages

variable {α : Type} {steps d : Nat} {variants : List (Variant α)} {name : α → String} {entries : α → List FieldEntry}

/-- A message is read just if the bytes spell its variant with its fields. -/
theorem reads_message
    (reads : ∀ v ∈ variants, Reads steps (v.contents d) fun w a =>
      ∃ contents, Contents.Written w contents ∧ name a = v.name ∧ contents.Holds (entries a))
    (known : ∀ a, ∃ v ∈ variants, v.name = name a) :
    Reads steps (variant (d + 1) variants) fun w a => SpellsVariant (name a) (entries a) w := by
  have spelled : ∀ w a, SpellsVariant (name a) (entries a) w ↔
      ∃ c n p, w = 0x7b :: c ∧ Named SpellsText true c [⟨n, p⟩] ∧
        ∃ contents, Contents.Written p contents ∧ name a = n ∧ contents.Holds (entries a) := by
    intro w a
    constructor
    · rintro ⟨c, p, contents, rfl, named, written, holds⟩
      exact ⟨c, name a, p, rfl, named, contents, written, rfl, holds⟩
    · rintro ⟨c, _, p, rfl, named, contents, written, rfl, holds⟩
      exact ⟨c, p, contents, rfl, named, written, holds⟩
  refine (reads_variant reads ?_).of_iff spelled
  rintro n w a ⟨contents, -, rfl, -⟩
  exact known a

end Messages

end Json

theorem CallId.reads (steps : Nat) : Reads steps reader fun w id => Spells 0 w (.string id.text) :=
  (Json.reads_text steps).map fun _ id => ⟨fun h => ⟨id.text, h, rfl⟩, fun ⟨_, h, hid⟩ => hid ▸ h⟩

namespace Request

/-- The name of the variant that a request is. -/
def variantName : Request → String
  | .call .. => "Call"
  | .hasObject _ => "HasObject"

/-- The fields of a request, whose arguments open at most `d` brackets at a time. -/
def entries (d : Nat) : Request → List FieldEntry
  | .call id target method args =>
    [.text "call_id" id.text, .required "target" target.SpelledBy, .text "method" method,
      .required "args" fun w => Spells d w args]
  | .hasObject name => [.text "object_name" name]

/-- The slots of a call. -/
def callSlots (steps d : Nat) : List (Slot CallDraft) :=
  [⟨CallId, "call_id", CallDraft.id, fun d i => { d with id := some i }, CallId.reader,
      fun w id => Spells 0 w (.string id.text)⟩,
    ⟨ObjectAddress, "target", CallDraft.target, fun d t => { d with target := some t }, ObjectAddress.reader steps d,
      fun w a => a.SpelledBy w⟩,
    .text "method" CallDraft.method fun d m => { d with method := some m },
    ⟨Json, "args", CallDraft.args, fun d a => { d with args := some a }, Json.value steps d, Spells d⟩]

theorem map_entry_call (steps d : Nat) (id : CallId) (target : ObjectAddress) (method : String) (args : Json) :
    (callSlots steps d).map (·.entry ⟨some id, some target, some method, some args⟩) =
      (Request.call id target method args).entries d := by
  simp only [callSlots, entries, List.map_cons, List.map_nil, List.cons.injEq, and_true]
  refine ⟨?_, ?_, ?_, ?_⟩ <;> exact Json.Slot.entry_some rfl

theorem callLayout (steps d : Nat) : Layout (callShape steps (d + 1)) (callSlots steps (d + 1)) steps
    fun contents r => r.variantName = "Call" ∧ contents.Holds (r.entries (d + 1)) where
  apart := {
    reads := by simp [callSlots, Slot.text, Json.reads_text, CallId.reads, ObjectAddress.reads, Json.reads_value]
    get_set := by simp [callSlots, Slot.text]
    get_set_ne := by simp [callSlots, Slot.text]
    ext := by
      rintro ⟨⟩ ⟨⟩ h
      simpa [callSlots, Slot.text] using h
    empty := by simp [callSlots, Slot.text, callShape]
    distinct := by simp [callSlots, Slot.text] }
  fields := rfl
  finish := by
    refine Json.held_iff ?_ ?_
    · rintro ⟨_ | id, _ | target, _ | method, _ | args⟩ r hfinish <;> cases hfinish
      exact ⟨rfl, map_entry_call steps (d + 1) id target method args⟩
    · rintro (⟨id, target, method, args⟩ | name) hname
      · exact ⟨⟨some id, some target, some method, some args⟩, rfl⟩
      · simp [variantName] at hname

/-- The slots of a question about an object. -/
def hasObjectSlots : List (Slot (Option String)) := [.text "object_name" id fun _ n => some n]

theorem hasObjectLayout (steps d : Nat) : Layout hasObjectShape hasObjectSlots steps
    fun contents r => r.variantName = "HasObject" ∧ contents.Holds (r.entries d) where
  apart := {
    reads := by simp [hasObjectSlots, Slot.text, Json.reads_text]
    get_set := by simp [hasObjectSlots, Slot.text]
    get_set_ne := by simp [hasObjectSlots, Slot.text]
    ext := by simp [hasObjectSlots, Slot.text]
    empty := by simp [hasObjectSlots, Slot.text, hasObjectShape]
    distinct := by simp [hasObjectSlots] }
  fields := rfl
  finish := by
    refine Json.held_iff ?_ ?_
    · rintro (_ | name) r hfinish <;> cases hfinish
      exact ⟨rfl, congrArg (fun e => [e]) (Json.Slot.entry_some rfl)⟩
    · rintro (⟨id, target, method, args⟩ | name) hname
      · simp [variantName] at hname
      · exact ⟨some name, rfl⟩

theorem reads (steps d : Nat) : Reads steps (reader steps (d + 3)) fun w r =>
    Json.SpellsVariant r.variantName (r.entries (d + 1)) w := by
  refine Json.reads_message ?_ ?_
  · simp only [List.forall_mem_cons]
    exact ⟨Json.reads_record (callLayout steps d), Json.reads_record (hasObjectLayout steps (d + 1)), nofun⟩
  · intro r
    cases r <;> simp [variantName]

end Request

namespace Response

/-- The name of the variant that a response is. -/
def variantName : Response → String
  | .result .. => "Result"
  | .error .. => "Error"
  | .objectPresence .. => "HasObjectResult"

/-- The id that an error may name, as a value. -/
def idJson (id : Option CallId) : Json := (id.map fun i => Json.string i.text).getD .null

/-- The fields of a response, whose value opens at most `d` brackets at a time. An object may leave out the id that an
    error does not name. -/
def entries (d : Nat) : Response → List FieldEntry
  | .result id value => [.text "call_id" id.text, .required "value" fun w => Spells d w value]
  | .error id message => [⟨"call_id", fun w => Spells 0 w (idJson id), id = none⟩, .text "message" message]
  | .objectPresence name present =>
    [.text "object_name" name, .required "exists" fun w => Spells 0 w (.bool present)]

/-- The slots of a result. -/
def resultSlots (steps d : Nat) : List (Slot ResultDraft) :=
  [⟨CallId, "call_id", ResultDraft.id, fun d i => { d with id := some i }, CallId.reader,
      fun w id => Spells 0 w (.string id.text)⟩,
    ⟨Json, "value", ResultDraft.value, fun d v => { d with value := some v }, Json.value steps d, Spells d⟩]

theorem resultLayout (steps d : Nat) : Layout (resultShape steps d) (resultSlots steps d) steps
    fun contents r => r.variantName = "Result" ∧ contents.Holds (r.entries d) where
  apart := {
    reads := by simp [resultSlots, CallId.reads, Json.reads_value]
    get_set := by simp [resultSlots]
    get_set_ne := by simp [resultSlots]
    ext := by
      rintro ⟨⟩ ⟨⟩ h
      simpa [resultSlots] using h
    empty := by simp [resultSlots, resultShape]
    distinct := by simp [resultSlots] }
  fields := rfl
  finish := by
    refine Json.held_iff ?_ ?_
    · rintro ⟨_ | id, _ | value⟩ r hfinish <;> cases hfinish
      refine ⟨rfl, ?_⟩
      simp only [resultSlots, entries, List.map_cons, List.map_nil, List.cons.injEq, and_true]
      refine ⟨?_, ?_⟩ <;> exact Json.Slot.entry_some rfl
    · intro r hname
      cases r with
      | result id value => exact ⟨⟨some id, some value⟩, rfl⟩
      | _ => simp [variantName] at hname

/-- The slots of an error. -/
def errorSlots : List (Slot ErrorDraft) :=
  [⟨Option CallId, "call_id", ErrorDraft.id, fun d i => { d with id := some i }, Json.optional CallId.reader,
      fun w id => Spells 0 w (idJson id)⟩,
    .text "message" ErrorDraft.message fun d m => { d with message := some m }]

/-- An id is a string, so it cannot be taken for `null`. -/
theorem reads_optionalId (steps : Nat) :
    Reads steps (Json.optional CallId.reader) fun w id => Spells 0 w (idJson id) := by
  refine (CallId.reads steps).optional ?_ (fun _ => Iff.rfl) fun _ _ => Iff.rfl
  intro w id h
  obtain ⟨t, -, rfl⟩ := Json.spells_string_iff.mp h
  exact fun hhead => absurd (Option.some.inj hhead) (by decide)

theorem errorLayout (steps d : Nat) : Layout errorShape errorSlots steps
    fun contents r => r.variantName = "Error" ∧ contents.Holds (r.entries d) where
  apart := {
    reads := by simp [errorSlots, Slot.text, Json.reads_text, reads_optionalId]
    get_set := by simp [errorSlots, Slot.text]
    get_set_ne := by simp [errorSlots, Slot.text]
    ext := by
      rintro ⟨⟩ ⟨⟩ h
      simpa [errorSlots, Slot.text] using h
    empty := by simp [errorSlots, Slot.text, errorShape]
    distinct := by simp [errorSlots, Slot.text] }
  fields := rfl
  finish contents r := by
    have map_some : ∀ id message, errorSlots.map (·.entry ⟨some id, some message⟩) =
        [.required "call_id" fun w => Spells 0 w (idJson id), .text "message" message] := by
      intro id message
      simp only [errorSlots, List.map_cons, List.map_nil, List.cons.injEq, and_true]
      refine ⟨?_, ?_⟩ <;> exact Json.Slot.entry_some rfl
    have map_none : ∀ message, errorSlots.map (·.entry ⟨none, some message⟩) =
        [⟨"call_id", fun _ => False, True⟩, .text "message" message] := by
      intro message
      simp only [errorSlots, List.map_cons, List.map_nil, List.cons.injEq, and_true]
      exact ⟨Json.Slot.entry_none rfl, Json.Slot.entry_some rfl⟩
    constructor
    · rintro ⟨hname, h⟩
      cases r with
      | error id message =>
        obtain h | ⟨rfl, h⟩ := Json.Contents.holds_cons_iff.mp h
        · exact ⟨⟨some id, some message⟩, rfl, by rwa [map_some]⟩
        · exact ⟨⟨none, some message⟩, rfl, by rwa [map_none]⟩
      | _ => simp [variantName] at hname
    · rintro ⟨⟨_ | id, _ | message⟩, hfinish, h⟩ <;> cases hfinish
      · rw [map_none] at h
        exact ⟨rfl, Json.Contents.holds_cons_iff.mpr (.inr ⟨rfl, h⟩)⟩
      · rw [map_some] at h
        exact ⟨rfl, Json.Contents.holds_cons_iff.mpr (.inl h)⟩

/-- The slots of an answer about an object. -/
def presenceSlots : List (Slot PresenceDraft) :=
  [.text "object_name" PresenceDraft.name fun d n => { d with name := some n },
    ⟨Bool, "exists", PresenceDraft.present, fun d b => { d with present := some b }, Json.flag,
      fun w b => Spells 0 w (.bool b)⟩]

theorem presenceLayout (steps d : Nat) : Layout presenceShape presenceSlots steps
    fun contents r => r.variantName = "HasObjectResult" ∧ contents.Holds (r.entries d) where
  apart := {
    reads := by simp [presenceSlots, Slot.text, Json.reads_text, Json.reads_flag]
    get_set := by simp [presenceSlots, Slot.text]
    get_set_ne := by simp [presenceSlots, Slot.text]
    ext := by
      rintro ⟨⟩ ⟨⟩ h
      simpa [presenceSlots, Slot.text] using h
    empty := by simp [presenceSlots, Slot.text, presenceShape]
    distinct := by simp [presenceSlots, Slot.text] }
  fields := rfl
  finish := by
    refine Json.held_iff ?_ ?_
    · rintro ⟨_ | name, _ | present⟩ r hfinish <;> cases hfinish
      refine ⟨rfl, ?_⟩
      simp only [presenceSlots, entries, List.map_cons, List.map_nil, List.cons.injEq, and_true]
      refine ⟨?_, ?_⟩ <;> exact Json.Slot.entry_some rfl
    · intro r hname
      cases r with
      | objectPresence name present => exact ⟨⟨some name, some present⟩, rfl⟩
      | _ => simp [variantName] at hname

theorem reads (steps d : Nat) : Reads steps (reader steps (d + 2)) fun w r =>
    Json.SpellsVariant r.variantName (r.entries d) w := by
  refine Json.reads_message ?_ ?_
  · simp only [List.forall_mem_cons]
    exact ⟨Json.reads_record (resultLayout steps d), Json.reads_record (errorLayout steps d),
      Json.reads_record (presenceLayout steps d), nofun⟩
  · intro r
    cases r <;> simp [variantName]

end Response

/-! ### Documents -/

open Json (Blanks Document Passed)

/-- A type of messages is read from its documents. -/
structure ReadsDocuments {α : Type} (parse : List UInt8 → Except Json.Fault α) (name : α → String)
    (entries : α → List FieldEntry) : Prop where
  accepted : ∀ bytes a, parse bytes = .ok a ↔ Document bytes (name a) (entries a)
  refused : ∀ bytes, (∀ a, ¬Document bytes (name a) (entries a)) → ∃ fault, parse bytes = .error fault
  /-- Documents that hold the same fields are read alike. -/
  alike : ∀ bytes bytes' a, Document bytes (name a) (entries a) → Document bytes' (name a) (entries a) →
    parse bytes = parse bytes'
  /-- An object of any members is accepted only if there is one, it is named for the variant, what it is written with
      holds just the fields of what is read, and nothing but blanks follows. -/
  whole : ∀ bl c ms rest a, Blanks bl → Named SpellsText true c ms → (∀ m ∈ ms, Passed m.bytes) →
    parse (bl ++ 0x7b :: (c ++ rest)) = .ok a →
      Blanks rest ∧ ∃ p, ms = [⟨name a, p⟩] ∧
        ∀ contents, Contents.Written p contents → contents.Passed → contents.Holds (entries a)

theorem readsDocuments {α : Type} {reader : Nat → Json.Reader α} {name : α → String} {entries : α → List FieldEntry}
    (reads : ∀ steps, Reads steps (reader steps) fun w a => Json.SpellsVariant (name a) (entries a) w)
    (passed : ∀ a, ∀ e ∈ entries a, ∀ w, e.Spelled w → Passed w) :
    ReadsDocuments (Json.document reader) name entries := by
  have accepted : ∀ bytes a, Json.document reader bytes = .ok a ↔ Document bytes (name a) (entries a) :=
    fun bytes a => Json.document_ok_iff reads
  refine ⟨accepted, fun bytes h => ?_, fun bytes bytes' a h h' => ?_, fun bl c ms rest a hbl named hms h => ?_⟩
  · cases hdocument : Json.document reader bytes with
    | error fault => exact ⟨fault, rfl⟩
    | ok a => exact absurd ((accepted bytes a).mp hdocument) (h a)
  · rw [(accepted bytes a).mpr h, (accepted bytes' a).mpr h']
  · obtain ⟨bl', _, rest', hbl', ⟨c', p, contents, rfl, named', written, holds⟩, hrest', hbytes⟩ := (accepted _ a).mp h
    have hpayload : Passed p := written.passed (holds.passed (passed a))
    have hobject := Json.eq_of_blanks hbl hbl' ⟨_, _, rfl, rfl, by decide⟩ ⟨_, _, rfl, rfl, by decide⟩ hbytes
    obtain ⟨rfl, rfl⟩ := named.unique named' hms (List.forall_mem_singleton.mpr hpayload) (List.cons.inj hobject).2
    refine ⟨hrest', p, rfl, fun contents' written' hcontents' => ?_⟩
    rwa [written'.unique written hcontents' (holds.passed (passed a))]

theorem Json.FieldEntry.text_passed {name s : String} {w : List UInt8} (h : (FieldEntry.text name s).Spelled w) :
    Passed w :=
  Spells.passed h

theorem ObjectAddress.passed {a : ObjectAddress} {w : List UInt8} (h : a.SpelledBy w) : Passed w := by
  obtain ⟨contents, written, holds⟩ := h
  refine written.passed (holds.passed ?_)
  simp only [entries, List.forall_mem_cons]
  exact ⟨fun _ => FieldEntry.text_passed, fun _ => FieldEntry.text_passed, fun _ => FieldEntry.text_passed, nofun⟩

theorem Request.passed {d : Nat} (r : Request) : ∀ e ∈ r.entries d, ∀ w, e.Spelled w → Passed w := by
  cases r with
  | call id target method args =>
    simp only [entries, List.forall_mem_cons]
    exact ⟨fun _ => FieldEntry.text_passed, fun _ => ObjectAddress.passed, fun _ => FieldEntry.text_passed,
      fun _ => Spells.passed, nofun⟩
  | hasObject name =>
    simp only [entries, List.forall_mem_cons]
    exact ⟨fun _ => FieldEntry.text_passed, nofun⟩

theorem Response.passed {d : Nat} (r : Response) : ∀ e ∈ r.entries d, ∀ w, e.Spelled w → Passed w := by
  cases r <;> simp only [entries, List.forall_mem_cons] <;>
    exact ⟨fun _ => Spells.passed, fun _ => Spells.passed, nofun⟩

/-- Requests and responses are read from their documents and from nothing else. Of the brackets that may be open, two
    are those of the message. -/
theorem readsDocuments_messages :
    ReadsDocuments Request.parse Request.variantName (Request.entries (Json.maxDepth - 2)) ∧
      ReadsDocuments Response.parse Response.variantName (Response.entries (Json.maxDepth - 2)) :=
  ⟨readsDocuments (fun steps => Request.reads steps 124) Request.passed,
    readsDocuments (fun steps => Response.reads steps 125) Response.passed⟩

example : Response.parse (Utf8.encode " \x7b\"Error\" : \x7b\"x\":[\x7b\x7d],\"mess\\u0061ge\":\"m\"\x7d\x7d ") =
    .ok (.error none "m") :=
  rfl

end Pinboard
