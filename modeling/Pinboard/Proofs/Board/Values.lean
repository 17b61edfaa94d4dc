import Mathlib.Data.Set.List
import Pinboard.Proofs.Board.Course

/-! What a board makes of any reply to the question for the values under a key. As byte strings they are read just if
    the reply has their shape, and as texts just if each of them is UTF-8 besides. Texts are looked for only once the
    whole reply has been read as byte strings, so a fault of its shape comes first wherever it is. -/

namespace Pinboard

variable {α : Type}

/-- A bus that answers every call with one reply. -/
def Bus.replying (reply : Json) : Bus Unit where
  answer {_} ask s :=
    match ask with
    | .call _ _ _ => (.ok reply, s)
    | .hasObject _ => (.ok false, s)
  note _ s := s

/-- What comes of a query on any bus that gives it the reply. -/
def Query.Gives (q : Query Json α) (reply : Json) (outcome : Except Fault α) : Prop :=
  ∀ {σ : Type} (bus : Bus σ) (s : σ), (bus.answer q.ask s).1 = .ok reply → (bus.run q s).1 = outcome

theorem Query.gives_iff {target : ObjectAddress} {method : String} {args reply : Json}
    {conclude : Json → Except Fault α × List Entry} {outcome : Except Fault α} :
    (Query.mk (.call target method args) conclude).Gives reply outcome ↔ (conclude reply).1 = outcome := by
  constructor
  · intro h
    exact h (.replying reply) () rfl
  · intro h σ bus s hanswer
    rw [bus.run_outcome, hanswer]
    exact h

namespace Board

/-- The reply is an array of arrays of whole numbers from 0 to 255. -/
def ListsBytes (reply : Json) : Prop :=
  ∃ items, reply = .array items ∧ ∀ item ∈ items, ∃ numbers, item = .array numbers ∧
    ∀ number ∈ numbers, ∃ n : Int, number = .number (.integer n) ∧ 0 ≤ n ∧ n ≤ 255

theorem exists_map_eq {ι : Type} {write : α → ι} {items : List ι} :
    (∃ values : List α, items = values.map write) ↔ ∀ item ∈ items, ∃ a, item = write a := by
  have h := Set.ext_iff.mp (Set.range_list_map write) items
  simpa only [Set.mem_range, Set.mem_ofPred_eq, eq_comm] using h

theorem exists_byte_iff {j : Json} :
    (∃ b : UInt8, j = .number (.integer b.toNat)) ↔ ∃ n : Int, j = .number (.integer n) ∧ 0 ≤ n ∧ n ≤ 255 := by
  constructor
  · rintro ⟨b, rfl⟩
    have hlt := b.toNat_lt
    exact ⟨b.toNat, rfl, by omega, by omega⟩
  · rintro ⟨n, rfl, h0, h255⟩
    refine ⟨n.toNat.toUInt8, ?_⟩
    rw [Utf8.toUInt8_toNat (by omega), Int.toNat_of_nonneg h0]

/-- Replies of this shape are those that byte strings are written as. -/
theorem listsBytes_iff {reply : Json} :
    ListsBytes reply ↔ ∃ values : List (List UInt8), reply = .array (values.map .ofBytes) := by
  have hbytes (item : Json) : (∃ bytes, item = .ofBytes bytes) ↔ ∃ numbers, item = .array numbers ∧
      ∀ number ∈ numbers, ∃ n : Int, number = .number (.integer n) ∧ 0 ≤ n ∧ n ≤ 255 := by
    simp only [← exists_byte_iff, ← exists_map_eq, Json.ofBytes]
    constructor
    · rintro ⟨bytes, rfl⟩
      exact ⟨_, rfl, bytes, rfl⟩
    · rintro ⟨_, rfl, bytes, rfl⟩
      exact ⟨bytes, rfl⟩
  simp only [ListsBytes, ← hbytes, ← exists_map_eq]
  constructor
  · rintro ⟨_, rfl, values, rfl⟩
    exact ⟨values, rfl⟩
  · rintro ⟨values, rfl⟩
    exact ⟨_, rfl, values, rfl⟩

section Replies

variable {b : Board} {reply : Json}

theorem getBytes_gives_iff {key : List UInt8} {outcome : Except Fault (List (List UInt8))} :
    (b.getBytes key).Gives reply outcome ↔ (listed reply).1 = outcome :=
  Query.gives_iff

theorem get_gives_iff {key : String} {outcome : Except Fault (List String)} :
    (b.get key).Gives reply outcome ↔ (listed reply).1.bind decodeAll = outcome :=
  Query.gives_iff

theorem listed_misshapen (h : ¬ListsBytes reply) : ∃ source, (listed reply).1 = .error (.json source) := by
  cases hlisted : (listed reply).1 with
  | ok values => exact absurd (listsBytes_iff.mpr ⟨values, listed_ok_iff.mp hlisted⟩) h
  | error fault =>
    obtain ⟨source, rfl⟩ := listed_fault hlisted
    exact ⟨source, rfl⟩

theorem exists_decode_iff {bytes : List UInt8} : (∃ text, decode bytes = .ok text) ↔ Utf8.WellFormed bytes := by
  simp only [decode_ok_iff, Utf8.wellFormed_iff]

theorem exists_decodeAll_iff {values : List (List UInt8)} :
    (∃ texts, decodeAll values = .ok texts) ↔ ∀ bytes ∈ values, Utf8.WellFormed bytes := by
  simp only [decodeAll_ok_iff, exists_map_eq, Utf8.wellFormed_iff]

/-- The fault of texts is that of the first byte string that is not UTF-8. -/
theorem decodeAll_misspelled {values : List (List UInt8)} (h : ∃ bytes ∈ values, ¬Utf8.WellFormed bytes) :
    ∃ before bytes after source, values = before ++ bytes :: after ∧ (∀ good ∈ before, Utf8.WellFormed good) ∧
      ¬Utf8.WellFormed bytes ∧ Utf8.decode bytes = .error source ∧ decodeAll values = .error (.utf8 bytes source) := by
  cases hall : decodeAll values with
  | ok texts =>
    obtain ⟨bytes, hmem, hbad⟩ := h
    exact absurd (exists_decodeAll_iff.mp ⟨texts, hall⟩ bytes hmem) hbad
  | error fault =>
    obtain ⟨before, bytes, after, hsplit, hbefore, hbytes⟩ := collects_decodeFrom.error_iff.mp hall
    obtain ⟨source, hsource, rfl⟩ := decode_fault hbytes
    refine ⟨before, bytes, after, source, hsplit, fun good hgood => exists_decode_iff.mp (hbefore good hgood), ?_, hsource,
      rfl⟩
    intro hgood
    obtain ⟨text, htext⟩ := exists_decode_iff.mpr hgood
    exact absurd (hbytes.symm.trans htext) nofun

end Replies

/-- What a board makes of a reply to the question for values. -/
structure Understands (b : Board) (reply : Json) : Prop where
  /-- The byte strings are those that the reply lists, and it has to list them. -/
  bytes_iff : ∀ key values, (b.getBytes key).Gives reply (.ok values) ↔ reply = .array (values.map .ofBytes)
  lists_iff : (∃ values : List (List UInt8), reply = .array (values.map .ofBytes)) ↔ ListsBytes reply
  /-- A reply of another shape is one and the same fault, whether bytes or texts are asked for. -/
  misshapen : ¬ListsBytes reply → ∃ source, (∀ key, (b.getBytes key).Gives reply (.error (.json source))) ∧
    ∀ key, (b.get key).Gives reply (.error (.json source))
  same_fault : ∀ key fault, (b.getBytes (Utf8.encode key)).Gives reply (.error fault) →
    (b.get key).Gives reply (.error fault)
  /-- Texts are given if all byte strings are UTF-8, and then they are spelled by these. -/
  texts_iff : ∀ key, (∃ texts, (b.get key).Gives reply (.ok texts)) ↔
    ∃ values, (b.getBytes (Utf8.encode key)).Gives reply (.ok values) ∧ ∀ bytes ∈ values, Utf8.WellFormed bytes
  texts_encode : ∀ key texts values, (b.get key).Gives reply (.ok texts) →
    (b.getBytes (Utf8.encode key)).Gives reply (.ok values) → texts.map Utf8.encode = values
  /-- Otherwise the first of them that is not is the fault. -/
  misspelled : ∀ key values, (b.getBytes (Utf8.encode key)).Gives reply (.ok values) →
    (∃ bytes ∈ values, ¬Utf8.WellFormed bytes) →
    ∃ before bytes after source, values = before ++ bytes :: after ∧ (∀ good ∈ before, Utf8.WellFormed good) ∧
      ¬Utf8.WellFormed bytes ∧ Utf8.decode bytes = .error source ∧
      (b.get key).Gives reply (.error (.utf8 bytes source))

/-- Whatever a reply is, a board takes all of its values or none, and says what is wrong first. -/
theorem understands (b : Board) (reply : Json) : Understands b reply where
  bytes_iff key values := getBytes_gives_iff.trans listed_ok_iff
  lists_iff := listsBytes_iff.symm
  misshapen h := by
    obtain ⟨source, hlisted⟩ := listed_misshapen h
    refine ⟨source, fun key => getBytes_gives_iff.mpr hlisted, fun key => get_gives_iff.mpr ?_⟩
    rw [hlisted]
    rfl
  same_fault key fault h := by
    rw [getBytes_gives_iff] at h
    rw [get_gives_iff, h]
    rfl
  texts_iff key := by
    simp only [get_gives_iff, getBytes_gives_iff, ← exists_decodeAll_iff]
    cases (listed reply).1 with
    | error fault => exact ⟨fun ⟨_, h⟩ => absurd h nofun, fun ⟨_, h, _⟩ => absurd h nofun⟩
    | ok values =>
      constructor
      · exact fun h => ⟨values, rfl, h⟩
      · rintro ⟨_, ⟨⟩, h⟩
        exact h
  texts_encode key texts values htexts hvalues := by
    rw [getBytes_gives_iff] at hvalues
    rw [get_gives_iff, hvalues] at htexts
    exact (decodeAll_ok_iff.mp htexts).symm
  misspelled key values hvalues hbad := by
    obtain ⟨before, bytes, after, source, hsplit, hbefore, hbytes, hsource, hall⟩ := decodeAll_misspelled hbad
    refine ⟨before, bytes, after, source, hsplit, hbefore, hbytes, hsource, get_gives_iff.mpr ?_⟩
    rw [getBytes_gives_iff.mp hvalues]
    exact hall

end Board

end Pinboard
