import Pinboard.Proofs.Connection.Exchange
import Pinboard.Proofs.Json.ByteLists
import Pinboard.Proofs.Query
import Pinboard.Proofs.Text.Utf8

/-! What an operation of the board gives, told by the bytes that come in. Each gives an answer just if its request goes
    out whole and the bytes that come in begin with a frame of which the body is the response that it waits for.
    Whatever else comes in, and whatever keeps the request from going out, is a fault. -/

namespace Pinboard

namespace Connection

variable {peer : Peer} {c : Connection} {r : Request} {response : Response}

/-- The connection is served, the frame of the request goes out whole, and what comes in begins with a whole frame of
    legal length of which the body reads as the response. -/
def Hears (peer : Peer) (c : Connection) (r : Request) (response : Response) : Prop :=
  c.live = true ∧ c.Sends r ∧
    ∃ body rest, body.length ≤ Frame.maxBody ∧ c.incoming peer r = Frame.encode body ++ rest ∧
      Response.parse body = .ok response

theorem ofReply_ok_iff {body : List UInt8} : Response.ofReply body = .ok response ↔ Response.parse body = .ok response := by
  unfold Response.ofReply
  cases Response.parse body with
  | ok r =>
    show Except.ok r = .ok response ↔ _
    rw [Except.ok.injEq, Except.ok.injEq]
  | error fault => exact ⟨fun h => (by cases h), fun h => (by cases h)⟩

theorem exchange_ok_iff (flows : c.stream.source.Flows) (live : c.live = true) :
    (c.exchange peer r).1 = .ok response ↔ c.Hears peer r response := by
  have hx := exchanged peer c r
  generalize (c.exchange peer r).1 = outcome at hx ⊢
  generalize (c.exchange peer r).2 = c' at hx
  cases hx with
  | refused long => exact ⟨fun h => (by cases h), fun h => absurd h.2.1.fits long⟩
  | cut fits fault_of unsent => exact ⟨fun h => (by cases h), fun h => absurd h.2.1 unsent⟩
  | unanswered fits sends fault_of accepted taken unheard =>
    refine ⟨fun h => (by cases h), fun h => ?_⟩
    obtain ⟨-, -, body, rest, legal, hincoming, -⟩ := h
    exact absurd ((reads_iff flows).mpr (Frame.starts_iff.mpr ⟨body, rest, legal, hincoming⟩)) unheard
  | @answered reply _ fits sends legal accepted taken =>
    rw [ofReply_ok_iff]
    constructor
    · exact fun h => ⟨live, sends, reply, _, legal, taken, h⟩
    · rintro ⟨-, -, body, rest, legal', hincoming, hparse⟩
      rw [taken] at hincoming
      rw [(Frame.encode_append_inj legal legal' hincoming).1]
      exact hparse

theorem request_ok_iff (flows : c.stream.source.Flows) :
    (c.request peer r).1 = .ok response ↔ c.Hears peer r response := by
  unfold request
  split
  · exact exchange_ok_iff flows ‹_›
  · rename_i ended
    exact ⟨fun h => (by cases h), fun h => absurd h.1 ended⟩

end Connection

namespace Client

variable {peer : Peer} {c : Client} {β α : Type} {q : Query β α} {a : α}

/-- A query gives a value just if a response is heard that grants an answer from which the query concludes it. -/
theorem run_ok_iff (flows : c.connection.stream.source.Flows) :
    (c.run peer q).1 = .ok a ↔
      ∃ r v, c.connection.Hears peer (q.ask.request (c.ids c.asked)) r ∧ q.ask.Grants (c.ids c.asked) r v ∧
        (q.conclude v).1 = .ok a := by
  rw [run_eq]
  constructor
  · intro h
    cases hrequest : (c.connection.request peer (q.ask.request (c.ids c.asked))).1 with
    | error fault =>
      rw [hrequest] at h
      cases h
    | ok r =>
      rw [hrequest, Ask.told_ok] at h
      cases hanswer : q.ask.answer (c.ids c.asked) r with
      | error fault =>
        rw [hanswer] at h
        cases h
      | ok v =>
        rw [hanswer] at h
        exact ⟨r, v, (Connection.request_ok_iff flows).mp hrequest, Ask.answer_ok_iff.mp hanswer, h⟩
  · rintro ⟨r, v, hears, grants, hconclude⟩
    rw [(Connection.request_ok_iff flows).mpr hears, Ask.told_ok, Ask.answer_of_grants grants]
    exact hconclude

end Client

namespace Board

theorem decode_ok_iff {bytes : List UInt8} {text : String} : decode bytes = .ok text ↔ bytes = Utf8.encode text := by
  unfold decode
  cases h : Utf8.decode bytes with
  | ok s =>
    show Except.ok s = .ok text ↔ _
    rw [Except.ok.injEq, ← Utf8.decode_ok_iff.mp h]
    exact ⟨fun hs => hs ▸ rfl, Utf8.encode_injective⟩
  | error fault =>
    refine ⟨fun h => (by cases h), fun hbytes => ?_⟩
    rw [Utf8.decode_ok_iff.mpr hbytes.symm] at h
    cases h

theorem collects_decodeFrom : Collects decode decodeFrom where
  nil _ := rfl
  error h := by rw [decodeFrom, h]
  ok h := by rw [decodeFrom, h]

theorem decodeAll_ok_iff {texts : List String} {values : List (List UInt8)} :
    decodeAll values = .ok texts ↔ values = texts.map Utf8.encode := by
  rw [decodeAll, collects_decodeFrom.ok_iff fun _ _ => decode_ok_iff]
  constructor
  · rintro ⟨rest, rfl, rfl⟩
    rfl
  · exact fun h => ⟨texts, rfl, h⟩

theorem listed_ok_iff {reply : Json} {values : List (List UInt8)} :
    (listed reply).1 = .ok values ↔ reply = .array (values.map .ofBytes) := by
  rw [← Json.byteLists_ok_iff]
  unfold listed
  cases reply.byteLists with
  | ok v => exact Iff.of_eq (by rw [Except.ok.injEq, Except.ok.injEq])
  | error cause => exact ⟨fun h => (by cases h), fun h => (by cases h)⟩

theorem get_conclude_iff {b : Board} {key : String} {reply : Json} {texts : List String} :
    ((b.get key).conclude reply).1 = .ok texts ↔ reply = .array (texts.map fun s => .ofBytes (Utf8.encode s)) := by
  show (listed reply).1.bind decodeAll = .ok texts ↔ _
  constructor
  · intro h
    cases hlisted : (listed reply).1 with
    | error fault =>
      rw [hlisted] at h
      cases h
    | ok values =>
      rw [hlisted] at h
      rw [listed_ok_iff.mp hlisted, decodeAll_ok_iff.mp h, List.map_map]
      rfl
  · intro h
    have hreply : reply = .array ((texts.map Utf8.encode).map .ofBytes) := by
      rw [h, List.map_map]
      rfl
    rw [listed_ok_iff.mpr hreply]
    exact decodeAll_ok_iff.mpr rfl

/-- What the operations of a board give on a client, told by what comes in. In every case that is not named here an
    operation fails. -/
structure Answers (peer : Peer) (c : Client) (b : Board) (key value : String) : Prop where
  get_iff : ∀ texts, (c.run peer (b.get key)).1 = .ok texts ↔
    c.connection.Hears peer ((b.get key).ask.request (c.ids c.asked))
      (.result (c.ids c.asked) (.array (texts.map fun s => .ofBytes (Utf8.encode s))))
  put_iff : (c.run peer (b.put key value)).1 = .ok () ↔
    ∃ reply, c.connection.Hears peer ((b.put key value).ask.request (c.ids c.asked)) (.result (c.ids c.asked) reply)
  isAvailable_iff : ∀ present, (c.run peer b.isAvailable).1 = .ok present ↔
    c.connection.Hears peer (.hasObject serviceName) (.objectPresence serviceName present)
  ended : ∀ {β α : Type} (q : Query β α), c.connection.live = false →
    (c.run peer q).1 = .error (.io .connectionEnded)
  tooLong : ∀ {β α : Type} (q : Query β α), c.connection.live = true → ¬(q.ask.request (c.ids c.asked)).Fits →
    (c.run peer q).1 = .error (.io (.tooLongToSend (q.ask.request (c.ids c.asked)).body.length))

/-- On every connection, whatever has arrived and whatever comes in, the operations of a board give just what the next
    frame says in answer to them. -/
theorem answers (peer : Peer) (c : Client) (flows : c.connection.stream.source.Flows) (b : Board) (key value : String) :
    Answers peer c b key value where
  get_iff texts := by
    rw [Client.run_ok_iff flows]
    constructor
    · rintro ⟨r, v, hears, grants, hconclude⟩
      rw [show r = .result (c.ids c.asked) v from grants, get_conclude_iff.mp hconclude] at hears
      exact hears
    · exact fun hears => ⟨_, _, hears, rfl, get_conclude_iff.mpr rfl⟩
  put_iff := by
    rw [Client.run_ok_iff flows]
    constructor
    · rintro ⟨r, v, hears, grants, -⟩
      exact ⟨v, (show r = .result (c.ids c.asked) v from grants) ▸ hears⟩
    · rintro ⟨v, hears⟩
      exact ⟨_, v, hears, rfl, rfl⟩
  isAvailable_iff present := by
    rw [Client.run_ok_iff flows]
    constructor
    · rintro ⟨r, v, hears, grants, hconclude⟩
      cases hconclude
      exact (show r = .objectPresence serviceName present from grants) ▸ hears
    · exact fun hears => ⟨_, present, hears, rfl, rfl⟩
  ended q h := by
    rw [Client.run_eq, Connection.request, if_neg (Bool.eq_false_iff.mp h)]
    rfl
  tooLong q h long := by
    rw [Client.run_eq, Connection.request, if_pos h, Connection.exchange_tooLong peer c.connection long]
    rfl

/-- A client on a new connection that gives every call the id `a`. -/
def newClient : Client := ⟨.ofStream .fresh, fun _ => ⟨"a"⟩, 0, []⟩

/-- A far end that answers every request with the result of the call `a`, which lists one value. -/
def oneValue : Peer := fun _ => ⟨Frame.encode (Response.result ⟨"a"⟩ (.array [.ofBytes (Utf8.encode "x")])).body, false⟩

theorem answers_oneValue :
    newClient.connection.stream.source.Flows ∧ Answers oneValue newClient .default "k" "v" ∧
      (newClient.run oneValue (Board.default.get "k")).1.toOption = some ["x"] ∧
      (newClient.run oneValue Board.default.isAvailable).1.toOption = none :=
  have flows : newClient.connection.stream.source.Flows := fun _ => nofun
  ⟨flows, answers oneValue newClient flows .default "k" "v", by decide +kernel, by decide +kernel⟩

end Board

end Pinboard
