import Pinboard.Message.FreshId
import Pinboard.Proofs.Connection.Boundary
import Pinboard.Proofs.Json.Size
import Pinboard.Proofs.Query

/-! How much the board can be given to store. A value travels inside one request, and a request may be no longer than the
    longest frame. Its length is a sum of what the application, the key and the value take, since ids are all of one
    length. So it is settled before anything is written whether a value can be stored. -/

namespace Pinboard

open Json (charSize textSize bytesSize)

/-! ### Fresh ids -/

namespace CallId

/-- The id is made from 16 random bytes. -/
def Fresh (id : CallId) : Prop := ∃ random : List UInt8, random.length = 16 ∧ id = ofRandom random

variable {id : CallId}

/-- A fresh id is five groups of digits with a dash between them. -/
theorem Fresh.toList (h : id.Fresh) :
    ∃ a b c d e : List UInt8, (a.length = 4 ∧ b.length = 2 ∧ c.length = 2 ∧ d.length = 2 ∧ e.length = 6) ∧
      id.text.toList = a.flatMap hexByte ++ '-' :: (b.flatMap hexByte ++ '-' :: (c.flatMap hexByte ++
        '-' :: (d.flatMap hexByte ++ '-' :: e.flatMap hexByte))) := by
  obtain ⟨random, hlength, rfl⟩ := h
  have hfixed : (fixBits random).length = 16 := by rw [fixBits, List.length_modify, List.length_modify, hlength]
  refine ⟨(fixBits random).take 4, ((fixBits random).drop 4).take 2, ((fixBits random).drop 6).take 2,
    ((fixBits random).drop 8).take 2, ((fixBits random).drop 10).take 6, ?_, ?_⟩
  · simp [hfixed]
  · simp [ofRandom, groupSizes, hexGroups, String.intercalate_cons_cons]

theorem charSize_hexByte {b : UInt8} {c : Char} (hc : c ∈ hexByte b) : charSize c = 1 := by
  have hdigit : ∀ n < 16, charSize (Nat.digitChar n) = 1 := by decide
  have hlt := b.toNat_lt
  rcases List.mem_pair.mp hc with rfl | rfl
  · exact hdigit _ (by omega)
  · exact hdigit _ (Nat.mod_lt _ (by decide))

theorem Fresh.length (h : id.Fresh) : id.text.length = 36 := by
  have hgroup (bytes : List UInt8) : (bytes.flatMap hexByte).length = 2 * bytes.length := by
    simp [List.length_flatMap, hexByte, Nat.mul_comm]
  obtain ⟨a, b, c, d, e, ⟨ha, hb, hc, hd, he⟩, htext⟩ := h.toList
  rw [← String.length_toList, htext]
  simp only [List.length_append, List.length_cons, hgroup, ha, hb, hc, hd, he]

/-- No character of a fresh id is escaped. -/
theorem Fresh.textSize (h : id.Fresh) : textSize id.text = 36 := by
  have hdash : charSize '-' = 1 := by decide
  have hone : ∀ c ∈ id.text.toList, charSize c = 1 := by
    obtain ⟨a, b, c, d, e, -, htext⟩ := h.toList
    intro ch hch
    simp only [htext, List.mem_append, List.mem_cons, List.mem_flatMap] at hch
    rcases hch with ⟨_, _, h⟩ | rfl | ⟨_, _, h⟩ | rfl | ⟨_, _, h⟩ | rfl | ⟨_, _, h⟩ | rfl | ⟨_, _, h⟩
    all_goals first | exact hdash | exact charSize_hexByte h
  rw [Json.textSize, List.map_congr_left hone, List.map_const', List.sum_replicate_nat, String.length_toList, h.length]

end CallId

/-! ### Requests that are too long -/

/-- A sink takes so many bytes and passes them on. -/
structure Sink.Accepts (s : Sink) (n : Nat) : Prop where
  flows : s.Flows
  unflushed : s.flushFault = none
  room : RoomFor s.room n

namespace Connection

/-- A request that is too long leaves a connection as it is. -/
theorem request_tooLong (peer : Peer) {c : Connection} (live : c.live = true) {r : Request} (long : ¬r.Fits) :
    c.request peer r = (.error (.tooLongToSend r.body.length), c) := by
  obtain ⟨stream, received, _⟩ := c
  obtain rfl : _ = true := live
  rw [request, if_pos rfl, exchange, Frame.write_of_long long]
  rfl

/-- A request is refused as input just if it is too long, where the faults of the stream are of other kinds. -/
theorem request_invalidInput_iff {peer : Peer} {c : Connection} (live : c.live = true) (apart : c.stream.TellsApart)
    {r : Request} : (∃ fault, (c.request peer r).1 = .error fault ∧ fault.kind = .invalidInput) ↔ ¬r.Fits := by
  constructor
  · intro h fits
    rw [request, if_pos live] at h
    exact not_seemsRefused apart ⟨fits, h⟩
  · intro long
    rw [request_tooLong peer live long]
    exact ⟨_, rfl, rfl⟩

end Connection

/-- The client is connected, and the id that comes next is a fresh one. -/
structure Client.Ready (c : Client) : Prop where
  live : c.connection.live = true
  fresh : (c.ids c.asked).Fresh

namespace Board

variable {b : Board} {key value : List UInt8}

/-- The request to store a value, under an id. -/
def putRequest (b : Board) (key value : List UInt8) (id : CallId) : Request := (b.putBytes key value).ask.request id

/-- How long the request to store a value is. -/
def putSize (b : Board) (key value : List UInt8) : Nat := 190 + textSize b.appId + bytesSize key + bytesSize value

theorem length_body_putRequest (b : Board) (key value : List UInt8) (id : CallId) :
    (b.putRequest key value id).body.length =
      154 + textSize id.text + textSize b.appId + bytesSize key + bytesSize value := by
  have htarget : target.toJson.size = 92 := by decide +kernel
  have hnames : textSize "Call" = 4 ∧ textSize "call_id" = 7 ∧ textSize "target" = 6 ∧ textSize "method" = 6 ∧
      textSize "args" = 4 ∧ textSize "Put" = 3 := by decide +kernel
  obtain ⟨hcall, hid, hobject, hmethod, hargs, hput⟩ := hnames
  rw [putRequest, Request.body, Request.text, Json.length_encode_compact]
  -- What is left besides the four parts are names, quotes, brackets and commas.
  simp only [putBytes, Ask.request, Request.toJson, Json.size, Json.sizeMembers, Json.sizeItems, Json.comma, htarget,
    Json.size_ofBytes, hcall, hid, hobject, hmethod, hargs, hput, if_true, Bool.false_eq_true, if_false, List.length_nil,
    List.length_singleton]
  omega

theorem length_body_fresh {id : CallId} (fresh : id.Fresh) :
    (b.putRequest key value id).body.length = b.putSize key value := by
  rw [length_body_putRequest, fresh.textSize, putSize]

theorem putSize_bounds (b : Board) (key value : List UInt8) :
    2 * (key.length + value.length) + textSize b.appId + 192 ≤ b.putSize key value ∧
      b.putSize key value ≤ 4 * (key.length + value.length) + textSize b.appId + 194 := by
  have hkey := Json.bytesSize_bounds key
  have hvalue := Json.bytesSize_bounds value
  rw [putSize]
  omega

/-- The value is too long to be stored: nothing is written, and the client is told how long the request would be. -/
structure Refuses (peer : Peer) (c : Client) (b : Board) (key value : List UInt8) : Prop where
  outcome : ∃ fault, (c.run peer (b.putBytes key value)).1 = .error (.io fault) ∧ fault.kind = .invalidInput ∧
    fault.message = "packet of " ++ Nat.repr (b.putSize key value) ++ " bytes exceeds limit"
  untouched : (c.run peer (b.putBytes key value)).2.connection = c.connection

/-- The whole frame goes out, and its first four bytes tell how long the request is. -/
structure Sends (peer : Peer) (c : Client) (b : Board) (key value : List UInt8) : Prop where
  announced : Frame.lengthOf (Frame.lengthBytes (b.putSize key value)) = b.putSize key value
  accepted : (c.run peer (b.putBytes key value)).2.connection.accepted = c.connection.accepted ++
    (Frame.lengthBytes (b.putSize key value) ++ (b.putRequest key value (c.ids c.asked)).body)

/-- What becomes of a value is told by the length of its request. -/
structure Measured (b : Board) (key value : List UInt8) : Prop where
  /-- Every fresh id has 36 characters, none of which is escaped. -/
  ids : ∀ id : CallId, id.Fresh → id.text.length = 36 ∧ textSize id.text = 36
  length : ∀ id : CallId, id.Fresh → (b.putRequest key value id).body.length = b.putSize key value
  refused : ∀ peer c, c.Ready → 16777216 < b.putSize key value → Refuses peer c b key value
  sent : ∀ peer c, c.Ready → c.connection.stream.sink.Accepts (4 + b.putSize key value) →
    b.putSize key value ≤ 16777216 → Sends peer c b key value
  /-- However the stream fares, all that comes onto it is a beginning of that frame. -/
  begun : ∀ (peer : Peer) (c : Client), c.Ready → ∃ part, part <+: Frame.lengthBytes (b.putSize key value) ++
      (b.putRequest key value (c.ids c.asked)).body ∧
    (c.run peer (b.putBytes key value)).2.connection.accepted = c.connection.accepted ++ part
  /-- No other value is refused as input, where the faults of the stream are of other kinds. -/
  refused_iff : ∀ (peer : Peer) (c : Client), c.Ready → c.connection.stream.TellsApart →
    ((∃ fault, (c.run peer (b.putBytes key value)).1 = .error (.io fault) ∧ fault.kind = .invalidInput) ↔
      16777216 < b.putSize key value)
  /-- The numbers of bytes alone are enough to tell for most values. -/
  small : 4 * (key.length + value.length) + textSize b.appId + 194 ≤ 16777216 → ∀ peer c, c.Ready →
    c.connection.stream.sink.Accepts (4 + b.putSize key value) → Sends peer c b key value
  large : 16777216 < 2 * (key.length + value.length) + textSize b.appId + 192 → ∀ peer c, c.Ready →
    Refuses peer c b key value

theorem maxBody_eq : Frame.maxBody = 16777216 := by decide

section
variable {peer : Peer} {c : Client}

theorem fits_iff (ready : c.Ready) :
    (b.putRequest key value (c.ids c.asked)).Fits ↔ b.putSize key value ≤ 16777216 := by
  rw [Request.Fits, length_body_fresh ready.fresh, maxBody_eq]

/-- A fault of the stream is what storing a value fails with just if its request fails with it. -/
theorem putBytes_io_iff {fault : StreamFault} : (c.run peer (b.putBytes key value)).1 = .error (.io fault) ↔
    (c.connection.request peer (b.putRequest key value (c.ids c.asked))).1 = .error fault := by
  rw [Client.run_eq, ← putRequest]
  cases (c.connection.request peer (b.putRequest key value (c.ids c.asked))).1 with
  | error fault' => exact ⟨fun h => by cases h; rfl, fun h => by cases h; rfl⟩
  | ok response =>
    refine ⟨fun h => ?_, nofun⟩
    rw [Ask.told_ok] at h
    rcases (b.putBytes key value).ask.answer_cases (c.ids c.asked) response with ⟨v, hv⟩ | ⟨message, hm⟩ | ⟨text, ht⟩
    · rw [Ask.answer_of_grants hv] at h
      cases h
    · rw [Ask.answer_of_denies hm] at h
      cases h
    · rw [ht] at h
      cases h

theorem refuses (ready : c.Ready) (long : 16777216 < b.putSize key value) : Refuses peer c b key value := by
  have hrequest := Connection.request_tooLong peer ready.live (mt (fits_iff ready).mp (Nat.not_le_of_lt long))
  refine ⟨⟨.tooLongToSend (b.putSize key value), putBytes_io_iff.mpr ?_, rfl, rfl⟩, ?_⟩
  · rw [hrequest, length_body_fresh ready.fresh]
  · rw [Client.run_connection, ← putRequest, hrequest]

theorem begins (ready : c.Ready) : ∃ part, part <+: Frame.lengthBytes (b.putSize key value) ++
      (b.putRequest key value (c.ids c.asked)).body ∧
    (c.run peer (b.putBytes key value)).2.connection.accepted = c.connection.accepted ++ part := by
  obtain ⟨part, haccepted, hpart, -⟩ := c.connection.exists_accepted peer (b.putRequest key value (c.ids c.asked))
  rw [Client.run_connection, ← putRequest]
  rw [Frame.encode, length_body_fresh ready.fresh] at hpart
  exact ⟨part, hpart, haccepted⟩

theorem sends (ready : c.Ready) (takes : c.connection.stream.sink.Accepts (4 + b.putSize key value))
    (short : b.putSize key value ≤ 16777216) : Sends peer c b key value := by
  have fits := (fits_iff ready).mpr short
  have hlength := @length_body_fresh b key value _ ready.fresh
  refine ⟨Frame.lengthOf_lengthBytes (by omega), ?_⟩
  obtain ⟨part, haccepted, -, hpart⟩ := c.connection.exists_accepted peer (b.putRequest key value (c.ids c.asked))
  have hsends := Connection.sends_of_flows fits takes.flows takes.unflushed
    (by rw [Frame.length_encode, hlength]; exact takes.room)
  rw [Client.run_connection, ← putRequest, haccepted, hpart ready.live hsends, Frame.encode, hlength]

end

/-- Whether a value can be stored is told by the length of its request, which is a sum over its characters and bytes. -/
theorem measured_putBytes (b : Board) (key value : List UInt8) : Measured b key value where
  ids id fresh := ⟨fresh.length, fresh.textSize⟩
  length id fresh := length_body_fresh fresh
  refused peer c ready long := refuses ready long
  sent peer c ready takes short := sends ready takes short
  begun peer c ready := begins ready
  refused_iff peer c ready apart := by
    simp only [putBytes_io_iff]
    rw [Connection.request_invalidInput_iff ready.live apart, fits_iff ready, Nat.not_le]
  small hsmall peer c ready takes := sends ready takes (Nat.le_trans (putSize_bounds b key value).2 hsmall)
  large hlarge peer c ready := refuses ready (Nat.lt_of_lt_of_le hlarge (putSize_bounds b key value).1)

/-- A client of a new connection that makes its ids of zeros. -/
def zeros : Client := ⟨.ofStream .fresh, fun _ => .ofRandom (List.replicate 16 0), 0, []⟩

theorem ready_zeros : zeros.Ready := ⟨rfl, List.replicate 16 0, rfl, rfl⟩

/-- One byte more, and the longest request is too long. -/
theorem measured_putBytes_longest :
    (⟨"abc"⟩ : Board).putSize [] (List.replicate 4194255 255) = 16777216 ∧
      Sends Shared.presence zeros ⟨"abc"⟩ [] (List.replicate 4194255 255) ∧
      Refuses Shared.presence zeros ⟨"abc"⟩ [] (List.replicate 4194256 255) := by
  have hsize (n : Nat) : (⟨"abc"⟩ : Board).putSize [] (List.replicate n 255) = 195 + (2 + n * 3 + (n - 1)) := by
    rw [putSize, Json.bytesSize_replicate]
    rfl
  have hfits := hsize 4194255
  have hlong := hsize 4194256
  have takes : zeros.connection.stream.sink.Accepts (4 + (⟨"abc"⟩ : Board).putSize [] (List.replicate 4194255 255)) :=
    ⟨fun _ => nofun, rfl, fun _ => nofun⟩
  exact ⟨hfits, (measured_putBytes ⟨"abc"⟩ [] _).sent Shared.presence zeros ready_zeros takes (Nat.le_of_eq hfits),
    (measured_putBytes ⟨"abc"⟩ [] _).refused Shared.presence zeros ready_zeros (by rw [hlong]; decide)⟩

end Board

end Pinboard
