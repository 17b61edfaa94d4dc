import Pinboard.Proofs.Board.Replies
import Pinboard.Proofs.Frame.Delivery
import Pinboard.Proofs.Message.RoundTrip

/-! What an operation of the board puts on the stream. It is one frame, and whoever reads the frame, the request in it and
    the arguments of the request gets back the method, the application, the key and the value. So operations that ask
    for different things are different requests, and no application can name what another one keeps. -/

namespace Pinboard

namespace Json

theorem plain_ofBytes (bytes : List UInt8) : (ofBytes bytes).Plain := by
  refine .array fun j hj => ?_
  obtain ⟨b, -, rfl⟩ := List.mem_map.mp hj
  have hlt := b.toNat_lt
  exact .integer ⟨Int.le_trans (by decide) (Int.natCast_nonneg _), Int.ofNat_lt.mpr (Nat.lt_trans hlt (by decide))⟩

theorem depth_ofBytes_le (bytes : List UInt8) : (ofBytes bytes).depth ≤ 1 := by
  rw [ofBytes, depth]
  refine Nat.succ_le_succ (depthItems_le.mpr fun j hj => ?_)
  obtain ⟨b, -, rfl⟩ := List.mem_map.mp hj
  exact Nat.le_refl 0

/-- The byte string that a value is, if it is one. -/
def bytes? (j : Json) : Option (List UInt8) := (j.list byte).toOption

theorem bytes?_eq_some_iff {j : Json} {bytes : List UInt8} : j.bytes? = some bytes ↔ j = ofBytes bytes := by
  rw [← ofBytes_ok_iff, bytes?]
  cases j.list byte with
  | error cause => exact ⟨nofun, nofun⟩
  | ok taken => exact ⟨fun h => congrArg _ (Option.some.inj h), fun h => congrArg _ (Except.ok.inj h)⟩

@[simp] theorem bytes?_ofBytes (bytes : List UInt8) : (ofBytes bytes).bytes? = some bytes := bytes?_eq_some_iff.mpr rfl

end Json

/-- The same request under another id, if it has one. -/
def Request.withId (id : CallId) : Request → Request
  | .call _ target method args => .call id target method args
  | .hasObject name => .hasObject name

namespace Board

/-! ### Commands -/

/-- What is asked of the board: to store a value under a key of an application, or for the values under one. -/
inductive Command
  | put (appId : String) (key value : List UInt8)
  | get (appId : String) (key : List UInt8)
  deriving DecidableEq, Repr

namespace Command

def method : Command → String
  | put _ _ _ => "Put"
  | get _ _ => "Get"

def appId : Command → String
  | put appId _ _ => appId
  | get appId _ => appId

def args : Command → Json
  | put appId key value => .array [.string appId, .ofBytes key, .ofBytes value]
  | get appId key => .array [.string appId, .ofBytes key]

/-- The arguments of `Put`: a string and two byte strings. -/
def putArgs? : Json → Option (String × List UInt8 × List UInt8)
  | .array [.string appId, key, value] => do return (appId, ← key.bytes?, ← value.bytes?)
  | _ => none

/-- The arguments of `Get`: a string and a byte string. -/
def getArgs? : Json → Option (String × List UInt8)
  | .array [.string appId, key] => do return (appId, ← key.bytes?)
  | _ => none

/-- The command that a call of a method with arguments is, if it is one. -/
def read? (method : String) (args : Json) : Option Command :=
  if method = "Put" then (putArgs? args).map fun (appId, key, value) => put appId key value
  else if method = "Get" then (getArgs? args).map fun (appId, key) => get appId key
  else none

theorem putArgs?_eq_some_iff {args : Json} {appId : String} {key value : List UInt8} :
    putArgs? args = some (appId, key, value) ↔ args = .array [.string appId, .ofBytes key, .ofBytes value] := by
  constructor
  · intro h
    unfold putArgs? at h
    split at h
    · simp only [bind_pure_comp, Option.map_eq_map, Option.bind_eq_bind, Option.bind_eq_some_iff,
        Option.map_eq_some_iff, Prod.mk.injEq, Json.bytes?_eq_some_iff] at h
      obtain ⟨k, rfl, v, rfl, rfl, rfl, rfl⟩ := h
      rfl
    · cases h
  · rintro rfl
    simp [putArgs?]

theorem getArgs?_eq_some_iff {args : Json} {appId : String} {key : List UInt8} :
    getArgs? args = some (appId, key) ↔ args = .array [.string appId, .ofBytes key] := by
  constructor
  · intro h
    unfold getArgs? at h
    split at h
    · simp only [bind_pure_comp, Option.map_eq_map, Option.map_eq_some_iff, Prod.mk.injEq, Json.bytes?_eq_some_iff] at h
      obtain ⟨k, rfl, rfl, rfl⟩ := h
      rfl
    · cases h
  · rintro rfl
    simp [getArgs?]

/-- A call is read as a command just if it is the call of that command. -/
theorem read?_eq_some_iff {method : String} {args : Json} {command : Command} :
    read? method args = some command ↔ method = command.method ∧ args = command.args := by
  constructor
  · intro h
    unfold read? at h
    split at h
    · rename_i hmethod
      obtain ⟨⟨appId, key, value⟩, hargs, rfl⟩ := Option.map_eq_some_iff.mp h
      exact ⟨hmethod, putArgs?_eq_some_iff.mp hargs⟩
    split at h
    · rename_i hmethod
      obtain ⟨⟨appId, key⟩, hargs, rfl⟩ := Option.map_eq_some_iff.mp h
      exact ⟨hmethod, getArgs?_eq_some_iff.mp hargs⟩
    · cases h
  · rintro ⟨rfl, rfl⟩
    cases command with
    | put appId key value =>
      rw [method, args, read?, if_pos rfl, putArgs?_eq_some_iff.mpr rfl]
      rfl
    | get appId key =>
      rw [method, args, read?, if_neg (by decide), if_pos rfl, getArgs?_eq_some_iff.mpr rfl]
      rfl

theorem plain_args (command : Command) : command.args.Plain := by
  cases command with
  | put appId key value =>
    refine .array ?_
    simp only [List.forall_mem_cons]
    exact ⟨.string appId, Json.plain_ofBytes key, Json.plain_ofBytes value, nofun⟩
  | get appId key =>
    refine .array ?_
    simp only [List.forall_mem_cons]
    exact ⟨.string appId, Json.plain_ofBytes key, nofun⟩

theorem depth_args_le (command : Command) : command.args.depth ≤ 2 := by
  cases command with
  | put appId key value =>
    refine Nat.succ_le_succ (Json.depthItems_le.mpr ?_)
    simp only [List.forall_mem_cons]
    exact ⟨Nat.zero_le 1, Json.depth_ofBytes_le key, Json.depth_ofBytes_le value, nofun⟩
  | get appId key =>
    refine Nat.succ_le_succ (Json.depthItems_le.mpr ?_)
    simp only [List.forall_mem_cons]
    exact ⟨Nat.zero_le 1, Json.depth_ofBytes_le key, nofun⟩

/-- The call of a command under an id. -/
def request (command : Command) (id : CallId) : Request := .call id target command.method command.args

theorem parse_request (command : Command) (id : CallId) :
    Request.parse (command.request id).body = .ok (command.request id) := by
  refine @Wire.Lawful.back _ _ Request.lawful (command.request id) ?_ (Request.lawful.depth.mpr ?_)
  · rintro j ⟨⟩
    exact command.plain_args
  · rintro j ⟨⟩
    exact Nat.le_trans command.depth_args_le (by decide)

theorem request_eq_iff {command command' : Command} {id id' : CallId} :
    command.request id = command'.request id' ↔ id = id' ∧ command = command' := by
  constructor
  · intro h
    simp only [request, Request.call.injEq, true_and] at h
    obtain ⟨hid, hmethod, hargs⟩ := h
    have hread := read?_eq_some_iff.mpr ⟨hmethod, hargs⟩
    rw [read?_eq_some_iff.mpr ⟨rfl, rfl⟩, Option.some.injEq] at hread
    exact ⟨hid, hread⟩
  · rintro ⟨rfl, rfl⟩
    rfl

theorem body_request_eq_iff {command command' : Command} {id id' : CallId} :
    (command.request id).body = (command'.request id').body ↔ id = id' ∧ command = command' := by
  rw [← request_eq_iff]
  constructor
  · intro h
    have hparse := command.parse_request id
    rw [h, parse_request, Except.ok.injEq] at hparse
    exact hparse.symm
  · exact fun h => h ▸ rfl

end Command

/-! ### Operations -/

/-- The operations that store and look up values, with texts and with bytes. -/
inductive Operation
  | put (key value : String)
  | putBytes (key value : List UInt8)
  | get (key : String)
  | getBytes (key : List UInt8)
  deriving DecidableEq, Repr

namespace Operation

/-- The request of the operation under an id. -/
def request (op : Operation) (b : Board) (id : CallId) : Request :=
  match op with
  | put key value => (b.put key value).ask.request id
  | putBytes key value => (b.putBytes key value).ask.request id
  | get key => (b.get key).ask.request id
  | getBytes key => (b.getBytes key).ask.request id

/-- The client once the operation is over. -/
def run (op : Operation) (peer : Peer) (b : Board) (c : Client) : Client :=
  match op with
  | put key value => (c.run peer (b.put key value)).2
  | putBytes key value => (c.run peer (b.putBytes key value)).2
  | get key => (c.run peer (b.get key)).2
  | getBytes key => (c.run peer (b.getBytes key)).2

/-- The operation on the bytes of its texts. -/
def onBytes : Operation → Operation
  | put key value => putBytes (Utf8.encode key) (Utf8.encode value)
  | get key => getBytes (Utf8.encode key)
  | op => op

/-- What the operation asks of the board. -/
def command (op : Operation) (b : Board) : Command :=
  match op with
  | put key value => .put b.appId (Utf8.encode key) (Utf8.encode value)
  | putBytes key value => .put b.appId key value
  | get key => .get b.appId (Utf8.encode key)
  | getBytes key => .get b.appId key

theorem request_eq (op : Operation) (b : Board) (id : CallId) : op.request b id = (op.command b).request id := by
  cases op <;> rfl

theorem run_connection (op : Operation) (peer : Peer) (b : Board) (c : Client) :
    (op.run peer b c).connection = (c.connection.request peer (op.request b (c.ids c.asked))).2 := by
  cases op with
  | put key value => exact Client.run_connection peer (b.put key value) c
  | putBytes key value => exact Client.run_connection peer (b.putBytes key value) c
  | get key => exact Client.run_connection peer (b.get key) c
  | getBytes key => exact Client.run_connection peer (b.getBytes key) c

theorem body_eq_iff {op op' : Operation} {b b' : Board} {id id' : CallId} :
    (op.request b id).body = (op'.request b' id').body ↔ id = id' ∧ op.command b = op'.command b' := by
  rw [op.request_eq, op'.request_eq]
  exact Command.body_request_eq_iff

theorem appId_command (op : Operation) (b : Board) : (op.command b).appId = b.appId := by
  cases op <;> rfl

theorem command_onBytes (op : Operation) (b : Board) : op.onBytes.command b = op.command b := by
  cases op <;> rfl

end Operation

/-- What becomes of an operation on its way to the far end. -/
structure Carries (b : Board) (op : Operation) : Prop where
  /-- Nothing comes onto the stream but the frame of its request, or a beginning of it where the frame is cut. -/
  begun : ∀ (peer : Peer) (c : Client), ∃ part, part <+: Frame.encode (op.request b (c.ids c.asked)).body ∧
    (op.run peer b c).connection.accepted = c.connection.accepted ++ part
  /-- On a connection that is served, a frame that goes out whole is just what comes onto the stream. -/
  whole : ∀ (peer : Peer) (c : Client), c.connection.live = true → c.connection.Sends (op.request b (c.ids c.asked)) →
    (op.run peer b c).connection.accepted = c.connection.accepted ++ Frame.encode (op.request b (c.ids c.asked)).body
  /-- The frame goes out whole if it is not too long and there is room for it. -/
  sent : ∀ c : Client, (op.request b (c.ids c.asked)).Fits → c.connection.stream.sink.Flows →
    c.connection.stream.sink.flushFault = none →
    RoomFor c.connection.stream.sink.room (Frame.encode (op.request b (c.ids c.asked)).body).length →
    c.connection.Sends (op.request b (c.ids c.asked))
  /-- It is read as one frame, into whatever pieces it is cut, and nothing behind it is taken. -/
  unframed : ∀ (id : CallId) (source : Source) (rest : List UInt8), (op.request b id).Fits → source.Flows →
    source.unread = Frame.encode (op.request b id).body ++ rest →
    (Frame.read source).1 = .ok (op.request b id).body ∧ (Frame.read source).2.unread = rest
  /-- The body is read as a call to the board. -/
  parsed : ∀ id, Request.parse (op.request b id).body = .ok (.call id target (op.command b).method (op.command b).args)
  /-- The arguments are read as those of the method: the application, the key and, for `Put`, the value. -/
  understood : Command.read? (op.command b).method (op.command b).args = some (op.command b)
  /-- An operation with texts is the one with their bytes. -/
  texts : ∀ id, op.request b id = op.onBytes.request b id

/-- Two operations are told apart by what they ask of the board, and by nothing else. -/
structure ToldApart (b : Board) (op : Operation) (b' : Board) (op' : Operation) : Prop where
  /-- Apart from the ids, they are the same request just if they ask for the same. -/
  request : ∀ id id' i, (op.request b id).withId i = (op'.request b' id').withId i ↔ op.command b = op'.command b'
  /-- So it is with the bytes of their requests, in which the ids are told apart too. -/
  body : ∀ id id', (op.request b id).body = (op'.request b' id').body ↔ id = id' ∧ op.command b = op'.command b'
  /-- No bytes that come in begin with the frames of both. -/
  frame : ∀ id id' rest rest', (op.request b id).Fits → (op'.request b' id').Fits →
    Frame.encode (op.request b id).body ++ rest = Frame.encode (op'.request b' id').body ++ rest' →
    id = id' ∧ op.command b = op'.command b' ∧ rest = rest'
  /-- Nothing that is read out of the request of the one is for another application, whatever the keys. -/
  namespaces : b.appId ≠ b'.appId → ∀ id id' address method args command,
    Request.parse (op.request b id).body = .ok (.call id' address method args) →
    Command.read? method args = some command → command.appId ≠ b'.appId

theorem carries (b : Board) (op : Operation) : Carries b op where
  begun peer c := by
    obtain ⟨part, haccepted, hpart, -⟩ := c.connection.exists_accepted peer (op.request b (c.ids c.asked))
    exact ⟨part, hpart, op.run_connection peer b c ▸ haccepted⟩
  whole peer c live sends := by
    obtain ⟨part, haccepted, -, hpart⟩ := c.connection.exists_accepted peer (op.request b (c.ids c.asked))
    rw [op.run_connection, haccepted, hpart live sends]
  sent _ fits flows unflushed room := Connection.sends_of_flows fits flows unflushed room
  unframed _ _ _ fits flows unread := Frame.read_frame fits flows unread
  parsed id := by
    rw [op.request_eq]
    exact (op.command b).parse_request id
  understood := Command.read?_eq_some_iff.mpr ⟨rfl, rfl⟩
  texts id := by
    rw [op.request_eq, op.onBytes.request_eq, op.command_onBytes]

theorem toldApart (b b' : Board) (op op' : Operation) : ToldApart b op b' op' where
  request id id' i := by
    rw [op.request_eq, op'.request_eq]
    have hsame := @Command.request_eq_iff (op.command b) (op'.command b') i i
    exact hsame.trans ⟨And.right, fun h => ⟨rfl, h⟩⟩
  body _ _ := Operation.body_eq_iff
  frame id id' rest rest' fits fits' h := by
    obtain ⟨hbody, hrest⟩ := Frame.encode_append_inj fits fits' h
    obtain ⟨hid, hcommand⟩ := Operation.body_eq_iff.mp hbody
    exact ⟨hid, hcommand, hrest⟩
  namespaces hne id id' address method args command h hcommand := by
    rw [op.request_eq, Command.parse_request, Except.ok.injEq, Command.request, Request.call.injEq] at h
    obtain ⟨-, -, rfl, rfl⟩ := h
    rw [Command.read?_eq_some_iff.mpr ⟨rfl, rfl⟩, Option.some.injEq] at hcommand
    rw [← hcommand, op.appId_command]
    exact hne

/-- An operation of the board comes to the far end as it was meant, and as nothing else that an operation can mean. -/
theorem carries_operations (b : Board) (op : Operation) : Carries b op ∧ ∀ b' op', ToldApart b op b' op' :=
  ⟨carries b op, fun b' op' => toldApart b b' op op'⟩

/-- A text with a character of two bytes, put on a new connection. -/
theorem carries_operations_nonAscii :
    newClient.connection.live = true ∧ newClient.connection.stream.sink.Flows ∧
      ((Operation.put "ké" "v").request .default ⟨"a"⟩).Fits ∧
      (Operation.put "ké" "v").command .default = .put "mytestapp" [107, 195, 169] [118] ∧
      ((Operation.put "ké" "v").run oneValue .default newClient).connection.accepted =
        newClient.connection.accepted ++ Frame.encode ((Operation.put "ké" "v").request .default ⟨"a"⟩).body :=
  have flows : newClient.connection.stream.sink.Flows := fun _ => nofun
  have fits : ((Operation.put "ké" "v").request .default ⟨"a"⟩).Fits := by decide +kernel
  have carried := (carries_operations .default (.put "ké" "v")).1
  have sends := carried.sent newClient fits flows rfl fun _ => nofun
  ⟨rfl, flows, fits, by decide +kernel, carried.whole oneValue newClient rfl sends⟩

end Board

end Pinboard
