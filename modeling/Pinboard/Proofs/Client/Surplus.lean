import Pinboard.Proofs.Client.Together
import Pinboard.Proofs.Connection.Attribution
import Pinboard.Proofs.Connection.Carrying
import Pinboard.Proofs.Message.RoundTrip

/-! One frame too many. A far end that answers each call, but sends one frame more in front of an answer, puts the
    connection out of step: from then on each call reads the answer to the call before it. The ids tell, so no call
    takes the value of another for its own; but nothing puts the connection in step again, and the calls go out all
    the same. -/

namespace Pinboard

/-- A call of a method of an object. -/
structure Call where
  target : ObjectAddress
  method : String
  args : Json

namespace Call

def ask (call : Call) : Ask Json := .call call.target call.method call.args

def query (call : Call) : SomeQuery Json := ⟨Json, .plain call.ask⟩

/-- How a call of a method fails that reads a frame which does not carry its id. -/
def stray (method : String) (body : List UInt8) : Fault :=
  match Response.parse body with
  | .error fault => .io (.notAResponse fault)
  | .ok (.error none message) => .remote message
  | .ok r => .protocol ("unexpected reply to " ++ method ++ ": " ++ r.shown)

theorem told_stray (call : Call) {id : CallId} {body : List UInt8}
    (foreign : ∀ r, Response.parse body = .ok r → r.id? ≠ some id) :
    call.ask.told id (Response.ofReply body) = .error (stray call.method body) := by
  rw [Response.ofReply, stray]
  cases hparse : Response.parse body with
  | error fault => rfl
  | ok r =>
    have hid := foreign r hparse
    refine (Ask.told_ok id call.ask r).trans ?_
    cases r with
    | result i value => exact if_neg fun h => hid (congrArg some h)
    | error i message =>
      cases i with
      | none => rfl
      | some i => exact if_neg fun h => hid (congrArg some h)
    | objectPresence name present => rfl

theorem told_result (call : Call) {id : CallId} {body : List UInt8} {value : Json}
    (h : Response.parse body = .ok (.result id value)) : call.ask.told id (Response.ofReply body) = .ok value := by
  rw [Response.ofReply, h]
  exact (Ask.told_ok id call.ask _).trans (if_pos rfl)

end Call

namespace Client

/-- The frame that call `j` finds, if one frame more than the replies comes in, in front of the reply to call `k`. -/
def shifted (k : Nat) (surplus : List UInt8) (reply : Nat → List UInt8) (j : Nat) : List UInt8 :=
  if j < k then reply j else if j = k then surplus else reply (j - 1)

variable {peer : Peer} {c : Client} {calls : List Call} {k : Nat} {surplus : List UInt8} {reply : Nat → List UInt8}
  {value : Nat → Json}

/-- The far end answers each call with a result under its id, but sends one frame more in front of the reply to call
    `k`. That frame may come at any time before, and in pieces. -/
structure SendsSurplus (peer : Peer) (c : Client) (calls : List Call) (k : Nat) (surplus : List UInt8)
    (reply : Nat → List UInt8) (value : Nat → Json) : Prop where
  within : k < calls.length
  carries : c.connection.Carries peer (requests c.ids c.asked (calls.map Call.query))
  distinct : ∀ i < calls.length, ∀ j < calls.length, c.ids (c.asked + i) = c.ids (c.asked + j) → i = j
  legal : ∀ j < calls.length, (reply j).length ≤ Frame.maxBody
  results : ∀ j < calls.length, Response.parse (reply j) = .ok (.result (c.ids (c.asked + j)) (value j))
  surplus_legal : surplus.length ≤ Frame.maxBody
  /-- The frame that is too many carries the id of no call from then on. -/
  foreign : ∀ r, Response.parse surplus = .ok r →
    ∀ j, k ≤ j → j < calls.length → r.id? ≠ some (c.ids (c.asked + j))
  /-- The replies and the frame among them are all that comes in. -/
  frames : c.connection.unread ++ peer.sends c.connection.received (requests c.ids c.asked (calls.map Call.query)) =
    Frame.encodeAll ((List.range (calls.length + 1)).map (shifted k surplus reply))
  /-- Once a call has been received, so many of the frames are there. -/
  comes : ∀ j < calls.length, Frame.encodeAll ((List.range (j + 1)).map (shifted k surplus reply)) <+:
    c.connection.unread ++
      peer.sends c.connection.received ((requests c.ids c.asked (calls.map Call.query)).take (j + 1))

/-- The calls from `k` on are out of step: each reads the frame before its own. -/
structure OutOfStep (c : Client) (calls : List Call) (k : Nat) (surplus : List UInt8) (reply : Nat → List UInt8)
    (value : Nat → Json) (outcomes : List (Except Fault Json)) (last : Connection) : Prop where
  length : outcomes.length = calls.length
  before : ∀ j < k, outcomes[j]? = some (.ok (value j))
  /-- The frame that is too many tells the first of them how it fails. -/
  first : ∀ call, calls[k]? = some call → outcomes[k]? = some (.error (Call.stray call.method surplus))
  /-- Each later one reads the reply to the call before it, and takes it for no answer. -/
  behind : ∀ j call, k < j → calls[j]? = some call → outcomes[j]? = some (.error (.protocol
    ("unexpected reply to " ++ call.method ++ ": " ++
      (Response.result (c.ids (c.asked + (j - 1))) (value (j - 1))).shown)))
  /-- The connection goes on, and every call goes out in order. -/
  live : last.live = true
  received : last.received = c.connection.received ++ requests c.ids c.asked (calls.map Call.query)
  accepted : last.accepted = c.connection.accepted ++
    Frame.encodeAll ((requests c.ids c.asked (calls.map Call.query)).map Request.body)
  /-- The reply to the last call is left. -/
  unread : last.unread = Frame.encode (reply (calls.length - 1))

theorem SendsSurplus.takeUp (h : SendsSurplus peer c calls k surplus reply value) {outcomes : List Outcome}
    {last : Connection}
    (htaken : c.connection.takeUp peer (requests c.ids c.asked (calls.map Call.query)) = (outcomes, last)) :
    outcomes = ((List.range calls.length).map (shifted k surplus reply)).map Response.ofReply ∧ last.live = true ∧
      last.received = c.connection.received ++ requests c.ids c.asked (calls.map Call.query) ∧
      last.accepted = c.connection.accepted ++
        Frame.encodeAll ((requests c.ids c.asked (calls.map Call.query)).map Request.body) ∧
      last.unread = Frame.encode (reply (calls.length - 1)) := by
  have within := h.within
  have hlength : (requests c.ids c.asked (calls.map Call.query)).length = calls.length := by
    rw [length_requests, List.length_map]
  have legal : ∀ body ∈ (List.range calls.length).map (shifted k surplus reply), body.length ≤ Frame.maxBody := by
    intro body hbody
    obtain ⟨j, hj, rfl⟩ := List.mem_map.mp hbody
    rw [List.mem_range] at hj
    unfold shifted
    split
    · exact h.legal j hj
    · split
      · exact h.surplus_legal
      · exact h.legal (j - 1) (by omega)
  obtain ⟨houtcomes, live, received, accepted, unread⟩ :=
    Connection.takeUp_frames h.carries (by rw [hlength, List.length_map, List.length_range]) legal fun j hj => by
      rw [hlength] at hj
      rw [← List.map_take, List.take_range, Nat.min_eq_left hj]
      exact h.comes j hj
  -- All frames but the last are read, and the last is the reply to the last call.
  rw [h.frames, List.range_succ, List.map_append, Frame.encodeAll_append, List.append_cancel_left_eq, List.map_singleton,
    Frame.encodeAll_singleton, shifted, if_neg (by omega), if_neg (by omega)] at unread
  rw [htaken] at houtcomes live received accepted unread
  exact ⟨houtcomes, live, received, accepted, unread⟩

theorem SendsSurplus.outOfStep (h : SendsSurplus peer c calls k surplus reply value) {outcomes : List Outcome}
    {last : Connection}
    (htaken : c.connection.takeUp peer (requests c.ids c.asked (calls.map Call.query)) = (outcomes, last)) :
    OutOfStep c calls k surplus reply value (reported (pendings c.ids c.asked (calls.map Call.query)) outcomes) last := by
  obtain ⟨houtcomes, live, received, accepted, unread⟩ := h.takeUp htaken
  have within := h.within
  have told (j : Nat) (call : Call) (hcall : calls[j]? = some call) :
      (reported (pendings c.ids c.asked (calls.map Call.query)) outcomes)[j]? =
        some (call.ask.told (c.ids (c.asked + j)) (Response.ofReply (shifted k surplus reply j))) := by
    obtain ⟨hj, -⟩ := List.getElem?_eq_some_iff.mp hcall
    refine getElem?_reported (q := call.query) (by rw [List.getElem?_map, hcall]; rfl) ?_
    rw [houtcomes, List.getElem?_map, List.getElem?_map, List.getElem?_range hj]
    rfl
  refine ⟨?_, fun j hj => ?_, fun call hcall => ?_, fun j call hj hcall => ?_, live, received, accepted, unread⟩
  · rw [reported, List.length_map, List.length_zip, length_pendings, houtcomes, List.length_map, List.length_map,
      List.length_map, List.length_range, Nat.min_self]
  · have hlt : j < calls.length := Nat.lt_trans hj within
    rw [told j calls[j] (List.getElem?_eq_getElem hlt), shifted, if_pos hj, Call.told_result _ (h.results j hlt)]
  · rw [told k call hcall, shifted, if_neg (Nat.lt_irrefl k), if_pos rfl,
      Call.told_stray call fun r hr => h.foreign r hr k (Nat.le_refl k) within]
  · obtain ⟨hlt, -⟩ := List.getElem?_eq_some_iff.mp hcall
    have hparse := h.results (j - 1) (by omega)
    have hne : c.ids (c.asked + (j - 1)) ≠ c.ids (c.asked + j) := fun heq => by
      have := h.distinct (j - 1) (by omega) j hlt heq
      omega
    rw [told j call hcall, shifted, if_neg (by omega), if_neg (by omega), Call.told_stray call, Call.stray, hparse]
    rintro r hr hid
    rw [hparse, Except.ok.injEq] at hr
    subst hr
    exact hne (Option.some.inj hid)

/-- One frame too many puts all calls behind it out of step, made together or one after another. -/
theorem outOfStep_of_surplus (peer : Peer) (c : Client) (calls : List Call) (k : Nat) (surplus : List UInt8)
    (reply : Nat → List UInt8) (value : Nat → Json) (h : SendsSurplus peer c calls k surplus reply value) :
    OutOfStep c calls k surplus reply value (c.runEach peer (calls.map Call.query)).1
        (c.runEach peer (calls.map Call.query)).2.connection ∧
      OutOfStep c calls k surplus reply value (c.runAll peer ((calls.map Call.query).map (.of ·.2))).1
        (c.runAll peer ((calls.map Call.query).map (.of ·.2))).2.connection := by
  have htakeUp := h.outOfStep rfl
  have hlength : (c.connection.takeUp peer (requests c.ids c.asked (calls.map Call.query))).1.length =
      (requests c.ids c.asked (calls.map Call.query)).length := by
    rw [(h.takeUp rfl).1, List.length_map, List.length_map, List.length_range, length_requests, List.length_map]
  obtain ⟨hapart, hconnection⟩ := runEach_eq peer c (calls.map Call.query)
  obtain ⟨htogether, hconnection'⟩ := runAll_eq peer c (calls.map Call.query)
  rw [hapart, hconnection, htogether, hconnection', Connection.requestEach_of_taken hlength,
    Connection.requestAll_of_taken h.carries.live hlength]
  exact ⟨htakeUp, htakeUp⟩

def threeCalls : List Call := List.replicate 3 ⟨⟨"", "", ""⟩, "m", .null⟩

/-- A client on a new connection that gives each call its number as the id. -/
def numbering : Client := ⟨.ofStream .fresh, fun n => ⟨Nat.repr n⟩, 0, []⟩

/-- The reply to the call of a number. -/
def numbered (n : Nat) : List UInt8 := (Response.result ⟨Nat.repr n⟩ (.string (Nat.repr n))).body

theorem parse_numbered (n : Nat) :
    Response.parse (numbered n) = .ok (.result ⟨Nat.repr n⟩ (.string (Nat.repr n))) := by
  refine @Wire.Lawful.back _ _ Response.lawful (.result ⟨Nat.repr n⟩ (.string (Nat.repr n))) ?_
    (Response.lawful.depth.mpr ?_)
  · rintro j ⟨⟩
    exact .string _
  · rintro j ⟨⟩
    exact Nat.zero_le _

/-- A far end that sends the reply to the first call twice. -/
def twice : Peer := fun received =>
  let reply := Frame.encode (numbered (received.length - 1))
  ⟨if received.length = 1 then reply ++ reply else reply, false⟩

theorem outOfStep_of_surplus_twice :
    SendsSurplus twice numbering threeCalls 1 (numbered 0) numbered (fun n => .string (Nat.repr n)) ∧
      OutOfStep numbering threeCalls 1 (numbered 0) numbered (fun n => .string (Nat.repr n))
        (numbering.runEach twice (threeCalls.map Call.query)).1
        (numbering.runEach twice (threeCalls.map Call.query)).2.connection := by
  have hids (j : Nat) : numbering.ids (numbering.asked + j) = ⟨Nat.repr j⟩ := by
    rw [numbering, Nat.zero_add]
  have distinct : ∀ i < threeCalls.length, ∀ j < threeCalls.length,
      numbering.ids (numbering.asked + i) = numbering.ids (numbering.asked + j) → i = j := by decide +kernel
  have sends : SendsSurplus twice numbering threeCalls 1 (numbered 0) numbered (fun n => .string (Nat.repr n)) := {
    within := by decide
    carries := ⟨rfl, fun _ => nofun, fun _ => nofun, rfl, nofun, by decide +kernel, by decide +kernel⟩
    distinct
    legal := by decide +kernel
    results := fun j _ => hids j ▸ parse_numbered j
    surplus_legal := by decide +kernel
    foreign := fun r hr j hj hlt hid => by
      rw [parse_numbered, Except.ok.injEq] at hr
      subst hr
      have := distinct 0 (by decide) j hlt (Option.some.inj hid)
      omega
    frames := by decide +kernel
    comes := by decide +kernel }
  exact ⟨sends, (outOfStep_of_surplus twice numbering threeCalls 1 (numbered 0) numbered _ sends).1⟩

end Client

end Pinboard
