import Mathlib.Data.List.Forall2
import Pinboard.Proofs.Connection.Exchange
import Pinboard.Proofs.Connection.Shared
import Pinboard.Proofs.Query

/-! Whose answer a frame is. The far end may send anything, and even a stream whose faults look like a refusal may
    put frames and requests out of step. So the order of frames proves nothing: a caller is told a value or an
    error only by a frame that carries the id of its own call or the name that it asked about. -/

namespace Pinboard

/-- The id that a request carries. -/
def Request.id? : Request → Option CallId
  | .call id _ _ _ => some id
  | .hasObject _ => none

/-- The id that a response carries. -/
def Response.id? : Response → Option CallId
  | .result id _ => some id
  | .error id _ => id
  | .objectPresence _ _ => none

/-- The outcome of a request is what one frame says, or a fault for which no frame was read whole. -/
inductive AnsweredBy : Option (List UInt8) → Outcome → Prop
  | frame {body : List UInt8} (legal : body.length ≤ Frame.maxBody) : AnsweredBy (some body) (Response.ofReply body)
  | fault {fault : StreamFault} : AnsweredBy none (.error fault)

/-- The frames that were read, each for one of the served requests or for none, are all that was read whole. What
    was read otherwise is lost, and ends the connection. -/
structure Framed (peer : Peer) (first c : Connection) (served : List (Ticket × Outcome))
    (replies : List (Option (List UInt8))) (eaten : List UInt8) : Prop where
  answered : List.Forall₂ (fun reply x => AnsweredBy reply x.2) replies served
  received : ∃ rs, c.received = first.received ++ rs ∧
    first.unread ++ peer.sends first.received rs = Frame.encodeAll (replies.filterMap id) ++ eaten ++ c.unread
  live : c.live = true → eaten = []

section Framed

variable {peer : Peer} {first c : Connection} {served : List (Ticket × Outcome)}
  {replies : List (Option (List UInt8))} {eaten : List UInt8}

theorem forall₂_concat {α β : Type} {R : α → β → Prop} {l : List α} {m : List β} {a : α} {b : β}
    (h : List.Forall₂ R l m) (hab : R a b) : List.Forall₂ R (l ++ [a]) (m ++ [b]) :=
  List.rel_append h (.cons hab .nil)

theorem forall₂_faults (fault : StreamFault) (ts : List Ticket) :
    List.Forall₂ (fun reply (x : Ticket × Outcome) => AnsweredBy reply x.2) (ts.map fun _ => none)
      (ts.map fun t => (t, .error fault)) := by
  induction ts with
  | nil => exact .nil
  | cons t ts ih => exact .cons .fault ih

theorem Framed.exchange (h : Framed peer first c served replies []) (t : Ticket) :
    ∃ replies eaten, Framed peer first (c.exchange peer t.request).2
      (served ++ [(t, (c.exchange peer t.request).1)]) replies eaten := by
  obtain ⟨rs, hreceived, hread⟩ := h.received
  have hnone : (replies ++ [none]).filterMap id = replies.filterMap id := by simp
  have hmore : first.unread ++ peer.sends first.received (rs ++ [t.request]) =
      Frame.encodeAll (replies.filterMap id) ++ c.incoming peer t.request := by
    rw [Peer.sends_append, Peer.sends_singleton, ← List.append_assoc, hread, List.append_nil, List.append_assoc,
      ← hreceived, Connection.incoming]
  have hx := Connection.exchanged peer c t.request
  generalize (c.exchange peer t.request).1 = outcome at hx ⊢
  generalize (c.exchange peer t.request).2 = c' at hx ⊢
  cases hx with
  | refused long =>
    refine ⟨replies ++ [none], [], forall₂_concat h.answered .fault, ⟨rs, hreceived, ?_⟩, fun _ => rfl⟩
    rw [hnone]
    exact hread
  | cut fits fault_of unsent beginning accepted source received live =>
    refine ⟨replies ++ [none], [], forall₂_concat h.answered .fault, ⟨rs, received.trans hreceived, ?_⟩, fun _ => rfl⟩
    rw [hnone, show c'.unread = c.unread from congrArg Source.unread source]
    exact hread
  | @unanswered _ eaten _ fits sends fault_of accepted taken unheard received live =>
    refine ⟨replies ++ [none], eaten, forall₂_concat h.answered .fault, ⟨rs ++ [t.request], ?_, ?_⟩,
      fun hl => absurd hl (Bool.eq_false_iff.mp live)⟩
    · rw [received, hreceived, List.append_assoc]
    · rw [hmore, taken, hnone, List.append_assoc]
  | @answered reply _ fits sends legal accepted taken received live =>
    refine ⟨replies ++ [some reply], [], forall₂_concat h.answered (.frame legal), ⟨rs ++ [t.request], ?_, ?_⟩,
      fun _ => rfl⟩
    · rw [received, hreceived, List.append_assoc]
    · rw [hmore, taken, List.filterMap_append, Frame.encodeAll_append]
      simp

end Framed

namespace Shared

theorem framed_run (peer : Peer) (stream : Stream) (events : List Event) :
    ∃ replies eaten, Framed peer (.ofStream stream) ((start (.ofStream stream)).run peer events).connection
      ((start (.ofStream stream)).run peer events).served replies eaten := by
  refine run_served peer
    (P := fun c served => ∃ replies eaten, Framed peer (.ofStream stream) c served replies eaten) ?_ ?_ events
  · exact ⟨[], [], .nil, ⟨[], rfl, by simp [Peer.sends]⟩, fun _ => rfl⟩
  · rintro c served t live ⟨replies, eaten, framed⟩
    obtain rfl := framed.live live
    exact framed.exchange t

/-! ### Attribution -/

theorem mem_numbered {rs : List Request} {t : Ticket} : t ∈ Ticket.numbered 0 rs ↔ rs[t.number]? = some t.request := by
  rw [Ticket.numbered, List.mem_map]
  constructor
  · rintro ⟨⟨r, n⟩, hmem, rfl⟩
    exact List.mk_mem_zipIdx_iff_getElem?.mp hmem
  · intro h
    exact ⟨(t.request, t.number), List.mk_mem_zipIdx_iff_getElem?.mpr h, rfl⟩

theorem number_eq {rs : List Request} (distinct : (rs.filterMap Request.id?).Nodup) {t other : Ticket} {id : CallId}
    (ht : t ∈ Ticket.numbered 0 rs) (ho : other ∈ Ticket.numbered 0 rs) (htid : t.request.id? = some id)
    (hoid : other.request.id? = some id) : other.number = t.number := by
  rw [mem_numbered] at ht ho
  obtain ⟨hlt, ht⟩ := List.getElem?_eq_some_iff.mp ht
  obtain ⟨hlo, ho⟩ := List.getElem?_eq_some_iff.mp ho
  have hpair := List.pairwise_iff_getElem.mp (List.pairwise_filterMap.mp distinct)
  rcases Nat.lt_trichotomy other.number t.number with h | h | h
  · exact absurd rfl (hpair _ _ hlo hlt h id (ho ▸ hoid) id (ht ▸ htid))
  · exact h
  · exact absurd rfl (hpair _ _ hlt hlo h id (ht ▸ htid) id (ho ▸ hoid))

/-- What the caller of a request is told rests on the frame that was read for it, if one was. `rs` are all requests
    that were made on the connection. -/
structure Attributed (rs : List Request) (reply : Option (List UInt8)) (x : Ticket × Outcome) : Prop where
  answered : AnsweredBy reply x.2
  ok_iff : ∀ {β : Type} (ask : Ask β) (id : CallId), ask.request id = x.1.request → ∀ v,
    ask.told id x.2 = .ok v ↔ ∃ body r, reply = some body ∧ Response.parse body = .ok r ∧ ask.Grants id r v
  remote_iff : ∀ {β : Type} (ask : Ask β) (id : CallId), ask.request id = x.1.request → ∀ message,
    ask.told id x.2 = .error (.remote message) ↔
      ∃ body r, reply = some body ∧ Response.parse body = .ok r ∧ ask.Denies id r message
  /-- Any other response is a fault of the protocol. -/
  otherwise : ∀ {β : Type} (ask : Ask β) (id : CallId), ask.request id = x.1.request → ∀ body r,
    reply = some body → Response.parse body = .ok r → (∀ v, ¬ask.Grants id r v) → (∀ message, ¬ask.Denies id r message) →
      ∃ text, ask.told id x.2 = .error (.protocol text)
  /-- So is a response that carries the id of another request. -/
  apart : ∀ {β : Type} (ask : Ask β) (id : CallId), ask.request id = x.1.request → ∀ body r i,
    reply = some body → Response.parse body = .ok r → r.id? = some i →
      ∀ other ∈ Ticket.numbered 0 rs, other.number ≠ x.1.number → other.request.id? = some i →
        ∃ text, ask.told id x.2 = .error (.protocol text)

theorem told_of_parse {β : Type} {body : List UInt8} {r : Response} {outcome : Outcome}
    (h : AnsweredBy (some body) outcome) (hparse : Response.parse body = .ok r) (ask : Ask β) (id : CallId) :
    ask.told id outcome = ask.answer id r := by
  cases h with
  | frame legal =>
    rw [Response.ofReply, hparse]
    exact Ask.told_ok id ask r

theorem told_cases {β : Type} {reply : Option (List UInt8)} {outcome : Outcome} (h : AnsweredBy reply outcome)
    (ask : Ask β) (id : CallId) :
    (∃ body r, reply = some body ∧ Response.parse body = .ok r ∧ ask.told id outcome = ask.answer id r) ∨
      ∃ fault, ask.told id outcome = .error (.io fault) := by
  cases h with
  | fault => exact Or.inr ⟨_, rfl⟩
  | @frame body legal =>
    cases hparse : Response.parse body with
    | ok r => exact Or.inl ⟨body, r, rfl, hparse, told_of_parse (.frame legal) hparse ask id⟩
    | error fault =>
      refine Or.inr ⟨.notAResponse fault, ?_⟩
      rw [Response.ofReply, hparse]
      rfl

/-- A response with the id of another request neither grants nor denies anything. -/
theorem not_meant {β : Type} {rs : List Request} (distinct : (rs.filterMap Request.id?).Nodup) {t other : Ticket}
    (ht : t ∈ Ticket.numbered 0 rs) (ho : other ∈ Ticket.numbered 0 rs) (hne : other.number ≠ t.number) {ask : Ask β}
    {id i : CallId} (hask : ask.request id = t.request) {r : Response} (hr : r.id? = some i)
    (hoid : other.request.id? = some i) : (∀ v, ¬ask.Grants id r v) ∧ ∀ message, ¬ask.Denies id r message := by
  have hown (htid : t.request.id? = some i) : False := hne (number_eq distinct ht ho htid hoid)
  cases ask with
  | call target method args =>
    have hid : id = i → False := fun h => hown (by rw [← hask, ← h]; rfl)
    refine ⟨fun v hg => ?_, fun message hd => ?_⟩
    · rw [show r = .result id v from hg] at hr
      exact hid (Option.some.inj hr)
    · rcases hd with rfl | rfl
      · cases hr
      · exact hid (Option.some.inj hr)
  | hasObject name =>
    refine ⟨fun v hg => ?_, fun message hd => ?_⟩
    · rw [show r = .objectPresence name v from hg] at hr
      cases hr
    · rw [show r = .error none message from hd] at hr
      cases hr

theorem attributed {rs : List Request} {reply : Option (List UInt8)} {x : Ticket × Outcome}
    (distinct : (rs.filterMap Request.id?).Nodup) (hx : x.1 ∈ Ticket.numbered 0 rs) (h : AnsweredBy reply x.2) :
    Attributed rs reply x := by
  have otherwise {β : Type} (ask : Ask β) (id : CallId) {body : List UInt8} {r : Response} (hreply : reply = some body)
      (hparse : Response.parse body = .ok r) (hg : ∀ v, ¬ask.Grants id r v) (hd : ∀ message, ¬ask.Denies id r message) :
      ∃ text, ask.told id x.2 = .error (.protocol text) := by
    rw [told_of_parse (hreply ▸ h) hparse ask id]
    rcases Ask.answer_cases id ask r with ⟨v, hv⟩ | ⟨message, hm⟩ | hp
    · exact absurd hv (hg v)
    · exact absurd hm (hd message)
    · exact hp
  refine ⟨h, fun ask id _ v => ⟨fun hok => ?_, ?_⟩, fun ask id _ message => ⟨fun hremote => ?_, ?_⟩,
    fun ask id _ body r => otherwise ask id, fun ask id hask body r i hreply hparse hr other ho hne hoid => ?_⟩
  · rcases told_cases h ask id with ⟨body, r, hreply, hparse, htold⟩ | ⟨fault, htold⟩
    · exact ⟨body, r, hreply, hparse, Ask.answer_ok_iff.mp (htold ▸ hok)⟩
    · rw [htold] at hok
      cases hok
  · rintro ⟨body, r, hreply, hparse, hg⟩
    rw [told_of_parse (hreply ▸ h) hparse ask id]
    exact Ask.answer_of_grants hg
  · rcases told_cases h ask id with ⟨body, r, hreply, hparse, htold⟩ | ⟨fault, htold⟩
    · exact ⟨body, r, hreply, hparse, Ask.answer_remote_iff.mp (htold ▸ hremote)⟩
    · rw [htold] at hremote
      cases hremote
  · rintro ⟨body, r, hreply, hparse, hd⟩
    rw [told_of_parse (hreply ▸ h) hparse ask id]
    exact Ask.answer_of_denies hd
  · obtain ⟨hg, hd⟩ := not_meant distinct hx ho hne hask hr hoid
    exact otherwise ask id hreply hparse hg hd

/-- In every run each outcome rests on one frame of what came in, or on none, and each frame that was read whole
    serves one request, in order. If no two calls have the same id, none of them is told what is meant for
    another, however the far end mixes up its replies. -/
theorem attributed_run (peer : Peer) (stream : Stream) (events : List Event)
    (distinct : ((requests events).filterMap Request.id?).Nodup) :
    ∃ replies eaten,
      (stream.source.unread ++ peer.sends [] ((start (.ofStream stream)).run peer events).connection.received =
          Frame.encodeAll (replies.filterMap id) ++ eaten ++
            ((start (.ofStream stream)).run peer events).connection.unread ∧
        (((start (.ofStream stream)).run peer events).connection.live = true → eaten = [])) ∧
        List.Forall₂ (Attributed (requests events)) replies ((start (.ofStream stream)).run peer events).outcomes := by
  obtain ⟨replies, eaten, framed⟩ := framed_run peer stream events
  have hplace := tickets_run peer (.ofStream stream) events
  generalize (start (.ofStream stream)).run peer events = s at framed hplace ⊢
  obtain ⟨rs, hreceived, hread⟩ := framed.received
  -- No frame was read for what was lost or refused, which stands behind what was served.
  have hanswered : List.Forall₂ (fun reply (x : Ticket × Outcome) => AnsweredBy reply x.2)
      (replies ++ s.lost.map (fun _ => none) ++ s.refused.map fun _ => none) s.outcomes :=
    List.rel_append (List.rel_append framed.answered (forall₂_faults .connectionLost s.lost))
      (forall₂_faults .connectionEnded s.refused)
  refine ⟨replies ++ s.lost.map (fun _ => none) ++ s.refused.map fun _ => none, eaten, ⟨?_, framed.live⟩, ?_⟩
  · have hframes : (replies ++ s.lost.map (fun _ => none) ++ s.refused.map fun _ => none).filterMap id =
        replies.filterMap id := by
      simp
    rw [hframes, hreceived]
    exact hread
  · obtain ⟨hlength, hzip⟩ := List.forall₂_iff_zip.mp hanswered
    refine List.forall₂_iff_zip.mpr ⟨hlength, fun {reply x} hmem => attributed distinct ?_ (hzip hmem)⟩
    refine hplace.mem_iff.mp ?_
    rw [tickets, List.append_assoc]
    exact List.mem_append_left _ (List.mem_map_of_mem (List.of_mem_zip hmem).2)

/-- Two calls under ids of their own. -/
def twoCalls : List Event :=
  [.make (.call ⟨"a"⟩ ⟨"", "", ""⟩ "" .null), .make (.call ⟨"b"⟩ ⟨"", "", ""⟩ "" .null), .enter 0, .enter 0, .take,
    .exchange, .take, .exchange]

/-- A far end that answers every request as if it were the call `b`. -/
def onlyB : Peer := fun _ => ⟨Frame.encode (Response.result ⟨"b"⟩ .null).body, false⟩

theorem attributed_run_twoCalls :
    ((requests twoCalls).filterMap Request.id?).Nodup ∧
      (∃ replies eaten,
        (Stream.fresh.source.unread ++ onlyB.sends [] ((start (.ofStream .fresh)).run onlyB twoCalls).connection.received =
            Frame.encodeAll (replies.filterMap id) ++ eaten ++
              ((start (.ofStream .fresh)).run onlyB twoCalls).connection.unread ∧
          (((start (.ofStream .fresh)).run onlyB twoCalls).connection.live = true → eaten = [])) ∧
          List.Forall₂ (Attributed (requests twoCalls)) replies
            ((start (.ofStream .fresh)).run onlyB twoCalls).outcomes) ∧
      ((start (.ofStream .fresh)).run onlyB twoCalls).outcomes.map (fun x => x.2.toOption.bind Response.id?) =
        [some ⟨"b"⟩, some ⟨"b"⟩] :=
  have distinct : ((requests twoCalls).filterMap Request.id?).Nodup := by decide
  ⟨distinct, attributed_run onlyB .fresh twoCalls distinct, by decide +kernel⟩

end Shared

end Pinboard
