import Pinboard.Proofs.Connection.Exchange
import Pinboard.Proofs.Connection.Queued

/-! The account of a connection: what it has written and read for the requests that it has served. As long as it is
    served, the frames of those that fit went out one behind the other, and the first reply frame is the answer to
    the first of them, the second to the second. The exchange that ends it leaves a frame that is cut, or one
    that no whole frame answers, and nothing behind that. -/

namespace Pinboard

/-- The served requests that are not too long to be sent, with their outcomes. -/
def sent (served : List (Ticket × Outcome)) : List (Ticket × Outcome) := served.filter (·.1.request.Fits)

/-- The requests that were sent, in order. -/
def sentRequests (served : List (Ticket × Outcome)) : List Request := (sent served).map (·.1.request)

section Sent

variable {served : List (Ticket × Outcome)} {t : Ticket} {outcome : Outcome}

theorem sent_of_not_fits (long : ¬t.request.Fits) : sent (served ++ [(t, outcome)]) = sent served := by
  simp [sent, List.filter_append, long]

theorem sent_of_fits (fits : t.request.Fits) : sent (served ++ [(t, outcome)]) = sent served ++ [(t, outcome)] := by
  simp [sent, List.filter_append, fits]

theorem sentRequests_of_not_fits (long : ¬t.request.Fits) :
    sentRequests (served ++ [(t, outcome)]) = sentRequests served := by
  rw [sentRequests, sent_of_not_fits long, sentRequests]

theorem sentRequests_of_fits (fits : t.request.Fits) :
    sentRequests (served ++ [(t, outcome)]) = sentRequests served ++ [t.request] := by
  rw [sentRequests, sent_of_fits fits, List.map_append, sentRequests, List.map_singleton]

end Sent

/-- Each request that was sent has its reply: the bodies of `replies` stand for the outcomes in order. `out` is all
    that was written, and `rest` what has arrived behind the last reply. -/
structure Matched (peer : Peer) (first : Connection) (served : List (Ticket × Outcome)) (replies : List (List UInt8))
    (out rest : List UInt8) : Prop where
  written : out = first.accepted ++ Frame.encodeAll ((sentRequests served).map Request.body)
  read : first.unread ++ peer.sends first.received (sentRequests served) = Frame.encodeAll replies ++ rest
  legal : ∀ reply ∈ replies, reply.length ≤ Frame.maxBody
  outcomes : (sent served).map (·.2) = replies.map Response.ofReply

/-- What a connection has come to by serving requests, from its first state on. -/
inductive Account (peer : Peer) (first : Connection) : Connection → List (Ticket × Outcome) → Prop
  /-- It is served, and stands between frames on both sides. -/
  | served {c : Connection} {served : List (Ticket × Outcome)} {replies : List (List UInt8)} (live : c.live = true)
      (received : c.received = first.received ++ sentRequests served)
      (matched : Matched peer first served replies c.accepted c.unread) : Account peer first c served
  /-- It has ended because the frame of the last request could not be written. No reply was read to that. -/
  | cut {c : Connection} {served : List (Ticket × Outcome)} {replies : List (List UInt8)} {out part : List UInt8}
      {t : Ticket} {fault : StreamFault} (ended : c.live = false) (fits : t.request.Fits)
      (matched : Matched peer first served replies out c.unread)
      (beginning : part <+: Frame.encode t.request.body) (accepted : c.accepted = out ++ part) :
      Account peer first c (served ++ [(t, .error fault)])
  /-- It has ended because what came in behind the last reply begins with no whole frame. -/
  | unanswered {c : Connection} {served : List (Ticket × Outcome)} {replies : List (List UInt8)}
      {out rest eaten : List UInt8} {t : Ticket} {fault : StreamFault} (ended : c.live = false)
      (fits : t.request.Fits) (matched : Matched peer first served replies out rest)
      (accepted : c.accepted = out ++ Frame.encode t.request.body)
      (taken : rest ++ (peer (first.received ++ sentRequests served ++ [t.request])).bytes = eaten ++ c.unread)
      (none_starts : first.stream.source.Flows →
        ¬Frame.Starts (rest ++ (peer (first.received ++ sentRequests served ++ [t.request])).bytes)) :
      Account peer first c (served ++ [(t, .error fault)])

section Account

variable {peer : Peer} {first c : Connection} {served : List (Ticket × Outcome)} {replies : List (List UInt8)}
  {out rest : List UInt8} {t : Ticket}

theorem Matched.refused {outcome : Outcome} (h : Matched peer first served replies out rest)
    (long : ¬t.request.Fits) : Matched peer first (served ++ [(t, outcome)]) replies out rest where
  written := by rw [sentRequests_of_not_fits long, h.written]
  read := by rw [sentRequests_of_not_fits long, h.read]
  legal := h.legal
  outcomes := by rw [sent_of_not_fits long, h.outcomes]

/-- One more request is sent, and the frame that comes in next is its reply. -/
theorem Matched.answered {reply rest' : List UInt8} (h : Matched peer first served replies out rest)
    (fits : t.request.Fits) (legal : reply.length ≤ Frame.maxBody)
    (taken : rest ++ (peer (first.received ++ sentRequests served ++ [t.request])).bytes = Frame.encode reply ++ rest') :
    Matched peer first (served ++ [(t, Response.ofReply reply)]) (replies ++ [reply])
      (out ++ Frame.encode t.request.body) rest' where
  written := by
    rw [sentRequests_of_fits fits, List.map_append, List.map_singleton, Frame.encodeAll_append,
      Frame.encodeAll_singleton, h.written, List.append_assoc]
  read := by
    rw [sentRequests_of_fits fits, Peer.sends_append, Peer.sends_singleton, ← List.append_assoc, h.read,
      List.append_assoc, taken, Frame.encodeAll_append, Frame.encodeAll_singleton, List.append_assoc]
  legal := by
    intro body hbody
    rcases List.mem_append.mp hbody with hbody | hbody
    · exact h.legal body hbody
    · rw [List.mem_singleton.mp hbody]
      exact legal
  outcomes := by
    rw [sent_of_fits fits, List.map_append, h.outcomes, List.map_append, List.map_singleton, List.map_singleton]

theorem Account.exchange (h : Account peer first c served) (live : c.live = true) (sound : c.Sound first.stream)
    (t : Ticket) : Account peer first (c.exchange peer t.request).2 (served ++ [(t, (c.exchange peer t.request).1)]) := by
  -- An ended connection serves nothing, so there is only the account of one that is served to go on with.
  cases h with
  | cut ended => exact absurd live (Bool.eq_false_iff.mp ended)
  | unanswered ended => exact absurd live (Bool.eq_false_iff.mp ended)
  | served _ received matched =>
    have hx := Connection.exchanged peer c t.request
    generalize (c.exchange peer t.request).1 = outcome at hx
    generalize (c.exchange peer t.request).2 = c' at hx
    cases hx with
    | refused long =>
      refine .served rfl ?_ (matched.refused long)
      rw [sentRequests_of_not_fits long]
      exact received
    | cut fits fault_of unsent beginning accepted source received' live' =>
      have hunread : c'.unread = c.unread := by rw [Connection.unread, source, Connection.unread]
      refine .cut ?_ fits (hunread ▸ matched) beginning accepted
      rw [live']
      exact decide_eq_false (fault_of.kind_ne sound.apart)
    | unanswered fits sends fault_of accepted taken unheard received' live' =>
      have none_starts (hf : first.stream.source.Flows) : ¬Frame.Starts (c.incoming peer t.request) :=
        (Connection.reads_iff (sound.keeps.flows hf)).not.mp unheard
      rw [Connection.incoming, received] at taken none_starts
      exact .unanswered live' fits matched accepted taken none_starts
    | answered fits sends legal accepted taken received' live' =>
      rw [Connection.incoming, received] at taken
      refine .served live' ?_ (accepted ▸ matched.answered fits legal taken)
      rw [received', received, sentRequests_of_fits fits, List.append_assoc]

end Account

namespace Shared

theorem served_tooLong (peer : Peer) (c : Connection) (events : List Event) :
    ∀ x ∈ ((start c).run peer events).served, ¬x.1.request.Fits →
      x.2 = .error (.tooLongToSend x.1.request.body.length) := by
  refine run_served peer (P := fun _ served => ∀ x ∈ served, ¬x.1.request.Fits →
    x.2 = .error (.tooLongToSend x.1.request.body.length)) (by simp) ?_ events
  intro c served t _ h x hx long
  rcases List.mem_append.mp hx with hx | hx
  · exact h x hx long
  · rw [List.mem_singleton.mp hx] at long ⊢
    exact Connection.exchange_tooLong peer c long

/-- A far end that says to every request that the object `a` is there. -/
def presence : Peer := fun _ => ⟨Frame.encode (Response.objectPresence "a" true).body, false⟩

end Shared

end Pinboard
