import Pinboard.Proofs.Connection.Account

/-! Where the stream stands between exchanges. An exchange that leaves the connection served has left the stream alone, or
    has put one whole frame on it and taken one off. There is one way out of this: that nothing was written is told by the
    kind of a fault, so a fault of the stream itself that is of this kind is mistaken for a refusal when writing meets it,
    and the next exchange begins inside a frame. When reading meets it, the connection ends like with any other fault. -/

namespace Pinboard

namespace Connection

/-- How an exchange leaves the stream between frames if it stood there before. -/
inductive Intact (peer : Peer) (c : Connection) (r : Request) : Outcome → Connection → Prop
  /-- Nothing is written and nothing is read. -/
  | untouched {c' : Connection} (long : ¬r.Fits) (stream : c'.stream = c.stream) (received : c'.received = c.received) :
      Intact peer c r (.error (.tooLongToSend r.body.length)) c'
  /-- The frame of the request is written, and one frame of what has come in is read. -/
  | whole {reply : List UInt8} {c' : Connection} (fits : r.Fits) (legal : reply.length ≤ Frame.maxBody)
      (accepted : c'.accepted = c.accepted ++ Frame.encode r.body)
      (taken : c.incoming peer r = Frame.encode reply ++ c'.unread) (received : c'.received = c.received ++ [r]) :
      Intact peer c r (Response.ofReply reply) c'

/-- A fault that is no refusal is of the kind by which a refusal is told. -/
def SeemsRefused (r : Request) (outcome : Outcome) : Prop :=
  r.Fits ∧ ∃ fault, outcome = .error fault ∧ fault.kind = .invalidInput

theorem not_seemsRefused_ofReply (r : Request) (reply : List UInt8) : ¬SeemsRefused r (Response.ofReply reply) := by
  rintro ⟨-, fault, hfault, hkind⟩
  rw [Response.ofReply] at hfault
  cases hparse : Response.parse reply with
  | error cause =>
    rw [hparse] at hfault
    obtain rfl := Except.error.inj hfault
    cases hkind
  | ok response =>
    rw [hparse] at hfault
    cases hfault

theorem intact_or_seemsRefused {peer : Peer} {c : Connection} {r : Request} (live : (c.exchange peer r).2.live = true) :
    Intact peer c r (c.exchange peer r).1 (c.exchange peer r).2 ∨ SeemsRefused r (c.exchange peer r).1 := by
  have hx := exchanged peer c r
  generalize (c.exchange peer r).1 = outcome at hx ⊢
  generalize (c.exchange peer r).2 = c' at hx live ⊢
  cases hx with
  | refused long => exact Or.inl (.untouched long rfl rfl)
  | @cut fault _ _ fits _ _ _ _ _ _ live' => exact Or.inr ⟨fits, fault, rfl, of_decide_eq_true (live'.symm.trans live)⟩
  | unanswered _ _ _ _ _ _ _ ended => exact absurd live (Bool.eq_false_iff.mp ended)
  | answered fits _ legal accepted taken received => exact Or.inl (.whole fits legal accepted taken received)

/-- Just faults of the stream itself seem to be refusals. One that cuts the frame of the request leaves the connection served,
    as a refusal would, and one of reading ends it. -/
theorem seemsRefused_iff {peer : Peer} {c : Connection} {r : Request} :
    SeemsRefused r (c.exchange peer r).1 ↔
      r.Fits ∧ ∃ fault, (c.exchange peer r).1 = .error fault ∧ fault.kind = .invalidInput ∧
        (Frame.WriteFault c.stream.sink fault ∧ ¬c.Sends r ∧ (c.exchange peer r).2.live = true ∨
          c.stream.source.fault = some fault ∧ c.Sends r ∧ (c.exchange peer r).2.live = false) := by
  have hx := exchanged peer c r
  generalize (c.exchange peer r).1 = outcome at hx ⊢
  generalize (c.exchange peer r).2 = c' at hx ⊢
  constructor
  · rintro ⟨fits, fault, rfl, hkind⟩
    refine ⟨fits, fault, rfl, hkind, ?_⟩
    generalize houtcome : Except.error fault = outcome at hx
    cases hx with
    | refused long => exact absurd fits long
    | cut _ fault_of unsent _ _ _ _ live =>
      obtain rfl := Except.error.inj houtcome
      exact Or.inl ⟨fault_of, unsent, live.trans (decide_eq_true hkind)⟩
    | unanswered _ sends fault_of _ _ _ _ ended =>
      obtain rfl := Except.error.inj houtcome
      exact Or.inr ⟨fault_of.eq_own hkind, sends, ended⟩
    | @answered reply => exact absurd ⟨fits, fault, houtcome.symm, hkind⟩ (not_seemsRefused_ofReply r reply)
  · rintro ⟨fits, fault, houtcome, hkind, -⟩
    exact ⟨fits, fault, houtcome, hkind⟩

theorem not_seemsRefused {peer : Peer} {c : Connection} {r : Request} (apart : c.stream.TellsApart) :
    ¬SeemsRefused r (c.exchange peer r).1 := by
  intro seems
  obtain ⟨-, fault, -, hkind, ⟨fault_of, -⟩ | ⟨own, -⟩⟩ := seemsRefused_iff.mp seems
  · exact fault_of.kind_ne apart.sink hkind
  · exact apart.source fault own hkind

/-- The stream stands between frames on both sides: those of the served requests that fit have gone out, one reply frame for
    each of them was read, and nothing else. -/
structure Between (peer : Peer) (first c : Connection) (served : List (Ticket × Outcome)) : Prop where
  received : c.received = first.received ++ sentRequests served
  matched : ∃ replies, Matched peer first served replies c.accepted c.unread

theorem Between.exchange {peer : Peer} {first c : Connection} {served : List (Ticket × Outcome)}
    (h : Between peer first c served) {t : Ticket} (live : (c.exchange peer t.request).2.live = true)
    (right : ¬SeemsRefused t.request (c.exchange peer t.request).1) :
    Between peer first (c.exchange peer t.request).2 (served ++ [(t, (c.exchange peer t.request).1)]) := by
  obtain ⟨received, replies, matched⟩ := h
  have hx := (intact_or_seemsRefused live).resolve_right right
  generalize (c.exchange peer t.request).1 = outcome at hx ⊢
  generalize (c.exchange peer t.request).2 = c' at hx ⊢
  cases hx with
  | untouched long stream received' =>
    refine ⟨?_, replies, ?_⟩
    · rw [received', received, sentRequests_of_not_fits long]
    · rw [accepted, unread, stream]
      exact matched.refused long
  | @whole reply _ fits legal accepted taken received' =>
    rw [incoming, received] at taken
    refine ⟨?_, replies ++ [reply], ?_⟩
    · rw [received', received, sentRequests_of_fits fits, List.append_assoc]
    · rw [accepted]
      exact matched.answered fits legal taken

end Connection

namespace Shared

open Connection

theorem between_run (peer : Peer) (stream : Stream) (events : List Event) :
    ((start (.ofStream stream)).run peer events).connection.live = true →
      (∀ x ∈ ((start (.ofStream stream)).run peer events).served, ¬SeemsRefused x.1.request x.2) →
      Between peer (.ofStream stream) ((start (.ofStream stream)).run peer events).connection
        ((start (.ofStream stream)).run peer events).served := by
  refine run_served peer (P := fun c served => c.live = true → (∀ x ∈ served, ¬SeemsRefused x.1.request x.2) →
    Between peer (.ofStream stream) c served) ?_ ?_ events
  · intro _ _
    refine ⟨rfl, [], ?_, ?_, nofun, rfl⟩
    · simp [sentRequests, sent, Frame.encodeAll]
    · simp [sentRequests, sent, Frame.encodeAll, Peer.sends]
  · intro c served t live between live' right
    have before := between live fun x hx => right x (List.mem_append_left _ hx)
    exact before.exchange live' (right _ (List.mem_append_right _ (List.mem_singleton.mpr rfl)))

/-- Where the faults of writing can be told from a refusal, only the fault of reading that has ended the connection may seem
    to be one. -/
theorem seemsRefused_run (peer : Peer) {stream : Stream} (apart : stream.sink.TellsApart) (events : List Event) :
    ∀ x ∈ ((start (.ofStream stream)).run peer events).served, SeemsRefused x.1.request x.2 →
      ((start (.ofStream stream)).run peer events).connection.live = false ∧
        ∃ fault, stream.source.fault = some fault ∧ x.2 = .error fault := by
  refine (run_served peer (P := fun c served => c.Sound stream ∧ ∀ x ∈ served, SeemsRefused x.1.request x.2 →
      c.live = false ∧ ∃ fault, stream.source.fault = some fault ∧ x.2 = .error fault)
    ⟨⟨apart, .refl _⟩, fun _ hx => absurd hx List.not_mem_nil⟩ ?_ events).2
  rintro c served t live ⟨sound, earlier⟩
  refine ⟨sound.exchange peer t.request, fun x hx seems => ?_⟩
  rcases List.mem_append.mp hx with hx | hx
  · -- The connection was still served when this request was taken.
    exact absurd live (Bool.eq_false_iff.mp (earlier x hx seems).1)
  · obtain rfl := List.mem_singleton.mp hx
    obtain ⟨-, fault, houtcome, hkind, ⟨fault_of, -⟩ | ⟨own, -, ended⟩⟩ := seemsRefused_iff.mp seems
    · exact absurd hkind (fault_of.kind_ne sound.apart)
    · exact ⟨ended, fault, sound.keeps.fault.symm.trans own, houtcome⟩

/-- What exchanges do to the stream, and where it stands when the next one begins. -/
structure KeepsBoundaries (peer : Peer) (stream : Stream) (s : Shared) : Prop where
  /-- An exchange that leaves the connection served keeps the stream between frames, or mistakes a fault for a refusal. -/
  intact : ∀ (c : Connection) (r : Request), (c.exchange peer r).2.live = true →
    Intact peer c r (c.exchange peer r).1 (c.exchange peer r).2 ∨ SeemsRefused r (c.exchange peer r).1
  /-- It is mistaken about faults of the stream itself that cut the frame and are of the kind of refusals. A fault of reading
      that is of this kind ends the connection. -/
  seems_iff : ∀ (c : Connection) (r : Request), SeemsRefused r (c.exchange peer r).1 ↔
    r.Fits ∧ ∃ fault, (c.exchange peer r).1 = .error fault ∧ fault.kind = .invalidInput ∧
      (Frame.WriteFault c.stream.sink fault ∧ ¬c.Sends r ∧ (c.exchange peer r).2.live = true ∨
        c.stream.source.fault = some fault ∧ c.Sends r ∧ (c.exchange peer r).2.live = false)
  /-- An exchange begins between frames as long as there was no mistake. -/
  begins : ∀ t, s.taken = some t → (∀ x ∈ s.served, ¬SeemsRefused x.1.request x.2) →
    Between peer (.ofStream stream) s.connection s.served
  /-- There is none if the faults of writing can be told from a refusal: what seems to be one then is the fault of reading
      that has ended the connection. -/
  apart : stream.sink.TellsApart → ∀ x ∈ s.served, SeemsRefused x.1.request x.2 →
    s.connection.live = false ∧ ∃ fault, stream.source.fault = some fault ∧ x.2 = .error fault

/-- Whatever the stream does, an exchange begins between frames unless a fault was mistaken for a refusal before. -/
theorem keepsBoundaries_run (peer : Peer) (stream : Stream) (events : List Event) :
    KeepsBoundaries peer stream ((start (.ofStream stream)).run peer events) where
  intact _ _ := intact_or_seemsRefused
  seems_iff _ _ := seemsRefused_iff
  begins _ ht right := by
    have orderly := (orderly_start (.ofStream stream)).run peer events
    exact between_run peer stream events (orderly.live_of_taken ht) right
  apart apart := seemsRefused_run peer apart events

/-- A stream that takes two bytes, and then has a fault of its own that is of the kind of refusals. -/
def misleading : Stream :=
  ⟨.ofBytes [] Pace.unbounded, { Sink.empty Pace.unbounded (some 2) with fault := .custom .invalidInput "two is enough" }⟩

/-- One request after another: the second is taken when the first has been served. -/
def inTurn : List Event :=
  [.make (.hasObject "a"), .enter 0, .take, .exchange, .make (.hasObject "b"), .enter 0, .take]

/-- Two bytes of a frame have been written and none was read, and yet the connection is served and takes the next request. -/
theorem not_between_misleading :
    ((Connection.ofStream misleading).exchange presence (.hasObject "a")).2.live = true ∧
      ¬(((Connection.ofStream misleading).exchange presence (.hasObject "a")).2.accepted =
          (Connection.ofStream misleading).accepted ∨
        ((Connection.ofStream misleading).exchange presence (.hasObject "a")).2.accepted =
          (Connection.ofStream misleading).accepted ++ Frame.encode (Request.hasObject "a").body) ∧
      ((start (.ofStream misleading)).run presence inTurn).taken.map (·.number) = some 1 ∧
      ∀ rs : List Request, ((start (.ofStream misleading)).run presence inTurn).connection.accepted ≠
        Frame.encodeAll (rs.map Request.body) := by
  have haccepted : ((start (.ofStream misleading)).run presence inTurn).connection.accepted = [0, 0] := by decide +kernel
  refine ⟨by decide +kernel, by decide +kernel, by decide +kernel, fun rs h => ?_⟩
  -- Frames are none at all or four bytes and more.
  have hlength := congrArg List.length (haccepted.symm.trans h)
  cases rs with
  | nil => cases hlength
  | cons r rs =>
    rw [List.map_cons, Frame.encodeAll_cons, List.length_append, Frame.length_encode] at hlength
    simp only [List.length_cons, List.length_nil] at hlength
    omega

end Shared

end Pinboard
