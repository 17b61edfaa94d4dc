import Pinboard.Connection.Shared
import Pinboard.Proofs.Frame

/-! What serving one request does to a connection. There are four ways it can go (`Exchanged`): the request is
    refused, its frame is cut, the answer does not come as a whole frame, or it does and is consumed whole. All
    that is said about runs of a connection rests on these. -/

namespace Pinboard

/-- The frame of a request is not too long to be sent. -/
def Request.Fits (r : Request) : Prop := r.body.length ≤ Frame.maxBody

instance (r : Request) : Decidable r.Fits := inferInstanceAs (Decidable (_ ≤ _))

/-- What the body of a reply frame says. -/
def Response.ofReply (body : List UInt8) : Outcome := (Response.parse body).mapError .notAResponse

/-- What the far end sends in return for requests, after it has received earlier ones. -/
def Peer.sends (peer : Peer) (earlier : List Request) : List Request → List UInt8
  | [] => []
  | r :: rest => (peer (earlier ++ [r])).bytes ++ peer.sends (earlier ++ [r]) rest

theorem Peer.sends_append (peer : Peer) (earlier rs more : List Request) :
    peer.sends earlier (rs ++ more) = peer.sends earlier rs ++ peer.sends (earlier ++ rs) more := by
  induction rs generalizing earlier with
  | nil => simp [Peer.sends]
  | cons r rs ih => simp [Peer.sends, ih]

theorem Peer.sends_singleton (peer : Peer) (earlier : List Request) (r : Request) :
    peer.sends earlier [r] = (peer (earlier ++ [r])).bytes := by
  simp [Peer.sends]

namespace Connection

/-- The bytes that were written on a connection. -/
def accepted (c : Connection) : List UInt8 := c.stream.sink.accepted

/-- The bytes that have arrived on a connection and are not read. -/
def unread (c : Connection) : List UInt8 := c.stream.source.unread

/-- What stands to be read as the answer to a request, once the far end has received it. -/
def incoming (peer : Peer) (c : Connection) (r : Request) : List UInt8 :=
  c.unread ++ (peer (c.received ++ [r])).bytes

/-- The frame of a request goes out whole. -/
def Sends (c : Connection) (r : Request) : Prop := (Frame.write r.body c.stream.sink).1 = .ok ()

theorem Sends.fits {c : Connection} {r : Request} (h : c.Sends r) : r.Fits := by
  have hw := Frame.written r.body c.stream.sink
  rw [Sends] at h
  rw [h] at hw
  cases hw with
  | whole fits took => exact fits

/-- One whole frame of legal length is read as the answer to a request, once the far end has received it. -/
def Reads (peer : Peer) (c : Connection) (r : Request) : Prop :=
  ∃ body, (Frame.read { c.stream.source with unread := c.incoming peer r }).1 = .ok body

theorem reads_iff {peer : Peer} {c : Connection} {r : Request} (flows : c.stream.source.Flows) :
    c.Reads peer r ↔ Frame.Starts (c.incoming peer r) :=
  @Frame.read_ok_iff { c.stream.source with unread := c.incoming peer r } flows

/-- How serving a request can go. -/
inductive Exchanged (peer : Peer) (c : Connection) (r : Request) : Outcome → Connection → Prop
  /-- The request is too long. It leaves no trace. -/
  | refused (long : ¬r.Fits) : Exchanged peer c r (.error (.tooLongToSend r.body.length)) { c with live := true }
  /-- A fault cuts the frame of the request. -/
  | cut {fault : StreamFault} {part : List UInt8} {c' : Connection} (fits : r.Fits)
      (fault_of : Frame.WriteFault c.stream.sink fault) (unsent : ¬c.Sends r)
      (beginning : part <+: Frame.encode r.body) (accepted : c'.accepted = c.accepted ++ part)
      (source : c'.stream.source = c.stream.source) (received : c'.received = c.received)
      (live : c'.live = decide (fault.kind = .invalidInput)) : Exchanged peer c r (.error fault) c'
  /-- The frame goes out, but no whole frame comes in. -/
  | unanswered {fault : StreamFault} {eaten : List UInt8} {c' : Connection} (fits : r.Fits) (sends : c.Sends r)
      (fault_of : Frame.ReadFault c.stream.source.fault fault) (accepted : c'.accepted = c.accepted ++ Frame.encode r.body)
      (taken : c.incoming peer r = eaten ++ c'.unread)
      (unheard : ¬c.Reads peer r)
      (received : c'.received = c.received ++ [r]) (live : c'.live = false) : Exchanged peer c r (.error fault) c'
  /-- The frame goes out, and one frame comes in. -/
  | answered {reply : List UInt8} {c' : Connection} (fits : r.Fits) (sends : c.Sends r)
      (legal : reply.length ≤ Frame.maxBody) (accepted : c'.accepted = c.accepted ++ Frame.encode r.body)
      (taken : c.incoming peer r = Frame.encode reply ++ c'.unread)
      (received : c'.received = c.received ++ [r]) (live : c'.live = true) (heard : c.Reads peer r) :
      Exchanged peer c r (Response.ofReply reply) c'

theorem exchanged (peer : Peer) (c : Connection) (r : Request) :
    Exchanged peer c r (c.exchange peer r).1 (c.exchange peer r).2 := by
  have hw := Frame.written r.body c.stream.sink
  unfold exchange
  rcases h : Frame.write r.body c.stream.sink with ⟨_ | _, sink⟩
  · rw [h] at hw
    cases hw with
    | refused long => exact .refused (Nat.not_le_of_lt long)
    | cut fits fault_of beginning took =>
      exact .cut fits fault_of (by rw [Sends, h]; exact nofun) beginning took.accepted rfl rfl rfl
  · rw [h] at hw
    cases hw with
    | whole fits took =>
      have sends : c.Sends r := by rw [Sends, h]
      -- A far end that hangs up takes away the room of the sink, but none of the bytes it took.
      have keeps (a : Arrival) : (Stream.arrive { c.stream with sink } a).sink.accepted = sink.accepted := by
        unfold Stream.arrive
        split <;> rfl
      have heard : c.Reads peer r ↔ ∃ body,
          (Frame.read (Stream.arrive { c.stream with sink } (peer (c.received ++ [r]))).source).1 = .ok body := Iff.rfl
      simp only [receive]
      have hr := Frame.got (Stream.arrive { c.stream with sink } (peer (c.received ++ [r]))).source
      rcases hread : Frame.read (Stream.arrive { c.stream with sink } (peer (c.received ++ [r]))).source with
        ⟨_ | body, source⟩
      · rw [hread] at hr heard
        cases hr with
        | broken fault_of taken =>
          refine .unanswered fits sends fault_of ((keeps _).trans took.accepted) taken (fun h => ?_) rfl rfl
          obtain ⟨_, h⟩ := heard.mp h
          cases h
      · rw [hread] at hr heard
        cases hr with
        | frame legal taken =>
          exact .answered fits sends legal ((keeps _).trans took.accepted) taken rfl rfl (heard.mpr ⟨body, rfl⟩)

theorem exchange_tooLong (peer : Peer) (c : Connection) {r : Request} (long : ¬r.Fits) :
    (c.exchange peer r).1 = .error (.tooLongToSend r.body.length) := by
  have hx := exchanged peer c r
  generalize (c.exchange peer r).1 = outcome at hx ⊢
  generalize (c.exchange peer r).2 = c' at hx
  cases hx with
  | refused => rfl
  | cut fits => exact absurd fits long
  | unanswered fits => exact absurd fits long
  | answered fits => exact absurd fits long

/-- A request puts a beginning of its frame behind what was written, and the whole frame if that goes out. -/
theorem exists_accepted (peer : Peer) (c : Connection) (r : Request) :
    ∃ part, (c.request peer r).2.accepted = c.accepted ++ part ∧ part <+: Frame.encode r.body ∧
      (c.live = true → c.Sends r → part = Frame.encode r.body) := by
  rw [request]
  by_cases live : c.live = true
  · rw [if_pos live]
    have hx := exchanged peer c r
    generalize (c.exchange peer r).1 = outcome at hx
    generalize (c.exchange peer r).2 = c' at hx ⊢
    cases hx with
    | refused long => exact ⟨[], (List.append_nil _).symm, List.nil_prefix, fun _ sends => absurd sends.fits long⟩
    | @cut _ part _ _ _ unsent beginning accepted =>
      exact ⟨part, accepted, beginning, fun _ sends => absurd sends unsent⟩
    | unanswered _ _ _ accepted => exact ⟨_, accepted, List.prefix_refl _, fun _ _ => rfl⟩
    | answered _ _ _ accepted => exact ⟨_, accepted, List.prefix_refl _, fun _ _ => rfl⟩
  · rw [if_neg live]
    exact ⟨[], (List.append_nil _).symm, List.nil_prefix, fun h => absurd h live⟩

/-- The far end receives a request at most once, and just once if it is answered. -/
theorem received_request (peer : Peer) (c : Connection) (r : Request) :
    ((c.request peer r).2.received = c.received ∨ (c.request peer r).2.received = c.received ++ [r]) ∧
      ∀ response, (c.request peer r).1 = .ok response → (c.request peer r).2.received = c.received ++ [r] := by
  rw [request]
  by_cases live : c.live = true
  · rw [if_pos live]
    have hx := exchanged peer c r
    generalize (c.exchange peer r).1 = outcome at hx ⊢
    generalize (c.exchange peer r).2 = c' at hx ⊢
    cases hx with
    | refused => exact ⟨Or.inl rfl, nofun⟩
    | cut _ _ _ _ _ _ received => exact ⟨Or.inl received, nofun⟩
    | unanswered _ _ _ _ _ _ received => exact ⟨Or.inr received, nofun⟩
    | answered _ _ _ _ _ received => exact ⟨Or.inr received, fun _ _ => received⟩
  · rw [if_neg live]
    exact ⟨Or.inl rfl, nofun⟩

/-- Of the far end only what it sends in return for the request counts. -/
theorem request_congr {peer peer' : Peer} {c : Connection} {r : Request}
    (h : peer' (c.received ++ [r]) = peer (c.received ++ [r])) : c.request peer' r = c.request peer r := by
  simp only [request, exchange, h]

/-- A sink that flows and has room lets the frame of a request go out. -/
theorem sends_of_flows {c : Connection} {r : Request} (fits : r.Fits) (flows : c.stream.sink.Flows)
    (unflushed : c.stream.sink.flushFault = none)
    (room : RoomFor c.stream.sink.room (Frame.encode r.body).length) : c.Sends r := by
  rw [Sends, (Frame.write_of_flows flows unflushed fits).1, if_pos room]

theorem source_receive (c : Connection) : c.receive.2.stream.source = (Frame.read c.stream.source).2 := by
  unfold receive
  rcases Frame.read c.stream.source with ⟨_ | _, source⟩
  · rfl
  · rfl

/-- The source keeps its pace and its fault, and the sink its faults, unless the far end has hung up. -/
theorem keeps_exchange (peer : Peer) (c : Connection) (r : Request) :
    c.stream.source.Keeps (c.exchange peer r).2.stream.source := by
  unfold exchange
  rcases Frame.write r.body c.stream.sink with ⟨_ | _, sink⟩
  · exact .refl _
  · -- More has arrived, which is neither the pace nor the fault.
    have keeps := Frame.keeps_read (Stream.arrive { c.stream with sink } (peer (c.received ++ [r]))).source
    simp only [source_receive]
    exact ⟨keeps.pace, keeps.fault⟩

theorem exchange_tellsApart (peer : Peer) (c : Connection) (r : Request) (apart : c.stream.sink.TellsApart) :
    (c.exchange peer r).2.stream.sink.TellsApart := by
  have hw := Frame.written r.body c.stream.sink
  unfold exchange
  rcases h : Frame.write r.body c.stream.sink with ⟨_ | _, sink⟩
  · rw [h] at hw
    cases hw with
    | refused long => exact apart
    | cut fits fault_of beginning took => exact took.tellsApart apart
  · rw [h] at hw
    cases hw with
    | whole fits took =>
      have arrived (a : Arrival) : (Stream.arrive { c.stream with sink } a).sink.TellsApart := by
        unfold Stream.arrive
        split
        · exact ⟨nofun, (took.tellsApart apart).flush⟩
        · exact took.tellsApart apart
      simp only [receive]
      split
      · exact arrived _
      · exact arrived _

/-- The faults of writing can be told from a refusal, and the source goes on as it did at first. -/
structure Sound (first : Stream) (c : Connection) : Prop where
  apart : c.stream.sink.TellsApart
  keeps : first.source.Keeps c.stream.source

theorem Sound.exchange {first : Stream} {c : Connection} (h : c.Sound first) (peer : Peer) (r : Request) :
    (c.exchange peer r).2.Sound first :=
  ⟨exchange_tellsApart peer c r h.apart, h.keeps.trans (keeps_exchange peer c r)⟩

end Connection

end Pinboard
