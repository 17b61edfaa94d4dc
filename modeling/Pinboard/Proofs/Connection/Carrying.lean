import Pinboard.Proofs.Connection.Exchange
import Pinboard.Proofs.Connection.InOrder

/-! Requests that all go out, on a connection where frames come in time. Which frame is read as the answer to a request
    is told by how many were read before it, and by nothing that stands in it. -/

namespace Pinboard

namespace Connection

variable {peer : Peer} {c : Connection} {r : Request} {rs : List Request}

/-- The connection lets these requests go out one after another: the sink has room for all of them, and the far end does
    not hang up before it has received the last. -/
structure Carries (peer : Peer) (c : Connection) (rs : List Request) : Prop where
  live : c.live = true
  into : c.stream.source.Flows
  out : c.stream.sink.Flows
  unflushed : c.stream.sink.flushFault = none
  room : RoomFor c.stream.sink.room (Frame.encodeAll (rs.map Request.body)).length
  fits : ∀ r ∈ rs, r.Fits
  stays : ∀ j < rs.length, j ≠ 0 → (peer (c.received ++ rs.take j)).hangsUp = false

theorem Carries.room_cons (h : Carries peer c (r :: rs)) :
    RoomFor c.stream.sink.room ((Frame.encode r.body).length + (Frame.encodeAll (rs.map Request.body)).length) := by
  rw [← List.length_append]
  exact h.room

theorem Carries.room_first (h : Carries peer c (r :: rs)) : RoomFor c.stream.sink.room (Frame.encode r.body).length :=
  fun n hn => Nat.le_trans (Nat.le_add_right _ _) (h.room_cons n hn)

theorem Carries.sends (h : Carries peer c (r :: rs)) : c.Sends r :=
  sends_of_flows (h.fits r List.mem_cons_self) h.out h.unflushed h.room_first

/-- What the sink is after a frame has gone out and the far end has answered. -/
theorem exchange_sink (peer : Peer) (sends : c.Sends r) :
    (c.exchange peer r).2.stream.sink =
      (Stream.arrive { c.stream with sink := (Frame.write r.body c.stream.sink).2 } (peer (c.received ++ [r]))).sink := by
  rw [Sends] at sends
  rw [exchange]
  generalize Frame.write r.body c.stream.sink = step at sends
  obtain ⟨outcome, sink⟩ := step
  simp only at sends
  subst sends
  simp only [receive]
  split <;> rfl

/-- The frame that stands next is read as the answer. -/
theorem Carries.exchange {reply rest : List UInt8} (h : Carries peer c (r :: rs)) (legal : reply.length ≤ Frame.maxBody)
    (comes : c.incoming peer r = Frame.encode reply ++ rest) :
    (c.exchange peer r).1 = Response.ofReply reply ∧ (c.exchange peer r).2.live = true ∧
      (c.exchange peer r).2.received = c.received ++ [r] ∧
      (c.exchange peer r).2.accepted = c.accepted ++ Frame.encode r.body ∧ (c.exchange peer r).2.unread = rest := by
  have hx := exchanged peer c r
  generalize (c.exchange peer r).1 = outcome at hx
  generalize (c.exchange peer r).2 = c' at hx ⊢
  cases hx with
  | refused long => exact absurd (h.fits r List.mem_cons_self) long
  | cut fits fault_of unsent => exact absurd h.sends unsent
  | unanswered fits sends fault_of accepted taken unheard =>
    refine absurd ((reads_iff h.into).mpr ?_) unheard
    exact Frame.starts_iff.mpr ⟨reply, rest, legal, comes⟩
  | answered fits sends legal' accepted taken received live heard =>
    rw [comes] at taken
    obtain ⟨rfl, rfl⟩ := Frame.encode_append_inj legal legal' taken
    exact ⟨rfl, live, received, accepted, rfl⟩

/-- After a request has been answered the connection lets the others go out. -/
theorem Carries.step (h : Carries peer c (r :: rs)) (live : (c.exchange peer r).2.live = true)
    (received : (c.exchange peer r).2.received = c.received ++ [r]) : Carries peer (c.exchange peer r).2 rs := by
  obtain ⟨-, offered⟩ := Frame.write_of_flows h.out h.unflushed (h.fits r List.mem_cons_self)
  have sink := exchange_sink peer h.sends
  have into := (keeps_exchange peer c r).flows h.into
  refine ⟨live, into, ?_, ?_, ?_, fun x hx => h.fits x (List.mem_cons_of_mem r hx), fun j hj hne => ?_⟩
  · rw [sink, Stream.arrive]
    split <;> exact fun n => offered.pace ▸ h.out n
  · rw [sink, Stream.arrive]
    split <;> exact offered.flushFault.trans h.unflushed
  · cases rs with
    | nil => exact fun _ _ => Nat.zero_le _
    | cons r' rs =>
      have stays := h.stays 1 (by simp) (by simp)
      rw [List.take_succ_cons, List.take_zero] at stays
      simp only [sink, Stream.arrive, stays, Bool.false_eq_true, if_false, offered.room]
      exact (roomFor_add h.room_first).mpr h.room_cons
  · rw [received, List.append_assoc]
    exact h.stays (j + 1) (Nat.succ_lt_succ hj) (Nat.succ_ne_zero j)

/-- Requests of which each finds one more frame than the ones before it, when its own has gone out. They all go out, and
    each reads the frame that is next, whether it was meant for it or not. -/
theorem takeUp_frames {bodies : List (List UInt8)} (h : Carries peer c rs) (length : bodies.length = rs.length)
    (legal : ∀ body ∈ bodies, body.length ≤ Frame.maxBody)
    (comes : ∀ j < rs.length,
      Frame.encodeAll (bodies.take (j + 1)) <+: c.unread ++ peer.sends c.received (rs.take (j + 1))) :
    (c.takeUp peer rs).1 = bodies.map Response.ofReply ∧ (c.takeUp peer rs).2.live = true ∧
      (c.takeUp peer rs).2.received = c.received ++ rs ∧
      (c.takeUp peer rs).2.accepted = c.accepted ++ Frame.encodeAll (rs.map Request.body) ∧
      Frame.encodeAll bodies ++ (c.takeUp peer rs).2.unread = c.unread ++ peer.sends c.received rs := by
  induction rs generalizing c bodies with
  | nil =>
    obtain rfl := List.length_eq_zero_iff.mp length
    exact ⟨rfl, h.live, by simp [takeUp], by simp [takeUp], by simp [takeUp, Peer.sends]⟩
  | cons r rs ih =>
    obtain ⟨reply, bodies, rfl⟩ := List.exists_cons_of_length_eq_add_one length
    obtain ⟨hreply, hbodies⟩ := List.forall_mem_cons.mp legal
    have sends_cons (rs : List Request) : c.unread ++ peer.sends c.received (r :: rs) =
        c.incoming peer r ++ peer.sends (c.received ++ [r]) rs := by
      rw [Peer.sends, ← List.append_assoc, incoming]
    -- The first frame is whole by the time it is read.
    obtain ⟨rest, hrest⟩ := comes 0 (Nat.succ_pos _)
    rw [List.take_succ_cons, List.take_zero, List.take_succ_cons, List.take_zero, Frame.encodeAll_cons, sends_cons] at hrest
    simp only [Frame.encodeAll_nil, Peer.sends, List.append_nil] at hrest
    obtain ⟨houtcome, live, received, accepted, unread⟩ := h.exchange hreply hrest.symm
    obtain ⟨houtcomes, hlive, hreceived, haccepted, hunread⟩ :=
      ih (h.step live received) (Nat.succ.inj length) hbodies fun j hj => by
        have := comes (j + 1) (Nat.succ_lt_succ hj)
        rw [List.take_succ_cons, List.take_succ_cons, Frame.encodeAll_cons, sends_cons, ← hrest, List.append_assoc,
          List.prefix_append_right_inj] at this
        rwa [unread, received]
    rw [takeUp_cons h.live]
    refine ⟨?_, hlive, ?_, ?_, ?_⟩
    · rw [houtcomes, houtcome, List.map_cons]
    · rw [hreceived, received, List.append_assoc, List.singleton_append]
    · rw [haccepted, accepted, List.append_assoc]
      rfl
    · rw [Frame.encodeAll_cons, List.append_assoc, hunread, sends_cons, ← hrest, unread, received, List.append_assoc]

end Connection

end Pinboard
