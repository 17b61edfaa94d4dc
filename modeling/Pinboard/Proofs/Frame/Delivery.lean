import Pinboard.Proofs.Frame

/-! Bodies that are written as frames and read back. On streams that flow the room of the sink decides alone how much
    of the frames gets through. What it took then is the frames of the bodies that were written without a fault, and
    behind them at most a beginning of one more, at which reading stops. -/

namespace Pinboard.Frame

/-- The bodies that were written without a fault. -/
def delivered (sink : Sink) (bodies : List (List UInt8)) : List (List UInt8) :=
  ((bodies.zip (writeEach sink bodies)).filter fun x => x.2.1.isOk).map (·.1)

/-- The sink after all bodies have been written or refused. -/
def sinkAfter (sink : Sink) (bodies : List (List UInt8)) : Sink :=
  ((writeEach sink bodies).map (·.2)).getLastD sink

/-- The beginning of a legal frame that is not over. -/
def Unfinished (bytes : List UInt8) : Prop :=
  ∃ body, body.length ≤ maxBody ∧ bytes <+: encode body ∧ bytes.length < (encode body).length

section Writing

variable {sink : Sink} {body : List UInt8} {bodies : List (List UInt8)}

theorem sinkAfter_cons : sinkAfter sink (body :: bodies) = sinkAfter (write body sink).2 bodies := by
  simp only [sinkAfter, writeEach, List.map_cons, List.getLastD_cons]

theorem delivered_ok (h : (write body sink).1 = .ok ()) :
    delivered sink (body :: bodies) = body :: delivered (write body sink).2 bodies := by
  simp [delivered, writeEach, h, Except.isOk, Except.toBool]

theorem delivered_error {fault : StreamFault} (h : (write body sink).1 = .error fault) :
    delivered sink (body :: bodies) = delivered (write body sink).2 bodies := by
  simp [delivered, writeEach, h, Except.isOk, Except.toBool]

theorem not_roomFor_encode (full : sink.room = some 0) : ¬RoomFor sink.room (encode body).length := fun h => by
  have := h 0 full
  rw [length_encode] at this
  omega

/-- A sink that is full takes no frame any more. -/
theorem delivered_of_full (flows : sink.Flows) (unflushed : sink.flushFault = none) (full : sink.room = some 0)
    (bodies : List (List UInt8)) : delivered sink bodies = [] ∧ (sinkAfter sink bodies).accepted = sink.accepted := by
  induction bodies generalizing sink with
  | nil => exact ⟨rfl, rfl⟩
  | cons body bodies ih =>
    rw [sinkAfter_cons]
    by_cases fits : body.length ≤ maxBody
    · obtain ⟨houtcome, offered⟩ := write_of_flows flows unflushed fits
      rw [if_neg (not_roomFor_encode full)] at houtcome
      have flows' : (write body sink).2.Flows := offered.flows flows
      have full' : (write body sink).2.room = some 0 := by
        rw [offered.room, full, Option.map_some, Nat.zero_sub]
      obtain ⟨hnone, haccepted⟩ := ih flows' (offered.flushFault.trans unflushed) full'
      rw [delivered_error houtcome, haccepted, offered.accepted, full]
      exact ⟨hnone, by simp [within]⟩
    · have hwrite := write_of_long fits sink
      rw [delivered_error (congrArg Prod.fst hwrite), hwrite]
      exact ih flows unflushed full

/-- A sink takes the frames of the bodies that are delivered, and behind them a frame that is not finished. -/
theorem accepted_sinkAfter (flows : sink.Flows) (unflushed : sink.flushFault = none) (bodies : List (List UInt8)) :
    ∃ part, Unfinished part ∧
      (sinkAfter sink bodies).accepted = sink.accepted ++ encodeAll (delivered sink bodies) ++ part := by
  induction bodies generalizing sink with
  | nil => exact ⟨[], ⟨[], by simp, List.nil_prefix, by simp [length_encode]⟩, by simp [sinkAfter, writeEach, delivered]⟩
  | cons body bodies ih =>
    rw [sinkAfter_cons]
    by_cases fits : body.length ≤ maxBody
    · obtain ⟨houtcome, offered⟩ := write_of_flows flows unflushed fits
      have flows' : (write body sink).2.Flows := offered.flows flows
      have unflushed' := offered.flushFault.trans unflushed
      by_cases hroom : RoomFor sink.room (encode body).length
      · rw [if_pos hroom] at houtcome
        obtain ⟨part, hpart, haccepted⟩ := ih flows' unflushed'
        refine ⟨part, hpart, ?_⟩
        rw [delivered_ok houtcome, haccepted, offered.accepted, within_eq_self hroom]
        simp [encodeAll]
      · -- The room ends inside this frame, and with it all that is delivered.
        rw [if_neg hroom] at houtcome
        obtain ⟨r, hr, hlt⟩ : ∃ r, sink.room = some r ∧ r < (encode body).length := by
          simpa [RoomFor] using hroom
        have full : (write body sink).2.room = some 0 := by
          rw [offered.room, hr, Option.map_some, Nat.sub_eq_zero_of_le (Nat.le_of_lt hlt)]
        obtain ⟨hnone, haccepted⟩ := delivered_of_full flows' unflushed' full bodies
        refine ⟨(encode body).take r, ⟨body, fits, List.take_prefix _ _, by simp; omega⟩, ?_⟩
        rw [delivered_error houtcome, hnone, haccepted, offered.accepted, hr]
        simp [within]
    · have hwrite := write_of_long fits sink
      rw [delivered_error (congrArg Prod.fst hwrite), hwrite]
      exact ih flows unflushed

theorem length_le_of_mem_delivered (flows : sink.Flows) (unflushed : sink.flushFault = none) :
    ∀ body ∈ delivered sink bodies, body.length ≤ maxBody := by
  induction bodies generalizing sink with
  | nil => exact nofun
  | cons body bodies ih =>
    by_cases fits : body.length ≤ maxBody
    · obtain ⟨houtcome, offered⟩ := write_of_flows flows unflushed fits
      have flows' : (write body sink).2.Flows := offered.flows flows
      have hrest := ih flows' (offered.flushFault.trans unflushed)
      cases hw : (write body sink).1 with
      | ok _ =>
        rw [delivered_ok hw]
        exact List.forall_mem_cons.mpr ⟨fits, hrest⟩
      | error _ =>
        rw [delivered_error hw]
        exact hrest
    · have hwrite := write_of_long fits sink
      rw [delivered_error (congrArg Prod.fst hwrite), hwrite]
      exact ih flows unflushed

/-- What is written depends on the room of a sink and on what it holds, not on its pace. -/
theorem writeEach_congr {sink' : Sink} (flows : sink.Flows) (flows' : sink'.Flows) (unflushed : sink.flushFault = none)
    (unflushed' : sink'.flushFault = none) (room : sink.room = sink'.room) (fault : sink.fault = sink'.fault)
    (accepted : sink.accepted = sink'.accepted) :
    (writeEach sink bodies).map (·.1) = (writeEach sink' bodies).map (·.1) ∧
      (sinkAfter sink bodies).accepted = (sinkAfter sink' bodies).accepted := by
  induction bodies generalizing sink sink' with
  | nil => exact ⟨rfl, accepted⟩
  | cons body bodies ih =>
    simp only [sinkAfter_cons, writeEach, List.map_cons]
    by_cases fits : body.length ≤ maxBody
    · obtain ⟨houtcome, offered⟩ := write_of_flows flows unflushed fits
      obtain ⟨houtcome', offered'⟩ := write_of_flows flows' unflushed' fits
      have next : (write body sink).2.Flows := offered.flows flows
      have next' : (write body sink').2.Flows := offered'.flows flows'
      obtain ⟨hrest, haccepted⟩ := ih next next' (offered.flushFault.trans unflushed)
        (offered'.flushFault.trans unflushed') (by rw [offered.room, offered'.room, room])
        (by rw [offered.fault, offered'.fault, fault]) (by rw [offered.accepted, offered'.accepted, accepted, room])
      rw [houtcome, houtcome', hrest, haccepted, room, fault]
      exact ⟨rfl, rfl⟩
    · rw [write_of_long fits, write_of_long fits]
      obtain ⟨hrest, haccepted⟩ := ih flows flows' unflushed unflushed' room fault accepted
      rw [hrest, haccepted]
      exact ⟨rfl, rfl⟩

end Writing

section Reading

variable {source : Source} {body rest : List UInt8}

/-- A whole legal frame is read as its body, and nothing behind it is taken. -/
theorem read_frame (fits : body.length ≤ maxBody) (flows : source.Flows)
    (unread : source.unread = encode body ++ rest) :
    (read source).1 = .ok body ∧ (read source).2.unread = rest := by
  obtain ⟨hread, hleft⟩ := read_of_flows flows
  rw [unread, split_frame fits] at hread hleft
  exact ⟨hread, hleft⟩

/-- An unfinished frame ends before its length is over, or before its body is. -/
theorem split_unfinished {bytes : List UInt8} (h : Unfinished bytes) (own : Option StreamFault) :
    MeetsEnd own (split own bytes).1 := by
  obtain ⟨body, fits, ⟨behind, hbehind⟩, hlt⟩ := h
  rw [split]
  by_cases h4 : bytes.length < 4
  · rw [if_pos h4]
    exact ⟨.endBeforeFrame, rfl, rfl⟩
  · have htake : bytes.take 4 = lengthBytes body.length := by
      rw [← @List.take_append_of_le_length _ bytes behind 4 (Nat.le_of_not_lt h4), hbehind, encode]
      exact take_lengthBytes _ _
    rw [length_encode] at hlt
    rw [if_neg h4, htake, lengthOf_lengthBytes (Nat.lt_of_le_of_lt fits maxBody_lt), if_neg (Nat.not_lt.mpr fits),
      if_pos hlt]
    exact ⟨.endInFrame, rfl, rfl⟩

/-- Whole legal frames are read one by one, and the frame that is not finished is not. -/
theorem readEach_frames (flows : source.Flows) {bodies : List (List UInt8)} {part : List UInt8}
    (fits : ∀ body ∈ bodies, body.length ≤ maxBody) (unfinished : Unfinished part)
    (unread : source.unread = encodeAll bodies ++ part) :
    ∃ last, MeetsEnd source.fault last ∧
      (readEach source (bodies.length + 1)).map (·.1) = bodies.map .ok ++ [last] := by
  induction bodies generalizing source with
  | nil =>
    have hread := (read_of_flows flows).1
    rw [unread, encodeAll_nil, List.nil_append] at hread
    exact ⟨_, split_unfinished unfinished source.fault, by simp [readEach, hread]⟩
  | cons body bodies ih =>
    obtain ⟨hread, hleft⟩ := read_of_flows flows
    have keeps := keeps_read source
    have hsplit : split source.fault source.unread = (.ok body, encodeAll bodies ++ part) := by
      rw [unread, encodeAll, List.flatMap_cons, List.append_assoc]
      exact split_frame (fits body (List.mem_cons_self ..))
    rw [hsplit] at hread hleft
    obtain ⟨last, hlast, hrest⟩ := ih (keeps.flows flows) (fun b hb => fits b (List.mem_cons_of_mem body hb)) hleft
    rw [keeps.fault] at hlast
    refine ⟨last, hlast, ?_⟩
    rw [List.length_cons, readEach, List.map_cons, hread, hrest, List.map_cons, List.cons_append]

/-- What is read depends on the bytes that are left and on the fault behind them, not on the pace. -/
theorem readEach_congr {source' : Source} (flows : source.Flows) (flows' : source'.Flows)
    (unread : source.unread = source'.unread) (fault : source.fault = source'.fault) (n : Nat) :
    (readEach source n).map (·.1) = (readEach source' n).map (·.1) := by
  induction n generalizing source source' with
  | zero => rfl
  | succ n ih =>
    obtain ⟨hread, hleft⟩ := read_of_flows flows
    obtain ⟨hread', hleft'⟩ := read_of_flows flows'
    have keeps := keeps_read source
    have keeps' := keeps_read source'
    have hrest := ih (keeps.flows flows) (keeps'.flows flows') (by rw [hleft, hleft', unread, fault])
      (by rw [keeps.fault, keeps'.fault, fault])
    simp only [readEach, List.map_cons, hrest, hread, hread', unread, fault]

end Reading

/-- What is known of bodies that are written into so much room in pieces, and read back in pieces. -/
structure Delivers (bodies : List (List UInt8)) (room : Option Nat) (out into : Pace) : Prop where
  /-- Just the bodies that were written without a fault are read, in order, and then the bytes are at their end. -/
  reads : ∃ fault, fault.kind = .unexpectedEof ∧
    (readEach (.ofBytes (sinkAfter (.empty out room) bodies).accepted into)
      ((delivered (.empty out room) bodies).length + 1)).map (·.1) =
      (delivered (.empty out room) bodies).map .ok ++ [.error fault]
  /-- The pieces in which the frames are written make no difference. -/
  written : ∀ out' : Pace, (∀ n, out' n ≠ some 0) →
    (writeEach (.empty out' room) bodies).map (·.1) = (writeEach (.empty out room) bodies).map (·.1) ∧
      (sinkAfter (.empty out' room) bodies).accepted = (sinkAfter (.empty out room) bodies).accepted
  /-- Neither do those in which they are read. -/
  read : ∀ into' : Pace, (∀ n, into' n ≠ some 0) → ∀ n,
    (readEach (.ofBytes (sinkAfter (.empty out room) bodies).accepted into') n).map (·.1) =
      (readEach (.ofBytes (sinkAfter (.empty out room) bodies).accepted into) n).map (·.1)

/-- Bodies that are written as frames are read back if they were written without a fault, and only then, wherever the
    room ends and into whatever pieces the bytes are cut. -/
theorem delivers (bodies : List (List UInt8)) (room : Option Nat) (out into : Pace) (hout : ∀ n, out n ≠ some 0)
    (hinto : ∀ n, into n ≠ some 0) : Delivers bodies room out into where
  reads := by
    have flows : (Sink.empty out room).Flows := hout
    obtain ⟨part, unfinished, haccepted⟩ := accepted_sinkAfter flows rfl bodies
    have flows' : (Source.ofBytes (sinkAfter (.empty out room) bodies).accepted into).Flows := hinto
    obtain ⟨_, ⟨fault, rfl, hkind⟩, hreads⟩ :=
      readEach_frames flows' (length_le_of_mem_delivered flows rfl) unfinished haccepted
    exact ⟨fault, hkind, hreads⟩
  written out' hout' :=
    have flows : (Sink.empty out room).Flows := hout
    have flows' : (Sink.empty out' room).Flows := hout'
    writeEach_congr flows' flows rfl rfl rfl rfl rfl
  read into' hinto' n :=
    have flows : (Source.ofBytes (sinkAfter (.empty out room) bodies).accepted into).Flows := hinto
    have flows' : (Source.ofBytes (sinkAfter (.empty out room) bodies).accepted into').Flows := hinto'
    readEach_congr flows' flows rfl rfl n

/-- The room ends inside the frame of the third body, so two are delivered; the second one is empty. -/
theorem delivers_twoOfThree :
    (∀ n, Pace.steady 3 n ≠ some 0) ∧ (∀ n, Pace.steady 2 n ≠ some 0) ∧
      Delivers [[7, 8], [], [9]] (some 14) (.steady 3) (.steady 2) ∧
      delivered (.empty (.steady 3) (some 14)) [[7, 8], [], [9]] = [[7, 8], []] :=
  have hout : ∀ n, Pace.steady 3 n ≠ some 0 := fun _ => nofun
  have hinto : ∀ n, Pace.steady 2 n ≠ some 0 := fun _ => nofun
  ⟨hout, hinto, delivers [[7, 8], [], [9]] (some 14) (.steady 3) (.steady 2) hout hinto, by decide +kernel⟩

end Pinboard.Frame
