import Pinboard.Proofs.Frame.Delivery

/-! Frames written one after another into so much room. What decides is the size of the frames that were tried before:
    a sink holds as much of them as it has room for, and a frame is written just if it still fits behind them. A body
    that is too long takes no room, and only a frame that is written whole is passed on. -/

namespace Pinboard.Frame

/-- The bodies that are not refused for their length. -/
def sendable (bodies : List (List UInt8)) : List (List UInt8) := bodies.filter fun body => body.length ≤ maxBody

/-- The size of the frames of the bodies that are not refused. -/
def size : List (List UInt8) → Nat
  | [] => 0
  | body :: bodies => if body.length ≤ maxBody then 4 + body.length + size bodies else size bodies

variable {sink : Sink} {body : List UInt8} {bodies : List (List UInt8)}

theorem sendable_cons_of_fits (fits : body.length ≤ maxBody) : sendable (body :: bodies) = body :: sendable bodies :=
  List.filter_cons_of_pos (decide_eq_true fits)

theorem sendable_cons_of_long (long : ¬body.length ≤ maxBody) : sendable (body :: bodies) = sendable bodies :=
  List.filter_cons_of_neg fun h => long (of_decide_eq_true h)

theorem sendable_append (bodies more : List (List UInt8)) : sendable (bodies ++ more) = sendable bodies ++ sendable more :=
  List.filter_append ..

theorem length_encodeAll_sendable (bodies : List (List UInt8)) : (encodeAll (sendable bodies)).length = size bodies := by
  induction bodies with
  | nil => rfl
  | cons body bodies ih =>
    by_cases fits : body.length ≤ maxBody
    · rw [sendable_cons_of_fits fits, encodeAll_cons, List.length_append, length_encode, ih, size, if_pos fits]
    · rw [sendable_cons_of_long fits, ih, size, if_neg fits]

theorem size_concat (fits : body.length ≤ maxBody) : size (bodies ++ [body]) = size bodies + (4 + body.length) := by
  rw [← length_encodeAll_sendable, sendable_append, sendable_cons_of_fits fits, encodeAll_append, List.length_append,
    length_encodeAll_sendable, encodeAll_cons, List.length_append, length_encode]
  rfl

/-! ### One step -/

theorem flushes_write (body : List UInt8) (sink : Sink) :
    (write body sink).2.flushes = sink.flushes + if (write body sink).1.isOk then 1 else 0 := by
  unfold write
  by_cases long : body.length > maxBody
  · simp only [if_pos long]
    rfl
  simp only [if_neg long]
  have same₁ := sink.flushes_writeAll (lengthBytes body.length)
  rcases h₁ : sink.writeAll (lengthBytes body.length) with ⟨fault | _, sink₁⟩
  · rw [h₁] at same₁
    exact same₁
  rw [h₁] at same₁
  have same₂ := sink₁.flushes_writeAll body
  rcases h₂ : sink₁.writeAll body with ⟨fault | _, sink₂⟩
  · rw [h₂] at same₂
    simp only [h₂]
    exact same₂.trans same₁
  rw [h₂] at same₂
  simp only [h₂, ← same₁, ← same₂]
  exact sink₂.flushes_flush

/-! ### Runs -/

theorem length_writeEach (sink : Sink) (bodies : List (List UInt8)) : (writeEach sink bodies).length = bodies.length := by
  induction bodies generalizing sink with
  | nil => rfl
  | cons body bodies ih => exact congrArg Nat.succ (ih _)

theorem getElem?_writeEach (sink : Sink) (bodies : List (List UInt8)) (k : Nat) :
    (writeEach sink bodies)[k]? = bodies[k]?.map fun body => write body (sinkAfter sink (bodies.take k)) := by
  induction bodies generalizing sink k with
  | nil => rfl
  | cons body bodies ih =>
    cases k with
    | zero => rfl
    | succ k =>
      rw [List.take_succ_cons, sinkAfter_cons]
      exact ih _ k

theorem sinkAfter_concat (sink : Sink) (bodies : List (List UInt8)) (body : List UInt8) :
    sinkAfter sink (bodies ++ [body]) = (write body (sinkAfter sink bodies)).2 := by
  induction bodies generalizing sink with
  | nil => rfl
  | cons first bodies ih => rw [List.cons_append, sinkAfter_cons, sinkAfter_cons, ih]

/-- What has been tried was offered to the sink, whatever became of it. -/
theorem offered_sinkAfter (flows : sink.Flows) (unflushed : sink.flushFault = none) (bodies : List (List UInt8)) :
    sink.Offered (encodeAll (sendable bodies)) (sinkAfter sink bodies) := by
  induction bodies generalizing sink with
  | nil => exact Sink.Offered.refl sink
  | cons body bodies ih =>
    rw [sinkAfter_cons]
    by_cases fits : body.length ≤ maxBody
    · obtain ⟨-, offered⟩ := write_of_flows flows unflushed fits
      have flows' : (write body sink).2.Flows := offered.flows flows
      rw [sendable_cons_of_fits fits, encodeAll_cons]
      exact offered.trans (ih flows' (offered.flushFault.trans unflushed))
    · rw [sendable_cons_of_long fits, write_of_long fits]
      exact ih flows unflushed

/-- How one more body is written into so much room behind others, by the sink before it and after it. -/
structure Adds (room : Nat) (before : List (List UInt8)) (body : List UInt8) (earlier : Sink)
    (outcome : Except StreamFault Unit) (later : Sink) : Prop where
  /-- A body that is too long is refused, and the sink is as it was. -/
  refused : maxBody < body.length → outcome.mapError StreamFault.kind = .error .invalidInput ∧ later = earlier
  /-- The frame of another body is written if all frames up to it fit. -/
  fits : body.length ≤ maxBody → outcome.mapError StreamFault.kind =
    if size (before ++ [body]) ≤ room then .ok () else .error .writeZero
  /-- What is written whole is passed on, once, and nothing else is. -/
  flushes : later.flushes = earlier.flushes + if outcome.isOk then 1 else 0
  /-- Of all frames up to it the sink holds what there was room for. -/
  accepted : later.accepted = (encodeAll (sendable (before ++ [body]))).take (min room (size (before ++ [body])))

theorem adds (out : Pace) (hout : ∀ n, out n ≠ some 0) (room : Nat) (before : List (List UInt8)) (body : List UInt8) :
    Adds room before body (sinkAfter (.empty out (some room)) before)
      (write body (sinkAfter (.empty out (some room)) before)).1
      (write body (sinkAfter (.empty out (some room)) before)).2 := by
  have flows : (Sink.empty out (some room)).Flows := hout
  have offered := offered_sinkAfter flows rfl before
  have flows' : (sinkAfter (.empty out (some room)) before).Flows := offered.flows flows
  have unflushed' := offered.flushFault
  refine ⟨fun long => ?_, fun fits => ?_, flushes_write body _, ?_⟩
  · rw [write_of_long (Nat.not_le.mpr long)]
    exact ⟨rfl, rfl⟩
  · have hroom : (sinkAfter (.empty out (some room)) before).room = some (room - size before) := by
      rw [offered.room, length_encodeAll_sendable]
      rfl
    have hiff : RoomFor (some (room - size before)) (encode body).length ↔ size (before ++ [body]) ≤ room := by
      rw [size_concat fits, length_encode]
      simp only [RoomFor, Option.some.injEq, forall_eq']
      omega
    rw [(write_of_flows flows' unflushed' fits).1, offered.fault]
    simp only [hroom, hiff]
    split <;> rfl
  · have hall := (offered_sinkAfter flows rfl (before ++ [body])).accepted
    rw [sinkAfter_concat] at hall
    rw [hall, ← length_encodeAll_sendable]
    exact List.take_eq_take_min

/-- What is known of writing bodies one after another at a pace into so much room, going on after faults. -/
structure FillsUp (bodies : List (List UInt8)) (out : Pace) (room : Nat) : Prop where
  length : (writeEach (.empty out (some room)) bodies).length = bodies.length
  /-- What is behind a body makes no difference to it. -/
  behind : ∀ k outcome sink, (writeEach (.empty out (some room)) bodies)[k]? = some (outcome, sink) →
    sink = sinkAfter (.empty out (some room)) (bodies.take (k + 1))
  adds : ∀ k body outcome sink, bodies[k]? = some body →
    (writeEach (.empty out (some room)) bodies)[k]? = some (outcome, sink) →
    Adds room (bodies.take k) body (sinkAfter (.empty out (some room)) (bodies.take k)) outcome sink

/-- Frames fill the room of a sink in order, whatever the pieces in which it takes them. -/
theorem fillsUp (bodies : List (List UInt8)) (out : Pace) (hout : ∀ n, out n ≠ some 0) (room : Nat) :
    FillsUp bodies out room where
  length := length_writeEach _ bodies
  behind k outcome sink hstep := by
    rw [getElem?_writeEach] at hstep
    obtain ⟨body, hbody, hwrite⟩ := Option.map_eq_some_iff.mp hstep
    rw [List.take_add_one, hbody, Option.toList_some, sinkAfter_concat, hwrite]
  adds k body outcome sink hbody hstep := by
    rw [getElem?_writeEach, hbody] at hstep
    have hwrite : write body (sinkAfter (.empty out (some room)) (bodies.take k)) = (outcome, sink) := Option.some.inj hstep
    have hadds := Frame.adds out hout room (bodies.take k) body
    rwa [hwrite] at hadds

/-- The room ends between the length and the body of the third frame, and so there is none for the fourth. -/
theorem fillsUp_behindLength :
    (∀ n, Pace.steady 3 n ≠ some 0) ∧ FillsUp [[7, 8], [], [9], []] (.steady 3) 14 ∧
      ((writeEach (.empty (.steady 3) (some 14)) [[7, 8], [], [9], []]).map fun step =>
        (step.1.toOption, step.2.flushes, step.2.accepted.length)) =
        [(some (), 1, 6), (some (), 2, 10), (none, 2, 14), (none, 2, 14)] :=
  have hout : ∀ n, Pace.steady 3 n ≠ some 0 := fun _ => nofun
  ⟨hout, fillsUp [[7, 8], [], [9], []] (.steady 3) hout 14, by decide +kernel⟩

end Pinboard.Frame
