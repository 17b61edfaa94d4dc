import Pinboard.Proofs.Connection.InOrder

/-! Requests that are made together and served in turns, as a run of a shared connection. The turns of a connection
    that serves without giving way decide only when requests enter the queue, so `serve` is one of the runs, and
    what holds of every run holds of it. -/

namespace Pinboard.Shared

open Connection (Turn queueRoom)

variable {peer : Peer} {s : Shared} {c : Connection}

/-! ### Turns -/

/-- A transfer changes what is in the queue only by a pause or a wait, which fill it up. -/
theorem queued_turnAfter (peer : Peer) (before after : Connection) (t : Turn) :
    (Connection.turnAfter peer before after t).queued = t.take.queued ∨
      (Connection.turnAfter peer before after t).queued = queueRoom := by
  have hmake (t : Turn) (n : Nat) : (t.make n).queued = t.queued ∨ (t.make n).queued = queueRoom := by
    unfold Turn.make
    split
    · exact Or.inl rfl
    · exact Or.inr rfl
  have hwrite (t : Turn) (n : Nat) : (t.write n).queued = t.queued ∨ (t.write n).queued = queueRoom := by
    unfold Turn.write
    split
    · exact hmake t n
    · exact Or.inr rfl
  have hread (t : Turn) (ready : Nat) (ends : List Nat) (reads : Nat) :
      (t.read ready ends reads).queued = t.queued ∨ (t.read ready ends reads).queued = queueRoom := by
    unfold Turn.read
    simp only
    split
    · exact Or.inr rfl
    · split
      · exact hmake t reads
      · exact Or.inr rfl
  unfold Connection.turnAfter
  simp only
  split
  · rcases hread (t.take.write (after.stream.sink.writes - before.stream.sink.writes)) before.stream.source.unread.length
      (Frame.readEnds (before.stream.arrive (peer after.received)).source.unread)
      (after.stream.source.reads - (before.stream.arrive (peer after.received)).source.reads) with h | h
    · rcases hwrite t.take (after.stream.sink.writes - before.stream.sink.writes) with h' | h'
      · exact Or.inl (h.trans h')
      · exact Or.inr (h.trans h')
    · exact Or.inr h
  · exact hwrite t.take _

theorem queued_take (t : Turn) (hq : t.queued ≤ queueRoom) :
    ∃ q, t.queued ≤ q + 1 ∧ q + 1 ≤ queueRoom ∧ t.take.queued = q := by
  unfold Turn.take
  split
  · exact ⟨queueRoom - 1, by simp only [queueRoom] at hq ⊢; omega, by simp [queueRoom], rfl⟩
  · exact ⟨t.queued - 1, by omega, by omega, rfl⟩

/-- The queue has room for so many requests, and of those that were in it only the ones that were taken up are gone. -/
theorem queued_lastTurn (peer : Peer) (c : Connection) (turn : Turn) (rs : List Request) (hq : turn.queued ≤ queueRoom) :
    (c.lastTurn peer turn rs).queued ≤ queueRoom ∧
      turn.queued ≤ (c.takeUp peer rs).1.length + (c.lastTurn peer turn rs).queued := by
  induction rs generalizing c turn with
  | nil => exact ⟨hq, Nat.le_add_left _ _⟩
  | cons r rs ih =>
    cases live : c.live with
    | true =>
      obtain ⟨q, hle, hroom, htake⟩ := queued_take turn hq
      have hturn := queued_turnAfter peer c (c.exchange peer r).2 turn
      have := ih (c.exchange peer r).2 (Connection.turnAfter peer c (c.exchange peer r).2 turn) (by omega)
      rw [Connection.takeUp_cons live, Connection.lastTurn_cons turn live, List.length_cons]
      omega
    | false =>
      rw [Connection.lastTurn_ended turn live]
      exact ⟨hq, Nat.le_add_left _ _⟩

/-! ### A place in a run of requests that are made together -/

/-- Of the tickets that wait, the first `q` are in the queue and the others outside. -/
structure Stands (s : Shared) (c : Connection) (served : List (Ticket × Outcome)) (taken : Option Ticket) (q : Nat)
    (ts : List Ticket) : Prop where
  connection : s.connection = c
  served : s.served = served
  taken : s.taken = taken
  queue : s.queue = ts.take q
  outside : s.outside = ts.drop q
  lost : s.lost = []
  refused : s.refused = []

variable {served : List (Ticket × Outcome)} {taken : Option Ticket} {q : Nat} {t : Ticket} {ts : List Ticket}

theorem Stands.enter (h : Stands s c served taken q ts) (peer : Peer) {k : Nat} (room : q + k ≤ queueRoom) :
    ∃ more : List Event, (∀ e ∈ more, e.IsWork) ∧ Stands (s.run peer more) c served taken (q + k) ts := by
  induction k generalizing s q with
  | zero => exact ⟨[], by simp, h⟩
  | succ k ih =>
    have hstep : Stands (s.step peer (.enter 0)) c served taken (q + 1) ts := by
      simp only [Shared.step, Shared.enter]
      split
      · rename_i hnone
        have hlen : ts.length ≤ q := by
          simpa [h.outside] using hnone
        refine ⟨h.connection, h.served, h.taken, ?_, ?_, h.lost, h.refused⟩
        · rw [h.queue, List.take_of_length_le hlen, List.take_of_length_le (by omega)]
        · rw [h.outside, List.drop_of_length_le hlen, List.drop_of_length_le (by omega)]
      · rename_i t ht
        rw [h.outside, List.getElem?_drop, Nat.add_zero] at ht
        have hqueue : s.queue.length < queueRoom := by
          rw [h.queue, List.length_take]
          omega
        rw [if_pos hqueue]
        refine ⟨h.connection, h.served, h.taken, ?_, ?_, h.lost, h.refused⟩
        · simp only [h.queue, List.take_add_one, ht, Option.toList_some]
        · simp only [h.outside, List.eraseIdx_zero, List.tail_drop]
    obtain ⟨more, hwork, hend⟩ := ih hstep (by omega)
    refine ⟨.enter 0 :: more, by simpa [Event.IsWork] using hwork, ?_⟩
    rw [show q + (k + 1) = q + 1 + k from by omega]
    exact hend

theorem Stands.take (h : Stands s c served none (q + 1) (t :: ts)) (peer : Peer) :
    Stands (s.step peer .take) c served (some t) q ts := by
  have hqueue : s.queue = t :: ts.take q := by rw [h.queue, List.take_succ_cons]
  simp only [Shared.step, Shared.take, h.taken, hqueue]
  exact ⟨h.connection, h.served, rfl, rfl, by rw [h.outside, List.drop_succ_cons], h.lost, h.refused⟩

/-- The run has come to an end, and these requests were served, lost with the queue, and refused. -/
structure Settled (s : Shared) (c : Connection) (served : List (Ticket × Outcome)) (lost refused : List Ticket) :
    Prop where
  waiting : s.waiting = []
  connection : s.connection = c
  served : s.served = served
  lost : s.lost = lost
  refused : s.refused = refused

/-- A turn up to the exchange: the queue is filled up if that is due, one request is taken out, and the queue is
    filled up again if the connection pauses or waits before the request is served. -/
theorem Stands.turn {turn : Turn} (h : Stands s c served none turn.queued (t :: ts)) (hq : turn.queued ≤ queueRoom)
    (peer : Peer) (after : Connection) :
    ∃ more : List Event, (∀ e ∈ more, e.IsWork) ∧
      Stands (s.run peer more) c served (some t) (Connection.turnAfter peer c after turn).queued ts ∧
      (Connection.turnAfter peer c after turn).queued ≤ queueRoom := by
  obtain ⟨q, hle, hroom, htake⟩ := queued_take turn hq
  have hturn := queued_turnAfter peer c after turn
  rw [htake] at hturn
  generalize (Connection.turnAfter peer c after turn).queued = q' at hturn
  obtain ⟨fill, hfill, h₁⟩ := h.enter peer (k := q + 1 - turn.queued) (by omega)
  rw [show turn.queued + (q + 1 - turn.queued) = q + 1 from by omega] at h₁
  obtain ⟨refill, hrefill, h₂⟩ := (h₁.take peer).enter peer (k := q' - q) (by omega)
  rw [show q + (q' - q) = q' from by omega] at h₂
  refine ⟨fill ++ .take :: refill, fun e he => ?_, ?_, by omega⟩
  · rcases List.mem_append.mp he with he | he
    · exact hfill e he
    · rcases List.mem_cons.mp he with rfl | he
      · trivial
      · exact hrefill e he
  · rw [run_append]
    exact h₂

theorem Stands.exchange (h : Stands s c served (some t) q ts) (live : (c.exchange peer t.request).2.live = true) :
    Stands (s.exchange peer) (c.exchange peer t.request).2 (served ++ [(t, (c.exchange peer t.request).1)]) none q ts := by
  have hexchange := @exchange_some peer _ _ h.taken
  rw [h.connection, if_pos live] at hexchange
  rw [hexchange]
  refine ⟨?_, ?_, rfl, h.queue, h.outside, h.lost, h.refused⟩
  · simp only [afterExchange, h.connection]
  · simp only [afterExchange, h.connection, h.served]

theorem Stands.exchange_ended (h : Stands s c served (some t) q ts)
    (ended : (c.exchange peer t.request).2.live = false) :
    Settled (s.exchange peer) (c.exchange peer t.request).2 (served ++ [(t, (c.exchange peer t.request).1)]) (ts.take q)
      (ts.drop q) := by
  have hexchange := @exchange_some peer _ _ h.taken
  rw [h.connection, if_neg (Bool.eq_false_iff.mp ended)] at hexchange
  rw [hexchange]
  refine ⟨rfl, ?_, ?_, ?_, ?_⟩
  · simp only [close, afterExchange, h.connection]
  · simp only [close, afterExchange, h.connection, h.served]
  · simp only [close, afterExchange, h.lost, h.queue, List.nil_append]
  · simp only [close, afterExchange, h.refused, h.outside, List.nil_append]

/-- Serving in turns is a run: each turn lets requests in, takes one out and serves it. -/
theorem Stands.serve (peer : Peer) (ts : List Ticket) (turn : Turn) (h : Stands s c served none turn.queued ts)
    (live : c.live = true) (hq : turn.queued ≤ queueRoom) :
    ∃ more : List Event, (∀ e ∈ more, e.IsWork) ∧
      Settled (s.run peer more) (c.takeUp peer (ts.map (·.request))).2
        (served ++ ts.zip (c.takeUp peer (ts.map (·.request))).1)
        ((ts.drop (c.takeUp peer (ts.map (·.request))).1.length).take
          (c.lastTurn peer turn (ts.map (·.request))).queued)
        ((ts.drop (c.takeUp peer (ts.map (·.request))).1.length).drop
          (c.lastTurn peer turn (ts.map (·.request))).queued) := by
  induction ts generalizing s c served turn with
  | nil =>
    refine ⟨[], by simp, ⟨?_, h.connection, ?_, ?_, ?_⟩⟩
    · simp [waiting, Shared.run, h.taken, h.queue, h.outside]
    · simp [Shared.run, h.served]
    · simp [Shared.run, h.lost]
    · simp [Shared.run, h.refused]
  | cons t ts ih =>
    obtain ⟨more, hwork, hstands, hroom⟩ := h.turn hq peer (c.exchange peer t.request).2
    rw [List.map_cons, Connection.takeUp_cons live, Connection.lastTurn_cons turn live, List.zip_cons_cons,
      List.length_cons, List.drop_succ_cons]
    generalize Connection.turnAfter peer c (c.exchange peer t.request).2 turn = after at hstands hroom ⊢
    -- However far the queue is filled by then, those that wait stand as before if the connection is still served.
    cases hlive : (c.exchange peer t.request).2.live with
    | true =>
      obtain ⟨rest, hrest, hend⟩ := ih after (hstands.exchange hlive) hlive hroom
      refine ⟨more ++ .exchange :: rest, fun e he => ?_, ?_⟩
      · rcases List.mem_append.mp he with he | he
        · exact hwork e he
        · rcases List.mem_cons.mp he with rfl | he
          · trivial
          · exact hrest e he
      · rw [run_append, List.append_cons]
        exact hend
    | false =>
      refine ⟨more ++ [.exchange], fun e he => ?_, ?_⟩
      · rcases List.mem_append.mp he with he | he
        · exact hwork e he
        · rw [List.mem_singleton.mp he]
          trivial
      · rw [run_append, Connection.takeUp_ended hlive, Connection.lastTurn_ended after hlive, List.zip_nil_right]
        exact hstands.exchange_ended hlive

/-! ### Requests that are made together -/

theorem run_make_live (peer : Peer) (rs : List Request) (live : s.connection.live = true) :
    s.run peer (rs.map .make) =
      { s with made := s.made + rs.length, outside := s.outside ++ Ticket.numbered s.made rs } := by
  induction rs generalizing s with
  | nil => simp [Shared.run, Ticket.numbered]
  | cons r rs ih =>
    have hstep : s.step peer (.make r) = { s with made := s.made + 1, outside := s.outside ++ [⟨s.made, r⟩] } := by
      rw [step, make, if_pos live]
    rw [List.map_cons, Shared.run, hstep]
    refine (ih (s := { s with made := s.made + 1, outside := s.outside ++ [⟨s.made, r⟩] }) live).trans ?_
    simp [Ticket.numbered, Nat.add_assoc, Nat.add_comm 1]

theorem requests_map_make (rs : List Request) : requests (rs.map .make) = rs := by
  simp [requests, List.filterMap_map, Function.comp_def, Event.request?]

theorem map_request_numbered (first : Nat) (rs : List Request) :
    (Ticket.numbered first rs).map (·.request) = rs := by
  rw [Ticket.numbered, List.map_map]
  exact List.zipIdx_map_fst first rs

/-- Requests that are made together on a connection that is served and on which nothing waits: those that are taken up
    are served in order, those that stand in the queue when it ends are lost, and the others are refused. -/
theorem exists_run_settled (peer : Peer) (h : s.Orderly) (idle : s.waiting = []) (live : s.connection.live = true)
    (rs : List Request) :
    ∃ work : List Event, (∀ e ∈ work, e.IsWork) ∧
      Settled (s.run peer (rs.map .make ++ work)) (s.connection.takeUp peer rs).2
        (s.served ++ (Ticket.numbered s.made rs).zip (s.connection.takeUp peer rs).1)
        (((Ticket.numbered s.made rs).drop (s.connection.takeUp peer rs).1.length).take
          (s.connection.lastTurn peer (.begin 0) rs).queued)
        (((Ticket.numbered s.made rs).drop (s.connection.takeUp peer rs).1.length).drop
          (s.connection.lastTurn peer (.begin 0) rs).queued) := by
  simp only [waiting, List.append_eq_nil_iff, Option.toList_eq_nil_iff] at idle
  obtain ⟨⟨htaken, hqueue⟩, hout⟩ := idle
  obtain ⟨hlost, hrefused⟩ := h.live live
  have hstands : Stands (s.run peer (rs.map .make)) s.connection s.served none 0 (Ticket.numbered s.made rs) := by
    rw [run_make_live peer rs live]
    exact ⟨rfl, rfl, htaken, hqueue, by simp [hout], hlost, hrefused⟩
  obtain ⟨fill, hfill, hstands⟩ := hstands.enter peer (k := queueRoom) (by omega)
  rw [Nat.zero_add] at hstands
  obtain ⟨more, hwork, hend⟩ := Stands.serve peer (Ticket.numbered s.made rs) (.begin 0) hstands live (Nat.le_refl _)
  refine ⟨fill ++ more, fun e he => (List.mem_append.mp he).elim (hfill e) (hwork e), ?_⟩
  rw [run_append, run_append]
  rw [map_request_numbered] at hend
  exact hend

theorem unserved_eq (q : Nat) (rs : List Request) :
    Connection.unserved q rs =
      List.replicate (min q rs.length) (.error .connectionLost) ++
        List.replicate (rs.length - min q rs.length) (.error .connectionEnded) := by
  rw [Connection.unserved, List.map_const', List.map_const', List.length_take, List.length_drop]
  congr 2
  omega

/-- Requests that are made together: the first are taken up, the next are lost with the queue, the others refused. -/
theorem exists_lost {first last : Connection} {rs : List Request} {taken : List Outcome}
    (h : first.takeUp peer rs = (taken, last)) :
    ∃ lost : Nat, taken.length + lost ≤ rs.length ∧ lost ≤ Connection.queueRoom ∧
      (first.live = true → min rs.length Connection.queueRoom ≤ taken.length + lost) ∧
      first.requestAll peer rs =
        (taken ++ List.replicate lost (.error .connectionLost) ++
          List.replicate (rs.length - taken.length - lost) (.error .connectionEnded), last) ∧
      ∃ work : List Event, (∀ e ∈ work, e.IsWork) ∧
        Settled ((start first).run peer (rs.map .make ++ work)) last ((Ticket.numbered 0 rs).zip taken)
          (((Ticket.numbered 0 rs).drop taken.length).take lost)
          (((Ticket.numbered 0 rs).drop taken.length).drop lost) := by
  have hle := first.length_takeUp_le peer rs
  rw [h] at hle
  cases live : first.live with
  | true =>
    obtain ⟨work, hwork, hend⟩ := exists_run_settled peer (orderly_start first) rfl live rs
    obtain ⟨hroom, hqueued⟩ := queued_lastTurn peer first (.begin 0) rs (Nat.le_refl _)
    have hfull : (Connection.Turn.begin 0).queued = Connection.queueRoom := rfl
    have hwaiting : ((Ticket.numbered 0 rs).drop taken.length).length = rs.length - taken.length := by
      rw [List.length_drop, Ticket.numbered, List.length_map, List.length_zipIdx]
    have hall : first.requestAll peer rs = first.serve peer (.begin 0) rs := by rw [Connection.requestAll, if_pos live]
    rw [Connection.serve_eq] at hall
    simp only [start, List.nil_append] at hend
    rw [h] at hall hend hqueued
    simp only at hall hend hqueued hle
    generalize (first.lastTurn peer (.begin 0) rs).queued = q at *
    refine ⟨min q (rs.length - taken.length), by omega, by omega, fun _ => by omega, ?_, work, hwork, ?_⟩
    · rw [hall, unserved_eq, List.length_drop, List.append_assoc]
    · rw [← hwaiting, ← List.take_eq_take_min, ← List.drop_eq_drop_min]
      exact hend
  | false =>
    rw [Connection.takeUp_ended live, Prod.mk.injEq] at h
    obtain ⟨rfl, rfl⟩ := h
    refine ⟨0, hle, Nat.zero_le _, fun h => absurd h Bool.false_ne_true, ?_, [], by simp, ?_⟩
    · rw [Connection.requestAll, if_neg (Bool.eq_false_iff.mp live), List.map_const']
      rfl
    · rw [List.append_nil, run_ended live rfl, requests_map_make]
      exact ⟨rfl, rfl, by rw [List.zip_nil_right]; rfl, rfl, rfl⟩

end Pinboard.Shared
