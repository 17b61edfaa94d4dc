import Pinboard.Client
import Pinboard.Proofs.Connection.Exchange
import Pinboard.Proofs.Connection.Shared

/-! When a connection ends, and what follows. It ends with a request whose frame could not be written or to which no
    whole frame came in, and with no other. If it goes on, it stands between frames, and nothing but the far end
    knows that it is not new. If it has ended, it touches the stream no more, and no request succeeds. -/

namespace Pinboard

namespace Connection

variable {peer : Peer} {c : Connection} {r : Request}

theorem exchange_ends_iff (apart : c.stream.sink.TellsApart) :
    (c.exchange peer r).2.live = false ↔ r.Fits ∧ (¬c.Sends r ∨ ¬c.Reads peer r) := by
  have hx := exchanged peer c r
  generalize (c.exchange peer r).1 = outcome at hx
  generalize (c.exchange peer r).2 = c' at hx ⊢
  cases hx with
  | refused long => exact ⟨fun h => (by cases h), fun hr => absurd hr.1 long⟩
  | cut fits fault_of unsent beginning accepted source received live =>
    refine ⟨fun _ => ⟨fits, Or.inl unsent⟩, fun _ => ?_⟩
    rw [live]
    exact decide_eq_false (fault_of.kind_ne apart)
  | unanswered fits sends fault_of accepted taken unheard received live =>
    exact ⟨fun _ => ⟨fits, Or.inr unheard⟩, fun _ => live⟩
  | answered fits sends legal accepted taken received live heard =>
    refine ⟨fun hd => absurd live (Bool.eq_false_iff.mp hd), fun hr => ?_⟩
    rcases hr.2 with unsent | unheard
    · exact absurd sends unsent
    · exact absurd heard unheard

theorem exchange_fails (ended : (c.exchange peer r).2.live = false) : ∃ fault, (c.exchange peer r).1 = .error fault := by
  have hx := exchanged peer c r
  generalize (c.exchange peer r).1 = outcome at hx ⊢
  generalize (c.exchange peer r).2 = c' at hx ended
  cases hx with
  | refused => cases ended
  | cut => exact ⟨_, rfl⟩
  | unanswered => exact ⟨_, rfl⟩
  | answered fits sends legal accepted taken received live => exact absurd live (Bool.eq_false_iff.mp ended)

/-- A connection on which the far end has received requests before those that it has received since. -/
def behind (earlier : List Request) (c : Connection) : Connection := { c with received := earlier ++ c.received }

/-- What the far end has received before matters to the far end alone. -/
theorem exchange_behind (peer : Peer) (earlier : List Request) (c : Connection) (r : Request) :
    (c.behind earlier).exchange peer r =
      ((c.exchange (peer.after earlier) r).1, (c.exchange (peer.after earlier) r).2.behind earlier) := by
  unfold exchange behind
  simp only [Peer.after]
  rcases h : Frame.write r.body c.stream.sink with ⟨_ | _, sink⟩
  · rfl
  · simp only [receive, List.append_assoc]
    split <;> rfl

/-- A connection that is served is a new one at its place of the stream, behind what the far end has received. -/
theorem eq_behind (live : c.live = true) : c = (ofStream c.stream).behind c.received := by
  simp [behind, ofStream, ← live]

end Connection

namespace Shared

variable {peer : Peer} {s : Shared} {t : Ticket}

/-- A shared connection on which the far end has received earlier requests. -/
def behind (earlier : List Request) (s : Shared) : Shared := { s with connection := s.connection.behind earlier }

theorem step_behind (peer : Peer) (earlier : List Request) (s : Shared) (e : Event) :
    (s.behind earlier).step peer e = (s.step (peer.after earlier) e).behind earlier := by
  cases e with
  | make r =>
    rw [step, step, make, make, apply_ite (behind earlier)]
    rfl
  | enter place =>
    rw [step, step, enter, enter, show (s.behind earlier).outside = s.outside from rfl]
    cases s.outside[place]? with
    | none => rfl
    | some t =>
      simp only
      rw [apply_ite (behind earlier)]
      rfl
  | take =>
    rw [step, step, take, take, show (s.behind earlier).taken = s.taken from rfl,
      show (s.behind earlier).queue = s.queue from rfl]
    split <;> rfl
  | exchange =>
    cases ht : s.taken with
    | none => rw [step, step, exchange_none (s := s.behind earlier) ht, exchange_none ht]
    | some t =>
      have hafter : (s.behind earlier).afterExchange peer t =
          (s.afterExchange (peer.after earlier) t).behind earlier := by
        simp only [afterExchange, behind, Connection.exchange_behind]
      have hlive : ((s.behind earlier).connection.exchange peer t.request).2.live =
          (s.connection.exchange (peer.after earlier) t.request).2.live := by
        rw [behind, Connection.exchange_behind]
        rfl
      rw [step, step, exchange_some (s := s.behind earlier) ht, exchange_some ht, hafter, hlive,
        apply_ite (behind earlier)]
      rfl
  | leave number => rfl

theorem run_behind (peer : Peer) (earlier : List Request) (s : Shared) (events : List Event) :
    (s.behind earlier).run peer events = (s.run (peer.after earlier) events).behind earlier := by
  induction events generalizing s with
  | nil => rfl
  | cons e events ih => rw [Shared.run, step_behind, ih, Shared.run]

theorem sound_run (peer : Peer) {stream : Stream} (apart : stream.sink.TellsApart) (events : List Event) :
    ((start (.ofStream stream)).run peer events).connection.Sound stream :=
  run_served peer (P := fun c _ => c.Sound stream) ⟨apart, .refl _⟩ (fun _ _ t _ h => h.exchange peer t.request) events

theorem step_ends_iff (apart : s.connection.stream.sink.TellsApart) (orderly : s.Orderly) (e : Event) :
    (s.connection.live = true ∧ (s.step peer e).connection.live = false) ↔
      e = .exchange ∧ ∃ t, s.taken = some t ∧ t.request.Fits ∧
        (¬s.connection.Sends t.request ∨ ¬s.connection.Reads peer t.request) := by
  have hafter {t : Ticket} (ht : s.taken = some t) :
      (s.exchange peer).connection = (s.connection.exchange peer t.request).2 := by
    rw [exchange_some ht]
    split <;> rfl
  constructor
  · rintro ⟨live, ended⟩
    by_cases he : e = .exchange
    · subst he
      cases ht : s.taken with
      | none =>
        rw [step, exchange_none ht] at ended
        exact absurd live (Bool.eq_false_iff.mp ended)
      | some t =>
        rw [step, hafter ht] at ended
        exact ⟨rfl, t, rfl, (Connection.exchange_ends_iff apart).mp ended⟩
    · rw [(step_ne_exchange he).1] at ended
      exact absurd live (Bool.eq_false_iff.mp ended)
  · rintro ⟨rfl, t, ht, why⟩
    refine ⟨orderly.live_of_taken ht, ?_⟩
    rw [step, hafter ht]
    exact (Connection.exchange_ends_iff apart).mpr why

/-- A connection goes on after it has served a request. -/
structure GoesOn (peer : Peer) (s : Shared) (t : Ticket) : Prop where
  /-- A refusal leaves the connection as it was. Otherwise one whole frame has been read, whatever it says. -/
  between : (¬t.request.Fits ∧ (s.exchange peer).connection = s.connection) ∨
    ∃ reply, (s.exchange peer).served = s.served ++ [(t, Response.ofReply reply)] ∧
      (s.exchange peer).connection.accepted = s.connection.accepted ++ Frame.encode t.request.body ∧
      s.connection.incoming peer t.request = Frame.encode reply ++ (s.exchange peer).connection.unread
  /-- No request is lost or refused, and none has to wait anew. -/
  waiting : (s.exchange peer).queue = s.queue ∧ (s.exchange peer).outside = s.outside ∧
    (s.exchange peer).lost = s.lost ∧ (s.exchange peer).refused = s.refused
  /-- Every run goes as on a new connection at this place of the stream. -/
  asNew : ∀ more, (s.exchange peer).run peer more =
    ({ s.exchange peer with connection := .ofStream (s.exchange peer).connection.stream }.run
      (peer.after (s.exchange peer).connection.received) more).behind (s.exchange peer).connection.received

/-- A connection is over after it has served a request. -/
structure IsOver (peer : Peer) (s : Shared) (t : Ticket) : Prop where
  /-- Nothing is written or read any more. -/
  connection : ∀ more, ((s.exchange peer).run peer more).connection = (s.exchange peer).connection
  /-- The request itself fails, those in the queue are lost, and those outside and all later ones are refused. -/
  outcomes : ∃ fault, ∀ more, ((s.exchange peer).run peer more).outcomes =
    s.served ++ [(t, .error fault)] ++ s.queue.map (fun t => (t, .error .connectionLost)) ++
      (s.outside ++ Ticket.numbered s.made (requests more)).map (fun t => (t, .error .connectionEnded))
  waiting : ∀ more, ((s.exchange peer).run peer more).waiting = []
  together : ∀ rs, (s.exchange peer).connection.requestAll peer rs =
    (rs.map fun _ => .error .connectionEnded, (s.exchange peer).connection)

theorem goesOn (apart : s.connection.stream.sink.TellsApart) (orderly : s.Orderly) (ht : s.taken = some t)
    (live : (s.exchange peer).connection.live = true) : GoesOn peer s t := by
  have hs : s.exchange peer = s.afterExchange peer t := by
    rw [exchange_some ht] at live ⊢
    split at live
    · rw [if_pos ‹_›]
    · exact absurd live ‹_›
  refine ⟨?_, ?_, fun more => ?_⟩
  · have hx := Connection.exchanged peer s.connection t.request
    rw [hs] at live ⊢
    simp only [afterExchange] at live ⊢
    generalize (s.connection.exchange peer t.request).1 = outcome at hx ⊢
    generalize (s.connection.exchange peer t.request).2 = c' at hx live ⊢
    cases hx with
    | refused long =>
      refine Or.inl ⟨long, ?_⟩
      rw [← orderly.live_of_taken ht]
    | cut fits fault_of unsent beginning accepted source received live' =>
      rw [live', decide_eq_true_eq] at live
      exact absurd live (fault_of.kind_ne apart)
    | unanswered fits sends fault_of accepted taken unheard received live' =>
      exact absurd live (Bool.eq_false_iff.mp live')
    | answered fits sends legal accepted taken received live' =>
      exact Or.inr ⟨_, rfl, accepted, taken⟩
  · rw [hs]
    exact ⟨rfl, rfl, rfl, rfl⟩
  · -- What the far end has received before goes in front again, and the connection is the one that it was.
    rw [← run_behind]
    congr 1
    rw [behind, ← Connection.eq_behind live]

theorem isOver (ht : s.taken = some t) (orderly : s.Orderly)
    (ended : (s.exchange peer).connection.live = false) : IsOver peer s t := by
  have hs : s.exchange peer = (s.afterExchange peer t).close := by
    rw [exchange_some ht] at ended ⊢
    split at ended
    · rename_i live
      exact absurd live (Bool.eq_false_iff.mp ended)
    · rw [if_neg ‹_›]
  have idle : (s.exchange peer).waiting = [] := by
    rw [hs]
    rfl
  obtain ⟨hlost, hrefused⟩ := orderly.live (orderly.live_of_taken ht)
  have hconnection : (s.exchange peer).connection = (s.connection.exchange peer t.request).2 := by
    rw [hs]
    rfl
  obtain ⟨fault, hfault⟩ := Connection.exchange_fails (hconnection ▸ ended)
  refine ⟨fun more => by rw [run_ended ended idle], ⟨fault, fun more => ?_⟩, fun more => ?_, fun rs => ?_⟩
  · rw [run_ended ended idle, hs]
    simp [outcomes, close, afterExchange, hlost, hrefused, hfault]
  · rw [run_ended ended idle]
    exact idle
  · rw [Connection.requestAll, if_neg (Bool.eq_false_iff.mp ended)]

/-- After any run: which events end the connection, how it goes on after the others, and what follows its end. -/
structure EndsProperly (peer : Peer) (stream : Stream) (s : Shared) : Prop where
  ends_iff : ∀ e, (s.connection.live = true ∧ (s.step peer e).connection.live = false) ↔
    e = .exchange ∧ ∃ t, s.taken = some t ∧ t.request.Fits ∧
      (¬s.connection.Sends t.request ∨ ¬s.connection.Reads peer t.request)
  /-- On a stream that flows, the bytes that stand to be read tell whether a whole frame can be read. -/
  broken_iff : stream.source.Flows → ∀ r, ¬s.connection.Reads peer r ↔ Frame.Broken (s.connection.incoming peer r)
  goesOn : ∀ t, s.taken = some t → (s.exchange peer).connection.live = true → GoesOn peer s t
  isOver : ∀ t, s.taken = some t → (s.exchange peer).connection.live = false → IsOver peer s t
  /-- What callers are told whose requests are lost or refused. -/
  told : ∀ {β α : Type} (q : Query β α) (id : CallId),
    ((q.pending id).finish (.error .connectionLost)).1 = .error (.io .connectionLost) ∧
      StreamFault.connectionLost.kind = .connectionAborted ∧ StreamFault.connectionLost.message = "Actor task ended" ∧
      ((q.pending id).finish (.error .connectionEnded)).1 = .error (.io .connectionEnded) ∧
      StreamFault.connectionEnded.kind = .brokenPipe ∧ StreamFault.connectionEnded.message = "Actor dropped"

/-- Only a cut request and a broken reply end a connection, and its end is for good. -/
theorem endsProperly_run (peer : Peer) (stream : Stream) (apart : stream.sink.TellsApart) (events : List Event) :
    EndsProperly peer stream ((start (.ofStream stream)).run peer events) := by
  have sound := sound_run peer apart events
  have orderly := (orderly_start (.ofStream stream)).run peer events
  exact {
    ends_iff := step_ends_iff sound.apart orderly
    broken_iff := fun flows _ => by rw [Connection.reads_iff (sound.keeps.flows flows), Frame.broken_iff]
    goesOn := fun _ ht live => goesOn sound.apart orderly ht live
    isOver := fun _ ht ended => isOver ht orderly ended
    told := fun _ _ => ⟨rfl, rfl, rfl, rfl, rfl, rfl⟩ }

/-- A far end that sends three bytes of a length. -/
def cutShort : Peer := fun _ => ⟨[0, 0, 0], false⟩

/-- One request is being served, and another waits in the queue. -/
def oneTaken : List Event := [.make (.hasObject "a"), .enter 0, .take, .make (.hasObject "b"), .enter 0]

theorem endsProperly_run_cutShort :
    Stream.fresh.sink.TellsApart ∧ Stream.fresh.source.Flows ∧
      EndsProperly cutShort .fresh ((start (.ofStream .fresh)).run cutShort oneTaken) ∧
      (((start (.ofStream .fresh)).run cutShort oneTaken).exchange cutShort).connection.live = false ∧
      (((start (.ofStream .fresh)).run cutShort oneTaken).exchange cutShort).lost.map (·.number) = [1] :=
  have apart : Stream.fresh.sink.TellsApart := ⟨by decide, nofun⟩
  have flows : Stream.fresh.source.Flows := fun _ => nofun
  ⟨apart, flows, endsProperly_run cutShort .fresh apart oneTaken, by decide +kernel, by decide +kernel⟩

end Shared

end Pinboard
