import Pinboard.Proofs.Connection.Account
import Pinboard.Proofs.Connection.InOrder
import Pinboard.Proofs.Json.Printing
import Pinboard.Proofs.Query

/-! Requests that are too long among others. One that is taken up is refused before anything is written, and the
    connection is left just as it was. So wherever such requests stand in the queue, the others go as they would go
    without them: the same bytes pass in both directions, and the connection ends with the same request, if it ends. -/

namespace Pinboard

namespace Connection

variable {peer : Peer} {c c' : Connection} {r : Request}

/-- A request that is too long is refused, and nothing else happens. -/
theorem exchange_of_long (peer : Peer) (live : c.live = true) (long : ¬r.Fits) :
    c.exchange peer r = (.error (.tooLongToSend r.body.length), c) := by
  have hx := exchanged peer c r
  generalize c.exchange peer r = step at hx ⊢
  obtain ⟨outcome, c'⟩ := step
  cases hx with
  | refused => rw [← live]
  | cut fits => exact absurd fits long
  | unanswered fits => exact absurd fits long
  | answered fits => exact absurd fits long

end Connection

theorem Request.length_le_hasObject (name : String) : (Utf8.encode name).length ≤ (Request.hasObject name).body.length := by
  obtain ⟨w, hw, hwritten⟩ := Json.exists_string name
  have hlen := Json.Resolves.length_le hw
  simp only [body, text, toJson, Json.compact, Json.append, Json.appendMembers, Utf8.encode_push, hwritten, List.length_append,
    List.length_cons]
  omega

/-- A question about a name of more bytes than a frame can hold. -/
def tooLong : Request := .hasObject (String.ofList (List.replicate (Frame.maxBody + 1) 'a'))

theorem not_fits_tooLong : ¬tooLong.Fits := by
  have h := Request.length_le_hasObject (String.ofList (List.replicate (Frame.maxBody + 1) 'a'))
  rw [Utf8.encode_ofList, List.length_flatMap, List.map_replicate, List.sum_replicate_nat,
    show (String.utf8EncodeChar 'a').length = 1 from rfl, Nat.mul_one] at h
  exact Nat.not_le_of_lt h

/-- If all of the requests are taken up, those that are not inserted go in the same way on their own. -/
theorem takeUp_others {inserted : Ticket → Bool} {peer : Peer} {c c' : Connection}
    {served : List (Ticket × Outcome)} (long : ∀ x ∈ served, inserted x.1 → ¬x.1.request.Fits)
    (h : c.takeUp peer (served.map (·.1.request)) = (served.map (·.2), c')) :
    c.takeUp peer ((served.filter (!inserted ·.1)).map (·.1.request)) =
      ((served.filter (!inserted ·.1)).map (·.2), c') := by
  induction served generalizing c with
  | nil => exact h
  | cons x served ih =>
    obtain ⟨hx, hserved⟩ := List.forall_mem_cons.mp long
    cases live : c.live with
    | false =>
      rw [List.map_cons, Connection.takeUp_ended live] at h
      cases h
    | true =>
      rw [List.map_cons, Connection.takeUp_cons live, List.map_cons, Prod.mk.injEq, List.cons.injEq] at h
      obtain ⟨⟨houtcome, houtcomes⟩, hlast⟩ := h
      have hrest := ih hserved (Prod.ext houtcomes hlast)
      cases hinserted : inserted x.1 with
      | true =>
        -- The exchange of an inserted request gives back the connection that it was given.
        rw [Connection.exchange_of_long peer live (hx hinserted)] at hrest
        rw [List.filter_cons_of_neg (by simp [hinserted])]
        exact hrest
      | false =>
        rw [List.filter_cons_of_pos (by simp [hinserted]), List.map_cons, Connection.takeUp_cons live, hrest, houtcome,
          List.map_cons]

namespace Shared

variable {peer : Peer} {s : Shared}

theorem exchange_of_long {t : Ticket} (ht : s.taken = some t) (live : s.connection.live = true) (long : ¬t.request.Fits) :
    s.exchange peer =
      { s with taken := none, served := s.served ++ [(t, .error (.tooLongToSend t.request.body.length))] } := by
  rw [exchange_some ht, Connection.exchange_of_long peer live long, if_pos live, afterExchange,
    Connection.exchange_of_long peer live long]

theorem entered_exchange (peer : Peer) (s : Shared) : (s.exchange peer).entered = s.entered := by
  cases ht : s.taken with
  | none => rw [exchange_none ht]
  | some t =>
    rw [exchange_some ht]
    split <;> rfl

/-- The requests that entered the queue, without those that are inserted. -/
def enteredBut (inserted : Ticket → Bool) (s : Shared) : List Ticket := s.entered.filter (!inserted ·)

/-- The requests that were served, with their outcomes, without those that are inserted. -/
def servedBut (inserted : Ticket → Bool) (s : Shared) : List (Ticket × Outcome) := s.served.filter (!inserted ·.1)

/-- What became of the requests of `s` that are not inserted is what became of the requests of `t`, as far as both go
    in the order of these requests. -/
structure Undisturbed (inserted : Ticket → Bool) (order : List Request) (s t : Shared) : Prop where
  /-- Each inserted request that is taken up fails as input that is too long. -/
  refused : ∀ x ∈ s.served, inserted x.1 → ∃ fault, x.2 = .error fault ∧ fault.kind = .invalidInput ∧
    ∀ {β : Type} (ask : Ask β) (id : CallId), ask.told id x.2 = .error (.io fault)
  /-- The others are taken up in order, and each has the same outcome in both. -/
  inOrder : (s.servedBut inserted).map (·.1.request) <+: order ∧ t.served.map (·.1.request) <+: order
  same : ∀ (n : Nat) (x y : Ticket × Outcome), (s.servedBut inserted)[n]? = some x → t.served[n]? = some y → x.2 = y.2
  /-- Once both have taken up as many of them, the connections are the same, with all that was written, with all that
      has arrived and is not read, and with whether they are served. -/
  connection : (s.servedBut inserted).length = t.served.length → s.connection = t.connection
  /-- No connection takes up more of them than one that has ended. -/
  ended : s.connection.live = false → t.served.length ≤ (s.servedBut inserted).length
  ended_without : t.connection.live = false → (s.servedBut inserted).length ≤ t.served.length
  /-- Where nothing waits any more, both have taken up as many, if each was given all of the requests or has ended. -/
  complete : s.waiting = [] → t.waiting = [] →
    (s.connection.live = true → (s.enteredBut inserted).map (·.request) = order) →
    (t.connection.live = true → t.entered.map (·.request) = order) → (s.servedBut inserted).length = t.served.length

theorem Orderly.served_prefix (h : s.Orderly) : s.served.map (·.1) <+: s.entered := by
  rw [h.entered, List.append_assoc, List.append_assoc]
  exact List.prefix_append _ _

/-- All that entered the queue of a connection that has not ended is served once nothing waits. -/
theorem Orderly.entered_of_idle (h : s.Orderly) (live : s.connection.live = true) (idle : s.waiting = []) :
    s.entered = s.served.map (·.1) := by
  simp only [waiting, List.append_eq_nil_iff] at idle
  rw [h.entered, idle.1.1, idle.1.2, (h.live live).1, List.append_nil, List.append_nil, List.append_nil]

theorem map_servedBut (inserted : Ticket → Bool) (s : Shared) :
    (s.servedBut inserted).map (·.1) = (s.served.map (·.1)).filter (!inserted ·) := by
  rw [List.filter_map]
  rfl

theorem Orderly.requests_prefix (h : s.Orderly) : s.served.map (·.1.request) <+: s.entered.map (·.request) := by
  have := h.served_prefix.map (·.request)
  rwa [List.map_map] at this

theorem Orderly.requestsBut_prefix (h : s.Orderly) (inserted : Ticket → Bool) :
    (s.servedBut inserted).map (·.1.request) <+: (s.enteredBut inserted).map (·.request) := by
  have := (h.served_prefix.filter (!inserted ·)).map (·.request)
  rwa [← map_servedBut, List.map_map] at this

/-- On a connection that has not ended, once nothing waits, all that entered the queue but those are served. -/
theorem Orderly.length_servedBut (h : s.Orderly) (live : s.connection.live = true) (idle : s.waiting = [])
    (inserted : Ticket → Bool) : (s.servedBut inserted).length = (s.enteredBut inserted).length := by
  rw [enteredBut, h.entered_of_idle live idle, ← map_servedBut, List.length_map]

/-- Whatever is queued among them, requests that are too long do not disturb the others. -/
theorem undisturbed_run (peer : Peer) (c : Connection) (events without : List Event) (inserted : Ticket → Bool)
    (long : ∀ t ∈ ((start c).run peer events).entered, inserted t → ¬t.request.Fits) (order : List Request)
    (inOrder : (((start c).run peer events).enteredBut inserted).map (·.request) <+: order)
    (inOrder' : ((start c).run peer without).entered.map (·.request) <+: order) :
    Undisturbed inserted order ((start c).run peer events) ((start c).run peer without) := by
  have orderly := (orderly_start c).run peer events
  have orderly' := (orderly_start c).run peer without
  have taken := takeUp_run peer c events
  have taken' := takeUp_run peer c without
  have tooLong := served_tooLong peer c events
  generalize (start c).run peer events = s at *
  generalize (start c).run peer without = t at *
  have long' : ∀ x ∈ s.served, inserted x.1 → ¬x.1.request.Fits := fun x hx =>
    long x.1 (orderly.served_prefix.subset (List.mem_map_of_mem hx))
  have own : c.takeUp peer ((s.servedBut inserted).map (·.1.request)) = ((s.servedBut inserted).map (·.2), s.connection) :=
    takeUp_others long' taken
  have prefixes : (s.servedBut inserted).map (·.1.request) <+: order ∧ t.served.map (·.1.request) <+: order :=
    ⟨(orderly.requestsBut_prefix inserted).trans inOrder, orderly'.requests_prefix.trans inOrder'⟩
  -- What becomes of the others when they alone are taken up, all in order, is the measure of both runs.
  have ended (h : s.connection.live = false) : t.served.length ≤ (s.servedBut inserted).length := by
    simpa only [List.length_map] using Connection.length_le_of_ended prefixes.1 prefixes.2 own taken' h
  have ended_without (h : t.connection.live = false) : (s.servedBut inserted).length ≤ t.served.length := by
    simpa only [List.length_map] using Connection.length_le_of_ended prefixes.2 prefixes.1 taken' own h
  refine ⟨fun x hx hinserted => ?_, prefixes, fun n x y hx hy => ?_, fun hlength => ?_, ended, ended_without,
    fun idle idle' given given' => ?_⟩
  · rw [tooLong x hx (long' x hx hinserted)]
    exact ⟨_, rfl, rfl, fun _ _ => rfl⟩
  · have hmeasure := Connection.getElem?_takeUp prefixes.1 own (by rw [List.getElem?_map, hx]; rfl)
    have hmeasure' := Connection.getElem?_takeUp prefixes.2 taken' (by rw [List.getElem?_map, hy]; rfl)
    exact Option.some.inj (hmeasure.symm.trans hmeasure')
  · exact Connection.last_eq_of_length prefixes.1 prefixes.2 own taken'
      (by simp only [List.length_map, hlength])
  · have hle := prefixes.1.length_le
    have hle' := prefixes.2.length_le
    rw [List.length_map] at hle hle'
    have all (live : s.connection.live = true) : (s.servedBut inserted).length = order.length := by
      rw [orderly.length_servedBut live idle, ← given live, List.length_map]
    have all' (live : t.connection.live = true) : t.served.length = order.length := by
      rw [← given' live, orderly'.entered_of_idle live idle', List.length_map, List.length_map]
    cases live : s.connection.live with
    | true =>
      cases live' : t.connection.live with
      | true => rw [all live, all' live']
      | false => exact Nat.le_antisymm (ended_without live') (all live ▸ hle')
    | false =>
      cases live' : t.connection.live with
      | true => exact Nat.le_antisymm (all' live' ▸ hle) (ended live)
      | false => exact Nat.le_antisymm (ended_without live') (ended live)

/-- A request stands in the queue in front of another, and is taken up. -/
def inFront (r : Request) : List Event := [.make r, .make (.hasObject "a"), .enter 0, .enter 0, .take, .exchange]

/-- The other request alone. -/
def alone : List Event := [.make (.hasObject "a"), .enter 0, .take, .exchange]

theorem run_inFront (peer : Peer) {r : Request} (long : ¬r.Fits) :
    (start (.ofStream .fresh)).run peer (inFront r) =
      ⟨.ofStream .fresh, 2, [], [⟨1, .hasObject "a"⟩], none, [⟨0, r⟩, ⟨1, .hasObject "a"⟩],
        [(⟨0, r⟩, .error (.tooLongToSend r.body.length))], [], [], []⟩ :=
  exchange_of_long
    (s := (start (.ofStream .fresh)).run peer [.make r, .make (.hasObject "a"), .enter 0, .enter 0, .take]) rfl rfl long

theorem undisturbed_run_inFront :
    ¬tooLong.Fits ∧
      Undisturbed (·.number == 0) [.hasObject "a"]
        ((start (.ofStream .fresh)).run presence (inFront tooLong ++ [.take, .exchange]))
        ((start (.ofStream .fresh)).run presence alone) ∧
      ((start (.ofStream .fresh)).run presence (inFront tooLong ++ [.take, .exchange])).served.map (·.1.number) = [0, 1] ∧
      ((start (.ofStream .fresh)).run presence alone).served.map (·.1.number) = [0] := by
  have hrun := run_inFront presence not_fits_tooLong
  have hentered : ((start (.ofStream .fresh)).run presence (inFront tooLong ++ [.take, .exchange])).entered =
      [⟨0, tooLong⟩, ⟨1, .hasObject "a"⟩] := by
    rw [run_append, hrun]
    exact entered_exchange presence _
  have halone : ((start (.ofStream .fresh)).run presence alone).entered = [⟨0, .hasObject "a"⟩] :=
    entered_exchange presence _
  refine ⟨not_fits_tooLong,
    undisturbed_run presence (.ofStream .fresh) _ alone (·.number == 0) ?_ [.hasObject "a"] ?_ ?_, ?_, ?_⟩
  · rw [hentered]
    intro t ht
    rcases List.mem_cons.mp ht with rfl | ht
    · exact fun _ => not_fits_tooLong
    · rw [List.mem_singleton.mp ht]
      exact nofun
  · rw [enteredBut, hentered]
    exact List.prefix_refl _
  · rw [halone]
    exact List.prefix_refl _
  · rw [run_append, hrun]
    decide +kernel
  · decide +kernel

end Shared

end Pinboard
