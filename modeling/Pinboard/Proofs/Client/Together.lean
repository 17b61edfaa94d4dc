import Pinboard.Proofs.Connection.Queued
import Pinboard.Proofs.Query

/-! Queries that are queued together, and the same queries one after another. Both are taken up in the same order, so
    each has the same outcome up to the one with which the connection ends, and the same bytes pass in both directions.
    Behind the end all fail, and only how they fail tells which of them stood in the queue. -/

namespace Pinboard

/-- A query with the type of its answer. -/
abbrev SomeQuery (α : Type) := (β : Type) × Query β α

namespace Client

variable {α : Type} {peer : Peer} {c : Client}

/-- Runs queries one after another, each to its end before the next is put. -/
def runEach (peer : Peer) (c : Client) : List (SomeQuery α) → List (Except Fault α) × Client
  | [] => ([], c)
  | q :: rest =>
    let (outcome, after) := c.run peer q.2
    let (outcomes, last) := after.runEach peer rest
    (outcome :: outcomes, last)

theorem runEach_cons (peer : Peer) (c : Client) (q : SomeQuery α) (queries : List (SomeQuery α)) :
    c.runEach peer (q :: queries) =
      ((c.run peer q.2).1 :: ((c.run peer q.2).2.runEach peer queries).1, ((c.run peer q.2).2.runEach peer queries).2) :=
  rfl

/-- Queries under way, the first of them under the id of the given number. -/
def pendings (ids : Nat → CallId) (first : Nat) (queries : List (SomeQuery α)) : List (Pending α) :=
  (queries.zipIdx first).map fun (q, n) => q.2.pending (ids n)

/-- The requests of queries, the first of them under the id of the given number. -/
def requests (ids : Nat → CallId) (first : Nat) (queries : List (SomeQuery α)) : List Request :=
  (pendings ids first queries).map (·.request)

theorem start_eq (c : Client) (queries : List (SomeQuery α)) :
    (c.start (queries.map (.of ·.2))).1 = pendings c.ids c.asked queries ∧
      (c.start (queries.map (.of ·.2))).2.connection = c.connection := by
  induction queries generalizing c with
  | nil => exact ⟨rfl, rfl⟩
  | cons q queries ih =>
    obtain ⟨hpending, hconnection⟩ := ih (c.takeId (AnyQuery.of q.2).opening).2
    exact ⟨congrArg _ hpending, hconnection⟩

theorem run_pending (peer : Peer) (c : Client) {β : Type} (q : Query β α) :
    (c.run peer q).1 =
      ((q.pending (c.ids c.asked)).finish (c.connection.request peer (q.ask.request (c.ids c.asked))).1).1 := by
  rw [run_eq]
  cases (c.connection.request peer (q.ask.request (c.ids c.asked))).1 with
  | error fault => rfl
  | ok r =>
    rw [Ask.told_ok]
    rfl

/-- What is reported of pending queries whose requests have these outcomes. -/
def reported (pending : List (Pending α)) (outcomes : List Outcome) : List (Except Fault α) :=
  (pending.zip outcomes).map fun (p, o) => (p.finish o).1

theorem getElem?_reported {ids : Nat → CallId} {first j : Nat} {queries : List (SomeQuery α)} {outcomes : List Outcome}
    {q : SomeQuery α} {outcome : Outcome} (hq : queries[j]? = some q) (ho : outcomes[j]? = some outcome) :
    (reported (pendings ids first queries) outcomes)[j]? = some ((q.2.pending (ids (first + j))).finish outcome).1 := by
  have hpending : (pendings ids first queries)[j]? = some (q.2.pending (ids (first + j))) := by
    rw [pendings, List.getElem?_map, List.getElem?_zipIdx, hq]
    rfl
  have hzip : ((pendings ids first queries).zip outcomes)[j]? = some (q.2.pending (ids (first + j)), outcome) :=
    List.getElem?_zip_eq_some.mpr ⟨hpending, ho⟩
  rw [reported, List.getElem?_map, hzip]
  rfl

/-- What is reported is told by the requests alone, in either way of running. -/
theorem runEach_eq (peer : Peer) (c : Client) (queries : List (SomeQuery α)) :
    (c.runEach peer queries).1 =
        reported (pendings c.ids c.asked queries) (c.connection.requestEach peer (requests c.ids c.asked queries)).1 ∧
      (c.runEach peer queries).2.connection = (c.connection.requestEach peer (requests c.ids c.asked queries)).2 := by
  induction queries generalizing c with
  | nil => exact ⟨rfl, rfl⟩
  | cons q queries ih =>
    obtain ⟨houtcomes, hconnection⟩ := ih (c.run peer q.2).2
    obtain ⟨hids, hasked⟩ := run_ids peer q.2 c
    rw [hids, hasked, run_connection] at houtcomes hconnection
    refine ⟨?_, hconnection⟩
    rw [runEach_cons, houtcomes, run_pending]
    rfl

theorem runAll_eq (peer : Peer) (c : Client) (queries : List (SomeQuery α)) :
    (c.runAll peer (queries.map (.of ·.2))).1 =
        reported (pendings c.ids c.asked queries) (c.connection.requestAll peer (requests c.ids c.asked queries)).1 ∧
      (c.runAll peer (queries.map (.of ·.2))).2.connection =
        (c.connection.requestAll peer (requests c.ids c.asked queries)).2 := by
  obtain ⟨hpending, hconnection⟩ := start_eq c queries
  simp only [runAll, note, hpending, hconnection, List.map_map]
  exact ⟨rfl, rfl⟩

theorem length_pendings (ids : Nat → CallId) (first : Nat) (queries : List (SomeQuery α)) :
    (pendings ids first queries).length = queries.length := by
  rw [pendings, List.length_map, List.length_zipIdx]

theorem pendings_take (ids : Nat → CallId) (first k : Nat) (queries : List (SomeQuery α)) :
    pendings ids first (queries.take k) = (pendings ids first queries).take k := by
  induction queries generalizing first k with
  | nil => rw [List.take_nil, pendings, List.zipIdx_nil, List.map_nil, List.take_nil]
  | cons q queries ih =>
    cases k with
    | zero => rfl
    | succ k => exact congrArg _ (ih (first + 1) k)

theorem pendings_drop (ids : Nat → CallId) (first k : Nat) (queries : List (SomeQuery α)) :
    pendings ids (first + k) (queries.drop k) = (pendings ids first queries).drop k := by
  induction queries generalizing first k with
  | nil => rw [List.drop_nil, pendings, pendings, List.zipIdx_nil, List.zipIdx_nil, List.map_nil, List.drop_nil]
  | cons q queries ih =>
    cases k with
    | zero => rfl
    | succ k => exact (congrArg (pendings ids · (queries.drop k)) (by omega)).trans (ih (first + 1) k)

/-- Queries whose requests fail report the fault as it is. -/
theorem reported_fault (ids : Nat → CallId) (first k : Nat) (queries : List (SomeQuery α)) (fault : StreamFault)
    (h : k ≤ queries.length) :
    reported (pendings ids first queries) (List.replicate k (.error fault)) = List.replicate k (.error (.io fault)) := by
  induction queries generalizing first k with
  | nil =>
    rw [Nat.le_zero.mp h]
    rfl
  | cons q queries ih =>
    cases k with
    | zero => rfl
    | succ k => exact congrArg _ (ih (first + 1) k (Nat.le_of_succ_le_succ h))

theorem reported_append_fault (ids : Nat → CallId) (first k : Nat) (queries : List (SomeQuery α)) (outcomes : List Outcome)
    (fault : StreamFault) (h : outcomes.length + k ≤ queries.length) :
    reported (pendings ids first queries) (outcomes ++ List.replicate k (.error fault)) =
      reported (pendings ids first queries) outcomes ++ List.replicate k (.error (.io fault)) := by
  rw [reported, zip_append_right, List.map_append, ← reported, ← reported, ← pendings_drop, reported_fault]
  rw [List.length_drop]
  omega

theorem length_requests (ids : Nat → CallId) (first : Nat) (queries : List (SomeQuery α)) :
    (requests ids first queries).length = queries.length := by
  rw [requests, List.length_map, length_pendings]

section TakenUp

variable {queries : List (SomeQuery α)} {taken : List Outcome} {last : Connection}

/-- Of the queries that are run one after another, those behind the end report that the connection has ended. -/
theorem runEach_of_takeUp (h : c.connection.takeUp peer (requests c.ids c.asked queries) = (taken, last)) :
    (c.runEach peer queries).1 =
        reported (pendings c.ids c.asked queries) taken ++
          List.replicate (queries.length - taken.length) (.error (.io .connectionEnded)) ∧
      (c.runEach peer queries).2.connection = last := by
  have hle := Connection.length_takeUp_le peer c.connection (requests c.ids c.asked queries)
  rw [h, length_requests] at hle
  obtain ⟨houtcomes, hconnection⟩ := runEach_eq peer c queries
  rw [Connection.requestEach_eq, h] at houtcomes hconnection
  rw [length_requests] at houtcomes
  exact ⟨houtcomes.trans (reported_append_fault _ _ _ _ _ _ (Nat.le_of_eq (Nat.add_sub_of_le hle))), hconnection⟩

/-- Of the queries that are queued together, those behind the end report what became of their requests. -/
theorem runAll_of_requestAll {lost : Nat} (hle : taken.length + lost ≤ queries.length)
    (h : c.connection.requestAll peer (requests c.ids c.asked queries) =
      (taken ++ List.replicate lost (.error .connectionLost) ++
        List.replicate (queries.length - taken.length - lost) (.error .connectionEnded), last)) :
    (c.runAll peer (queries.map (.of ·.2))).1 =
        reported (pendings c.ids c.asked queries) taken ++ List.replicate lost (.error (.io .connectionLost)) ++
          List.replicate (queries.length - taken.length - lost) (.error (.io .connectionEnded)) ∧
      (c.runAll peer (queries.map (.of ·.2))).2.connection = last := by
  obtain ⟨houtcomes, hconnection⟩ := runAll_eq peer c queries
  rw [h] at houtcomes hconnection
  refine ⟨houtcomes.trans ?_, hconnection⟩
  rw [reported_append_fault, reported_append_fault _ _ _ _ _ _ hle]
  rw [List.length_append, List.length_replicate]
  omega

theorem length_reported (hle : taken.length ≤ queries.length) :
    (reported (pendings c.ids c.asked queries) taken).length = taken.length := by
  rw [reported, List.length_map, List.length_zip, length_pendings, Nat.min_eq_right hle]

theorem runEach_take (peer : Peer) (c : Client) (queries : List (SomeQuery α)) (k : Nat) :
    (c.runEach peer (queries.take k)).2.connection =
      (c.connection.takeUp peer ((requests c.ids c.asked queries).take k)).2 := by
  rw [(runEach_eq peer c _).2, Connection.requestEach_eq, requests, pendings_take, List.map_take, ← requests]

end TakenUp

/-- How it goes when queries are queued together, and when they are run one after another. The first of them have these
    outcomes in both; of the others, `lost` stand in the queue when the connection ends, and `refused` do not. -/
structure Alike (peer : Peer) (c : Client) (queries : List (SomeQuery α)) (outcomes : List (Except Fault α))
    (lost refused : Nat) : Prop where
  length : outcomes.length + lost + refused = queries.length
  together : (c.runAll peer (queries.map (.of ·.2))).1 =
    outcomes ++ List.replicate lost (.error (.io .connectionLost)) ++
      List.replicate refused (.error (.io .connectionEnded))
  apart : (c.runEach peer queries).1 = outcomes ++ List.replicate (lost + refused) (.error (.io .connectionEnded))
  /-- The connections end up the same, with the requests that the far end has received and the bytes that it was sent. -/
  connection : (c.runAll peer (queries.map (.of ·.2))).2.connection = (c.runEach peer queries).2.connection
  /-- The connection lasts up to the last of the outcomes, and does not last if there are queries behind it. -/
  lasts : ∀ k < outcomes.length, (c.runEach peer (queries.take k)).2.connection.live = true
  ends : outcomes.length < queries.length → (c.runEach peer queries).2.connection.live = false
  /-- Nothing is sent or read for the queries behind the last of the outcomes. -/
  quiet : (c.runEach peer (queries.take outcomes.length)).2.connection = (c.runEach peer queries).2.connection
  /-- Queued together they are made before the first is served, and those that are lost are lost with the queue. -/
  queue : ∃ (work : List Shared.Event) (served : List (Ticket × Outcome)), (∀ e ∈ work, e.IsWork) ∧
    served.map (·.1) = (Ticket.numbered 0 (requests c.ids c.asked queries)).take outcomes.length ∧
    outcomes = reported (pendings c.ids c.asked queries) (served.map (·.2)) ∧
    Shared.Settled
      ((Shared.start c.connection).run peer ((requests c.ids c.asked queries).map .make ++ work))
      (c.runAll peer (queries.map (.of ·.2))).2.connection served
      (((Ticket.numbered 0 (requests c.ids c.asked queries)).drop outcomes.length).take lost)
      (((Ticket.numbered 0 (requests c.ids c.asked queries)).drop outcomes.length).drop lost)
  /-- The queue is full, or holds them all, before the first is served. -/
  room : lost ≤ Connection.queueRoom ∧
    (c.connection.live = true → min queries.length Connection.queueRoom ≤ outcomes.length + lost)
  /-- What is told of those that are lost, and of those that are refused. -/
  told : StreamFault.connectionLost.kind = .connectionAborted ∧ StreamFault.connectionLost.message = "Actor task ended" ∧
    StreamFault.connectionEnded.kind = .brokenPipe ∧ StreamFault.connectionEnded.message = "Actor dropped"

/-- Queries go alike, queued together or run one after another. -/
theorem exists_alike (peer : Peer) (c : Client) (queries : List (SomeQuery α)) :
    ∃ (outcomes : List (Except Fault α)) (lost refused : Nat), Alike peer c queries outcomes lost refused := by
  -- The queries whose requests are taken up go alike, and those behind them leave no trace.
  obtain ⟨taken, last, htakeUp⟩ : ∃ taken last,
    c.connection.takeUp peer (requests c.ids c.asked queries) = (taken, last) := ⟨_, _, rfl⟩
  obtain ⟨lost, hle, hroom, hfull, hall, work, hwork, hsettled⟩ := Shared.exists_lost htakeUp
  rw [length_requests] at hle hfull hall
  obtain ⟨hapart, hlast⟩ := runEach_of_takeUp htakeUp
  obtain ⟨htogether, hlast'⟩ := runAll_of_requestAll hle hall
  have hlength : (reported (pendings c.ids c.asked queries) taken).length = taken.length := length_reported (by omega)
  have hrest : queries.length - taken.length = lost + (queries.length - taken.length - lost) := by omega
  have hnumbered : taken.length ≤ (Ticket.numbered 0 (requests c.ids c.asked queries)).length := by
    rw [Ticket.numbered, List.length_map, List.length_zipIdx, length_requests]
    omega
  have hended := @Connection.ended_of_length_takeUp_lt peer c.connection (requests c.ids c.asked queries)
  have hlive := @Connection.live_of_lt_length_takeUp peer c.connection (requests c.ids c.asked queries)
  have hquiet := runEach_take peer c queries taken.length
  have htake := Connection.takeUp_take peer c.connection (requests c.ids c.asked queries)
  rw [htakeUp] at hended hlive htake
  rw [htake] at hquiet
  refine ⟨reported (pendings c.ids c.asked queries) taken, lost, queries.length - taken.length - lost, ?_⟩
  refine ⟨by omega, htogether, hrest ▸ hapart, hlast'.trans hlast.symm, fun k hk => ?_, fun h => ?_, ?_, ?_,
    ⟨hroom, hlength ▸ hfull⟩, rfl, rfl, rfl, rfl⟩
  · rw [runEach_take]
    exact hlive (hlength ▸ hk)
  · rw [hlast]
    rw [hlength, ← length_requests c.ids c.asked queries] at h
    exact hended h
  · rw [hlength, hquiet, hlast]
  · rw [hlength, hlast']
    exact ⟨work, _, hwork, map_fst_zip_of_le _ taken hnumbered, by rw [List.map_snd_zip hnumbered], hsettled⟩

end Client

end Pinboard
