import Pinboard.Proofs.Connection.Exchange
import Pinboard.Proofs.Query
import Pinboard.Session

/-! Clients that connect for one query. What comes of the query is told by what the client finds: how the network answers
    at its address, the id that it draws, and what the far end sends in return for the one request. -/

namespace Pinboard

namespace Client

variable {β α : Type}

/-- How it goes when a client connects to an address for one request. -/
inductive Once (network : Network) (address : BusAddress) (r : Request) : Except Fault α → Option Client → Prop
  /-- There is no connection. -/
  | refused {fault : Fault} (dial : network.dial address = .error fault) : Once network address r (.error fault) none
  /-- On the one connection nothing is written but the frame of the request, or a beginning of it. -/
  | asked {stream : Stream} {outcome : Except Fault α} {c : Client} {part : List UInt8}
      (dial : network.dial address = .ok stream) (used : c.asked = 1)
      (accepted : c.connection.accepted = stream.sink.accepted ++ part) (beginning : part <+: Frame.encode r.body)
      (received : c.connection.received = [] ∨ c.connection.received = [r])
      (answered : ∀ a, outcome = .ok a → c.connection.received = [r]) : Once network address r outcome (some c)

theorem once_cases (network : Network) (peer : Peer) (ids : Nat → CallId) (address : BusAddress) (q : Query β α) :
    Once network address (q.ask.request (ids 0)) (once network peer ids address q).1 (once network peer ids address q).2 := by
  rw [once, connect]
  cases dial : network.dial address with
  | error fault => exact .refused dial
  | ok stream =>
    have hconnection : ((ofStream address stream ids).run peer q).2.connection =
        ((Connection.ofStream stream).request peer (q.ask.request (ids 0))).2 := run_connection _ _ _
    have houtcome : ((ofStream address stream ids).run peer q).1 =
        (q.outcome (q.ask.told (ids 0) ((Connection.ofStream stream).request peer (q.ask.request (ids 0))).1)).1 :=
      run_eq _ _ _
    have hasked : ((ofStream address stream ids).run peer q).2.asked = 1 := (run_ids peer q (ofStream address stream ids)).2
    obtain ⟨part, accepted, beginning, -⟩ := (Connection.ofStream stream).exists_accepted peer (q.ask.request (ids 0))
    obtain ⟨received, answered⟩ := (Connection.ofStream stream).received_request peer (q.ask.request (ids 0))
    simp only [Except.map]
    generalize (ofStream address stream ids).run peer q = run at *
    rw [← hconnection] at accepted received answered
    refine .asked dial hasked accepted beginning received fun a ha => ?_
    -- Without a response to conclude from there is no outcome but the fault.
    cases hresponse : ((Connection.ofStream stream).request peer (q.ask.request (ids 0))).1 with
    | error fault =>
      rw [hresponse] at houtcome
      exact absurd (ha.symm.trans houtcome) nofun
    | ok response => exact answered response hresponse

theorem once_map (network : Network) (peer : Peer) (ids : Nat → CallId) (address : BusAddress) (q : Query β α) {γ : Type}
    (f : α → γ) :
    once network peer ids address (q.map f) =
      ((once network peer ids address q).1.map f, (once network peer ids address q).2) := by
  simp only [once]
  cases connect network ids address with
  | error fault => rfl
  | ok c =>
    simp only [run, Bus.run, bus, Query.map, Query.outcome]
    cases c.answer peer q.ask with
    | mk answer c => cases answer <;> rfl

/-- Of the network only how it answers at the address counts. -/
theorem once_congr {network network' : Network} {address : BusAddress} (h : network' address = network address) (peer : Peer)
    (ids : Nat → CallId) (q : Query β α) :
    once network' peer ids address q = once network peer ids address q := by
  have hdial : network'.dial address = network.dial address := by rw [Network.dial, Network.dial, h]
  rw [once, once, connect, connect, hdial]

/-- A query is run by the id that it takes and by what comes in return for its request. -/
theorem run_congr {peer peer' : Peer} {c : Client} {ids : Nat → CallId} (q : Query β α) (hid : ids c.asked = c.ids c.asked)
    (hpeer : peer' (c.connection.received ++ [q.ask.request (c.ids c.asked)]) =
      peer (c.connection.received ++ [q.ask.request (c.ids c.asked)])) :
    run peer' q { c with ids } = ((c.run peer q).1, { (c.run peer q).2 with ids }) := by
  simp only [run, Bus.run, bus, answer, takeId, note, hid, Connection.request_congr hpeer]
  rcases c.connection.request peer (q.ask.request (c.ids c.asked)) with ⟨_ | response, connection⟩
  · rfl
  · rfl

/-- Ids that are not drawn and requests that are not made count for nothing. -/
theorem once_of_same {network network' : Network} {address : BusAddress} {peer peer' : Peer} {ids ids' : Nat → CallId}
    (q : Query β α) (hnetwork : network' address = network address) (hid : ids' 0 = ids 0)
    (hpeer : peer' [q.ask.request (ids 0)] = peer [q.ask.request (ids 0)]) :
    once network' peer' ids' address q =
      ((once network peer ids address q).1, (once network peer ids address q).2.map fun c => { c with ids := ids' }) := by
  rw [once_congr hnetwork, once, once, connect, connect]
  cases network.dial address with
  | error fault => rfl
  | ok stream =>
    have hrun : run peer' q (ofStream address stream ids') =
        ((run peer q (ofStream address stream ids)).1, { (run peer q (ofStream address stream ids)).2 with ids := ids' }) :=
      @run_congr _ _ peer peer' (ofStream address stream ids) ids' q hid hpeer
    simp only [Except.map, Option.map, hrun]

end Client

end Pinboard
