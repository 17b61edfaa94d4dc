import Pinboard.Board
import Pinboard.Bus.Address

/-! A client of the bus: a connection, a supply of call ids, and a journal of what was worth telling. It answers
    the questions of queries, one after another or several queued at once. -/

namespace Pinboard

/-- How the network answers an attempt to connect. -/
abbrev Network := BusAddress → Except StreamFault Stream

/-- Connects to an address, unless it is refused on sight. -/
def Network.dial (network : Network) (address : BusAddress) : Except Fault Stream :=
  match address.refusal? with
  | some fault => .error (.connect address.display fault)
  | none => (network address).mapError (.connect address.display)

/-- A client of the bus. The next question takes the id of number `asked`. -/
structure Client where
  connection : Connection
  ids : Nat → CallId
  asked : Nat
  journal : List Entry

/-- A query under way: its request, and what is made of the response. -/
structure Pending (α : Type) where
  request : Request
  finish : Except StreamFault Response → Except Fault α × List Entry

/-- The query under an id. -/
def Query.pending {β α : Type} (q : Query β α) (id : CallId) : Pending α where
  request := q.ask.request id
  finish
    | .error fault => (.error (.io fault), [])
    | .ok response =>
      let answer := q.ask.answer id response
      let (outcome, entries) := q.outcome answer
      (outcome, q.ask.closing answer ++ entries)

namespace Client

/-- The client of a new connection. -/
def ofStream (address : BusAddress) (s : Stream) (ids : Nat → CallId) : Client :=
  ⟨.ofStream s, ids, 0, [⟨.debug, "Client connected to bus at " ++ address.display⟩]⟩

/-- Connects to the bus at an address. -/
def connect (network : Network) (ids : Nat → CallId) (address : BusAddress) : Except Fault Client :=
  (network.dial address).map fun s => ofStream address s ids

/-- Adds to the journal. -/
def note (entries : List Entry) (c : Client) : Client := { c with journal := c.journal ++ entries }

/-- What is worth telling about an exchange: its fault. A request that finds the connection ended, or is lost
    with it, was not exchanged. -/
def exchangeEntries : Except StreamFault Response → List Entry
  | .ok _ => []
  | .error .connectionEnded => []
  | .error .connectionLost => []
  | .error fault => [⟨.warn, "Bus request failed: " ++ fault.message⟩]

/-- Takes the next id and tells that a question is put under it. -/
def takeId (opening : CallId → List Entry) (c : Client) : CallId × Client :=
  let id := c.ids c.asked
  (id, note (opening id) { c with asked := c.asked + 1 })

/-- Puts a question and waits for the answer. -/
def answer (peer : Peer) {β : Type} (ask : Ask β) (c : Client) : Except Fault β × Client :=
  let (id, c) := c.takeId fun id => ask.opening id
  let (outcome, connection) := c.connection.request peer (ask.request id)
  let c := note (exchangeEntries outcome) { c with connection }
  match outcome with
  | .error fault => (.error (.io fault), c)
  | .ok response =>
    let answer := ask.answer id response
    (answer, note (ask.closing answer) c)

/-- The client as a bus with the given far end. -/
def bus (peer : Peer) : Bus Client where
  answer ask c := c.answer peer ask
  note := note

/-- Runs a query to its end. -/
def run (peer : Peer) {β α : Type} (q : Query β α) (c : Client) : Except Fault α × Client := (bus peer).run q c

/-- A query of which the type of the answer is left open. -/
structure AnyQuery (α : Type) where
  opening : CallId → List Entry
  pending : CallId → Pending α

/-- Forgets the type of the answer. -/
def AnyQuery.of {β α : Type} (q : Query β α) : AnyQuery α := ⟨fun id => q.ask.opening id, q.pending⟩

/-- Starts queries in order: gives each its id and tells that its question is put. -/
def start {α : Type} (c : Client) : List (AnyQuery α) → List (Pending α) × Client
  | [] => ([], c)
  | q :: rest =>
    let (id, c) := c.takeId q.opening
    let (pending, c) := c.start rest
    (q.pending id :: pending, c)

/-- Queues all queries before the first is answered, and concludes each. -/
def runAll (peer : Peer) {α : Type} (queries : List (AnyQuery α)) (c : Client) : List (Except Fault α) × Client :=
  let (pending, c) := c.start queries
  let (outcomes, connection) := c.connection.requestAll peer (pending.map (·.request))
  let concluded := (pending.zip outcomes).map fun (p, o) => p.finish o
  let c := note (outcomes.flatMap exchangeEntries) { c with connection }
  (concluded.map (·.1), note (concluded.flatMap (·.2)) c)

end Client

end Pinboard
