import Pinboard.Connection.Turn
import Pinboard.Frame
import Pinboard.Log
import Pinboard.Message.Reader

/-! A connection to the bus and how it is served. Requests are served one at a time, in the order in which they were
    queued: the frame of a request is written, and one frame is read as its answer. A fault after which the
    stream may stand inside a frame ends the connection, and with it every request that waits. A request that
    is too long is refused before anything is written, and an answer that is no response has been read whole,
    so neither ends it. -/

namespace Pinboard

/-- What the far end sends in return for a request, and whether it hangs up then. -/
structure Arrival where
  bytes : List UInt8
  hangsUp : Bool
  deriving DecidableEq, Repr

/-- The far end of the bus: what it does once it has received requests, the newest last. -/
abbrev Peer := List Request → Arrival

/-- The far end, seen by one that has received the given requests earlier on. -/
def Peer.after (peer : Peer) (earlier : List Request) : Peer := fun later => peer (earlier ++ later)

/-- What the far end sends can be read at once. When it hangs up, nothing more can be written. -/
def Stream.arrive (s : Stream) (a : Arrival) : Stream where
  source := { s.source with unread := s.source.unread ++ a.bytes }
  sink := if a.hangsUp then { s.sink with room := some 0, fault := .system .brokenPipe } else s.sink

/-- A connection to the bus: its stream, the requests that the far end has received whole, and whether it is
    still served. -/
structure Connection where
  stream : Stream
  received : List Request
  live : Bool

/-- A connection on which nothing has been asked. -/
def Connection.ofStream (s : Stream) : Connection := ⟨s, [], true⟩

namespace Connection

/-- Reads the answer to the request that was sent last. Only a whole frame leaves the connection served. -/
def receive (c : Connection) : Except StreamFault Response × Connection :=
  match Frame.read c.stream.source with
  | (.error fault, source) => (.error fault, { c with stream := { c.stream with source }, live := false })
  | (.ok body, source) =>
    ((Response.parse body).mapError .notAResponse, { c with stream := { c.stream with source }, live := true })

/-- Serves one request. The stream stands between frames after a refusal, which is told by its kind. -/
def exchange (peer : Peer) (c : Connection) (r : Request) : Except StreamFault Response × Connection :=
  match Frame.write r.body c.stream.sink with
  | (.error fault, sink) =>
    (.error fault, { c with stream := { c.stream with sink }, live := fault.kind = .invalidInput })
  | (.ok (), sink) =>
    let received := c.received ++ [r]
    let stream := Stream.arrive { c.stream with sink } (peer received)
    receive { c with stream, received }

/-- Makes one request and waits for its outcome. -/
def request (peer : Peer) (c : Connection) (r : Request) : Except StreamFault Response × Connection :=
  if c.live then c.exchange peer r else (.error .connectionEnded, c)

/-- What becomes of waiting requests once the connection has ended: the first `queued` of them are in the queue
    and lost with it, and those that found no room there yet find that it has ended. -/
def unserved (queued : Nat) (waiting : List Request) : List (Except StreamFault Response) :=
  (waiting.take queued).map (fun _ => .error .connectionLost) ++
    (waiting.drop queued).map (fun _ => .error .connectionEnded)

/-- The turn after a request was taken out of the queue and served between two states of a connection. -/
def turnAfter (peer : Peer) (before after : Connection) (t : Turn) : Turn :=
  let t := t.take.write (after.stream.sink.writes - before.stream.sink.writes)
  if before.received.length < after.received.length then
    let arrived := (before.stream.arrive (peer after.received)).source
    t.read before.stream.source.unread.length (Frame.readEnds arrived.unread) (after.stream.source.reads - arrived.reads)
  else t

/-- Serves waiting requests in order while the connection lasts. -/
def serve (peer : Peer) (c : Connection) (t : Turn) :
    List Request → List (Except StreamFault Response) × Connection
  | [] => ([], c)
  | r :: rest =>
    if c.live then
      let (outcome, after) := c.exchange peer r
      let (outcomes, last) := after.serve peer (turnAfter peer c after t) rest
      (outcome :: outcomes, last)
    else (unserved t.queued (r :: rest), c)

/-- Makes requests before the first is answered, and waits for all outcomes. -/
def requestAll (peer : Peer) (c : Connection) (rs : List Request) : List (Except StreamFault Response) × Connection :=
  if c.live then c.serve peer (.begin 0) rs else (rs.map fun _ => .error .connectionEnded, c)

end Connection

end Pinboard
