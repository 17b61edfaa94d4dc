import Pinboard.Connection

/-! Connections that callers share. Any number of callers make requests on one connection, at any time and in any
    order. A request stands outside until it enters the queue, which has limited room, and the connection takes the
    requests of its queue out one by one. When it ends, those in the queue are lost with it; those outside find
    that it has ended, and so does every later one. A caller may stop waiting at any time. That takes a request
    back which still stands outside; one that has entered is served all the same, and its outcome is dropped. -/

namespace Pinboard

/-- What becomes of a request. -/
abbrev Outcome := Except StreamFault Response

/-- A request with its number: requests are numbered in the order in which they are made. -/
structure Ticket where
  number : Nat
  request : Request

/-- The tickets of requests that are made one after another, the first of them with the given number. -/
def Ticket.numbered (first : Nat) (rs : List Request) : List Ticket := (rs.zipIdx first).map fun (r, n) => ⟨n, r⟩

@[simp] theorem Ticket.numbered_nil (first : Nat) : Ticket.numbered first [] = [] := rfl

@[simp] theorem Ticket.numbered_singleton (first : Nat) (r : Request) : Ticket.numbered first [r] = [⟨first, r⟩] := rfl

/-- A connection with all requests that callers have made on it, each by its ticket. `entered` keeps all that have
    entered the queue, in that order. `served` keeps those that were served with their outcomes; the others that
    wait no more were lost with the queue, refused after the end, or withdrawn by their callers. -/
structure Shared where
  connection : Connection
  made : Nat
  outside : List Ticket
  queue : List Ticket
  taken : Option Ticket
  entered : List Ticket
  served : List (Ticket × Outcome)
  lost : List Ticket
  refused : List Ticket
  withdrawn : List Ticket

namespace Shared

/-- Something that happens on a shared connection. -/
inductive Event
  /-- A caller makes a request. -/
  | make (r : Request)
  /-- The request at this place among those outside enters the queue, if there is room. -/
  | enter (place : Nat)
  /-- The connection takes a request out of the queue, if it serves none. -/
  | take
  /-- The connection has written the request that it took and has read the answer, or has failed. -/
  | exchange
  /-- The caller of this number stops waiting. -/
  | leave (number : Nat)

/-- A connection on which callers have made no request. -/
def start (c : Connection) : Shared := ⟨c, 0, [], [], none, [], [], [], [], []⟩

/-- A request is made: it stands outside, or it is refused if the connection has ended. -/
def make (r : Request) (s : Shared) : Shared :=
  if s.connection.live then { s with made := s.made + 1, outside := s.outside ++ [⟨s.made, r⟩] }
  else { s with made := s.made + 1, refused := s.refused ++ [⟨s.made, r⟩] }

/-- The request at a place outside enters the queue. -/
def enter (place : Nat) (s : Shared) : Shared :=
  match s.outside[place]? with
  | none => s
  | some t =>
    if s.queue.length < Connection.queueRoom then
      { s with outside := s.outside.eraseIdx place, queue := s.queue ++ [t], entered := s.entered ++ [t] }
    else s

/-- The first request of the queue is taken out of it. -/
def take (s : Shared) : Shared :=
  match s.taken, s.queue with
  | none, t :: rest => { s with queue := rest, taken := some t }
  | _, _ => s

/-- The queue is given up: what is in it is lost, and what is outside is refused. -/
def close (s : Shared) : Shared :=
  { s with outside := [], queue := [], lost := s.lost ++ s.queue, refused := s.refused ++ s.outside }

/-- The request that was taken is served, and the queue is given up if the connection ends with it. -/
def exchange (peer : Peer) (s : Shared) : Shared :=
  match s.taken with
  | none => s
  | some t =>
    let (outcome, connection) := s.connection.exchange peer t.request
    let s := { s with connection, taken := none, served := s.served ++ [(t, outcome)] }
    if connection.live then s else s.close

/-- A caller stops waiting. -/
def leave (number : Nat) (s : Shared) : Shared :=
  { s with
    outside := s.outside.filter (·.number ≠ number)
    withdrawn := s.withdrawn ++ s.outside.filter (·.number = number) }

/-- What an event makes of a shared connection. -/
def step (peer : Peer) (s : Shared) : Event → Shared
  | .make r => s.make r
  | .enter place => s.enter place
  | .take => s.take
  | .exchange => s.exchange peer
  | .leave number => s.leave number

/-- What events make of a shared connection, one after another. -/
def run (peer : Peer) (s : Shared) : List Event → Shared
  | [] => s
  | e :: rest => (s.step peer e).run peer rest

/-- The requests that wait for their outcome. -/
def waiting (s : Shared) : List Ticket := s.taken.toList ++ s.queue ++ s.outside

/-- The outcomes of the requests that wait no more and were not withdrawn. -/
def outcomes (s : Shared) : List (Ticket × Outcome) :=
  s.served ++ s.lost.map (fun t => (t, .error .connectionLost)) ++ s.refused.map (fun t => (t, .error .connectionEnded))

/-- The event is the work of the connection and its queue, and not of a caller. -/
def Event.IsWork : Event → Prop
  | .enter _ | .take | .exchange => True
  | .make _ | .leave _ => False

/-- The request that an event makes, if it makes one. -/
def Event.request? : Event → Option Request
  | .make r => some r
  | _ => none

/-- The requests that are made in the course of events, in order. -/
def requests (events : List Event) : List Request := events.filterMap Event.request?

end Shared

end Pinboard
