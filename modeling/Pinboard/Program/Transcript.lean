import Pinboard.Program.Run

/-! A run against a network that answers while the run goes on. A transcript holds what the network has done so
    far. A run is a function of its surroundings, so it can be made again from the start with a longer
    transcript until it asks for nothing that is not in it. Then its report tells what has happened. -/

namespace Pinboard.Program

/-- What the network has done so far: how each attempt to connect ended, and what arrived for each request. -/
structure Transcript where
  dials : List (Except StreamFault Stream)
  arrivals : List Arrival

/-- What a run asks of the network that is not in the transcript: one more connection, or that a request is
    sent on a connection and answered. -/
inductive Demand
  | dial
  | exchange (connection : Nat) (r : Request)

namespace Transcript

/-- The transcript of nothing. -/
def empty : Transcript := ⟨[], []⟩

/-- Surroundings in which the transcript happens. After its end every attempt to connect succeeds, and the far
    end hangs up on every request. -/
def surroundings (t : Transcript) (s : Surroundings) : Surroundings where
  addr := s.addr
  socket := s.socket
  network n _ := (t.dials[n]?).getD (.ok .fresh)
  peer received := (t.arrivals[received.length - 1]?).getD ⟨[], true⟩
  ids := s.ids

/-- The first thing in a report that is not in the transcript. -/
def demand? (t : Transcript) (r : Report) : Option Demand :=
  if t.dials.length < r.connections.length then some .dial
  else
    let requests := r.connections.zipIdx.flatMap fun (rs, n) => rs.map fun r => Demand.exchange n r
    requests[t.arrivals.length]?

/-- Adds how an attempt to connect ended. -/
def addDial (t : Transcript) (fault? : Option StreamFault) : Transcript :=
  let outcome := match fault? with
    | none => .ok Stream.fresh
    | some fault => .error fault
  { t with dials := t.dials ++ [outcome] }

/-- Adds what arrived for a request. -/
def addArrival (t : Transcript) (a : Arrival) : Transcript := { t with arrivals := t.arrivals ++ [a] }

/-- Has a connection take no bytes at all, because of a fault. -/
def breakLine (t : Transcript) (connection : Nat) (fault : StreamFault) : Transcript :=
  let sink : Sink := { Sink.empty Pace.unbounded (some 0) with fault }
  { t with dials := t.dials.set connection (.ok { Stream.fresh with sink }) }

/-- Has the reads of a connection fail behind what arrives, because of a fault. -/
def failReads (t : Transcript) (connection : Nat) (fault : StreamFault) : Transcript :=
  let source : Source := { Stream.fresh.source with fault := some fault }
  { t with dials := t.dials.set connection (.ok { Stream.fresh with source }) }

end Transcript

end Pinboard.Program
