import Pinboard.Fault

/-! The two directions of a connection as data. A `Source` holds the bytes that have arrived and hands them out
    in pieces; when none are left it has ended, or reports its fault if it has one. A `Sink` takes bytes in
    pieces until its room is used up, and reports its fault from then on. Reading and writing to the end of a
    piece of work go on over the pieces, so what they achieve does not depend on how large the pieces are, as
    long as none is empty: a read that moves nothing counts as the end or as the fault of the source, and a write
    that moves nothing as a fault. -/

namespace Pinboard

/-- How many bytes at most the transfer of each number moves, if there is a bound. -/
abbrev Pace := Nat → Option Nat

/-- The pace without bounds. -/
def Pace.unbounded : Pace := fun _ => none

/-- The pace of so many bytes at a time. -/
def Pace.steady (bytes : Nat) : Pace := fun _ => some bytes

/-- The smaller of two bounds, either of which may be missing. -/
def least : Option Nat → Option Nat → Option Nat
  | none, b => b
  | a, none => a
  | some a, some b => some (min a b)

/-- Bytes that have arrived and are not read yet, and the fault of a read that moves none, unless that is the
    end. -/
structure Source where
  unread : List UInt8
  pace : Pace
  reads : Nat
  fault : Option StreamFault

/-- A source of the given bytes, which ends behind them. -/
def Source.ofBytes (bytes : List UInt8) (pace : Pace) : Source := ⟨bytes, pace, 0, none⟩

/-- Reads up to `want` bytes. Only a bound of zero keeps it from moving one that is wanted and left. -/
def Source.read (s : Source) (want : Nat) : List UInt8 × Source :=
  let most := match s.pace s.reads with
    | none => want
    | some n => min want n
  let (piece, rest) := s.unread.splitAt most
  (piece, { s with unread := rest, reads := s.reads + 1 })

/-- Reads until `want` bytes are there or a read moves none. `taken` are the pieces so far, newest first. -/
def Source.gather (taken : List (List UInt8)) (want : Nat) : Nat → Source → List (List UInt8) × Nat × Source
  | 0, s => (taken, want, s)
  | tries + 1, s =>
    if want = 0 then (taken, want, s)
    else
      let (piece, s) := s.read want
      if piece.isEmpty then (taken, want, s) else gather (piece :: taken) (want - piece.length) tries s

/-- Reads exactly `want` bytes. If a read moves none before, those that were read are lost, and the fault of the
    source is given, or `ended` if it has none. Every read but the last moves a byte, so `want` reads are enough. -/
def Source.readExact (s : Source) (want : Nat) (ended : StreamFault) : Except StreamFault (List UInt8) × Source :=
  match gather [] want want s with
  | ([piece], 0, s) => (.ok piece, s)
  | (pieces, 0, s) => (.ok pieces.reverse.flatten, s)
  | (_, _ + 1, s) => (.error (s.fault.getD ended), s)

/-- Where bytes are written to. `taken` are the pieces that it took, newest first. -/
structure Sink where
  taken : List (List UInt8)
  writes : Nat
  flushes : Nat
  pace : Pace
  room : Option Nat
  fault : StreamFault
  flushFault : Option StreamFault

/-- A sink that takes bytes at the given pace and, if there is a bound, up to the given room. Then it takes
    nothing more. -/
def Sink.empty (pace : Pace) (room : Option Nat) : Sink := ⟨[], 0, 0, pace, room, .writeZero, none⟩

/-- The bytes that the sink took, in order. -/
def Sink.accepted (s : Sink) : List UInt8 := s.taken.reverse.flatten

/-- Writes as many of the bytes as the pace and the room allow, and gives those that are left. A sink without
    room takes none and reports its fault, and a bound of zero is a fault too. -/
def Sink.write (s : Sink) (bytes : List UInt8) : Except StreamFault (List UInt8) × Sink :=
  if s.room = some 0 then (.error s.fault, { s with writes := s.writes + 1 })
  else
    match least (s.pace s.writes) s.room with
    | none => (.ok [], { s with taken := bytes :: s.taken, writes := s.writes + 1 })
    | some 0 => (.error .writeZero, { s with writes := s.writes + 1 })
    | some most =>
      let (piece, rest) := bytes.splitAt most
      (.ok rest,
        { s with
          taken := piece :: s.taken
          writes := s.writes + 1
          room := s.room.map (· - piece.length) })

/-- Writes until no byte is left or there is a fault. Every write without one moves a byte, so as many tries as
    there are bytes are enough. -/
def Sink.writeFrom : Nat → Sink → List UInt8 → Except StreamFault Unit × Sink
  | _, s, [] => (.ok (), s)
  | 0, s, _ :: _ => (.error s.fault, s)
  | tries + 1, s, b :: bytes =>
    match s.write (b :: bytes) with
    | (.error fault, s) => (.error fault, s)
    | (.ok rest, s) => writeFrom tries s rest

/-- Writes all bytes, or as many as the sink takes before its fault. -/
def Sink.writeAll (s : Sink) (bytes : List UInt8) : Except StreamFault Unit × Sink :=
  writeFrom bytes.length s bytes

/-- Has the sink pass on what it took. -/
def Sink.flush (s : Sink) : Except StreamFault Unit × Sink :=
  match s.flushFault with
  | some fault => (.error fault, s)
  | none => (.ok (), { s with flushes := s.flushes + 1 })

/-- Both directions of a connection. -/
structure Stream where
  source : Source
  sink : Sink

/-- A connection on which nothing has happened. -/
def Stream.fresh : Stream := ⟨.ofBytes [] Pace.unbounded, .empty Pace.unbounded none⟩

end Pinboard
