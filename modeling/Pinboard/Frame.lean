import Pinboard.Stream

/-! Frames: a body of up to 16 MiB after its length in four bytes, the most significant first. A body that is too
    long is refused before anything is written; a length that is too large is refused after its four bytes are
    read. -/

namespace Pinboard.Frame

/-- The length of the longest body. -/
def maxBody : Nat := 16 * 1024 * 1024

/-- A number as four bytes, the most significant first. -/
def lengthBytes (n : Nat) : List UInt8 :=
  [(n / 0x1000000).toUInt8, (n / 0x10000).toUInt8, (n / 0x100).toUInt8, n.toUInt8]

/-- The number that bytes spell, the most significant first. -/
def lengthOf (bytes : List UInt8) : Nat := bytes.foldl (fun n b => n * 256 + b.toNat) 0

/-- The bytes of a frame. -/
def encode (body : List UInt8) : List UInt8 := lengthBytes body.length ++ body

/-- Writes one frame. -/
def write (body : List UInt8) (sink : Sink) : Except StreamFault Unit × Sink :=
  let length := body.length
  if length > maxBody then (.error (.tooLongToSend length), sink)
  else
    match sink.writeAll (lengthBytes length) with
    | (.error fault, sink) => (.error fault, sink)
    | (.ok (), sink) =>
      match sink.writeAll body with
      | (.error fault, sink) => (.error fault, sink)
      | (.ok (), sink) => sink.flush

/-- Reads one frame. -/
def read (source : Source) : Except StreamFault (List UInt8) × Source :=
  match source.readExact 4 .endBeforeFrame with
  | (.error fault, source) => (.error fault, source)
  | (.ok bytes, source) =>
    let length := lengthOf bytes
    if length > maxBody then (.error (.tooLongToReceive length), source)
    else source.readExact length .endInFrame

/-- With these bytes the next frame has not arrived whole, and neither has the length of one that is too long. -/
def isAwaited (arrived : List UInt8) : Bool :=
  match (read (.ofBytes arrived Pace.unbounded)).1 with
  | .ok _ => false
  | .error fault => fault = .endBeforeFrame ∨ fault = .endInFrame

/-- The places up to which the next frame is read: its length, and its body unless that is empty or too long. -/
def readEnds (unread : List UInt8) : List Nat :=
  let length := lengthOf (unread.take 4)
  if unread.length < 4 ∨ length = 0 ∨ length > maxBody then [4] else [4, 4 + length]

/-- Writes frames one after another, going on after faults, and gives each outcome with the sink after it. -/
def writeEach (sink : Sink) : List (List UInt8) → List (Except StreamFault Unit × Sink)
  | [] => []
  | body :: rest =>
    let step := write body sink
    step :: writeEach step.2 rest

/-- Reads so many times, going on after faults, and gives each outcome with the source after it. -/
def readEach (source : Source) : Nat → List (Except StreamFault (List UInt8) × Source)
  | 0 => []
  | n + 1 =>
    let step := read source
    step :: readEach step.2 n

end Pinboard.Frame
