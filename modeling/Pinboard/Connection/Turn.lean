/-! Turns. A connection serves the requests of its queue without giving way, so requests that found no room there
    stay outside until it waits or pauses; then as many move up as the queue has room for. It waits for a
    transfer that the far end has to make possible, and when it has taken every request that was queued; it
    pauses after a number of transfers. What is in the queue when the connection ends is lost with it, which is
    why the turns can be told apart from outside. -/

namespace Pinboard.Connection

/-- How many requests may wait in the queue. -/
def queueRoom : Nat := 32

/-- How many transfers a connection makes without a pause; taking a request out of the queue is one. -/
def turnLength : Nat := 128

/-- How the serving of many requests stands: how many of those that wait are in the queue, if there are so many,
    and how many transfers are left before the next pause. -/
structure Turn where
  queued : Nat
  transfers : Nat
  deriving DecidableEq, Repr

namespace Turn

/-- The turn after a pause or a wait, in which so many transfers have been made. In a pause, requests that found
    no room move up to the queue. -/
def begin (made : Nat) : Turn := ⟨queueRoom, turnLength - made⟩

/-- Takes a request out of the queue. If all that were queued are taken, it waits for others to move up. -/
def take (t : Turn) : Turn :=
  let t := if t.queued = 0 ∨ t.transfers = 0 then begin 0 else t
  ⟨t.queued - 1, t.transfers - 1⟩

/-- Makes so many transfers, with a pause among them if the turn does not last. -/
def make (t : Turn) (n : Nat) : Turn :=
  if n ≤ t.transfers then ⟨t.queued, t.transfers - n⟩ else begin (n - t.transfers)

/-- Writes a frame in so many transfers. It takes two if none is cut short; after one that is, the connection waits
    until there is room again, and the last is made after that. -/
def write (t : Turn) (writes : Nat) : Turn := if writes ≤ 2 then t.make writes else begin 1

/-- Reads a frame in so many transfers, where each of `ends` is a number of bytes up to which it reads and `ready`
    of the bytes are there at once. What lies behind them is waited for. -/
def read (t : Turn) (ready : Nat) (ends : List Nat) (reads : Nat) : Turn :=
  let late := ends.filter (ready < ·)
  if ends.length < reads then begin 1 else if late.isEmpty then t.make reads else begin late.length

end Turn

end Pinboard.Connection
