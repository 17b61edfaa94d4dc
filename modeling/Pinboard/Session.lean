import Pinboard.Client

/-! Boards that look after their connection. A one-time operation connects, runs one query for the default
    application and drops the connection. A held board keeps one connection for all that is asked of it. -/

namespace Pinboard

/-- Connects for one query and no longer. The client is given as it was at the end, if it could connect. -/
def Client.once (network : Network) (peer : Peer) (ids : Nat → CallId) (address : BusAddress) {β α : Type}
    (q : Query β α) : Except Fault α × Option Client :=
  match Client.connect network ids address with
  | .error fault => (.error fault, none)
  | .ok c =>
    let (outcome, c) := c.run peer q
    (outcome, some c)

namespace OneTime

variable (network : Network) (peer : Peer) (ids : Nat → CallId)

/-- Stores a text on the board at an address. -/
def putAt (address : BusAddress) (key value : String) : Except Fault Unit × Option Client :=
  Client.once network peer ids address (Board.default.put key value)

/-- The texts under a key on the board at an address. -/
def getAt (address : BusAddress) (key : String) : Except Fault (List String) × Option Client :=
  Client.once network peer ids address (Board.default.get key)

/-- Stores a text on the board of the session, which two variables of the environment name. -/
def put (addr socket : Option (List UInt8)) (key value : String) : Except Fault Unit × Option Client :=
  putAt network peer ids (.session addr socket) key value

/-- The texts under a key on the board of the session. -/
def get (addr socket : Option (List UInt8)) (key : String) : Except Fault (List String) × Option Client :=
  getAt network peer ids (.session addr socket) key

end OneTime

/-- A board together with the connection that all its queries use. -/
structure HeldBoard where
  client : Client
  board : Board

namespace HeldBoard

/-- Connects the board of the default application. -/
def connect (network : Network) (ids : Nat → CallId) (address : BusAddress) : Except Fault HeldBoard :=
  (Client.connect network ids address).map fun client => ⟨client, .default⟩

/-- The same board for another application, on the same connection. -/
def withAppId (h : HeldBoard) (appId : String) : HeldBoard := { h with board := h.board.withAppId appId }

/-- Runs an operation of the board. -/
def run (peer : Peer) {β α : Type} (operation : Board → Query β α) (h : HeldBoard) : Except Fault α × HeldBoard :=
  let (outcome, client) := h.client.run peer (operation h.board)
  (outcome, { h with client })

end HeldBoard

end Pinboard
