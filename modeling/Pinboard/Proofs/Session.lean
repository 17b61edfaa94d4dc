import Pinboard.Proofs.Board.Course
import Pinboard.Proofs.Client.Once
import Pinboard.Proofs.Text.Utf8

/-! Operations that connect for themselves, and boards that hold their connection. An operation that connects for itself
    goes as it would go first on a new board that is held, so nothing of what failed before it is left to meet it. A held
    board does over its one connection what a board over a client does. -/

namespace Pinboard

/-! ### The bus of the session -/

namespace BusAddress

/-- A variable of the environment names a text that is not empty. -/
def Names (bytes? : Option (List UInt8)) (text : String) : Prop := bytes? = some (Utf8.encode text) ∧ text ≠ ""

/-- The bus that two variables stand for. The second counts if the first names nothing. -/
inductive Resolves (addr socket : Option (List UInt8)) : BusAddress → Prop
  | tcp {address : String} (named : Names addr address) : Resolves addr socket (.tcp address)
  | unix {path : String} (unnamed : ∀ address, ¬Names addr address) (named : Names socket path) :
      Resolves addr socket (.unix path)
  | usual (unnamed : ∀ address, ¬Names addr address) (neither : ∀ path, ¬Names socket path) :
      Resolves addr socket (.unix "/tmp/ipc_broker.sock")

end BusAddress

/-! ### Boards that hold their connection -/

namespace HeldBoard

/-- Takes a step on a held board. -/
def step (peer : Peer) (h : HeldBoard) : Board.Step → Except Fault Board.Value × HeldBoard
  | .operate op => h.run peer op.query
  | .isAvailable => h.run peer fun b => b.isAvailable.map .presence
  | .withAppId appId => (.ok .done, h.withAppId appId)

def runSteps (peer : Peer) (h : HeldBoard) : List Board.Step → List (Except Fault Board.Value) × HeldBoard
  | [] => ([], h)
  | step :: rest =>
    let (outcome, h) := h.step peer step
    let (outcomes, last) := h.runSteps peer rest
    (outcome :: outcomes, last)

theorem connect_eq_error_iff {network : Network} {ids : Nat → CallId} {address : BusAddress} {fault : Fault} :
    connect network ids address = .error fault ↔ Client.connect network ids address = .error fault :=
  ⟨fun h => error_of_map_eq h, fun h => congrArg (Except.map _) h⟩

theorem connect_eq_ok_iff {network : Network} {ids : Nat → CallId} {address : BusAddress} {h : HeldBoard} :
    connect network ids address = .ok h ↔ ∃ c, Client.connect network ids address = .ok c ∧ h = ⟨c, .default⟩ := by
  rw [connect]
  cases Client.connect network ids address with
  | error fault => exact ⟨nofun, fun ⟨_, hc, _⟩ => nomatch hc⟩
  | ok c =>
    constructor
    · rintro ⟨⟩
      exact ⟨c, rfl, rfl⟩
    · rintro ⟨_, ⟨⟩, rfl⟩
      rfl

end HeldBoard

/-! ### Operations that connect for themselves -/

namespace OneTime

/-- What an operation finds when its turn comes. -/
structure Found where
  addr : Option (List UInt8)
  socket : Option (List UInt8)
  network : Network
  peer : Peer
  ids : Nat → CallId

inductive Operation
  | putAt (address : BusAddress) (key value : String)
  | getAt (address : BusAddress) (key : String)
  | put (key value : String)
  | get (key : String)
  deriving DecidableEq, Repr

/-- What an operation leaves: its outcome, and its client if it could connect. -/
abbrev Left := Except Fault Board.Value × Option Client

namespace Operation

def run (found : Found) : Operation → Left
  | putAt address key value =>
    let (outcome, client?) := OneTime.putAt found.network found.peer found.ids address key value
    (outcome.map fun () => .done, client?)
  | getAt address key =>
    let (outcome, client?) := OneTime.getAt found.network found.peer found.ids address key
    (outcome.map .texts, client?)
  | put key value =>
    let (outcome, client?) := OneTime.put found.network found.peer found.ids found.addr found.socket key value
    (outcome.map fun () => .done, client?)
  | get key =>
    let (outcome, client?) := OneTime.get found.network found.peer found.ids found.addr found.socket key
    (outcome.map .texts, client?)

/-- The address that the operation connects to. -/
def address (found : Found) : Operation → BusAddress
  | putAt address _ _ | getAt address _ => address
  | put _ _ | get _ => .session found.addr found.socket

/-- The operation on the board at the address. -/
def onBoard : Operation → Board.Operation
  | putAt _ key value | put key value => .put key value
  | getAt _ key | get key => .get key

/-- The request of the operation: that of the default application, under the first id that can be drawn. -/
def request (op : Operation) (found : Found) : Request := (op.onBoard.command .default).request (found.ids 0)

theorem run_eq (op : Operation) (found : Found) :
    op.run found =
      Client.once found.network found.peer found.ids (op.address found) (op.onBoard.query .default) := by
  cases op with
  | putAt address key value => exact (Client.once_map ..).symm
  | getAt address key => exact (Client.once_map ..).symm
  | put key value => exact (Client.once_map ..).symm
  | get key => exact (Client.once_map ..).symm

theorem request_query (op : Operation) (found : Found) :
    (op.onBoard.query .default).ask.request (found.ids 0) = op.request found := by
  rw [op.onBoard.ask_query, request]
  rfl

end Operation

/-- One operation meets what another one meets: it does the same at the same address, and there the network answers it in
    the same way, it draws the same id and its request has the same in return. -/
structure Meets (found : Found) (op : Operation) (found' : Found) (op' : Operation) : Prop where
  onBoard : op'.onBoard = op.onBoard
  address : op'.address found' = op.address found
  network : found'.network (op.address found) = found.network (op.address found)
  id : found'.ids 0 = found.ids 0
  arrival : found'.peer [op.request found] = found.peer [op.request found]

/-- How an operation goes that connects for itself. -/
structure Goes (found : Found) (op : Operation) (left : Left) : Prop where
  /-- It opens one connection and makes one request there at most. -/
  once : Client.Once found.network (op.address found) (op.request found) left.1 left.2
  /-- It is refused where a held board is refused. -/
  refused : ∀ fault, HeldBoard.connect found.network found.ids (op.address found) = .error fault → left = (.error fault, none)
  /-- It goes as it would go first on a held board, whatever comes behind it there. -/
  first : ∀ h, HeldBoard.connect found.network found.ids (op.address found) = .ok h → ∀ rest,
    (h.runSteps found.peer (.operate op.onBoard :: rest)).1.head? = some left.1 ∧
      left.2 = some (h.step found.peer (.operate op.onBoard)).2.client
  /-- It goes as any other goes that meets the same. -/
  met : ∀ found' op', Meets found op found' op' →
    op'.run found' = (left.1, left.2.map fun c => { c with ids := found'.ids })

theorem goes (found : Found) (op : Operation) : Goes found op (op.run found) where
  once := by
    rw [op.run_eq, ← op.request_query]
    exact Client.once_cases ..
  refused fault hconnect := by
    rw [op.run_eq, Client.once, HeldBoard.connect_eq_error_iff.mp hconnect]
  first h hconnect rest := by
    obtain ⟨c, hclient, rfl⟩ := HeldBoard.connect_eq_ok_iff.mp hconnect
    rw [op.run_eq, Client.once, hclient]
    exact ⟨rfl, rfl⟩
  met found' op' meets := by
    rw [op'.run_eq, op.run_eq, meets.address, meets.onBoard]
    refine Client.once_of_same _ meets.network meets.id ?_
    rw [op.request_query]
    exact meets.arrival

/-! ### One operation after another -/

/-- What operations find, which may be different after all that those before have left. -/
abbrev World := List Left → Found

/-- Runs operations one after another. -/
def runEach (world : World) (earlier : List Left) : List Operation → List Left
  | [] => []
  | op :: rest => op.run (world earlier) :: runEach world (earlier ++ [op.run (world earlier)]) rest

/-- What the operation finds whose turn comes after so many others. -/
def found (world : World) (operations : List Operation) (i : Nat) : Found := world ((runEach world [] operations).take i)

end OneTime

end Pinboard
