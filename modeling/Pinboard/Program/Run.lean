import Pinboard.Program.Arguments
import Pinboard.Session

/-! The two programs as functions of their surroundings. `board` does what its arguments ask. `demo` stores one
    text on the session's board and shows what is under its key then, on a connection each. A run tells
    everything that is worth telling; the setting of the log decides only at the end which entries are
    printed. -/

namespace Pinboard.Program

open Text (quoted quotedList)

/-- What a program finds: the variables of its environment, the network as each of its connections finds it, the
    far end of the bus, and the ids that it draws for its calls. -/
structure Surroundings where
  addr : Option (List UInt8)
  socket : Option (List UInt8)
  network : Nat → Network
  peer : Peer
  ids : Nat → CallId

/-- The bus of the session. -/
def Surroundings.bus (s : Surroundings) : BusAddress := .session s.addr s.socket

/-- Something on the error output: an entry of the log, or a line that is always there. -/
inductive ErrorLine
  | entry (e : Entry)
  | plain (text : String)
  deriving DecidableEq, Repr

/-- What a run leaves behind: its exit code, what it wrote, and the requests that the bus received on each of
    its connections. -/
structure Report where
  code : Nat
  output : String
  errors : List ErrorLine
  connections : List (List Request)

/-- The lines that are printed under a setting of the log. -/
def Report.errorLines (setting : Level) (time : String) (r : Report) : List String :=
  r.errors.filterMap fun
    | .entry e => if e.level.passes setting then some (e.line setting time) else none
    | .plain text => some text

/-- How the program is used. -/
def usage : String := "Usage: board [--app-id <id>] <put <key> <value> | get <key> | ping>"

/-- The name and version of the program. -/
def version : String := "board version 0.1.0"

/-- A run that ends without having connected. -/
def Report.plain (output : String) : Report := ⟨0, output, [], []⟩

/-- The last line of a run that fails. -/
def failure (fault : Fault) : ErrorLine := .plain ("Error: " ++ fault.shown)

/-- The entries of clients, and the requests that were received from each. -/
def Report.ofClients (code : Nat) (output : String) (clients : List Client) (last : List ErrorLine) : Report :=
  ⟨code, output, (clients.flatMap (·.journal)).map .entry ++ last, clients.map (·.connection.received)⟩

/-- A run that ends with an outcome, which is what it prints and what it tells at the end. -/
def Report.conclude (clients : List Client) : Except Fault (String × List Entry) → Report
  | .ok (output, entries) => .ofClients 0 output clients (entries.map .entry)
  | .error fault => .ofClients 1 "" clients [failure fault]

/-- What `get` prints: the key and the texts under it. -/
def valuesLine (key : String) (values : List String) : String := key ++ " " ++ quotedList values ++ "\n"

/-- Runs a query and says what success prints and tells. -/
def Surroundings.runOnce (s : Surroundings) {β α : Type} (q : Query β α) (success : α → String × List Entry) :
    Report :=
  let (outcome, client?) := Client.once (s.network 0) s.peer s.ids s.bus q
  .conclude client?.toList (outcome.map success)

/-- Runs a command for an application. -/
def Command.run (appId : String) (s : Surroundings) : Command → Report
  | .put key value =>
    s.runOnce ((Board.mk appId).put key value) fun () =>
      ("", [⟨.info, "Stored value for " ++ quoted key ++ " in " ++ appId⟩])
  | .get key => s.runOnce ((Board.mk appId).get key) fun values => (valuesLine key values, [])
  | .ping =>
    s.runOnce (Board.mk appId).isAvailable fun present => (if present then "available\n" else "not available\n", [])

/-- A run of `board`. -/
def board (arguments : List String) (s : Surroundings) : Report :=
  match Invocation.parse arguments with
  | .ok .version => .plain (version ++ "\n")
  | .ok .help => .plain (usage ++ "\n")
  | .ok (.run appId command) => command.run appId s
  | .error fault =>
    ⟨1, "", [.entry ⟨.error, fault.text⟩, .plain usage, failure (.io (.invocation fault.text))], []⟩

/-- The key under which `demo` stores. -/
def demoKey : String := "what is love?"

/-- The text that `demo` stores. -/
def demoValue : String := "Baby don't hurt me, don't hurt me no more."

/-- A run of `demo`. The second connection finds the far end as the first has left it. -/
def demo (s : Surroundings) : Report :=
  match OneTime.put (s.network 0) s.peer s.ids s.addr s.socket demoKey demoValue with
  | (.error fault, first?) => .conclude first?.toList (.error fault)
  | (.ok (), first?) =>
    let earlier := first?.toList.flatMap (·.connection.received)
    let used := (first?.map (·.asked)).getD 0
    let (outcome, second?) :=
      OneTime.get (s.network 1) (s.peer.after earlier) (fun n => s.ids (used + n)) s.addr s.socket demoKey
    .conclude (first?.toList ++ second?.toList) (outcome.map fun values => (valuesLine demoKey values, []))

end Pinboard.Program
