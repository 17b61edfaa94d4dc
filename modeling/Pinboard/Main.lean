import Pinboard.Message.FreshId
import Pinboard.Program.Transcript
import Std.Async.DNS
import Std.Async.TCP

/-! The programs at work. A run is made again from the start whenever the network has done what it asked for, and
    printed once it asks for nothing more. The name under which the executable was started tells which of the
    two programs it is. -/

namespace Pinboard.Program

open Std.Async (Async)
open Std.Net (IPAddr SocketAddress)

/-- An open connection to the bus. -/
abbrev Line := Std.Async.TCP.Socket.Client

/-- The fault that the operating system reports. Its number comes negated in 32 bits. -/
def faultOfError (e : IO.Error) : StreamFault :=
  let system (code : UInt32) : StreamFault := .system (.ofCode (Nat.pow 2 32 - code.toNat))
  match e with
  | .noSuchThing _ code _ => system code
  | .resourceVanished code _ => system code
  | .timeExpired code _ => system code
  | .permissionDenied _ code _ => system code
  | .invalidArgument _ code _ => system code
  | .otherError code _ => system code
  | e => .custom .other (toString e)

/-- Runs an action, and gives its fault if it has one. -/
def attempt {α : Type} (action : IO α) : IO (Except StreamFault α) := do
  try
    return .ok (← action)
  catch e =>
    return .error (faultOfError e)

/-- The host without the brackets around a numeric one. -/
def bareHost (host : List Char) : String :=
  String.ofList (host.filter fun c => c ≠ '[' ∧ c ≠ ']')

/-- A host address with a port. -/
def socketAddress (port : UInt16) : IPAddr → SocketAddress
  | .v4 a => .v4 ⟨a, port⟩
  | .v6 a => .v6 ⟨a, port⟩

/-- Connects to the first of the host addresses that answers. -/
def dialFirst (port : UInt16) (last : StreamFault) : List IPAddr → IO (Except StreamFault Line)
  | [] => return .error last
  | a :: rest => do
    let line ← Std.Async.TCP.Socket.Client.mk
    match ← attempt (line.connect (socketAddress port a)).block with
    | .ok () => return .ok line
    | .error fault => dialFirst port fault rest

/-- Connects to the bus. Local sockets are beyond what this program can open. -/
def dial : BusAddress → IO (Except StreamFault Line)
  | .unix _ => return .error (.custom .unsupported "local sockets are not supported")
  | .tcp address => do
    match BusAddress.splitAtLastColon? address.toList with
    | none => return .error (.address .noPort)
    | some (host, port) =>
      match BusAddress.port? port with
      | none => return .error (.address .badPort)
      | some n =>
        match ← attempt (Std.Async.DNS.getAddrInfo (bareHost host) (Nat.repr n)).block with
        | .error fault => return .error fault
        | .ok hosts => dialFirst n.toUInt16 (.custom .other "no address for the host") hosts.toList

/-- Waits until what has arrived ends the wait, the far end hangs up, or reading has a fault. -/
partial def await (line : Line) (arrived : ByteArray) : IO (Arrival × Option StreamFault) := do
  if !Frame.isAwaited arrived.toList then return (⟨arrived.toList, false⟩, none)
  match ← attempt (line.recv? 65536).block with
  | .ok (some piece) => await line (arrived ++ piece)
  | .ok none => return (⟨arrived.toList, true⟩, none)
  | .error fault => return (⟨arrived.toList, false⟩, some fault)

/-- Sends a request and waits for what arrives in return, and for the fault of reading it if there is one. -/
def exchange (line : Line) (r : Request) : IO (Except StreamFault (Arrival × Option StreamFault)) := do
  match ← attempt (line.send ⟨(Frame.encode r.body).toArray⟩).block with
  | .error fault => return .error fault
  | .ok () => return .ok (← await line ByteArray.empty)

/-- Makes a run again and again until the transcript has all that it asks for. -/
partial def follow (program : Surroundings → Report) (s : Surroundings) (t : Transcript) (lines : Array Line) :
    IO Report := do
  let report := program (t.surroundings s)
  match t.demand? report with
  | none => return report
  | some .dial =>
    match ← dial s.bus with
    | .ok line => follow program s (t.addDial none) (lines.push line)
    | .error fault => follow program s (t.addDial (some fault)) lines
  | some (.exchange n r) =>
    match lines[n]? with
    | none => return report
    | some line =>
      match ← exchange line r with
      | .ok (arrival, none) => follow program s (t.addArrival arrival) lines
      | .ok (arrival, some fault) => follow program s ((t.addArrival arrival).failReads n fault) lines
      | .error fault => follow program s (t.breakLine n fault) lines

/-- A variable of the environment as bytes. -/
def variableBytes (name : String) : IO (Option (List UInt8)) := do
  return (← IO.getEnv name).map Utf8.encode

/-- The time as it stands in a line of the log. -/
def timeStamp : IO String := do
  return (← Std.Time.PlainDateTime.now).format "MMM-dd-uuuu HH:mm:ss.SSSSSSSSS"

/-- Makes a run in the surroundings of this process and prints what it leaves behind. -/
def perform (program : Surroundings → Report) : IO UInt32 := do
  let first := CallId.ofRandom (← IO.getRandomBytes 16).toList
  let second := CallId.ofRandom (← IO.getRandomBytes 16).toList
  let surroundings : Surroundings := {
    addr := ← variableBytes "BROKER_ADDR"
    socket := ← variableBytes "BROKER_SOCKET"
    network := fun _ _ => .ok .fresh
    peer := fun _ => ⟨[], true⟩
    ids := fun n => if n = 0 then first else second }
  let report ← follow program surroundings .empty #[]
  IO.print report.output
  for line in report.errorLines (.ofSetting (← variableBytes "BULLETIN_DEBUG")) (← timeStamp) do
    IO.eprintln line
  return report.code.toUInt32

end Pinboard.Program

/-- Runs `demo` if the executable has that name, and otherwise `board` with the arguments. -/
def main (arguments : List String) : IO UInt32 := do
  let name := (← IO.appPath).fileStem.getD ""
  if name = "demo" then Pinboard.Program.perform Pinboard.Program.demo
  else Pinboard.Program.perform (Pinboard.Program.board arguments)
