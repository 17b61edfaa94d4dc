import Pinboard.Fault

/-! Where the bus can be reached: a host and port, or the path of a local socket. The session bus is found from
    two variables of the environment. Some addresses are refused on sight, whatever the network looks like. -/

namespace Pinboard

open Text (quoted)

/-- Where the bus can be reached. -/
inductive BusAddress
  | tcp (address : String)
  | unix (path : String)
  deriving DecidableEq, Repr

namespace BusAddress

/-- The path of the local socket when the environment names none. -/
def defaultPath : String := "/tmp/ipc_broker.sock"

/-- A variable counts if it is text and not empty. -/
def setting? (bytes? : Option (List UInt8)) : Option String :=
  match bytes?.bind Utf8.decode? with
  | none => none
  | some s => if s = "" then none else some s

/-- The session bus: a host and port if one is set, else the local socket that is set, else the default one. -/
def session (addr socket : Option (List UInt8)) : BusAddress :=
  match setting? addr with
  | some address => .tcp address
  | none => .unix ((setting? socket).getD defaultPath)

/-- The address with its transport, in words. -/
def display : BusAddress → String
  | tcp address => "tcp:" ++ address
  | unix path => "unix:" ++ path

/-- The address with its kind. -/
def shown : BusAddress → String
  | tcp address => "Tcp(" ++ quoted address ++ ")"
  | unix path => "Unix(" ++ quoted path ++ ")"

/-- The length that the path of a socket has to stay below, in bytes. -/
def pathLimit : Nat := 108

/-- The number that ASCII digits spell, most significant first; there must be one or more. -/
def decimal? (digits : List Char) : Option Nat :=
  if digits ≠ [] ∧ digits.all (fun c => '0' ≤ c && c ≤ '9') then
    some (digits.foldl (fun n c => n * 10 + (c.toNat - 48)) 0)
  else none

/-- A port: up to 65535, with or without a plus sign. -/
def port? (text : List Char) : Option Nat :=
  match decimal? (if text.head? = some '+' then text.tail else text) with
  | none => none
  | some n => if n < 65536 then some n else none

/-- What is left and right of the last colon. -/
def splitAtLastColon? (text : List Char) : Option (List Char × List Char) :=
  let reversed := text.reverse
  match reversed.dropWhile (· ≠ ':') with
  | [] => none
  | _ :: host => some (host.reverse, (reversed.takeWhile (· ≠ ':')).reverse)

/-- What is wrong with a host and port. The port is looked at first. -/
def tcpRefusal? (address : String) : Option AddressFault :=
  match splitAtLastColon? address.toList with
  | none => some .noPort
  | some (host, port) =>
    if (port? port).isNone then some .badPort
    else if host.contains '\x00' then some .hostHasNul
    else none

/-- What is wrong with the path of a socket. A path that starts with a zero byte names a socket that is not in
    the file system. -/
def unixRefusal? (path : List UInt8) : Option AddressFault :=
  match path with
  | [] => none
  | b :: name =>
    if b = 0 then if name.length + 1 > pathLimit then some .nameTooLong else none
    else if path.contains 0 then some .pathHasNul
    else if path.length ≥ pathLimit then some .pathTooLong
    else none

/-- The fault of an address that is refused on sight. No socket has the empty path or the empty name. -/
def refusal? : BusAddress → Option StreamFault
  | tcp address => (tcpRefusal? address).map .address
  | unix path =>
    if path = "" ∨ path = "\x00" then some (.system .invalidArgument)
    else (unixRefusal? (Utf8.encode path)).map .address

end BusAddress

end Pinboard
