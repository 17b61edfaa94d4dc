import Pinboard.Json.Fault
import Pinboard.Text.Utf8

/-! What can go wrong. A `StreamFault` is a fault of reading and writing: each has a kind, a text, and a form in
    which its parts are named. A `Fault` is what an operation on the board reports. -/

namespace Pinboard

open Text (quoted shownRecord)

/-- The kinds of stream faults. -/
inductive FaultKind
  | notFound
  | permissionDenied
  | connectionRefused
  | connectionReset
  | connectionAborted
  | notConnected
  | hostUnreachable
  | networkUnreachable
  | addressInUse
  | addressUnavailable
  | brokenPipe
  | wouldBlock
  | notADirectory
  | invalidInput
  | invalidData
  | timedOut
  | writeZero
  | interrupted
  | unsupported
  | unexpectedEof
  | outOfMemory
  | other
  deriving DecidableEq, Repr

/-- The name of a kind. -/
def FaultKind.name : FaultKind → String
  | .notFound => "NotFound"
  | .permissionDenied => "PermissionDenied"
  | .connectionRefused => "ConnectionRefused"
  | .connectionReset => "ConnectionReset"
  | .connectionAborted => "ConnectionAborted"
  | .notConnected => "NotConnected"
  | .hostUnreachable => "HostUnreachable"
  | .networkUnreachable => "NetworkUnreachable"
  | .addressInUse => "AddrInUse"
  | .addressUnavailable => "AddrNotAvailable"
  | .brokenPipe => "BrokenPipe"
  | .wouldBlock => "WouldBlock"
  | .notADirectory => "NotADirectory"
  | .invalidInput => "InvalidInput"
  | .invalidData => "InvalidData"
  | .timedOut => "TimedOut"
  | .writeZero => "WriteZero"
  | .interrupted => "Interrupted"
  | .unsupported => "Unsupported"
  | .unexpectedEof => "UnexpectedEof"
  | .outOfMemory => "OutOfMemory"
  | .other => "Other"

/-- A fault that the operating system reports by a number. -/
structure SystemFault where
  code : Nat
  kind : FaultKind
  text : String
  deriving DecidableEq, Repr

namespace SystemFault

/-- No such path. -/
def noSuchPath : SystemFault := ⟨2, .notFound, "No such file or directory"⟩

/-- The path leads through something that is no directory. -/
def notADirectory : SystemFault := ⟨20, .notADirectory, "Not a directory"⟩

/-- The address is of no use to the operating system. -/
def invalidArgument : SystemFault := ⟨22, .invalidInput, "Invalid argument"⟩

/-- The far end has closed the connection. -/
def brokenPipe : SystemFault := ⟨32, .brokenPipe, "Broken pipe"⟩

/-- There is no way to the host. -/
def networkUnreachable : SystemFault := ⟨101, .networkUnreachable, "Network is unreachable"⟩

/-- Nobody listens at the address. -/
def connectionRefused : SystemFault := ⟨111, .connectionRefused, "Connection refused"⟩

/-- The faults that connecting, reading and writing usually meet. -/
def usual : List SystemFault :=
  [noSuchPath, ⟨13, .permissionDenied, "Permission denied"⟩, notADirectory, invalidArgument, brokenPipe,
   ⟨98, .addressInUse, "Address already in use"⟩, ⟨99, .addressUnavailable, "Cannot assign requested address"⟩,
   networkUnreachable, ⟨103, .connectionAborted, "Software caused connection abort"⟩,
   ⟨104, .connectionReset, "Connection reset by peer"⟩,
   ⟨107, .notConnected, "Transport endpoint is not connected"⟩, ⟨110, .timedOut, "Connection timed out"⟩,
   connectionRefused, ⟨113, .hostUnreachable, "No route to host"⟩]

/-- The fault of a number. -/
def ofCode (code : Nat) : SystemFault :=
  (usual.find? (·.code = code)).getD ⟨code, .other, "Unknown error " ++ Nat.repr code⟩

end SystemFault

/-- Why an address is refused before the operating system is asked. -/
inductive AddressFault
  | noPort
  | badPort
  | hostHasNul
  | pathHasNul
  | pathTooLong
  | nameTooLong
  deriving DecidableEq, Repr

/-- The fault in words. -/
def AddressFault.text : AddressFault → String
  | .noPort => "invalid socket address"
  | .badPort => "invalid port value"
  | .hostHasNul => "file name contained an unexpected NUL byte"
  | .pathHasNul => "paths must not contain interior null bytes"
  | .pathTooLong => "path must be shorter than SUN_LEN"
  | .nameTooLong => "abstract socket name must be shorter than SUN_LEN"

/-- A fault of reading, writing or connecting. -/
inductive StreamFault
  /-- A frame to be written is too long; nothing of it is written. -/
  | tooLongToSend (length : Nat)
  /-- The far end announces a frame that is too long. -/
  | tooLongToReceive (length : Nat)
  /-- The stream ends before a frame, or inside its length. -/
  | endBeforeFrame
  /-- The stream ends inside a frame after its length. -/
  | endInFrame
  /-- The far end takes no more bytes. -/
  | writeZero
  /-- A frame is not the JSON of a response. -/
  | notAResponse (fault : Json.Fault)
  /-- The connection had ended when the request was made. -/
  | connectionEnded
  /-- The connection ended while the request was waiting. -/
  | connectionLost
  /-- The arguments of the command line make no sense. -/
  | invocation (text : String)
  | address (fault : AddressFault)
  | system (fault : SystemFault)
  | custom (kind : FaultKind) (text : String)
  deriving DecidableEq, Repr

namespace StreamFault

/-- The kind of a fault. -/
def kind : StreamFault → FaultKind
  | tooLongToSend _ => .invalidInput
  | tooLongToReceive _ => .invalidData
  | endBeforeFrame => .unexpectedEof
  | endInFrame => .unexpectedEof
  | writeZero => .writeZero
  | notAResponse _ => .invalidData
  | connectionEnded => .brokenPipe
  | connectionLost => .connectionAborted
  | invocation _ => .invalidInput
  | address _ => .invalidInput
  | system fault => fault.kind
  | custom kind _ => kind

/-- The fault in words. -/
def message : StreamFault → String
  | tooLongToSend length => "packet of " ++ Nat.repr length ++ " bytes exceeds limit"
  | tooLongToReceive length => "packet of " ++ Nat.repr length ++ " bytes exceeds limit"
  | endBeforeFrame => "unexpected end of file"
  | endInFrame => "early eof"
  | writeZero => "write zero"
  | notAResponse fault => fault.message
  | connectionEnded => "Actor dropped"
  | connectionLost => "Actor task ended"
  | invocation text => text
  | address fault => fault.text
  | system fault => fault.text ++ " (os error " ++ Nat.repr fault.code ++ ")"
  | custom _ text => text

/-- The fault with its parts named. A fault that is only a kind shows as that, one with a fixed text of the
    system library as an error, and one with a text of its own as custom. -/
def shown (f : StreamFault) : String :=
  let kind := f.kind.name
  match f with
  | endBeforeFrame | writeZero => "Kind(" ++ kind ++ ")"
  | notAResponse fault => shownRecord "Custom" [("kind", kind), ("error", fault.shown)]
  | address fault => shownRecord "Error" [("kind", kind), ("message", quoted fault.text)]
  | system fault =>
    shownRecord "Os" [("code", Nat.repr fault.code), ("kind", kind), ("message", quoted fault.text)]
  | _ => shownRecord "Custom" [("kind", kind), ("error", quoted f.message)]

end StreamFault

/-- What an operation on the board reports when it fails. -/
inductive Fault
  /-- The bus cannot be reached at the address. -/
  | connect (address : String) (source : StreamFault)
  | io (source : StreamFault)
  /-- A value is not of the shape that was asked for. -/
  | json (source : Json.Fault)
  /-- A stored value is not text. -/
  | utf8 (bytes : List UInt8) (source : Utf8.Fault)
  /-- The remote side answers with an error. -/
  | remote (text : String)
  /-- The remote side answers something else than was asked. -/
  | protocol (text : String)
  deriving DecidableEq, Repr

namespace Fault

/-- The fault in words. -/
def message : Fault → String
  | connect address source => "cannot connect to bus at " ++ address ++ ": " ++ source.message
  | io source => "I/O error: " ++ source.message
  | json source => "JSON error: " ++ source.message
  | utf8 _ source => "UTF-8 decoding error: " ++ source.message
  | remote text => "remote error: " ++ text
  | protocol text => "protocol error: " ++ text

/-- The fault with its parts named. -/
def shown : Fault → String
  | connect address source => shownRecord "Connect" [("address", quoted address), ("source", source.shown)]
  | io source => shownRecord "Io" [("source", source.shown)]
  | json source => shownRecord "Json" [("source", source.shown)]
  | utf8 bytes source =>
    let length := match source.badLength with
      | none => "None"
      | some n => "Some(" ++ Nat.repr n ++ ")"
    let error := shownRecord "Utf8Error" [("valid_up_to", Nat.repr source.validUpTo), ("error_len", length)]
    let bytes := "[" ++ ", ".intercalate (bytes.map fun b => Nat.repr b.toNat) ++ "]"
    "Utf8(" ++ shownRecord "FromUtf8Error" [("bytes", bytes), ("error", error)] ++ ")"
  | remote text => shownRecord "Remote" [("message", quoted text)]
  | protocol text => shownRecord "Protocol" [("message", quoted text)]

/-- The text of the fault below this one, if there is one. -/
def source? : Fault → Option String
  | connect _ source => some source.message
  | io source => some source.message
  | json source => some source.message
  | utf8 _ source => some source.message
  | remote _ => none
  | protocol _ => none

end Fault

end Pinboard
