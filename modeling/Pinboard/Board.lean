import Pinboard.Json.ByteLists
import Pinboard.Query

/-! The bulletin board. It is a remote object that keeps values under keys, apart for each application. Keys and
    values are bytes on the wire and texts to most callers. Each operation on it is one query to the bus. -/

namespace Pinboard

/-- A board as one application sees it. -/
structure Board where
  appId : String
  deriving DecidableEq, Repr

namespace Board

/-- The name of the service on the bus. -/
def serviceName : String := "org.manuel.BulletinBoard"

/-- The remote object that is the board. -/
def target : ObjectAddress := ⟨serviceName, "/", serviceName⟩

/-- The application that a board is seen by unless another is chosen. -/
def defaultAppId : String := "mytestapp"

/-- The board of the default application. -/
def default : Board := ⟨defaultAppId⟩

/-- The same board for another application. -/
def withAppId (_ : Board) (appId : String) : Board := ⟨appId⟩

/-- Stores a value under a key, both as bytes. Whatever value the method returns is fine. -/
def putBytes (b : Board) (key value : List UInt8) : Query Json Unit where
  ask := .call target "Put" (.array [.string b.appId, .ofBytes key, .ofBytes value])
  conclude _ := (.ok (), [])

/-- Stores a text under a key. -/
def put (b : Board) (key value : String) : Query Json Unit := b.putBytes (Utf8.encode key) (Utf8.encode value)

/-- The text of a stored value. Bytes that are no text are a fault, and none is replaced. -/
def decode (bytes : List UInt8) : Except Fault String := (Utf8.decode bytes).mapError (.utf8 bytes)

/-- The texts of stored values, or the fault of the first that is none. `taken` are those before, newest first. -/
def decodeFrom (taken : List String) : List (List UInt8) → Except Fault (List String)
  | [] => .ok taken.reverse
  | bytes :: rest =>
    match decode bytes with
    | .error fault => .error fault
    | .ok s => decodeFrom (s :: taken) rest

/-- The texts of all stored values. -/
def decodeAll (values : List (List UInt8)) : Except Fault (List String) := decodeFrom [] values

/-- What a reply to the question for values lists, and how many there are. -/
def listed (reply : Json) : Except Fault (List (List UInt8)) × List Entry :=
  match reply.byteLists with
  | .error cause => (.error (.json ⟨cause, none⟩), [])
  | .ok values => (.ok values, [⟨.debug, "Get returned " ++ Nat.repr values.length ++ " value(s)"⟩])

/-- The values under a key, all as bytes, in the order in which the board lists them. -/
def getBytes (b : Board) (key : List UInt8) : Query Json (List (List UInt8)) where
  ask := .call target "Get" (.array [.string b.appId, .ofBytes key])
  conclude := listed

/-- The texts under a key. -/
def get (b : Board) (key : String) : Query Json (List String) where
  ask := (b.getBytes (Utf8.encode key)).ask
  conclude reply := ((listed reply).1.bind decodeAll, (listed reply).2)

/-- Whether the service is on the bus. -/
def isAvailable (_ : Board) : Query Bool Bool := .plain (.hasObject serviceName)

end Board

end Pinboard
