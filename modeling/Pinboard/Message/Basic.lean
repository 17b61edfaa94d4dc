import Pinboard.Json.Printer
import Pinboard.Text.Utf8

/-! The messages that travel over the bus. A request calls a method of a remote object or asks whether an
    object is there. A response carries the result of a call, an error, or the answer about an object. A
    message is written as an object of one member: the name of its variant, and the fields in a fixed
    order. -/

namespace Pinboard

open Text (quoted shownRecord)

/-- The name that ties a response to its call. -/
structure CallId where
  text : String
  deriving DecidableEq, Repr

/-- The id with its kind. -/
def CallId.shown (id : CallId) : String := "CallId(" ++ quoted id.text ++ ")"

/-- Where a remote object is found: the name of its owner, its path, and the interface that is meant. -/
structure ObjectAddress where
  destination : String
  path : String
  interface : String
  deriving DecidableEq, Repr

namespace ObjectAddress

/-- The address in one line. -/
def display (a : ObjectAddress) : String := a.destination ++ ":" ++ a.path ++ " " ++ a.interface

/-- The address with its fields named. -/
def shown (a : ObjectAddress) : String :=
  shownRecord "ObjectAddress"
    [("destination", quoted a.destination), ("path", quoted a.path), ("interface", quoted a.interface)]

/-- The address as an object. -/
def toJson (a : ObjectAddress) : Json :=
  .object [("destination", .string a.destination), ("path", .string a.path), ("interface", .string a.interface)]

end ObjectAddress

/-- What a client asks of the bus. -/
inductive Request
  | call (id : CallId) (target : ObjectAddress) (method : String) (args : Json)
  | hasObject (name : String)

/-- What the bus answers. An error may name the call that it belongs to. -/
inductive Response
  | result (id : CallId) (value : Json)
  | error (id : Option CallId) (message : String)
  | objectPresence (name : String) (present : Bool)

namespace Request

/-- The request as an object. -/
def toJson : Request → Json
  | .call id target method args =>
    .object [("Call", .object
      [("call_id", .string id.text), ("target", target.toJson), ("method", .string method), ("args", args)])]
  | .hasObject name => .object [("HasObject", .object [("object_name", .string name)])]

/-- The text of the request on the wire. -/
def text (r : Request) : String := r.toJson.compact

/-- The bytes of the request on the wire. -/
def body (r : Request) : List UInt8 := Utf8.encode r.text

/-- The request with its fields named. -/
def shown : Request → String
  | .call id target method args =>
    shownRecord "Call"
      [("call_id", id.shown), ("target", target.shown), ("method", quoted method), ("args", args.shown)]
  | .hasObject name => shownRecord "HasObject" [("object_name", quoted name)]

end Request

namespace Response

/-- The response as an object. -/
def toJson : Response → Json
  | .result id value => .object [("Result", .object [("call_id", .string id.text), ("value", value)])]
  | .error id message =>
    .object [("Error", .object
      [("call_id", (id.map fun i => Json.string i.text).getD .null), ("message", .string message)])]
  | .objectPresence name present =>
    .object [("HasObjectResult", .object [("object_name", .string name), ("exists", .bool present)])]

/-- The text of the response on the wire. -/
def text (r : Response) : String := r.toJson.compact

/-- The bytes of the response on the wire. -/
def body (r : Response) : List UInt8 := Utf8.encode r.text

/-- The response with its fields named. -/
def shown : Response → String
  | .result id value => shownRecord "Result" [("call_id", id.shown), ("value", value.shown)]
  | .error id message =>
    let call := match id with
      | none => "None"
      | some i => "Some(" ++ i.shown ++ ")"
    shownRecord "Error" [("call_id", call), ("message", quoted message)]
  | .objectPresence name present =>
    shownRecord "HasObjectResult" [("object_name", quoted name), ("exists", if present then "true" else "false")]

end Response

end Pinboard
