import Pinboard.Json.Reader
import Pinboard.Message.Basic

/-! Reading messages: the fields of each variant, and the drafts into which they are read. Only the id of an
    error may be left out or be `null`. -/

namespace Pinboard

open Json (Field Record Reader Variant mapReader)

/-- A field that the draft keeps as an option. -/
def Json.Field.of {σ α : Type} (name : String) (get : σ → Option α) (set : σ → α → σ) (read : Reader α) : Field σ :=
  ⟨name, fun draft => (get draft).isSome, fun draft => mapReader (set draft) read⟩

namespace ObjectAddress

/-- The fields of an object address that have been read. -/
structure Draft where
  destination : Option String
  path : Option String
  interface : Option String

/-- The shape of an object address. -/
def shape : Record Draft ObjectAddress where
  expected := "struct ObjectAddress"
  fields :=
    [.of "destination" Draft.destination (fun d s => { d with destination := some s }) Json.text,
     .of "path" Draft.path (fun d s => { d with path := some s }) Json.text,
     .of "interface" Draft.interface (fun d s => { d with interface := some s }) Json.text]
  empty := ⟨none, none, none⟩
  finish
    | ⟨some destination, some path, some interface⟩ => .ok ⟨destination, path, interface⟩
    | ⟨none, _, _⟩ => .error "destination"
    | ⟨_, none, _⟩ => .error "path"
    | ⟨_, _, none⟩ => .error "interface"

/-- Reads an object address that opens at most `depth` brackets at a time. -/
def reader (steps depth : Nat) : Reader ObjectAddress := Json.record steps depth fun _ => shape

/-- The object address that the bytes spell. -/
def parse (bytes : List UInt8) : Except Json.Fault ObjectAddress :=
  Json.document (fun steps => reader steps Json.maxDepth) bytes

end ObjectAddress

namespace CallId

/-- Reads a call id, which is a string. -/
def reader : Reader CallId := mapReader CallId.mk Json.text

/-- The call id that the bytes spell. -/
def parse (bytes : List UInt8) : Except Json.Fault CallId := Json.document (fun _ => reader) bytes

end CallId

namespace Request

/-- The fields of a call that have been read. -/
structure CallDraft where
  id : Option CallId
  target : Option ObjectAddress
  method : Option String
  args : Option Json

/-- The shape of a call whose fields open at most `depth` brackets at a time. -/
def callShape (steps depth : Nat) : Record CallDraft Request where
  expected := "struct variant RpcRequest::Call"
  fields :=
    [.of "call_id" CallDraft.id (fun d i => { d with id := some i }) CallId.reader,
     .of "target" CallDraft.target (fun d t => { d with target := some t }) (ObjectAddress.reader steps depth),
     .of "method" CallDraft.method (fun d m => { d with method := some m }) Json.text,
     .of "args" CallDraft.args (fun d a => { d with args := some a }) (Json.value steps depth)]
  empty := ⟨none, none, none, none⟩
  finish
    | ⟨some id, some target, some method, some args⟩ => .ok (.call id target method args)
    | ⟨none, _, _, _⟩ => .error "call_id"
    | ⟨_, none, _, _⟩ => .error "target"
    | ⟨_, _, none, _⟩ => .error "method"
    | ⟨_, _, _, none⟩ => .error "args"

/-- The shape of a question about an object. -/
def hasObjectShape : Record (Option String) Request where
  expected := "struct variant RpcRequest::HasObject"
  fields := [.of "object_name" id (fun _ n => some n) Json.text]
  empty := none
  finish
    | some name => .ok (.hasObject name)
    | none => .error "object_name"

/-- Reads a request that opens at most `depth` brackets at a time. -/
def reader (steps depth : Nat) : Reader Request :=
  Json.variant depth
    [⟨"Call", fun depth => Json.record steps depth (callShape steps)⟩,
     ⟨"HasObject", fun depth => Json.record steps depth fun _ => hasObjectShape⟩]

/-- The request that the bytes spell. -/
def parse (bytes : List UInt8) : Except Json.Fault Request :=
  Json.document (fun steps => reader steps Json.maxDepth) bytes

end Request

namespace Response

/-- The fields of a result that have been read. -/
structure ResultDraft where
  id : Option CallId
  value : Option Json

/-- The shape of a result whose value opens at most `depth` brackets at a time. -/
def resultShape (steps depth : Nat) : Record ResultDraft Response where
  expected := "struct variant RpcResponse::Result"
  fields :=
    [.of "call_id" ResultDraft.id (fun d i => { d with id := some i }) CallId.reader,
     .of "value" ResultDraft.value (fun d v => { d with value := some v }) (Json.value steps depth)]
  empty := ⟨none, none⟩
  finish
    | ⟨some id, some value⟩ => .ok (.result id value)
    | ⟨none, _⟩ => .error "call_id"
    | ⟨_, none⟩ => .error "value"

/-- The fields of an error that have been read. -/
structure ErrorDraft where
  id : Option (Option CallId)
  message : Option String

/-- The shape of an error. -/
def errorShape : Record ErrorDraft Response where
  expected := "struct variant RpcResponse::Error"
  fields :=
    [.of "call_id" ErrorDraft.id (fun d i => { d with id := some i }) (Json.optional CallId.reader),
     .of "message" ErrorDraft.message (fun d m => { d with message := some m }) Json.text]
  empty := ⟨none, none⟩
  finish
    | ⟨id, some message⟩ => .ok (.error (id.getD none) message)
    | ⟨_, none⟩ => .error "message"

/-- The fields of an answer about an object that have been read. -/
structure PresenceDraft where
  name : Option String
  present : Option Bool

/-- The shape of an answer about an object. -/
def presenceShape : Record PresenceDraft Response where
  expected := "struct variant RpcResponse::HasObjectResult"
  fields :=
    [.of "object_name" PresenceDraft.name (fun d n => { d with name := some n }) Json.text,
     .of "exists" PresenceDraft.present (fun d b => { d with present := some b }) Json.flag]
  empty := ⟨none, none⟩
  finish
    | ⟨some name, some present⟩ => .ok (.objectPresence name present)
    | ⟨none, _⟩ => .error "object_name"
    | ⟨_, none⟩ => .error "exists"

/-- Reads a response that opens at most `depth` brackets at a time. -/
def reader (steps depth : Nat) : Reader Response :=
  Json.variant depth
    [⟨"Result", fun depth => Json.record steps depth (resultShape steps)⟩,
     ⟨"Error", fun depth => Json.record steps depth fun _ => errorShape⟩,
     ⟨"HasObjectResult", fun depth => Json.record steps depth fun _ => presenceShape⟩]

/-- The response that the bytes spell. -/
def parse (bytes : List UInt8) : Except Json.Fault Response :=
  Json.document (fun steps => reader steps Json.maxDepth) bytes

end Response

end Pinboard
