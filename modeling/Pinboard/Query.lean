import Pinboard.Connection

/-! Questions to the bus and what their answers mean. An `Ask` is a question with the type of its answer: the
    value that a method returns, or whether an object is there. An answer counts only if it is meant for the
    question, by the id of the call or the name of the object. A `Query` is a question together with what is
    made of its answer. A `Bus` is anything that answers questions. -/

namespace Pinboard

/-- A question to the bus, with the type of its answer. -/
inductive Ask : Type → Type
  | call (target : ObjectAddress) (method : String) (args : Json) : Ask Json
  | hasObject (name : String) : Ask Bool

namespace Ask

/-- The request that puts a question. A call is named by the id. -/
def request {β : Type} (id : CallId) : Ask β → Request
  | call target method args => .call id target method args
  | hasObject name => .hasObject name

/-- What is worth telling when a question is put. -/
def opening {β : Type} (id : CallId) : Ask β → List Entry
  | call target method _ => [⟨.debug, "Calling " ++ target.display ++ " " ++ method ++ " as " ++ id.shown⟩]
  | hasObject _ => []

/-- The fault of a response that answers something else. -/
def unexpected (question : String) (r : Response) : Fault :=
  .protocol ("unexpected reply to " ++ question ++ ": " ++ r.shown)

/-- What a response says to a question. A result must carry the id of the call; an error may go without one, and
    for a question about an object it must. -/
def answer {β : Type} (id : CallId) : Ask β → Response → Except Fault β
  | call _ method _, r =>
    match r with
    | .result i value => if i = id then .ok value else .error (unexpected method r)
    | .error (some i) message => if i = id then .error (.remote message) else .error (unexpected method r)
    | .error none message => .error (.remote message)
    | .objectPresence _ _ => .error (unexpected method r)
  | hasObject name, r =>
    match r with
    | .objectPresence n present => if n = name then .ok present else .error (unexpected "HasObject" r)
    | .error none message => .error (.remote message)
    | .error (some _) _ => .error (unexpected "HasObject" r)
    | .result _ _ => .error (unexpected "HasObject" r)

/-- What is worth telling about the outcome of a question: an error that a call was answered with. -/
def closing {β : Type} : Ask β → Except Fault β → List Entry
  | call target method _, .error (.remote message) =>
    [⟨.debug, method ++ " on " ++ target.display ++ " failed: " ++ message⟩]
  | _, _ => []

end Ask

/-- A question and what is made of its answer: an outcome, and what is worth telling about it. -/
structure Query (β α : Type) where
  ask : Ask β
  conclude : β → Except Fault α × List Entry

namespace Query

variable {β α γ : Type}

/-- The query that takes the answer as it is. -/
def plain (ask : Ask β) : Query β β := ⟨ask, fun b => (.ok b, [])⟩

/-- Applies a function to the outcome of a query. -/
def map (f : α → γ) (q : Query β α) : Query β γ :=
  ⟨q.ask, fun b => ((q.conclude b).1.map f, (q.conclude b).2)⟩

/-- What a query makes of the answer of the bus, which may be a fault. -/
def outcome (q : Query β α) : Except Fault β → Except Fault α × List Entry
  | .error fault => (.error fault, [])
  | .ok b => q.conclude b

end Query

/-- Anything in a state `σ` that answers questions and takes note of what is worth telling. -/
structure Bus (σ : Type) where
  answer : {β : Type} → Ask β → σ → Except Fault β × σ
  note : List Entry → σ → σ

/-- Puts the question of a query and concludes. A fault of the bus is passed on as it is. -/
def Bus.run {σ β α : Type} (bus : Bus σ) (q : Query β α) (s : σ) : Except Fault α × σ :=
  let (answer, s) := bus.answer q.ask s
  let (outcome, entries) := q.outcome answer
  (outcome, bus.note entries s)

end Pinboard
