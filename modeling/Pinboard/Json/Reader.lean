import Pinboard.Json.Scan

/-! Reading JSON as a value or as data of a declared shape. At most 127 brackets may be open at a time in what
    is read; what is passed over may nest without limit. A record is written as an object with its fields by
    name or as a list with its fields in order. A variant is an object with one member, whose name tells
    which variant it is.

    Every reader that loops takes a bound on its steps. Each step reads at least one byte, so the length of
    the document plus one is enough, and `document` passes that. -/

namespace Pinboard.Json

/-- The most brackets that may be open at a time. -/
def maxDepth : Nat := 127

/-! ### Lists and objects -/

/-- What comes next in a list or an object: its closing bracket, which is the first byte of `rest`, or an
    item, which starts at `rest`. -/
inductive Next
  | close (rest : List UInt8)
  | item (rest : List UInt8)

/-- What comes next in a list, where a comma is due unless this is the beginning. -/
def nextItem (first : Bool) (input : List UInt8) : Except Stop Next :=
  match skipBlanks input with
  | [] => stopOn (.ended .list) []
  | b :: rest =>
    if b = 0x5d then .ok (.close (b :: rest))
    else if first then .ok (.item (b :: rest))
    else if b = 0x2c then
      match skipBlanks rest with
      | [] => stopOn (.ended .value) []
      | c :: after => if c = 0x5d then stopOn .trailingComma (c :: after) else .ok (.item (c :: after))
    else stopOn .expectedListEnd (b :: rest)

/-- What comes next in an object. An item starts after the opening quote of its name. -/
def nextMember (first : Bool) (input : List UInt8) : Except Stop Next :=
  match skipBlanks input with
  | [] => stopOn (.ended .object) []
  | b :: rest =>
    if b = 0x7d then .ok (.close (b :: rest))
    else if first then
      if b = 0x22 then .ok (.item rest) else stopOn .keyNotString (b :: rest)
    else if b = 0x2c then
      match skipBlanks rest with
      | [] => stopOn (.ended .value) []
      | c :: after =>
        if c = 0x22 then .ok (.item after)
        else if c = 0x7d then stopOn .trailingComma (c :: after)
        else stopOn .keyNotString (c :: after)
    else stopOn .expectedObjectEnd (b :: rest)

/-- Passes over the colon after a name. -/
def colon (input : List UInt8) : Except Stop (List UInt8) :=
  match skipBlanks input with
  | [] => stopOn (.ended .object) []
  | b :: rest => if b = 0x3a then .ok rest else stopOn .expectedColon (b :: rest)

/-! ### Values -/

/-- The items of a list after its opening bracket, up to and with the closing one. -/
def items (item : Reader Json) (taken : List Json) (first : Bool) : Nat → Reader (List Json)
  | 0, input => stopAt .expectedValue input
  | steps + 1, input =>
    match nextItem first input with
    | .error stop => .error stop
    | .ok (.close rest) => .ok (taken.reverse, rest.drop 1)
    | .ok (.item rest) =>
      match item rest with
      | .error stop => .error stop
      | .ok (j, rest) => items item (j :: taken) false steps rest

/-- The members of an object after its opening bracket, up to and with the closing one. A later member
    replaces an earlier one of its name. -/
def members (value : Reader Json) (taken : List (String × Json)) (first : Bool) : Nat → Reader (List (String × Json))
  | 0, input => stopAt .expectedValue input
  | steps + 1, input =>
    match nextMember first input with
    | .error stop => .error stop
    | .ok (.close rest) => .ok (taken, rest.drop 1)
    | .ok (.item rest) =>
      match Scan.string rest with
      | .error stop => .error stop
      | .ok (name, rest) =>
        match colon rest with
        | .error stop => .error stop
        | .ok rest =>
          match value rest with
          | .error stop => .error stop
          | .ok (j, rest) => members value (insertMember name j taken) false steps rest

/-- Gives a fixed result after a word. -/
def constant {α : Type} (a : α) (letters : List UInt8) : Reader α := fun rest =>
  match word letters rest with
  | .error stop => .error stop
  | .ok rest => .ok (a, rest)

/-- Applies a function to what a reader gives. -/
def mapReader {α β : Type} (f : α → β) (r : Reader α) : Reader β := fun input =>
  match r input with
  | .error stop => .error stop
  | .ok (a, rest) => .ok (f a, rest)

/-- A value that opens at most `depth` brackets at a time. -/
def value (steps : Nat) : Nat → Reader Json
  | depth, input =>
    match skipBlanks input with
    | [] => stopOn (.ended .value) []
    | b :: rest =>
      if b = 0x6e then constant .null nullTail rest
      else if b = 0x74 then constant (.bool true) trueTail rest
      else if b = 0x66 then constant (.bool false) falseTail rest
      else if b = 0x2d then mapReader .number (Scan.number true) rest
      else if Scan.isDigit b then mapReader .number (Scan.number false) (b :: rest)
      else if b = 0x22 then mapReader .string Scan.string rest
      else if b = 0x5b then
        match depth with
        | 0 => stopOn .tooDeep (b :: rest)
        | depth + 1 => mapReader .array (items (value steps depth) [] true steps) rest
      else if b = 0x7b then
        match depth with
        | 0 => stopOn .tooDeep (b :: rest)
        | depth + 1 => mapReader .object (members (value steps depth) [] true steps) rest
      else stopOn .expectedValue (b :: rest)

/-! ### Values that are passed over -/

/-- An open bracket of a value that is passed over. -/
inductive Bracket
  | list
  | object
  deriving DecidableEq, Repr

/-- Passes over one token that begins a value. Of a list or an object that is the opening bracket. -/
def passToken (input : List UInt8) : Except Stop (Option Bracket × List UInt8) :=
  let leaf : Except Stop (List UInt8) → Except Stop (Option Bracket × List UInt8)
    | .error stop => .error stop
    | .ok rest => .ok (none, rest)
  match skipBlanks input with
  | [] => stopOn (.ended .value) []
  | b :: rest =>
    if b = 0x6e then leaf (word nullTail rest)
    else if b = 0x74 then leaf (word trueTail rest)
    else if b = 0x66 then leaf (word falseTail rest)
    else if b = 0x2d then leaf (Scan.passNumber rest)
    else if Scan.isDigit b then leaf (Scan.passNumber (b :: rest))
    else if b = 0x22 then leaf (Scan.passString none rest)
    else if b = 0x5b then .ok (some .list, rest)
    else if b = 0x7b then .ok (some .object, rest)
    else stopOn .expectedValue (b :: rest)

/-- Passes over the name of a member and its colon. -/
def passName (input : List UInt8) : Except Stop (List UInt8) :=
  match skipBlanks input with
  | [] => stopOn (.ended .object) []
  | b :: rest =>
    if b = 0x22 then
      match Scan.passString none rest with
      | .error stop => .error stop
      | .ok rest => colon rest
    else stopOn .keyNotString (b :: rest)

/-- Passes over what follows a value (`afterItem`) or an opening bracket inside the open brackets, innermost
    first: closing brackets, and then the comma and the name that lead to the next value. No bracket is left
    open at the end of the whole value. -/
def passEnds (afterItem : Bool) : Nat → List Bracket → List UInt8 → Except Stop (List Bracket × List UInt8)
  | _, [], input => .ok ([], input)
  | 0, _ :: _, input => stopAt .expectedValue input
  | steps + 1, inner :: outer, input =>
    let lead (rest : List UInt8) : Except Stop (List Bracket × List UInt8) :=
      match inner with
      | .list => .ok (.list :: outer, rest)
      | .object =>
        match passName rest with
        | .error stop => .error stop
        | .ok rest => .ok (.object :: outer, rest)
    match skipBlanks input with
    | [] => stopOn (.ended (if inner = .list then .list else .object)) []
    | b :: rest =>
      if afterItem && b = 0x2c then lead rest
      else if (b = 0x5d && inner = .list) || (b = 0x7d && inner = .object) then passEnds true steps outer rest
      else if afterItem then stopOn (if inner = .list then .expectedListEnd else .expectedObjectEnd) (b :: rest)
      else lead (b :: rest)

/-- Passes over a value inside the open brackets, and over what follows until none is open. -/
def passValue : Nat → List Bracket → List UInt8 → Except Stop (List UInt8)
  | 0, _, input => stopAt .expectedValue input
  | steps + 1, outer, input =>
    match passToken input with
    | .error stop => .error stop
    | .ok (opened, rest) =>
      let brackets := opened.toList ++ outer
      match passEnds opened.isNone steps brackets rest with
      | .error stop => .error stop
      | .ok ([], rest) => .ok rest
      | .ok (brackets, rest) => passValue steps brackets rest

/-! ### Declared shapes -/

/-- Faults a value of another type than was expected, after reading it if it is no list or object. -/
def wrongType {α : Type} (expected : String) (input : List UInt8) : Except Stop α :=
  let fault (found : Except Stop (Found × List UInt8)) : Except Stop α :=
    match found with
    | .error stop => .error stop
    | .ok (found, rest) => stopAt (.wrongType found expected) rest
  match input with
  | [] => stopOn (.ended .value) []
  | b :: rest =>
    if b = 0x6e then fault (constant .null nullTail rest)
    else if b = 0x74 then fault (constant (.bool true) trueTail rest)
    else if b = 0x66 then fault (constant (.bool false) falseTail rest)
    else if b = 0x2d then fault (mapReader .number (Scan.number true) rest)
    else if Scan.isDigit b then fault (mapReader .number (Scan.number false) (b :: rest))
    else if b = 0x22 then fault (mapReader .string Scan.string rest)
    else if b = 0x5b then stopAt (.wrongType .list expected) (b :: rest)
    else if b = 0x7b then stopAt (.wrongType .object expected) (b :: rest)
    else stopOn .expectedValue (b :: rest)

/-- A string. -/
def text : Reader String := fun input =>
  match skipBlanks input with
  | [] => stopOn (.ended .value) []
  | b :: rest => if b = 0x22 then Scan.string rest else wrongType "a string" (b :: rest)

/-- A truth value. -/
def flag : Reader Bool := fun input =>
  match skipBlanks input with
  | [] => stopOn (.ended .value) []
  | b :: rest =>
    if b = 0x74 then constant true trueTail rest
    else if b = 0x66 then constant false falseTail rest
    else wrongType "a boolean" (b :: rest)

/-- What the reader reads, or `null`. -/
def optional {α : Type} (r : Reader α) : Reader (Option α) := fun input =>
  match skipBlanks input with
  | [] => mapReader some r []
  | b :: rest => if b = 0x6e then constant none nullTail rest else mapReader some r (b :: rest)

/-- A field of a record that is read into a draft `σ`: its name, whether the draft has it, and the reader that
    puts it in. -/
structure Field (σ : Type) where
  name : String
  isSet : σ → Bool
  read : σ → Reader σ

/-- A record: what it is called, its fields in order, the draft without fields, and the record of a complete
    draft or the name of the first field that is missing. -/
structure Record (σ α : Type) where
  expected : String
  fields : List (Field σ)
  empty : σ
  finish : σ → Except String α

variable {σ α : Type}

/-- How long a list has to be to be the record. -/
def Record.expectedLength (r : Record σ α) : String :=
  let n := r.fields.length
  r.expected ++ " with " ++ Nat.repr n ++ (if n = 1 then " element" else " elements")

/-- The fields in order, `count` of them read. A list that ends before is faulted after its closing bracket. -/
def fieldsInOrder (expected : String) (count : Nat) : List (Field σ) → σ → Reader σ
  | [], draft, input => .ok (draft, input)
  | f :: fs, draft, input =>
    match nextItem (count = 0) input with
    | .error stop => .error stop
    | .ok (.close rest) => stopAt (.wrongLength count expected) (rest.drop 1)
    | .ok (.item rest) =>
      match f.read draft rest with
      | .error stop => .error stop
      | .ok (draft, rest) => fieldsInOrder expected (count + 1) fs draft rest

/-- Passes over the closing bracket of a list that should have no more items. -/
def closeList (input : List UInt8) : Except Stop (List UInt8) :=
  match skipBlanks input with
  | [] => stopOn (.ended .list) []
  | b :: rest =>
    if b = 0x5d then .ok rest
    else if b = 0x2c then
      match skipBlanks rest with
      | [] => stopOn .trailingCharacters []
      | c :: after => if c = 0x5d then stopOn .trailingComma (c :: after) else stopOn .trailingCharacters (c :: after)
    else stopOn .trailingCharacters (b :: rest)

/-- Passes over blanks and a closing bracket of an object, if one is there. -/
def passClose (input : List UInt8) : List UInt8 :=
  match skipBlanks input with
  | [] => []
  | b :: rest => if b = 0x7d then rest else b :: rest

/-- The fields by name in any order, among members of other names, which are passed over. A field that comes
    twice is faulted at its second name. -/
def fieldsByName (fields : List (Field σ)) (passSteps : Nat) (first : Bool) : Nat → σ → Reader σ
  | 0, _, input => stopAt .expectedValue input
  | steps + 1, draft, input =>
    match nextMember first input with
    | .error stop => .error stop
    | .ok (.close rest) => .ok (draft, rest.drop 1)
    | .ok (.item rest) =>
      match Scan.string rest with
      | .error stop => .error stop
      | .ok (name, rest) =>
        match fields.find? (·.name = name) with
        | some f =>
          if f.isSet draft then stopAt (.duplicateField name) (passClose rest)
          else
            match colon rest with
            | .error stop => .error stop
            | .ok rest =>
              match f.read draft rest with
              | .error stop => .error stop
              | .ok (draft, rest) => fieldsByName fields passSteps false steps draft rest
        | none =>
          match colon rest with
          | .error stop => .error stop
          | .ok rest =>
            match passValue passSteps [] rest with
            | .error stop => .error stop
            | .ok rest => fieldsByName fields passSteps false steps draft rest

/-- The record of a draft; a missing field is faulted where the reader stands. -/
def Record.complete (r : Record σ α) (draft : σ) : Reader α := fun rest =>
  match r.finish draft with
  | .ok a => .ok (a, rest)
  | .error name => stopAt (.missingField name) rest

/-- A record that opens at most `depth` brackets at a time. Its shape is told how many its fields may open. -/
def record (steps depth : Nat) (shape : Nat → Record σ α) : Reader α := fun input =>
  match skipBlanks input with
  | [] => stopOn (.ended .value) []
  | b :: rest =>
    if b = 0x5b then
      match depth with
      | 0 => stopOn .tooDeep (b :: rest)
      | depth + 1 =>
        let r := shape depth
        match fieldsInOrder r.expectedLength 0 r.fields r.empty rest with
        | .error stop => .error stop
        | .ok (draft, rest) =>
          match closeList rest with
          | .error stop => .error stop
          | .ok rest => r.complete draft rest
    else if b = 0x7b then
      match depth with
      | 0 => stopOn .tooDeep (b :: rest)
      | depth + 1 =>
        let r := shape depth
        match fieldsByName r.fields steps true steps r.empty rest with
        | .error stop => .error stop
        | .ok (draft, rest) => r.complete draft rest
    else wrongType (shape depth).expected (b :: rest)

/-- One variant of several: its name, and the reader of its contents for a number of brackets to open. -/
structure Variant (α : Type) where
  name : String
  contents : Nat → Reader α

/-- One of the variants, in an object of one member. A variant by its bare name has no contents, which is
    faulted without a place. -/
def variant (depth : Nat) (variants : List (Variant α)) : Reader α := fun input =>
  match skipBlanks input with
  | [] => stopOn (.ended .value) []
  | b :: rest =>
    if b = 0x7b then
      match depth with
      | 0 => stopOn .tooDeep (b :: rest)
      | depth + 1 =>
        match skipBlanks rest with
        | [] => stopOn (.ended .object) []
        | q :: rest =>
          if q = 0x22 then
            match Scan.string rest with
            | .error stop => .error stop
            | .ok (name, rest) =>
              match variants.find? (·.name = name) with
              | none => stopAt (.unknownVariant name (variants.map (·.name))) rest
              | some v =>
                match colon rest with
                | .error stop => .error stop
                | .ok rest =>
                  match v.contents depth rest with
                  | .error stop => .error stop
                  | .ok (a, rest) =>
                    match skipBlanks rest with
                    | [] => stopAt (.ended .object) []
                    | c :: after => if c = 0x7d then .ok (a, after) else stopAt .expectedValue (c :: after)
          else if q = 0x7d then stopOn .expectedValue (q :: rest)
          else stopOn .keyNotString (q :: rest)
    else if b = 0x22 then
      match Scan.string rest with
      | .error stop => .error stop
      | .ok (name, rest) =>
        if variants.any (·.name = name) then .error ⟨.wrongType .bareVariant "struct variant", none⟩
        else stopAt (.unknownVariant name (variants.map (·.name))) rest
    else stopOn .expectedValue (b :: rest)

/-! ### Documents -/

/-- The place of a stop in the document that was read. -/
def Stop.locate (bytes : List UInt8) (stop : Stop) : Fault :=
  ⟨stop.cause, stop.rest.map fun rest => .after (bytes.take (bytes.length - rest.length))⟩

/-- Reads a whole document, which has nothing but blanks after the value. The reader is given the bound on
    its steps. -/
def document (reader : Nat → Reader α) (bytes : List UInt8) : Except Fault α :=
  match reader (bytes.length + 1) bytes with
  | .error stop => .error (stop.locate bytes)
  | .ok (a, rest) =>
    match skipBlanks rest with
    | [] => .ok a
    | _ :: after => .error (Stop.locate bytes ⟨.trailingCharacters, some after⟩)

/-- The value that the bytes spell. -/
def parse (bytes : List UInt8) : Except Fault Json := document (fun steps => value steps maxDepth) bytes

end Pinboard.Json
