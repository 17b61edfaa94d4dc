import Pinboard.Text.Utf8

/-! The log. Entries have a level, and a setting names the least severe level that is printed. The setting also
    decides the look of a line: at the usual level `info` it has no time stamp. The log of a process is set up
    once; before that nothing is printed, and a second attempt changes nothing but complains. -/

namespace Pinboard

/-- How severe an entry is, the most severe first. -/
inductive Level
  | error
  | warn
  | info
  | debug
  | trace
  deriving DecidableEq, Repr

namespace Level

/-- The place of a level, from the most severe on. -/
def rank : Level → Nat
  | error => 1
  | warn => 2
  | info => 3
  | debug => 4
  | trace => 5

/-- The name of a level in a line of the log. -/
def name : Level → String
  | error => "ERROR"
  | warn => "WARN"
  | info => "INFO"
  | debug => "DEBUG"
  | trace => "TRACE"

/-- An entry of this level is printed under a setting. -/
def passes (level setting : Level) : Bool := level.rank ≤ setting.rank

/-- The setting that a variable of the environment names, in lower case; `info` if it names none. -/
def ofSetting (bytes? : Option (List UInt8)) : Level :=
  match bytes?.bind Utf8.decode? with
  | some "trace" => trace
  | some "debug" => debug
  | some "info" => info
  | some "warn" => warn
  | some "error" => error
  | _ => info

end Level

/-- Something worth telling. -/
structure Entry where
  level : Level
  message : String
  deriving DecidableEq, Repr

/-- An entry as a line under a setting, stamped with the time unless the setting is `info`. -/
def Entry.line (setting : Level) (time : String) (e : Entry) : String :=
  let stamp := if setting = .info then "" else "[" ++ time ++ "]"
  stamp ++ "[" ++ e.level.name ++ "]: " ++ e.message

/-- An entry with the place in the program that made it, as far as it is known. -/
structure PlacedEntry where
  entry : Entry
  file : Option String
  line : Option Nat
  deriving DecidableEq, Repr

/-- The line of an entry, with its place at the end. -/
def PlacedEntry.text (setting : Level) (time : String) (e : PlacedEntry) : String :=
  e.entry.line setting time ++ " <" ++ e.file.getD "unknown_file" ++ ":" ++ Nat.repr (e.line.getD 0) ++ ">"

/-- What happens to the log of a process. -/
inductive LogStep
  | setup
  | record (e : PlacedEntry)
  deriving DecidableEq, Repr

/-- What a second attempt to set the log up prints. -/
def secondSetup : String :=
  "Logger initialization failed: attempted to set a logger after the logging system was already initialized"

/-- The log of a process: the setting it was set up with, if it was. -/
structure Log where
  setting : Option Level
  deriving DecidableEq, Repr

/-- Takes a step under the level that the environment names, and gives what is printed. -/
def Log.step (level : Level) (time : String) (log : Log) : LogStep → Log × List String
  | .setup =>
    match log.setting with
    | none => (⟨some level⟩, [])
    | some _ => (log, [secondSetup])
  | .record e =>
    match log.setting with
    | none => (log, [])
    | some setting => (log, if e.entry.level.passes setting then [e.text setting time] else [])

/-- What is printed over all steps. -/
def Log.run (level : Level) (time : String) (log : Log) : List LogStep → List String
  | [] => []
  | s :: rest =>
    let (log, lines) := log.step level time s
    lines ++ log.run level time rest

end Pinboard
