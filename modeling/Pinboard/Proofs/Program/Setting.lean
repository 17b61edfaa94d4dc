import Mathlib.Data.List.Induction
import Mathlib.Data.List.ReduceOption
import Pinboard.Proofs.Program.Run
import Pinboard.Proofs.Session

/-! The setting of the log. A process that tells an entry as soon as it has one, and keeps nothing of it, ends like the run
    that tells all its entries at the end. So the setting decides which entries are printed and how a line begins, and
    nothing that a process does depends on it otherwise. -/

namespace Pinboard

namespace Level

/-- The text that sets the log to a level. -/
def spelling : Level → String
  | error => "error"
  | warn => "warn"
  | info => "info"
  | debug => "debug"
  | trace => "trace"

theorem ofSetting_spelling (level : Level) : ofSetting (some (Utf8.encode level.spelling)) = level := by
  have hread : (some (Utf8.encode level.spelling)).bind Utf8.decode? = some level.spelling :=
    Utf8.bind_decode?_eq_some_iff.mpr rfl
  rw [ofSetting, hread]
  cases level <;> rfl

theorem ofSetting_of_ne {bytes? : Option (List UInt8)} (h : ∀ level : Level, bytes? ≠ some (Utf8.encode level.spelling)) :
    ofSetting bytes? = info := by
  have unread (level : Level) : bytes?.bind Utf8.decode? ≠ some level.spelling :=
    Utf8.bind_decode?_eq_some_iff.not.mpr (h level)
  unfold ofSetting
  split
  · exact absurd ‹_› (unread trace)
  · exact absurd ‹_› (unread debug)
  · rfl
  · exact absurd ‹_› (unread warn)
  · exact absurd ‹_› (unread error)
  · rfl

/-- What passes a setting passes one that is more verbose. -/
theorem passes_of_le {level quiet verbose : Level} (h : quiet.rank ≤ verbose.rank) (passes : level.passes quiet) :
    level.passes verbose :=
  decide_eq_true (Nat.le_trans (of_decide_eq_true passes) h)

end Level

/-- Once it is set up, the log of a process prints the entries that pass, and no others. -/
theorem Log.run_setup (level : Level) (time : String) (entries : List PlacedEntry) :
    Log.run level time ⟨none⟩ (.setup :: entries.map .record) =
      (entries.filter (·.entry.level.passes level)).map (·.text level time) := by
  show Log.run level time ⟨some level⟩ (entries.map .record) = _
  induction entries with
  | nil => rfl
  | cons e rest ih =>
    show (if e.entry.level.passes level then [e.text level time] else []) ++ Log.run level time ⟨some level⟩ _ = _
    rw [ih]
    by_cases passes : e.entry.level.passes level = true
    · rw [List.filter_cons, if_pos passes, if_pos passes, List.map_cons, List.singleton_append]
    · rw [List.filter_cons, if_neg passes, if_neg passes, List.nil_append]

/-! ### Nobody reads a journal -/

namespace Client

variable {β : Type}

/-- The client with entries in front of its journal. -/
def behind (entries : List Entry) (c : Client) : Client := { c with journal := entries ++ c.journal }

theorem answer_behind (peer : Peer) (ask : Ask β) (entries : List Entry) (c : Client) :
    (c.behind entries).answer peer ask = ((c.answer peer ask).1, (c.answer peer ask).2.behind entries) := by
  simp only [answer, takeId, note, behind]
  rcases c.connection.request peer (ask.request (c.ids c.asked)) with ⟨_ | response, connection⟩
  · simp only [List.append_assoc]
  · simp only [List.append_assoc]

end Client

namespace Program

/-! ### Error output that is printed at once -/

namespace ErrorLine

/-- The line is printed under a setting. -/
def shown (setting : Level) : ErrorLine → Bool
  | entry e => e.level.passes setting
  | plain _ => true

def isPlain : ErrorLine → Bool
  | entry _ => false
  | plain _ => true

/-- What stands in front of the line under a setting. -/
def stamp (setting : Level) (time : String) : ErrorLine → String
  | entry _ => if setting = .info then "" else "[" ++ time ++ "]"
  | plain _ => ""

/-- The line without the time. -/
def bare : ErrorLine → String
  | entry e => "[" ++ e.level.name ++ "]: " ++ e.message
  | plain text => text

theorem shown_of_le {quiet verbose : Level} (h : quiet.rank ≤ verbose.rank) {line : ErrorLine} (shown : line.shown quiet) :
    line.shown verbose := by
  cases line with
  | entry e => exact Level.passes_of_le h shown
  | plain text => rfl

theorem filter_filter {quiet verbose : Level} (h : quiet.rank ≤ verbose.rank) (lines : List ErrorLine) :
    (lines.filter (shown verbose)).filter (shown quiet) = lines.filter (shown quiet) := by
  rw [List.filter_filter]
  refine List.filter_congr fun line _ => ?_
  cases hshown : line.shown quiet with
  | false => rfl
  | true => exact shown_of_le h hshown

theorem filter_isPlain (setting : Level) (lines : List ErrorLine) :
    (lines.filter (shown setting)).filter isPlain = lines.filter isPlain := by
  rw [List.filter_filter]
  refine List.filter_congr fun line _ => ?_
  cases line <;> rfl

end ErrorLine

/-- A printed line, with the time stamp that it began with. -/
structure Printed where
  stamp : String
  line : ErrorLine
  deriving DecidableEq, Repr

def Printed.text (p : Printed) : String := p.stamp ++ p.line.bare

/-- Lines as they are printed under a setting. The clock tells the time for each of them. -/
def printAll (setting : Level) (clock : Nat → String) (lines : List ErrorLine) : List Printed :=
  (lines.filter (·.shown setting)).mapIdx fun i line => ⟨line.stamp setting (clock i), line⟩

theorem map_line_printAll (setting : Level) (clock : Nat → String) (lines : List ErrorLine) :
    (printAll setting clock lines).map (·.line) = lines.filter (·.shown setting) := by
  refine List.ext_getElem? fun i => ?_
  rw [printAll, List.getElem?_map, List.getElem?_mapIdx, Option.map_map]
  exact Option.map_id'

theorem errorLines_eq (setting : Level) (time : String) (r : Report) :
    r.errorLines setting time = (printAll setting (fun _ => time) r.errors).map Printed.text := by
  have hprinted (lines : List ErrorLine) : printAll setting (fun _ => time) lines =
      (lines.filter (·.shown setting)).map fun line => ⟨line.stamp setting time, line⟩ := by
    refine List.ext_getElem? fun i => ?_
    rw [printAll, List.getElem?_mapIdx, List.getElem?_map]
  rw [hprinted, List.map_map, Report.errorLines]
  induction r.errors with
  | nil => rfl
  | cons line rest ih =>
    cases line with
    | plain text =>
      rw [List.filterMap_cons, List.filter_cons_of_pos rfl, List.map_cons, ih]
      exact congrArg (· :: _) String.empty_append.symm
    | entry e =>
      have hline : e.line setting time = Printed.text ⟨(ErrorLine.entry e).stamp setting time, .entry e⟩ := by
        simp only [Entry.line, Printed.text, ErrorLine.stamp, ErrorLine.bare, String.append_assoc]
      by_cases shown : (ErrorLine.entry e).shown setting = true
      · have passes : e.level.passes setting = true := shown
        rw [List.filterMap_cons, List.filter_cons_of_pos shown, List.map_cons, ← ih]
        simp only [if_pos passes, hline]
        rfl
      · have held : ¬e.level.passes setting = true := shown
        rw [List.filterMap_cons, List.filter_cons_of_neg shown, ← ih]
        simp only [if_neg held]

/-- The error output of a process: the setting of its log, its clock, and what it has printed. -/
structure Console where
  setting : Level
  clock : Nat → String
  printed : List Printed

namespace Console

def tell (c : Console) (line : ErrorLine) : Console :=
  if line.shown c.setting then
    { c with printed := c.printed ++ [⟨line.stamp c.setting (c.clock c.printed.length), line⟩] }
  else c

def tellAll (c : Console) (lines : List ErrorLine) : Console := lines.foldl tell c

theorem tellAll_append (c : Console) (lines more : List ErrorLine) :
    c.tellAll (lines ++ more) = (c.tellAll lines).tellAll more :=
  List.foldl_append

/-- The console of a process under a setting, before it has printed anything. -/
def blank (setting : Level) (clock : Nat → String) : Console := ⟨setting, clock, []⟩

/-- To print each line when it is told is to print them all at the end. -/
theorem tellAll_blank (setting : Level) (clock : Nat → String) (lines : List ErrorLine) :
    (blank setting clock).tellAll lines = ⟨setting, clock, printAll setting clock lines⟩ := by
  induction lines using List.reverseRecOn with
  | nil => rfl
  | append_singleton lines line ih =>
    rw [tellAll_append, ih]
    show tell _ line = _
    rw [tell]
    by_cases shown : line.shown setting = true
    · rw [if_pos shown, printAll, printAll, List.filter_append, List.filter_cons_of_pos shown, List.filter_nil,
        List.mapIdx_concat, List.length_mapIdx]
    · rw [if_neg shown, printAll, printAll, List.filter_append, List.filter_cons_of_neg shown, List.filter_nil,
        List.append_nil]

variable {β α : Type}

/-- Tells what a client has in its journal, and takes it from there. -/
def drain (console : Console) (c : Client) : Client × Console :=
  ({ c with journal := [] }, console.tellAll (c.journal.map .entry))

/-- The bus of a client that tells everything at once. -/
def bus (peer : Peer) : Bus (Client × Console) where
  answer ask s :=
    let (answer, c) := s.1.answer peer ask
    (answer, s.2.drain c)
  note entries s := (s.1, s.2.tellAll (entries.map .entry))

theorem run_bus (peer : Peer) (q : Query β α) (console : Console) (c : Client) :
    (bus peer).run q (console.drain c) = ((c.run peer q).1, console.drain (c.run peer q).2) := by
  have hjournal : c = ({ c with journal := [] } : Client).behind c.journal := by
    rw [Client.behind, List.append_nil]
  have hanswer := Client.answer_behind peer q.ask c.journal { c with journal := [] }
  rw [← hjournal] at hanswer
  simp only [Client.run, Bus.run, Client.bus, bus, hanswer, drain, Client.note, Client.behind, List.map_append, tellAll_append]

/-- Connects for one query, and tells everything at once. -/
def once (console : Console) (network : Network) (peer : Peer) (ids : Nat → CallId) (address : BusAddress)
    (q : Query β α) : Except Fault α × Option Client × Console :=
  match Client.connect network ids address with
  | .error fault => (.error fault, none, console)
  | .ok c =>
    let (outcome, c, console) := (bus peer).run q (console.drain c)
    (outcome, some c, console)

end Console

/-- What clients that could connect have in their journals. -/
def told (clients : List Client) : List ErrorLine := (clients.flatMap (·.journal)).map .entry

theorem Console.once_eq {β α : Type} (console : Console) (network : Network) (peer : Peer) (ids : Nat → CallId)
    (address : BusAddress) (q : Query β α) :
    console.once network peer ids address q =
      ((Client.once network peer ids address q).1,
        (Client.once network peer ids address q).2.map fun c => { c with journal := [] },
        console.tellAll (told (Client.once network peer ids address q).2.toList)) := by
  rw [Console.once, Client.once]
  cases Client.connect network ids address with
  | error fault => rfl
  | ok c =>
    simp only [run_bus, told, Option.toList_some, List.flatMap_singleton]
    rfl

/-! ### Programs as plans -/

/-- What a program goes by: it ends, or it connects for a query and goes on with the outcome. -/
inductive Plan : Type 1
  | finish (code : Nat) (output : String) (last : List ErrorLine)
  | once {β α : Type} (q : Query β α) (next : Except Fault α → Plan)

/-- What the next connection finds after others. -/
def Surroundings.after (s : Surroundings) (tried : List (Option Client)) : Surroundings :=
  let clients := tried.reduceOption
  { s with
    network := fun n => s.network (tried.length + n)
    peer := s.peer.after (clients.flatMap (·.connection.received))
    ids := fun n => s.ids (clients.foldr (·.asked + ·) 0 + n) }

/-- How a run has ended: its clients, its exit code, its output, and what it tells at last. -/
structure Ended where
  clients : List Client
  code : Nat
  output : String
  last : List ErrorLine

def Ended.report (e : Ended) : Report := .ofClients e.code e.output e.clients e.last

/-- What a process leaves behind that has told everything at once. -/
structure Ending where
  code : Nat
  output : String
  printed : List Printed
  connections : List Connection

namespace Plan

/-- Follows the plan after connections that were tried before. -/
def run (s : Surroundings) (tried : List (Option Client)) : Plan → Ended
  | finish code output last => ⟨tried.reduceOption, code, output, last⟩
  | once q next =>
    let later := s.after tried
    let (outcome, client?) := Client.once (later.network 0) later.peer later.ids later.bus q
    (next outcome).run s (tried ++ [client?])

/-- Follows the plan and tells everything at once. -/
def runLive (s : Surroundings) (tried : List (Option Client)) (console : Console) : Plan → Ending
  | finish code output last =>
    ⟨code, output, (console.tellAll last).printed, tried.reduceOption.map (·.connection)⟩
  | once q next =>
    let later := s.after tried
    let (outcome, client?, console) := console.once (later.network 0) later.peer later.ids later.bus q
    (next outcome).runLive s (tried ++ [client?]) console

/-- Clients without their journals. -/
def silent (tried : List (Option Client)) : List (Option Client) :=
  tried.map (·.map fun c => { c with journal := [] })

theorem reduceOption_silent (tried : List (Option Client)) :
    (silent tried).reduceOption = tried.reduceOption.map fun c => { c with journal := [] } :=
  List.reduceOption_map

theorem silent_concat (tried : List (Option Client)) (client? : Option Client) :
    silent (tried ++ [client?]) = silent tried ++ [client?.map fun c => { c with journal := [] }] :=
  List.map_append

theorem told_concat (tried : List (Option Client)) (client? : Option Client) :
    told (tried ++ [client?]).reduceOption = told tried.reduceOption ++ told client?.toList := by
  rw [List.reduceOption_append, told, List.flatMap_append, List.map_append]
  cases client? <;> rfl

theorem after_silent (s : Surroundings) (tried : List (Option Client)) : s.after (silent tried) = s.after tried := by
  simp only [Surroundings.after, reduceOption_silent, List.foldr_map, List.flatMap_map]
  simp only [silent, List.length_map]

/-- A process that keeps no journal ends as the plan does, with the journals told one after another and then the rest. -/
theorem runLive_eq (s : Surroundings) (tried : List (Option Client)) (console : Console) (plan : Plan) :
    plan.runLive s (silent tried) (console.tellAll (told tried.reduceOption)) =
      ⟨(plan.run s tried).code, (plan.run s tried).output, (console.tellAll (plan.run s tried).report.errors).printed,
        (plan.run s tried).clients.map (·.connection)⟩ := by
  induction plan generalizing tried with
  | finish code output last =>
    rw [runLive, run, reduceOption_silent, List.map_map]
    show _ = (⟨code, output, (console.tellAll (told tried.reduceOption ++ last)).printed, _⟩ : Ending)
    rw [Console.tellAll_append]
    rfl
  | once q next ih =>
    rw [runLive, run, after_silent]
    simp only [Console.once_eq]
    rw [← ih, ← Console.tellAll_append, told_concat, silent_concat]

end Plan

/-! ### The two programs -/

open Text (quoted)

namespace Plan

/-- The end of a plan that comes to an outcome. -/
def conclude : Except Fault (String × List Entry) → Plan
  | .ok (output, entries) => finish 0 output (entries.map .entry)
  | .error fault => finish 1 "" [failure fault]

theorem report_conclude (s : Surroundings) (tried : List (Option Client)) (outcome : Except Fault (String × List Entry)) :
    ((conclude outcome).run s tried).report = .conclude tried.reduceOption outcome := by
  cases outcome <;> rfl

theorem after_nil (s : Surroundings) : s.after [] = s := by
  simp only [Surroundings.after, List.length_nil, Nat.zero_add, List.reduceOption_nil, List.flatMap_nil, List.foldr_nil]
  rfl

theorem after_singleton (s : Surroundings) (client? : Option Client) :
    s.after [client?] =
      { s with
        network := fun n => s.network (1 + n)
        peer := s.peer.after (client?.toList.flatMap (·.connection.received))
        ids := fun n => s.ids ((client?.map (·.asked)).getD 0 + n) } := by
  cases client? with
  | none => rfl
  | some c => rfl

end Plan

def Command.plan (appId : String) : Command → Plan
  | .put key value =>
    .once ((Board.mk appId).put key value) fun outcome =>
      .conclude (outcome.map fun () => ("", [⟨.info, "Stored value for " ++ quoted key ++ " in " ++ appId⟩]))
  | .get key =>
    .once ((Board.mk appId).get key) fun outcome => .conclude (outcome.map fun values => (valuesLine key values, []))
  | .ping =>
    .once (Board.mk appId).isAvailable fun outcome =>
      .conclude (outcome.map fun present => (if present then "available\n" else "not available\n", []))

def boardPlan (arguments : List String) : Plan :=
  match Invocation.parse arguments with
  | .ok .version => .finish 0 (version ++ "\n") []
  | .ok .help => .finish 0 (usage ++ "\n") []
  | .ok (.run appId command) => command.plan appId
  | .error fault => .finish 1 "" [.entry ⟨.error, fault.text⟩, .plain usage, failure (.io (.invocation fault.text))]

def demoPlan : Plan :=
  .once (Board.default.put demoKey demoValue) fun
    | .error fault => .conclude (.error fault)
    | .ok () =>
      .once (Board.default.get demoKey) fun outcome => .conclude (outcome.map fun values => (valuesLine demoKey values, []))

theorem Surroundings.report_once (s : Surroundings) {β α : Type} (q : Query β α) (success : α → String × List Entry) :
    ((Plan.once q fun outcome => .conclude (outcome.map success)).run s []).report = s.runOnce q success := by
  rw [Plan.run, Plan.after_nil, runOnce]
  generalize Client.once (s.network 0) s.peer s.ids s.bus q = step
  obtain ⟨outcome, client?⟩ := step
  rw [Plan.report_conclude]
  cases client? <;> rfl

/-- One of the programs, as it was started. -/
inductive Executable
  | board (arguments : List String)
  | demo
  deriving DecidableEq, Repr

namespace Executable

def report (s : Surroundings) : Executable → Report
  | board arguments => Program.board arguments s
  | demo => Program.demo s

def plan : Executable → Plan
  | board arguments => boardPlan arguments
  | demo => demoPlan

theorem report_board (arguments : List String) (s : Surroundings) :
    ((boardPlan arguments).run s []).report = Program.board arguments s := by
  rw [boardPlan, Program.board]
  cases Invocation.parse arguments with
  | error fault => rfl
  | ok invocation =>
    cases invocation with
    | version => rfl
    | help => rfl
    | run appId command => cases command <;> exact s.report_once _ _

theorem report_demo (s : Surroundings) : (demoPlan.run s []).report = Program.demo s := by
  have hput : OneTime.put (s.network 0) s.peer s.ids s.addr s.socket demoKey demoValue =
      Client.once (s.network 0) s.peer s.ids s.bus (Board.default.put demoKey demoValue) := rfl
  rw [demoPlan, Plan.run, Plan.after_nil, Program.demo, hput]
  generalize Client.once (s.network 0) s.peer s.ids s.bus (Board.default.put demoKey demoValue) = first
  obtain ⟨outcome, client?⟩ := first
  cases outcome with
  | error fault => cases client? <;> rfl
  | ok =>
    simp only [Plan.run]
    rw [Plan.report_conclude, List.nil_append, Plan.after_singleton]
    -- The second operation finds the same in both.
    show Report.conclude (_ ++ [(OneTime.get ..).2]).reduceOption (Except.map _ (OneTime.get ..).1) = _
    generalize OneTime.get _ _ _ s.addr s.socket demoKey = second
    obtain ⟨outcome, second?⟩ := second
    rw [List.reduceOption_append]
    cases client? <;> cases second? <;> rfl

theorem report_plan (x : Executable) (s : Surroundings) : (x.plan.run s []).report = x.report s := by
  cases x with
  | board arguments => exact report_board arguments s
  | demo => exact report_demo s

/-- What a process leaves behind under a value of the variable that sets the log. -/
def ending (debug : Option (List UInt8)) (clock : Nat → String) (s : Surroundings) (x : Executable) : Ending :=
  x.plan.runLive s [] (.blank (.ofSetting debug) clock)

theorem ending_eq (debug : Option (List UInt8)) (clock : Nat → String) (s : Surroundings) (x : Executable) :
    x.ending debug clock s =
      ⟨(x.report s).code, (x.report s).output, printAll (.ofSetting debug) clock (x.report s).errors,
        (x.plan.run s []).clients.map (·.connection)⟩ := by
  have hlive := Plan.runLive_eq s [] (.blank (.ofSetting debug) clock) x.plan
  simp only [report_plan, Console.tellAll_blank] at hlive
  rw [ending, ← report_plan]
  rw [← report_plan] at hlive
  exact hlive

end Executable

/-- How two runs of a program are alike that differ in the value of the variable that sets the log, and in their clocks. -/
structure SameButLog (x : Executable) (s : Surroundings) (debug debug' : Option (List UInt8)) (clock clock' : Nat → String) :
    Prop where
  /-- There are five texts that name a level. Any other value, and none, is as good as `info`. -/
  named : ∀ level : Level, Level.ofSetting (some (Utf8.encode level.spelling)) = level
  unnamed : ∀ bytes?, (∀ level : Level, bytes? ≠ some (Utf8.encode level.spelling)) → Level.ofSetting bytes? = .info
  /-- What a level does to a log: of the entries that come to it those are printed that pass. -/
  logged : ∀ (level : Level) time (entries : List PlacedEntry), Log.run level time ⟨none⟩ (.setup :: entries.map .record) =
    (entries.filter (·.entry.level.passes level)).map (·.text level time)
  /-- A process that tells everything at once leaves what the report of the run says. -/
  reported : ∀ debug clock, (x.ending debug clock s).code = (x.report s).code ∧
    (x.ending debug clock s).output = (x.report s).output ∧
    (x.ending debug clock s).connections.map (·.received) = (x.report s).connections ∧
    (x.ending debug clock s).printed = printAll (.ofSetting debug) clock (x.report s).errors
  lines : ∀ debug time, (x.ending debug (fun _ => time) s).printed.map Printed.text =
    (x.report s).errorLines (.ofSetting debug) time
  code : (x.ending debug' clock' s).code = (x.ending debug clock s).code
  output : (x.ending debug' clock' s).output = (x.ending debug clock s).output
  /-- On every connection the same is written and read. -/
  connections : (x.ending debug' clock' s).connections = (x.ending debug clock s).connections
  /-- Apart from the times, the run that tells less prints just those lines of the other that pass its setting. -/
  quieter : (Level.ofSetting debug').rank ≤ (Level.ofSetting debug).rank →
    (x.ending debug' clock' s).printed.map (·.line) =
      ((x.ending debug clock s).printed.map (·.line)).filter (·.shown (.ofSetting debug'))
  /-- What is no entry of the log is printed in both. -/
  others : ((x.ending debug' clock' s).printed.map (·.line)).filter ErrorLine.isPlain =
    ((x.ending debug clock s).printed.map (·.line)).filter ErrorLine.isPlain

/-- The setting of the log decides what is logged, and nothing else. -/
theorem sameButLog_of_settings (x : Executable) (s : Surroundings) (debug debug' : Option (List UInt8))
    (clock clock' : Nat → String) : SameButLog x s debug debug' clock clock' where
  named := Level.ofSetting_spelling
  unnamed _ := Level.ofSetting_of_ne
  logged := Log.run_setup
  reported debug clock := by
    rw [x.ending_eq]
    refine ⟨rfl, rfl, ?_, rfl⟩
    rw [← x.report_plan, List.map_map]
    rfl
  lines debug time := by
    rw [x.ending_eq, errorLines_eq]
  code := by rw [x.ending_eq, x.ending_eq]
  output := by rw [x.ending_eq, x.ending_eq]
  connections := by rw [x.ending_eq, x.ending_eq]
  quieter h := by
    rw [x.ending_eq, x.ending_eq, map_line_printAll, map_line_printAll]
    exact (ErrorLine.filter_filter h (x.report s).errors).symm
  others := by
    rw [x.ending_eq, x.ending_eq, map_line_printAll, map_line_printAll, ErrorLine.filter_isPlain, ErrorLine.filter_isPlain]

end Program

end Pinboard
