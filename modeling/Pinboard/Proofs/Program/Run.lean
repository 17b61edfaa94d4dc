import Pinboard.Program.Run
import Pinboard.Proofs.Client.Once
import Pinboard.Proofs.Text.Lines

/-! What a run of a program amounts to. Each run stands for one outcome: the text that it is asked for, or a fault. The
    exit code, the output and the last line on the error output tell that outcome and nothing else, and what goes to
    the bus is one request on one connection for each operation. -/

namespace Pinboard

namespace Program

open Text (OneLine)

/-- The report tells an outcome: the text that was asked for, or a fault. -/
structure Report.Tells (r : Report) (outcome : Except Fault String) : Prop where
  code : (r.code = 0 ↔ ∃ text, outcome = .ok text) ∧ (r.code ≠ 0 → r.code = 1)
  /-- The text is all that is printed, and entries of the log are not in it. -/
  success : ∀ text, outcome = .ok text → r.output = text
  /-- A fault is told in the last line of the error output, whatever is logged before. -/
  failure : ∀ fault, outcome = .error fault → r.output = "" ∧ OneLine fault.shown ∧
    ∀ setting time, (r.errorLines setting time).getLast? = some ("Error: " ++ fault.shown)

theorem Report.getLast?_errorLines {r : Report} {before : List ErrorLine} {fault : Fault}
    (h : r.errors = before ++ [Program.failure fault]) (setting : Level) (time : String) :
    (r.errorLines setting time).getLast? = some ("Error: " ++ fault.shown) := by
  rw [errorLines, h, List.filterMap_append]
  exact List.getLast?_concat

theorem Report.tells_fault {r : Report} {before : List ErrorLine} {fault : Fault} (code : r.code = 1) (output : r.output = "")
    (errors : r.errors = before ++ [Program.failure fault]) : r.Tells (.error fault) where
  code := ⟨⟨fun h => absurd (code.symm.trans h) (by decide), nofun⟩, fun _ => code⟩
  success := nofun
  failure := by
    rintro _ ⟨⟩
    exact ⟨output, fault.oneLine_shown, getLast?_errorLines errors⟩

theorem Report.tells_text {r : Report} {text : String} (code : r.code = 0) (output : r.output = text) :
    r.Tells (.ok text) where
  code := ⟨⟨fun _ => ⟨text, rfl⟩, fun _ => code⟩, fun h => absurd code h⟩
  success := by
    rintro _ ⟨⟩
    exact output
  failure := nofun

theorem Report.tells_conclude (clients : List Client) (outcome : Except Fault (String × List Entry)) :
    (Report.conclude clients outcome).Tells (outcome.map (·.1)) := by
  cases outcome with
  | error fault => exact tells_fault rfl rfl rfl
  | ok concluded => exact tells_text rfl rfl

theorem Report.connections_conclude (clients : List Client) (outcome : Except Fault (String × List Entry)) :
    (Report.conclude clients outcome).connections = clients.map (·.connection.received) := by
  cases outcome <;> rfl

/-! ### Runs of `board` -/

/-- The request of a command for an application. -/
def Command.request (appId : String) (id : CallId) : Command → Request
  | .put key value =>
    .call id Board.target "Put" (.array [.string appId, .ofBytes (Utf8.encode key), .ofBytes (Utf8.encode value)])
  | .get key => .call id Board.target "Get" (.array [.string appId, .ofBytes (Utf8.encode key)])
  | .ping => .hasObject Board.serviceName

/-- The operation of a command, with the text that it prints as its outcome. -/
def Command.query (appId : String) : Command → (β : Type) × Query β String
  | .put key value => ⟨_, ((Board.mk appId).put key value).map fun () => ""⟩
  | .get key => ⟨_, ((Board.mk appId).get key).map (valuesLine key)⟩
  | .ping => ⟨_, (Board.mk appId).isAvailable.map fun present => if present then "available\n" else "not available\n"⟩

/-- The operation of a command at work: its outcome, and the client if it could connect. -/
def Command.once (appId : String) (s : Surroundings) (command : Command) : Except Fault String × Option Client :=
  Client.once (s.network 0) s.peer s.ids s.bus (command.query appId).2

theorem Command.request_query (appId : String) (id : CallId) (command : Command) :
    (command.query appId).2.ask.request id = command.request appId id := by
  cases command <;> rfl

theorem Surroundings.tells_runOnce (s : Surroundings) {β α : Type} (q : Query β α) (success : α → String × List Entry)
    (text : α → String) (h : ∀ a, (success a).1 = text a) :
    (s.runOnce q success).Tells (Client.once (s.network 0) s.peer s.ids s.bus (q.map text)).1 ∧
      (s.runOnce q success).connections =
        (Client.once (s.network 0) s.peer s.ids s.bus (q.map text)).2.toList.map (·.connection.received) := by
  rw [Client.once_map, runOnce]
  generalize Client.once (s.network 0) s.peer s.ids s.bus q = step
  obtain ⟨outcome, client?⟩ := step
  refine ⟨?_, Report.connections_conclude _ _⟩
  have htells := Report.tells_conclude client?.toList (outcome.map success)
  have htext : (outcome.map success).map (·.1) = outcome.map text := by
    cases outcome with
    | error fault => rfl
    | ok a => exact congrArg _ (h a)
  rwa [htext] at htells

theorem Command.tells_run (appId : String) (s : Surroundings) (command : Command) :
    (command.run appId s).Tells (command.once appId s).1 ∧
      (command.run appId s).connections = (command.once appId s).2.toList.map (·.connection.received) := by
  cases command with
  | put key value => exact s.tells_runOnce _ _ _ fun _ => rfl
  | get key => exact s.tells_runOnce _ _ _ fun _ => rfl
  | ping => exact s.tells_runOnce _ _ _ fun _ => rfl

/-- What a run of `board` has to tell: a text that its arguments ask for, the outcome of the one operation, or what is
    wrong with the arguments. -/
def outcome (arguments : List String) (s : Surroundings) : Except Fault String :=
  match Invocation.parse arguments with
  | .ok .version => .ok (version ++ "\n")
  | .ok .help => .ok (usage ++ "\n")
  | .ok (.run appId command) => (command.once appId s).1
  | .error fault => .error (.io (.invocation fault.text))

/-- What a run of `board` is, whatever its surroundings. -/
structure BoardRun (arguments : List String) (s : Surroundings) : Prop where
  tells : (board arguments s).Tells (outcome arguments s)
  /-- Without a command there is no connection, and nothing is asked of the surroundings. -/
  idle : (∀ appId command, Invocation.parse arguments ≠ .ok (.run appId command)) →
    (board arguments s).connections = [] ∧ ∀ s', board arguments s' = board arguments s
  /-- With a command there is at most one connection, and at most its request is sent there. -/
  once : ∀ appId command, Invocation.parse arguments = .ok (.run appId command) →
    (board arguments s).connections = (command.once appId s).2.toList.map (·.connection.received) ∧
      Client.Once (s.network 0) s.bus (command.request appId (s.ids 0)) (outcome arguments s) (command.once appId s).2
  /-- Nobody is dialled but the bus of the session, and that only once. -/
  session : ∀ network', network' 0 s.bus = s.network 0 s.bus →
    board arguments { s with network := network' } = board arguments s

theorem Command.run_congr {s : Surroundings} {network' : Nat → Network} (h : network' 0 s.bus = s.network 0 s.bus)
    (appId : String) (command : Command) :
    command.run appId { s with network := network' } = command.run appId s := by
  have hbus : Surroundings.bus { s with network := network' } = s.bus := rfl
  cases command <;> simp only [run, Surroundings.runOnce, hbus, Client.once_congr h]

theorem BoardRun.of_idle {arguments : List String} {s : Surroundings} {r : Report}
    (idle : ∀ appId command, Invocation.parse arguments ≠ .ok (.run appId command)) (h : ∀ s, board arguments s = r)
    (connections : r.connections = []) (tells : r.Tells (outcome arguments s)) : BoardRun arguments s where
  tells := h s ▸ tells
  idle _ := ⟨h s ▸ connections, fun s' => (h s').trans (h s).symm⟩
  once appId command hparse := absurd hparse (idle appId command)
  session _ _ := (h _).trans (h s).symm

theorem boardRun (arguments : List String) (s : Surroundings) : BoardRun arguments s := by
  have houtcome := outcome.eq_def arguments s
  have hboard (s : Surroundings) := board.eq_def arguments s
  cases hparse : Invocation.parse arguments with
  | error fault =>
    simp only [hparse] at houtcome hboard
    refine .of_idle (by simp [hparse]) hboard rfl ?_
    rw [houtcome]
    exact @Report.tells_fault _ [.entry ⟨.error, fault.text⟩, .plain usage] _ rfl rfl rfl
  | ok invocation =>
    cases invocation with
    | version =>
      simp only [hparse] at houtcome hboard
      exact .of_idle (by simp [hparse]) hboard rfl (houtcome ▸ Report.tells_text rfl rfl)
    | help =>
      simp only [hparse] at houtcome hboard
      exact .of_idle (by simp [hparse]) hboard rfl (houtcome ▸ Report.tells_text rfl rfl)
    | run appId command =>
      simp only [hparse] at houtcome hboard
      obtain ⟨tells, connections⟩ := command.tells_run appId s
      refine ⟨?_, fun idle => absurd hparse (idle appId command), fun appId' command' h => ?_, fun network' h => ?_⟩
      · rw [hboard, houtcome]
        exact tells
      · rw [hparse, Except.ok.injEq, Invocation.run.injEq] at h
        obtain ⟨rfl, rfl⟩ := h
        rw [hboard, houtcome, ← command.request_query]
        exact ⟨connections, Client.once_cases _ _ _ _ _⟩
      · rw [hboard, hboard]
        exact Command.run_congr h appId command

/-! ### Runs of `demo` -/

/-- The operation with which `demo` begins, and its client. -/
def demoPut (s : Surroundings) : Except Fault Unit × Option Client :=
  OneTime.put (s.network 0) s.peer s.ids s.addr s.socket demoKey demoValue

def demoPutRequest (s : Surroundings) : Request := (Command.put demoKey demoValue).request Board.defaultAppId (s.ids 0)

/-- The operation with which `demo` goes on, once the far end has received the first request. -/
def demoGet (s : Surroundings) : Except Fault (List String) × Option Client :=
  OneTime.get (s.network 1) (s.peer.after [demoPutRequest s]) (fun n => s.ids (1 + n)) s.addr s.socket demoKey

def demoGetRequest (s : Surroundings) : Request := (Command.get demoKey).request Board.defaultAppId (s.ids 1)

/-- What a run of `demo` has to tell: what is under its key, or what went wrong. -/
def demoOutcome (s : Surroundings) : Except Fault String :=
  match (demoPut s).1 with
  | .error fault => .error fault
  | .ok () => (demoGet s).1.map (valuesLine demoKey)

theorem once_demoPut (s : Surroundings) :
    Client.Once (s.network 0) s.bus (demoPutRequest s) (demoPut s).1 (demoPut s).2 :=
  Client.once_cases (s.network 0) s.peer s.ids s.bus (Board.default.put demoKey demoValue)

theorem once_demoGet (s : Surroundings) :
    Client.Once (s.network 1) s.bus (demoGetRequest s) (demoGet s).1 (demoGet s).2 :=
  Client.once_cases (s.network 1) (s.peer.after [demoPutRequest s]) (fun n => s.ids (1 + n)) s.bus (Board.default.get demoKey)

theorem demo_of_error {s : Surroundings} {fault : Fault} (h : (demoPut s).1 = .error fault) :
    demo s = .conclude (demoPut s).2.toList (.error fault) := by
  have hput : OneTime.put (s.network 0) s.peer s.ids s.addr s.socket demoKey demoValue = (.error fault, (demoPut s).2) :=
    Prod.ext h rfl
  rw [demo, hput]

/-- After the first operation has succeeded, its client has used one id and the far end has its request. -/
theorem demo_of_ok {s : Surroundings} (h : (demoPut s).1 = .ok ()) :
    ∃ c : Client, (demoPut s).2 = some c ∧ c.connection.received = [demoPutRequest s] ∧
      demo s = .conclude (c :: (demoGet s).2.toList) ((demoGet s).1.map fun values => (valuesLine demoKey values, [])) := by
  have hput : OneTime.put (s.network 0) s.peer s.ids s.addr s.socket demoKey demoValue = (.ok (), (demoPut s).2) :=
    Prod.ext h rfl
  have honce := once_demoPut s
  rw [h] at honce
  generalize (demoPut s).2 = client? at honce hput ⊢
  cases honce with
  | @asked _ _ c _ dial used accepted beginning received answered =>
    have hreceived := answered () rfl
    refine ⟨c, rfl, hreceived, ?_⟩
    -- So the second operation finds the far end and the supply of ids as `demoGet` has them.
    rw [demo, hput]
    simp only [Option.toList_some, List.flatMap_singleton, hreceived, Option.map_some, Option.getD_some, used]
    rfl

/-- What a run of `demo` is, whatever its surroundings. -/
structure DemoRun (s : Surroundings) : Prop where
  tells : (demo s).Tells (demoOutcome s)
  /-- The first connection, if there is one, is for the first request. -/
  put : Client.Once (s.network 0) s.bus (demoPutRequest s) (demoPut s).1 (demoPut s).2
  /-- If the first operation fails it is the only one, and nobody is dialled again. -/
  failed : ∀ fault, (demoPut s).1 = .error fault →
    (demo s).connections = (demoPut s).2.toList.map (·.connection.received) ∧
      ∀ network', network' 0 s.bus = s.network 0 s.bus → demo { s with network := network' } = demo s
  /-- If it succeeds, its request was received, and there is at most one more connection for the second request. -/
  stored : (demoPut s).1 = .ok () →
    (demo s).connections = [demoPutRequest s] :: (demoGet s).2.toList.map (·.connection.received) ∧
      Client.Once (s.network 1) s.bus (demoGetRequest s) (demoGet s).1 (demoGet s).2
  /-- Nothing is printed unless both succeed. -/
  silent : (demo s).output ≠ "" → (demoPut s).1 = .ok () ∧ ∃ values, (demoGet s).1 = .ok values ∧
    (demo s).output = valuesLine demoKey values

theorem demoRun (s : Surroundings) : DemoRun s := by
  cases hput : (demoPut s).1 with
  | error fault =>
    have hdemo := demo_of_error hput
    have houtcome : demoOutcome s = .error fault := by rw [demoOutcome, hput]
    refine ⟨?_, once_demoPut s, fun _ _ => ⟨?_, fun network' h => ?_⟩, fun h => absurd (hput.symm.trans h) nofun,
      fun h => ?_⟩
    · rw [hdemo, houtcome]
      exact Report.tells_conclude _ (.error fault)
    · rw [hdemo, Report.connections_conclude]
    · have hsame : demoPut { s with network := network' } = demoPut s := Client.once_congr h s.peer s.ids _
      rw [demo_of_error ((congrArg Prod.fst hsame).trans hput), hsame, hdemo]
    · rw [hdemo] at h
      exact absurd rfl h
  | ok =>
    obtain ⟨c, hclient, hreceived, hdemo⟩ := demo_of_ok hput
    have houtcome : demoOutcome s = (demoGet s).1.map (valuesLine demoKey) := by rw [demoOutcome, hput]
    have htells := Report.tells_conclude (c :: (demoGet s).2.toList)
      ((demoGet s).1.map fun values => (valuesLine demoKey values, []))
    have htext : ((demoGet s).1.map fun values => (valuesLine demoKey values, ([] : List Entry))).map (·.1) =
        demoOutcome s := by
      rw [houtcome]
      cases (demoGet s).1 <;> rfl
    rw [← hdemo, htext] at htells
    refine ⟨htells, once_demoPut s, fun fault h => absurd (hput.symm.trans h) nofun, fun _ => ⟨?_, once_demoGet s⟩,
      fun h => ⟨hput, ?_⟩⟩
    · rw [hdemo, Report.connections_conclude, List.map_cons, hreceived]
    · cases hget : (demoGet s).1 with
      | error fault =>
        rw [hget] at houtcome
        exact absurd (htells.failure fault houtcome).1 h
      | ok values =>
        rw [hget] at houtcome
        exact ⟨values, rfl, htells.success _ houtcome⟩

/-- Every run of a program tells one outcome and asks the bus for no more than that takes. -/
theorem runs_of_programs (arguments : List String) (s : Surroundings) : BoardRun arguments s ∧ DemoRun s :=
  ⟨boardRun arguments s, demoRun s⟩

end Program

end Pinboard
