import Pinboard.Proofs.Program.Setting

/-! The log of a process, step by step. A process logs through a facility, in which a logger is installed and which bounds
    the levels that come to it. The logger has a filter of its own, and the level that was set when it was made decides the
    look of its lines. So one level is kept in three places. They agree at all times, also when another attempt to
    install a logger has failed, and what is printed is told by the steps alone. -/

namespace Pinboard

inductive Channel
  | output
  | errors
  deriving DecidableEq, Repr

/-- What turns entries into lines: the least severe level that is let through, the level that decides the look of a line,
    and where lines go. -/
structure Logger where
  filter : Level
  look : Level
  channel : Channel
  deriving DecidableEq, Repr

/-- The logger that is made when the log is set up under a level. -/
def Logger.ofLevel (level : Level) : Logger := ⟨level, level, .errors⟩

def Logger.lines (l : Logger) (time : String) (e : PlacedEntry) : List (Channel × String) :=
  if e.entry.level.passes l.filter then [(l.channel, e.text l.look time)] else []

/-- A level that bounds what comes to the logger made under it lets through what the logger does. -/
theorem Logger.lines_ofLevel (level : Level) (time : String) (e : PlacedEntry) :
    (if e.entry.level.passes level then (Logger.ofLevel level).lines time e else []) =
      (if e.entry.level.passes level then [e.text level time] else []).map (.errors, ·) := by
  by_cases passes : e.entry.level.passes level = true
  · simp [lines, ofLevel, passes]
  · simp [passes]

/-- A facility of a process for its log, with states `σ`. -/
structure Facility (σ : Type) where
  start : σ
  /-- The least severe level that comes to the logger. -/
  bound : σ → Option Level
  logger : σ → Option Logger
  /-- The state with another logger, or why it cannot be installed. -/
  install : Logger → σ → Except String σ
  log : σ → String → PlacedEntry → List (Channel × String)

/-- Why a facility does not take another logger. -/
def Facility.taken : String := "attempted to set a logger after the logging system was already initialized"

theorem secondSetup_eq : "Logger initialization failed: " ++ Facility.taken = secondSetup := by decide

/-- A facility takes one logger for good, and bounds the levels by its filter. Before that it prints nothing. -/
structure Facility.Lawful {σ : Type} (f : Facility σ) : Prop where
  fresh : f.bound f.start = none ∧ f.logger f.start = none
  installed : ∀ l s, f.logger s = none →
    ∃ s', f.install l s = .ok s' ∧ f.bound s' = some l.filter ∧ f.logger s' = some l
  refused : ∀ l s, f.logger s ≠ none → f.install l s = .error taken
  unlogged : ∀ s time e, f.bound s = none → f.log s time e = []
  logged : ∀ s time e bound l, f.bound s = some bound → f.logger s = some l →
    f.log s time e = if e.entry.level.passes bound then l.lines time e else []

/-- A step of a process with the time at which it is taken. -/
structure Moment where
  time : String
  step : LogStep
  deriving DecidableEq, Repr

/-! ### Runs -/

/-- Takes a step of a process that logs through the facility under a level, and gives what is printed. -/
def Facility.step {σ : Type} (f : Facility σ) (level : Level) (s : σ) (m : Moment) : σ × List (Channel × String) :=
  match m.step with
  | .setup =>
    match f.install (.ofLevel level) s with
    | .ok s => (s, [])
    | .error why => (s, [(.errors, "Logger initialization failed: " ++ why)])
  | .record e => (s, f.log s m.time e)

def Facility.run {σ : Type} (f : Facility σ) (level : Level) (s : σ) : List Moment → σ × List (Channel × String)
  | [] => (s, [])
  | m :: rest =>
    let (s, lines) := f.step level s m
    let (s, more) := f.run level s rest
    (s, lines ++ more)

theorem Facility.run_append {σ : Type} (f : Facility σ) (level : Level) (s : σ) (moments more : List Moment) :
    f.run level s (moments ++ more) = ((f.run level (f.run level s moments).1 more).1,
      (f.run level s moments).2 ++ (f.run level (f.run level s moments).1 more).2) := by
  induction moments generalizing s with
  | nil => rfl
  | cons m moments ih => simp only [List.cons_append, run, ih, List.append_assoc]

namespace Log

/-- The steps of `run`, each at its time. -/
def runAt (level : Level) (log : Log) : List Moment → Log × List String
  | [] => (log, [])
  | m :: rest =>
    let (log, lines) := log.step level m.time m.step
    let (log, more) := log.runAt level rest
    (log, lines ++ more)

theorem runAt_append (level : Level) (log : Log) (moments more : List Moment) :
    log.runAt level (moments ++ more) = (((log.runAt level moments).1.runAt level more).1,
      (log.runAt level moments).2 ++ ((log.runAt level moments).1.runAt level more).2) := by
  induction moments generalizing log with
  | nil => rfl
  | cons m moments ih => simp only [List.cons_append, runAt, ih, List.append_assoc]

theorem run_eq (level : Level) (time : String) (log : Log) (steps : List LogStep) :
    log.run level time steps = (log.runAt level (steps.map (Moment.mk time))).2 := by
  induction steps generalizing log with
  | nil => rfl
  | cons s steps ih => simp only [run, List.map_cons, runAt, ih]

end Log

/-! ### What is printed -/

/-- The log has been set up at one of the moments. -/
def isSetUp (moments : List Moment) : Bool := moments.any (·.step = .setup)

/-- What is printed at a moment, told by the moments before it. -/
def Moment.lines (level : Level) (before : List Moment) (m : Moment) : List String :=
  match m.step with
  | .setup => if isSetUp before then [secondSetup] else []
  | .record e => if isSetUp before ∧ e.entry.level.rank ≤ level.rank then [e.text level m.time] else []

/-- What is printed at all moments, in order. -/
def Log.lines (level : Level) (moments : List Moment) : List String :=
  (moments.mapIdx fun i m => m.lines level (moments.take i)).flatten

theorem isSetUp_concat (moments : List Moment) (m : Moment) :
    isSetUp (moments ++ [m]) = (isSetUp moments || decide (m.step = .setup)) := by
  rw [isSetUp, List.any_append, List.any_cons, List.any_nil, Bool.or_false, isSetUp]

theorem Log.lines_concat (level : Level) (moments : List Moment) (m : Moment) :
    Log.lines level (moments ++ [m]) = Log.lines level moments ++ m.lines level moments := by
  have hbefore : (moments.mapIdx fun i x => x.lines level ((moments ++ [m]).take i)) =
      moments.mapIdx fun i x => x.lines level (moments.take i) := by
    refine List.ext_getElem (by simp) fun i hi hi' => ?_
    rw [List.length_mapIdx] at hi
    rw [List.getElem_mapIdx, List.getElem_mapIdx, List.take_append_of_le_length (Nat.le_of_lt hi)]
  rw [Log.lines, List.mapIdx_concat, hbefore, List.take_left, List.flatten_append, List.flatten_singleton, Log.lines]

/-- The log after moments at which it may have been set up. -/
def Log.after (level : Level) (moments : List Moment) : Log := ⟨if isSetUp moments then some level else none⟩

theorem Log.step_after (level : Level) (moments : List Moment) (m : Moment) :
    (after level moments).step level m.time m.step = (after level (moments ++ [m]), m.lines level moments) := by
  rw [after, after, isSetUp_concat, Moment.lines]
  cases m.step with
  | setup => cases isSetUp moments <;> rfl
  | record e =>
    cases isSetUp moments with
    | false => rfl
    | true =>
      simp only [step, Level.passes, decide_eq_true_eq, true_and, if_true, reduceCtorEq, decide_false, Bool.or_false]

theorem Log.runAt_start (level : Level) (moments : List Moment) :
    (⟨none⟩ : Log).runAt level moments = (after level moments, Log.lines level moments) := by
  -- A line is told by what is before it, so the last moment is taken off.
  induction moments using List.reverseRecOn with
  | nil => rfl
  | append_singleton moments m ih =>
    rw [runAt_append, ih, lines_concat]
    simp only [runAt, step_after, List.append_nil]

/-! ### The facility keeps to the log -/

namespace Facility

variable {σ : Type} {f : Facility σ} {level : Level} {log : Log} {s : σ}

/-- The bound and the logger of the facility are those of the log. -/
structure Agrees (f : Facility σ) (log : Log) (s : σ) : Prop where
  bound : f.bound s = log.setting
  logger : f.logger s = log.setting.map .ofLevel

theorem Lawful.agrees_start (lawful : f.Lawful) : f.Agrees ⟨none⟩ f.start := ⟨lawful.fresh.1, lawful.fresh.2⟩

theorem Agrees.step (lawful : f.Lawful) (h : f.Agrees log s) (level : Level) (m : Moment) :
    f.Agrees (log.step level m.time m.step).1 (f.step level s m).1 ∧
      (f.step level s m).2 = (log.step level m.time m.step).2.map (.errors, ·) := by
  obtain ⟨setting⟩ := log
  obtain ⟨bound, logger⟩ := h
  rw [Facility.step]
  cases m.step with
  | setup =>
    cases setting with
    | none =>
      obtain ⟨s', hinstall, hbound, hlogger⟩ := lawful.installed (.ofLevel level) s logger
      simp only [hinstall]
      exact ⟨⟨hbound, hlogger⟩, rfl⟩
    | some kept =>
      have hlogger : f.logger s ≠ none := by
        rw [logger]
        exact Option.some_ne_none _
      simp only [lawful.refused (.ofLevel level) s hlogger, secondSetup_eq]
      exact ⟨⟨bound, logger⟩, rfl⟩
  | record e =>
    cases setting with
    | none => exact ⟨⟨bound, logger⟩, lawful.unlogged s m.time e bound⟩
    | some kept =>
      refine ⟨⟨bound, logger⟩, (lawful.logged s m.time e kept (.ofLevel kept) bound logger).trans ?_⟩
      exact Logger.lines_ofLevel kept m.time e

theorem Agrees.run (lawful : f.Lawful) (h : f.Agrees log s) (level : Level) (moments : List Moment) :
    f.Agrees (log.runAt level moments).1 (f.run level s moments).1 ∧
      (f.run level s moments).2 = (log.runAt level moments).2.map (.errors, ·) := by
  induction moments generalizing log s with
  | nil => exact ⟨h, rfl⟩
  | cons m moments ih =>
    obtain ⟨hstep, hlines⟩ := h.step lawful level m
    obtain ⟨hrun, hmore⟩ := ih hstep
    refine ⟨hrun, ?_⟩
    simp only [Facility.run, Log.runAt, hlines, hmore, List.map_append]

/-- To set the log up once more leaves the facility as it is. -/
theorem step_setup_again (lawful : f.Lawful) (level : Level) (time : String) (h : f.logger s ≠ none) :
    f.step level s ⟨time, .setup⟩ = (s, [(.errors, secondSetup)]) := by
  simp only [step, lawful.refused (.ofLevel level) s h, secondSetup_eq]

end Facility

/-! ### Results -/

/-- The text of an entry without the time. A place that is not known has a name of its own. -/
def PlacedEntry.bare (e : PlacedEntry) : String :=
  "[" ++ e.entry.level.name ++ "]: " ++ e.entry.message ++ " <" ++ e.file.getD "unknown_file" ++ ":" ++
    Nat.repr (e.line.getD 0) ++ ">"

/-- What the value of the variable that sets the log is taken for, and what the lines look like then. -/
structure Looks (debug : Option (List UInt8)) (level : Level) : Prop where
  named : ∀ l : Level, debug = some (Utf8.encode l.spelling) → level = l
  unnamed : (∀ l : Level, debug ≠ some (Utf8.encode l.spelling)) → level = .info
  stamped : ∀ time (e : PlacedEntry), e.text level time = if level = .info then e.bare else "[" ++ time ++ "]" ++ e.bare
  unplaced : (∀ entry line, PlacedEntry.bare ⟨entry, none, line⟩ = PlacedEntry.bare ⟨entry, some "unknown_file", line⟩) ∧
    ∀ entry file, PlacedEntry.bare ⟨entry, file, none⟩ = PlacedEntry.bare ⟨entry, file, some 0⟩

/-- How a process logs that sets its log up under a level, once or more often. -/
structure Logs {σ : Type} (f : Facility σ) (level : Level) (moments : List Moment) : Prop where
  /-- What is printed comes moment by moment on the error output, each line told by the moments before it. -/
  lines : (f.run level f.start moments).2 = (Log.lines level moments).map (.errors, ·)
  silent : ∀ line, (.output, line) ∉ (f.run level f.start moments).2
  /-- One level is kept in all places. -/
  kept : f.bound (f.run level f.start moments).1 = (if isSetUp moments then some level else none) ∧
    f.logger (f.run level f.start moments).1 = if isSetUp moments then some ⟨level, level, .errors⟩ else none
  /-- Another attempt to set the log up prints a line and changes nothing that comes later. -/
  again : isSetUp moments → ∀ time more, ∃ rest,
    (f.run level f.start (moments ++ more)).2 = (f.run level f.start moments).2 ++ rest ∧
      (f.run level f.start (moments ++ ⟨time, .setup⟩ :: more)).2 =
        (f.run level f.start moments).2 ++ (.errors, secondSetup) :: rest

theorem looks_ofSetting (debug : Option (List UInt8)) : Looks debug (.ofSetting debug) where
  named l h := h ▸ Level.ofSetting_spelling l
  unnamed h := Level.ofSetting_of_ne h
  stamped time e := by
    simp only [PlacedEntry.text, Entry.line, PlacedEntry.bare]
    split
    · simp only [String.empty_append]
    · simp only [String.append_assoc]
  unplaced := ⟨fun _ _ => rfl, fun _ _ => rfl⟩

theorem logs {σ : Type} {f : Facility σ} (lawful : f.Lawful) (level : Level) (moments : List Moment) :
    Logs f level moments := by
  obtain ⟨⟨hbound, hlogger⟩, hlines⟩ := lawful.agrees_start.run lawful level moments
  rw [Log.runAt_start] at hbound hlogger hlines
  refine ⟨hlines, fun line h => ?_, ⟨hbound, ?_⟩, fun set time more => ?_⟩
  · rw [hlines] at h
    obtain ⟨text, -, htext⟩ := List.mem_map.mp h
    cases htext
  · rw [hlogger, Log.after]
    split <;> rfl
  · have hinstalled : f.logger (f.run level f.start moments).1 ≠ none := by
      rw [hlogger, Log.after, if_pos set]
      exact Option.some_ne_none _
    refine ⟨(f.run level (f.run level f.start moments).1 more).2, by rw [f.run_append], ?_⟩
    rw [f.run_append]
    simp only [Facility.run, Facility.step_setup_again lawful level time hinstalled, List.singleton_append]

/-- What a process logs is told by the value of the variable and by its steps, and by the time only where it is stamped. -/
theorem logs_told_by_steps {σ : Type} {f : Facility σ} (lawful : f.Lawful) (debug : Option (List UInt8))
    (moments : List Moment) :
    Looks debug (.ofSetting debug) ∧ Logs f (.ofSetting debug) moments ∧
      ∀ time steps, Log.run (.ofSetting debug) time ⟨none⟩ steps =
        Log.lines (.ofSetting debug) (steps.map (Moment.mk time)) :=
  ⟨looks_ofSetting debug, logs lawful (.ofSetting debug) moments, fun time steps => by rw [Log.run_eq, Log.runAt_start]⟩

/-- A facility that keeps its bound and its logger side by side. -/
def Facility.pair : Facility (Option Level × Option Logger) where
  start := (none, none)
  bound := Prod.fst
  logger := Prod.snd
  install l
    | (_, none) => .ok (some l.filter, some l)
    | (_, some _) => .error taken
  log
    | (some bound, some l), time, e => if e.entry.level.passes bound then l.lines time e else []
    | _, _, _ => []

theorem Facility.lawful_pair : pair.Lawful where
  fresh := ⟨rfl, rfl⟩
  installed := by
    rintro l ⟨_, _⟩ ⟨⟩
    exact ⟨_, rfl, rfl, rfl⟩
  refused := by
    rintro l ⟨_, _ | _⟩ h
    · exact absurd rfl h
    · rfl
  unlogged := by
    rintro ⟨_, _⟩ time e ⟨⟩
    rfl
  logged := by
    rintro ⟨_, _⟩ time e bound l ⟨⟩ ⟨⟩
    rfl

/-- A process that logs before its log is set up, sets it up twice, and logs in between and at the end. -/
def twiceSetUp : List Moment :=
  [⟨"1", .record ⟨⟨.error, "a"⟩, none, none⟩⟩, ⟨"2", .setup⟩, ⟨"3", .record ⟨⟨.info, "b"⟩, none, none⟩⟩, ⟨"4", .setup⟩,
   ⟨"5", .record ⟨⟨.error, "c"⟩, none, none⟩⟩]

theorem logs_told_by_steps_warn :
    Facility.pair.Lawful ∧ (Facility.pair.run (.ofSetting (some (Utf8.encode "warn"))) (none, none) twiceSetUp).2 =
      [(.errors, secondSetup), (.errors, "[5][ERROR]: c <unknown_file:0>")] := by
  obtain ⟨-, ⟨hlines, -⟩, -⟩ := logs_told_by_steps Facility.lawful_pair (some (Utf8.encode "warn")) twiceSetUp
  exact ⟨Facility.lawful_pair, hlines.trans (by decide +kernel)⟩

end Pinboard
