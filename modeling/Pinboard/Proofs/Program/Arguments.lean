import Pinboard.Proofs.Program.Run

/-! The language of the command line, apart from the reader of it. Pairs choose the application, the last one for good;
    behind them stands nothing, a flag with anything after it, or one command with its operands and nothing more. What
    an argument is depends on its place alone, so an application or an operand may look like a flag or a command. -/

namespace Pinboard.Program

/-- The words of a command. -/
def Command.words : Command → List String
  | put key value => ["put", key, value]
  | get key => ["get", key]
  | ping => ["ping"]

/-- The pairs that choose applications one after another. -/
def choices (appIds : List String) : List String := appIds.flatMap fun appId => ["--app-id", appId]

theorem choices_cons (appId : String) (appIds : List String) :
    choices (appId :: appIds) = "--app-id" :: appId :: choices appIds := rfl

/-- What the arguments behind the pairs ask for, if `appId` is chosen. -/
inductive AsksFor (appId : String) : List String → Invocation → Prop
  | nothing : AsksFor appId [] .help
  | help {flag : String} (known : flag = "--help" ∨ flag = "-h") (rest : List String) : AsksFor appId (flag :: rest) .help
  | version {flag : String} (known : flag = "--version" ∨ flag = "-v") (rest : List String) :
    AsksFor appId (flag :: rest) .version
  | command (command : Command) : AsksFor appId command.words (.run appId command)

/-- The arguments are pairs, and behind them ask for the invocation. -/
def Spells (arguments : List String) (i : Invocation) : Prop :=
  ∃ appIds rest, arguments = choices appIds ++ rest ∧ AsksFor (appIds.getLastD Board.defaultAppId) rest i

/-- What is wrong with the arguments behind the pairs, if they ask for nothing. -/
inductive Wrong : List String → ArgumentFault → Prop
  | noAppId : Wrong ["--app-id"] .noAppId
  | unknownFlag {flag : String} (dash : isFlag flag = true)
      (unknown : flag ∉ ["--version", "-v", "--help", "-h", "--app-id"]) (rest : List String) :
    Wrong (flag :: rest) (.unknownFlag flag)
  | unknownCommand {word : String} (plain : isFlag word = false) (unknown : word ∉ ["put", "get", "ping"])
      (rest : List String) : Wrong (word :: rest) (.unknownCommand word)
  | noKey {word : String} (known : word = "put" ∨ word = "get") : Wrong [word] (.missing "key")
  | noValue (key : String) : Wrong ["put", key] (.missing "value")
  | unexpected (command : Command) (extra : String) (rest : List String) :
    Wrong (command.words ++ extra :: rest) (.unexpected extra)

variable {appId : String} {rest : List String}

/-! ### What is read -/

theorem parseFrom_choices (appId : String) (appIds rest : List String) :
    Invocation.parseFrom appId (choices appIds ++ rest) = Invocation.parseFrom (appIds.getLastD appId) rest := by
  induction appIds generalizing appId with
  | nil => rfl
  | cons chosen appIds ih =>
    rw [choices_cons, List.getLastD_cons, ← ih]
    rfl

theorem parseFrom_word {word : String} (plain : isFlag word = false) :
    Invocation.parseFrom appId (word :: rest) = (Command.parse word rest).map (.run appId) := by
  have ne (flag : String) (dash : isFlag flag = true) : word ≠ flag := by
    rintro rfl
    exact Bool.false_ne_true (plain.symm.trans dash)
  rw [Invocation.parseFrom.eq_def]
  simp [plain, ne "--version" rfl, ne "-v" rfl, ne "--help" rfl, ne "-h" rfl, ne "--app-id" rfl]

theorem AsksFor.parseFrom {i : Invocation} (h : AsksFor appId rest i) : Invocation.parseFrom appId rest = .ok i := by
  cases h with
  | nothing => rfl
  | help known rest =>
    rw [Invocation.parseFrom.eq_def]
    rcases known with rfl | rfl <;> simp
  | version known rest =>
    rw [Invocation.parseFrom.eq_def]
    rcases known with rfl | rfl <;> simp
  | command command => cases command <;> rfl

theorem Wrong.parseFrom {fault : ArgumentFault} (h : Wrong rest fault) : Invocation.parseFrom appId rest = .error fault := by
  cases h with
  | noAppId => rfl
  | unknownFlag dash unknown rest =>
    simp only [List.mem_cons, List.not_mem_nil, or_false, not_or] at unknown
    rw [Invocation.parseFrom.eq_def]
    simp [dash, unknown]
  | unknownCommand plain unknown rest =>
    simp only [List.mem_cons, List.not_mem_nil, or_false, not_or] at unknown
    rw [parseFrom_word plain]
    simp [Command.parse, unknown, Except.map]
  | noKey known => rcases known with rfl | rfl <;> rfl
  | noValue key => rfl
  | unexpected command extra rest => cases command <;> rfl

/-! ### Nothing else is there -/

theorem words_or_wrong {word : String} (plain : isFlag word = false) (operands : List String) :
    (∃ command : Command, word :: operands = command.words) ∨ ∃ fault, Wrong (word :: operands) fault := by
  by_cases known : word ∈ ["put", "get", "ping"]
  · simp only [List.mem_cons, List.not_mem_nil, or_false] at known
    rcases known with rfl | rfl | rfl
    · match operands with
      | [] => exact Or.inr ⟨_, .noKey (Or.inl rfl)⟩
      | [key] => exact Or.inr ⟨_, .noValue key⟩
      | [key, value] => exact Or.inl ⟨.put key value, rfl⟩
      | key :: value :: extra :: rest => exact Or.inr ⟨_, .unexpected (.put key value) extra rest⟩
    · match operands with
      | [] => exact Or.inr ⟨_, .noKey (Or.inr rfl)⟩
      | [key] => exact Or.inl ⟨.get key, rfl⟩
      | key :: extra :: rest => exact Or.inr ⟨_, .unexpected (.get key) extra rest⟩
    · match operands with
      | [] => exact Or.inl ⟨.ping, rfl⟩
      | extra :: rest => exact Or.inr ⟨_, .unexpected .ping extra rest⟩
  · exact Or.inr ⟨_, .unknownCommand plain known operands⟩

/-- All arguments are pairs, and what is behind these asks for something or is wrong. -/
theorem exists_choices (appId : String) (arguments : List String) :
    ∃ appIds rest, arguments = choices appIds ++ rest ∧
      ((∃ i, AsksFor (appIds.getLastD appId) rest i) ∨ ∃ fault, Wrong rest fault) := by
  induction appId, arguments using Invocation.parseFrom.induct with
  | case1 appId => exact ⟨[], [], rfl, Or.inl ⟨_, .nothing⟩⟩
  | case2 appId word rest known => exact ⟨[], word :: rest, rfl, Or.inl ⟨_, .version known rest⟩⟩
  | case3 appId word rest _ known => exact ⟨[], word :: rest, rfl, Or.inl ⟨_, .help known rest⟩⟩
  | case4 appId => exact ⟨[], ["--app-id"], rfl, Or.inr ⟨_, .noAppId⟩⟩
  | case5 appId chosen rest _ _ ih =>
    obtain ⟨appIds, rest, rfl, h⟩ := ih
    refine ⟨chosen :: appIds, rest, rfl, ?_⟩
    rwa [List.getLastD_cons]
  | case6 appId flag rest notVersion notHelp notAppId dash =>
    have unknown : flag ∉ ["--version", "-v", "--help", "-h", "--app-id"] := by
      simp only [not_or] at notVersion notHelp
      simp [notVersion, notHelp, notAppId]
    exact ⟨[], flag :: rest, rfl, Or.inr ⟨_, .unknownFlag dash unknown rest⟩⟩
  | case7 appId word rest _ _ _ plain =>
    refine ⟨[], word :: rest, rfl, ?_⟩
    rcases words_or_wrong (Bool.eq_false_iff.mpr plain) rest with ⟨command, hwords⟩ | hwrong
    · rw [hwords]
      exact Or.inl ⟨_, .command command⟩
    · exact Or.inr hwrong

theorem parse_choices (appIds rest : List String) :
    Invocation.parse (choices appIds ++ rest) = Invocation.parseFrom (appIds.getLastD Board.defaultAppId) rest :=
  parseFrom_choices Board.defaultAppId appIds rest

theorem parse_eq_ok_iff {arguments : List String} {i : Invocation} :
    Invocation.parse arguments = .ok i ↔ Spells arguments i := by
  constructor
  · intro h
    obtain ⟨appIds, rest, rfl, ⟨i', hasks⟩ | ⟨fault, hwrong⟩⟩ := exists_choices Board.defaultAppId arguments
    · rw [parse_choices, hasks.parseFrom, Except.ok.injEq] at h
      exact ⟨appIds, rest, rfl, h ▸ hasks⟩
    · rw [parse_choices, hwrong.parseFrom] at h
      cases h
  · rintro ⟨appIds, rest, rfl, hasks⟩
    rw [parse_choices, hasks.parseFrom]

theorem parse_eq_error_iff {arguments : List String} {fault : ArgumentFault} :
    Invocation.parse arguments = .error fault ↔ ∃ appIds rest, arguments = choices appIds ++ rest ∧ Wrong rest fault := by
  constructor
  · intro h
    obtain ⟨appIds, rest, rfl, ⟨i, hasks⟩ | ⟨fault', hwrong⟩⟩ := exists_choices Board.defaultAppId arguments
    · rw [parse_choices, hasks.parseFrom] at h
      cases h
    · rw [parse_choices, hwrong.parseFrom, Except.error.injEq] at h
      exact ⟨appIds, rest, rfl, h ▸ hwrong⟩
  · rintro ⟨appIds, rest, rfl, hwrong⟩
    rw [parse_choices, hwrong.parseFrom]

/-- What is known of reading the arguments of the command line. -/
structure Recognises (arguments : List String) : Prop where
  ok_iff : ∀ i, Invocation.parse arguments = .ok i ↔ Spells arguments i
  error_iff : ∀ fault, Invocation.parse arguments = .error fault ↔
    ∃ appIds rest, arguments = choices appIds ++ rest ∧ Wrong rest fault
  /-- All arguments of another form are a fault, and the program reports it as input that is not valid. -/
  others : (∀ i, ¬Spells arguments i) → ∃ fault, Invocation.parse arguments = .error fault ∧
    (StreamFault.invocation fault.text).kind = .invalidInput ∧
    ∀ s, outcome arguments s = .error (.io (.invocation fault.text))

theorem recognises (arguments : List String) : Recognises arguments where
  ok_iff _ := parse_eq_ok_iff
  error_iff _ := parse_eq_error_iff
  others h := by
    cases hparse : Invocation.parse arguments with
    | ok i => exact absurd (parse_eq_ok_iff.mp hparse) (h i)
    | error fault =>
      refine ⟨fault, rfl, rfl, fun s => ?_⟩
      rw [outcome, hparse]

/-- The arguments are read by their grammar and nothing else, and what spells a command for an application, or for the
    default one, gives it back. -/
theorem recognises_all : (∀ arguments, Recognises arguments) ∧
    (∀ appIds appId command, Invocation.parse (choices (appIds ++ [appId]) ++ Command.words command) =
      .ok (.run appId command)) ∧
    ∀ command, Invocation.parse (Command.words command) = .ok (.run Board.defaultAppId command) := by
  refine ⟨recognises, fun appIds appId command => ?_, fun command => ?_⟩
  · have hlast : (appIds ++ [appId]).getLastD Board.defaultAppId = appId := by
      rw [List.getLastD_eq_getLast?, List.getLast?_concat, Option.getD_some]
    exact parse_eq_ok_iff.mpr ⟨_, _, rfl, hlast.symm ▸ .command command⟩
  · exact parse_eq_ok_iff.mpr ⟨[], _, rfl, .command command⟩

end Pinboard.Program
