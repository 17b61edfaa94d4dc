import Pinboard.Proofs.Board.Replies
import Pinboard.Proofs.Program.Run
import Pinboard.Proofs.Text.Quoting

/-! What is printed of the values under a key. It is one line behind the key, and the values can be told from it: how many
    there are, in which order, and every character of each, though they are texts from outside and may look like any
    part of such a line. -/

namespace Pinboard.Program

open Text (OneLine IsControl Covers Clean isUnprintable quotedListWith readTexts)

/-- What `get` prints where the characters `hidden` are not shown as themselves. -/
def valuesLineWith (hidden : Char → Bool) (key : String) (values : List String) : String :=
  key ++ " " ++ quotedListWith hidden values ++ "\n"

theorem valuesLineWith_isUnprintable : valuesLineWith isUnprintable = valuesLine := by
  funext key values
  rw [valuesLineWith, Text.quotedListWith_isUnprintable, valuesLine]

theorem eq_of_valuesLineWith_eq {hidden hidden' : Char → Bool} {key : String} {values values' : List String}
    (h : valuesLineWith hidden key values = valuesLineWith hidden' key values') : values = values' := by
  have hlist : quotedListWith hidden values = quotedListWith hidden' values' :=
    String.append_right_inj _ |>.mp (String.append_left_inj _ |>.mp h)
  rw [← Text.readTexts_quotedListWith hidden values, hlist, Text.readTexts_quotedListWith]

/-- What is printed of the values under a key, whichever characters are hidden. -/
structure TellsValues (hidden : Char → Bool) (key : String) : Prop where
  /-- Another run may hide other characters, and still prints something else if it has other values. -/
  injective : ∀ hidden' values values',
    valuesLineWith hidden key values = valuesLineWith hidden' key values' → values = values'
  readBack : ∀ values, readTexts (quotedListWith hidden values) = values
  clean : Covers hidden → ∀ values, Clean (quotedListWith hidden values)
  /-- Before the line feed at the end, control characters are there only if they are in the key. -/
  line : Covers hidden → ∀ values, ∃ line, valuesLineWith hidden key values = line ++ "\n" ∧
    (∀ c ∈ line.toList, IsControl c → c ∈ key.toList) ∧ (OneLine key → OneLine line)

theorem tellsValues (hidden : Char → Bool) (key : String) : TellsValues hidden key where
  injective _ _ _ h := eq_of_valuesLineWith_eq h
  readBack := Text.readTexts_quotedListWith hidden
  clean := Text.clean_quotedListWith
  line covers values := by
    have hcontrols : ∀ c ∈ (key ++ " " ++ quotedListWith hidden values).toList, IsControl c → c ∈ key.toList := by
      intro c hc hcontrol
      simp only [String.toList_append, List.mem_append] at hc
      rcases hc with (hc | hc) | hc
      · exact hc
      · exact absurd hcontrol ((by decide : Clean " ") c hc)
      · exact absurd hcontrol (Text.clean_quotedListWith covers values c hc)
    exact ⟨_, rfl, hcontrols, fun hkey hfeed => hkey (hcontrols '\n' hfeed (by decide))⟩

/-! ### Runs -/

/-- What is printed where the values are got, and nothing where they are not. -/
def printed (key : String) : Except Fault (List String) → String
  | .ok values => valuesLine key values
  | .error _ => ""

theorem valuesLine_ne_empty (key : String) (values : List String) : valuesLine key values ≠ "" := by
  intro h
  have hlength := congrArg String.length h
  have hfeed : "\n".length = 1 := rfl
  have hempty : "".length = 0 := rfl
  rw [valuesLine, String.length_append, hfeed, hempty] at hlength
  exact Nat.succ_ne_zero _ hlength

theorem printed_inj {key : String} {outcome outcome' : Except Fault (List String)}
    (h : printed key outcome = printed key outcome') : outcome.toOption = outcome'.toOption := by
  cases outcome with
  | error fault =>
    cases outcome' with
    | error fault' => rfl
    | ok values' => exact absurd h.symm (valuesLine_ne_empty key values')
  | ok values =>
    cases outcome' with
    | error fault' => exact absurd h (valuesLine_ne_empty key values)
    | ok values' => exact congrArg some (@eq_of_valuesLineWith_eq isUnprintable isUnprintable key values values' h)

theorem Report.Tells.output_eq {r : Report} {key : String} {outcome : Except Fault (List String)}
    (h : r.Tells (outcome.map (valuesLine key))) : r.output = printed key outcome := by
  cases outcome with
  | error fault => exact (h.failure fault rfl).1
  | ok values => exact h.success _ rfl

/-- What runs print of the values that they get under a key. -/
structure PrintsValues {ι : Type} (key : String) (report : ι → Report) (gotten : ι → Except Fault (List String)) :
    Prop where
  /-- A run that succeeds prints the values, and one that fails prints nothing. -/
  output : ∀ i, (report i).output = printed key (gotten i) ∧ ((report i).code = 0 ↔ ∃ values, gotten i = .ok values)
  /-- So runs that print the same have got the same, whatever else there is about them. -/
  told : ∀ i j, (report i).output = (report j).output → (gotten i).toOption = (gotten j).toOption
  line : OneLine key → ∀ i, (report i).code = 0 → ∃ line, OneLine line ∧ (report i).output = line ++ "\n"

theorem PrintsValues.of_tells {ι : Type} {key : String} {report : ι → Report} {gotten : ι → Except Fault (List String)}
    (h : ∀ i, (report i).Tells ((gotten i).map (valuesLine key))) : PrintsValues key report gotten := by
  have hcode (i : ι) : (report i).code = 0 ↔ ∃ values, gotten i = .ok values := by
    rw [(h i).code.1]
    cases gotten i with
    | error fault => exact ⟨nofun, nofun⟩
    | ok values => exact ⟨fun _ => ⟨values, rfl⟩, fun _ => ⟨_, rfl⟩⟩
  refine ⟨fun i => ⟨(h i).output_eq, hcode i⟩, fun i j hsame => ?_, fun hkey i hzero => ?_⟩
  · rw [(h i).output_eq, (h j).output_eq] at hsame
    exact printed_inj hsame
  · obtain ⟨values, hvalues⟩ := (hcode i).mp hzero
    obtain ⟨line, hline, -, honeLine⟩ := (tellsValues isUnprintable key).line Text.covers_isUnprintable values
    refine ⟨line, honeLine hkey, ?_⟩
    rw [(h i).output_eq, hvalues, ← hline]
    rfl

/-- A run of `board` that is to get the values under a key. -/
structure GetRun (key : String) where
  arguments : List String
  appId : String
  surroundings : Surroundings
  asks : Invocation.parse arguments = .ok (.run appId (.get key))

namespace GetRun

variable {key : String}

def report (r : GetRun key) : Report := board r.arguments r.surroundings

/-- The values that the run gets. -/
def gotten (r : GetRun key) : Except Fault (List String) :=
  (Client.once (r.surroundings.network 0) r.surroundings.peer r.surroundings.ids r.surroundings.bus
    ((Board.mk r.appId).get key)).1

theorem tells (r : GetRun key) : r.report.Tells (r.gotten.map (valuesLine key)) := by
  have htells := (boardRun r.arguments r.surroundings).tells
  have houtcome : outcome r.arguments r.surroundings = r.gotten.map (valuesLine key) := by
    rw [outcome, r.asks]
    exact congrArg Prod.fst (Client.once_map _ _ _ _ _ (valuesLine key))
  rwa [houtcome] at htells

end GetRun

/-- The values that a run of `demo` gets, once it has stored its own. -/
def demoGotten (s : Surroundings) : Except Fault (List String) := (demoPut s).1.bind fun () => (demoGet s).1

theorem tells_demo (s : Surroundings) : (demo s).Tells ((demoGotten s).map (valuesLine demoKey)) := by
  have htells := (demoRun s).tells
  have houtcome : demoOutcome s = (demoGotten s).map (valuesLine demoKey) := by
    rw [demoOutcome, demoGotten]
    cases (demoPut s).1 <;> rfl
  rwa [houtcome] at htells

/-- The values under a key can be told from what is printed of them, and nothing in them leaves the line. -/
theorem values_told_by_output (hidden : Char → Bool) (key : String) :
    TellsValues hidden key ∧ Covers isUnprintable ∧ valuesLineWith isUnprintable = valuesLine ∧
      PrintsValues key GetRun.report (@GetRun.gotten key) ∧ PrintsValues demoKey demo demoGotten :=
  ⟨tellsValues hidden key, Text.covers_isUnprintable, valuesLineWith_isUnprintable, .of_tells GetRun.tells,
    .of_tells tells_demo⟩

/-- A run that gets one value, on a bus where this is the answer to everything. -/
def getsOne : GetRun "k" where
  arguments := ["get", "k"]
  appId := Board.defaultAppId
  surroundings := ⟨none, none, fun _ _ => .ok .fresh, Board.oneValue, fun _ => ⟨"a"⟩⟩
  asks := rfl

theorem values_told_by_output_one :
    getsOne.report.code = 0 ∧ getsOne.report.output = "k [\"x\"]\n" ∧
      ∀ r : GetRun "k", r.report.output = "k [\"x\"]\n" → r.gotten.toOption = some ["x"] := by
  have hgotten : getsOne.gotten.toOption = some ["x"] := by decide +kernel
  have hline : valuesLine "k" ["x"] = "k [\"x\"]\n" := by decide +kernel
  obtain ⟨-, -, -, prints, -⟩ := values_told_by_output isUnprintable "k"
  obtain ⟨houtput, hcode⟩ := prints.output getsOne
  have hok : getsOne.gotten = .ok ["x"] := by
    cases h : getsOne.gotten with
    | error fault =>
      rw [h] at hgotten
      cases hgotten
    | ok values =>
      rw [h] at hgotten
      exact congrArg _ (Option.some.inj hgotten)
  rw [hok, printed, hline] at houtput
  exact ⟨hcode.mpr ⟨_, hok⟩, houtput, fun r h => (prints.told r getsOne (h.trans houtput.symm)).trans hgotten⟩

/-- Values that look like the end of a list and like an escape, and one that is written as that escape. -/
example : valuesLine "k" ["a\"]", "\\n", "\n"] = "k [\"a\\\"]\", \"\\\\n\", \"\\n\"]\n" := by decide +kernel

end Pinboard.Program
