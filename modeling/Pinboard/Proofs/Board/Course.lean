import Mathlib.Data.Sum.Basic
import Pinboard.Proofs.Board.Requests

/-! Operations on one board, one after another, on any bus. Each asks the bus once, for the application that was chosen
    last, and to choose an application asks nothing. What an operation asks and what comes of it is told by the
    application, by the operation and by what the bus says to it; nothing that the bus has said before counts. -/

namespace Pinboard

variable {σ β α : Type}

theorem error_of_map_eq {f : α → β} {said : Except Fault α} {fault : Fault} (h : said.map f = .error fault) :
    said = .error fault := by
  cases said with
  | error fault' => exact congrArg Except.error (Except.error.inj h)
  | ok a => cases h

theorem bind_eq_error {f : α → Except Fault β} {said : Except Fault α} {fault : Fault} (h : said.bind f = .error fault) :
    said = .error fault ∨ ∃ a, said = .ok a ∧ f a = .error fault := by
  cases said with
  | error fault' => exact Or.inl (congrArg Except.error (Except.error.inj h))
  | ok a => exact Or.inr ⟨a, rfl, h⟩

theorem eq_of_map_eq {f : α → β} (hf : Function.Injective f) {said said' : Except Fault α} (h : said.map f = said'.map f) :
    said = said' := by
  cases said with
  | error fault => exact (error_of_map_eq h.symm).symm
  | ok a =>
    cases said' with
    | error fault' => cases h
    | ok a' => exact congrArg Except.ok (hf (Except.ok.inj h))

theorem map_ok_iff {f : α → β} (hf : Function.Injective f) {said : Except Fault α} {a : α} :
    said.map f = .ok (f a) ↔ said = .ok a :=
  ⟨fun h => eq_of_map_eq hf h, fun h => congrArg (Except.map f) h⟩

/-! ### Buses that keep a record -/

/-- A question that a bus was asked, with what it said. -/
inductive Asked
  | call (target : ObjectAddress) (method : String) (args : Json) (said : Except Fault Json)
  | hasObject (name : String) (said : Except Fault Bool)

namespace Asked

def of : Ask β → Except Fault β → Asked
  | .call target method args, said => .call target method args said
  | .hasObject name, said => .hasObject name said

/-- What the bus said, whichever kind of answer it is. -/
def said : Asked → Except Fault (Json ⊕ Bool)
  | call _ _ _ said => said.map .inl
  | hasObject _ said => said.map .inr

end Asked

namespace Bus

/-- The bus with a record of all that it is asked. -/
def recorded (bus : Bus σ) : Bus (σ × List Asked) where
  answer ask s :=
    let (said, next) := bus.answer ask s.1
    (said, next, s.2 ++ [.of ask said])
  note entries s := (bus.note entries s.1, s.2)

/-- A query asks its question once, whatever comes of it. -/
theorem run_recorded (bus : Bus σ) (q : Query β α) (s : σ) (record : List Asked) :
    bus.recorded.run q (s, record) =
      ((bus.run q s).1, (bus.run q s).2, record ++ [.of q.ask (bus.answer q.ask s).1]) :=
  rfl

theorem run_outcome (bus : Bus σ) (q : Query β α) (s : σ) : (bus.run q s).1 = (q.outcome (bus.answer q.ask s).1).1 :=
  rfl

end Bus

namespace Board

/-! ### Steps -/

/-- What a step gives if it succeeds. -/
inductive Value
  | done
  | texts (texts : List String)
  | bytes (values : List (List UInt8))
  | presence (present : Bool)
  deriving DecidableEq, Repr

/-- The query of an operation. -/
def Operation.query (op : Operation) (b : Board) : Query Json Value :=
  match op with
  | put key value => (b.put key value).map fun () => .done
  | putBytes key value => (b.putBytes key value).map fun () => .done
  | get key => (b.get key).map .texts
  | getBytes key => (b.getBytes key).map .bytes

/-- What an operation makes of the reply to its call. -/
def Operation.value (op : Operation) (reply : Json) : Except Fault Value :=
  match op with
  | put _ _ | putBytes _ _ => .ok .done
  | get _ => ((listed reply).1.bind decodeAll).map .texts
  | getBytes _ => (listed reply).1.map .bytes

/-- What can be done with a board. -/
inductive Step
  | operate (op : Operation)
  | isAvailable
  | withAppId (appId : String)
  deriving DecidableEq, Repr

namespace Step

/-- The application that a step chooses. -/
def appId? : Step → Option String
  | withAppId appId => some appId
  | _ => none

/-- Takes a step on a board over a bus. -/
def run (bus : Bus σ) (b : Board) (s : σ) : Step → Except Fault Value × Board × σ
  | operate op =>
    let (outcome, s) := bus.run (op.query b) s
    (outcome, b, s)
  | isAvailable =>
    let (outcome, s) := bus.run (b.isAvailable.map .presence) s
    (outcome, b, s)
  | withAppId appId => (.ok .done, b.withAppId appId, s)

end Step

/-- Takes steps one after another on one board over one bus. -/
def runSteps (bus : Bus σ) (b : Board) (s : σ) : List Step → List (Except Fault Value) × Board × σ
  | [] => ([], b, s)
  | step :: rest =>
    let (outcome, b, s) := step.run bus b s
    let (outcomes, last) := runSteps bus b s rest
    (outcome :: outcomes, last)

/-- The board after steps: that of the application which was chosen last, if one was. -/
def chosen (b : Board) (steps : List Step) : Board := ⟨(steps.filterMap Step.appId?).getLastD b.appId⟩

theorem chosen_cons (b : Board) (step : Step) (steps : List Step) :
    chosen b (step :: steps) = chosen (chosen b [step]) steps := by
  cases step with
  | operate op => rfl
  | isAvailable => rfl
  | withAppId appId => exact congrArg Board.mk List.getLastD_cons

/-! ### What happens in a step -/

/-- What the bus was asked in a step, and what came of the step. -/
structure Episode where
  asked : List Asked
  outcome : Except Fault Value

/-- What the bus has said in a step. -/
def Episode.said (e : Episode) : List (Except Fault (Json ⊕ Bool)) := e.asked.map Asked.said

/-- What a step on a board may come to. -/
inductive Amounts (b : Board) : Step → Episode → Prop
  /-- An operation makes one call, of its method with the application and its own arguments, and goes by the reply. -/
  | operation (op : Operation) (said : Except Fault Json) :
    Amounts b (.operate op) ⟨[.call target (op.command b).method (op.command b).args said], said.bind op.value⟩
  /-- The service is asked for once, and the answer is passed on. -/
  | presence (said : Except Fault Bool) : Amounts b .isAvailable ⟨[.hasObject serviceName said], said.map .presence⟩
  /-- To choose an application asks nothing and cannot fail. -/
  | choice (appId : String) : Amounts b (.withAppId appId) ⟨[], .ok .done⟩

/-- A fault of the bus is what the step fails with. -/
theorem Amounts.unchanged {b : Board} {step : Step} {e : Episode} (h : Amounts b step e) {fault : Fault}
    (hsaid : .error fault ∈ e.said) : e.outcome = .error fault := by
  cases h with
  | operation op said =>
    rw [error_of_map_eq (List.mem_singleton.mp hsaid).symm]
    rfl
  | presence said =>
    rw [error_of_map_eq (List.mem_singleton.mp hsaid).symm]
    rfl
  | choice appId => exact absurd hsaid List.not_mem_nil

/-- The board, the step and what the bus says leave nothing open. -/
theorem Amounts.unique {b : Board} {step : Step} {e e' : Episode} (h : Amounts b step e) (h' : Amounts b step e')
    (same : e.said = e'.said) : e = e' := by
  cases h with
  | operation op said =>
    cases h' with
    | operation _ said' => rw [eq_of_map_eq Sum.inl_injective (List.cons.inj same).1]
  | presence said =>
    cases h' with
    | presence said' => rw [eq_of_map_eq Sum.inr_injective (List.cons.inj same).1]
  | choice appId =>
    cases h'
    rfl

/-- What happens when a step is taken. -/
def Step.episode (bus : Bus σ) (b : Board) (s : σ) : Step → Episode
  | operate op => ⟨[.of (op.query b).ask (bus.answer (op.query b).ask s).1], (bus.run (op.query b) s).1⟩
  | isAvailable => ⟨[.of b.isAvailable.ask (bus.answer b.isAvailable.ask s).1], (bus.run (b.isAvailable.map .presence) s).1⟩
  | withAppId _ => ⟨[], .ok .done⟩

theorem Operation.outcome_query (op : Operation) (b : Board) (said : Except Fault Json) :
    ((op.query b).outcome said).1 = said.bind op.value := by
  cases said <;> cases op <;> rfl

theorem Operation.ask_query (op : Operation) (b : Board) :
    (op.query b).ask = .call target (op.command b).method (op.command b).args := by
  cases op <;> rfl

theorem Step.amounts_episode (bus : Bus σ) (b : Board) (s : σ) (step : Step) : Amounts b step (step.episode bus b s) := by
  cases step with
  | operate op =>
    rw [episode, Bus.run_outcome, op.outcome_query, op.ask_query]
    exact .operation op _
  | isAvailable =>
    have houtcome : (bus.run (b.isAvailable.map .presence) s).1 =
        (bus.answer b.isAvailable.ask s).1.map Value.presence := by
      show ((b.isAvailable.map Value.presence).outcome (bus.answer b.isAvailable.ask s).1).1 = _
      cases (bus.answer b.isAvailable.ask s).1 <;> rfl
    rw [episode, houtcome]
    exact .presence _
  | withAppId appId => exact .choice appId

/-- A step gives what its episode says, on the board that was chosen, and the record grows by what it asks. -/
theorem Step.run_eq (bus : Bus σ) (b : Board) (s : σ) (step : Step) :
    step.run bus b s = ((step.episode bus b s).outcome, chosen b [step], (step.run bus b s).2.2) := by
  cases step <;> rfl

theorem Step.run_recorded (bus : Bus σ) (b : Board) (s : σ) (record : List Asked) (step : Step) :
    step.run bus.recorded b (s, record) =
      ((step.episode bus b s).outcome, chosen b [step], (step.run bus b s).2.2, record ++ (step.episode bus b s).asked) := by
  cases step with
  | operate op =>
    rw [run, Bus.run_recorded]
    rfl
  | isAvailable =>
    rw [run, Bus.run_recorded]
    rfl
  | withAppId appId =>
    rw [episode, List.append_nil, run, run]
    rfl

/-! ### Runs of steps -/

/-- What happens in each step, one after another. -/
def episodes (bus : Bus σ) (b : Board) (s : σ) : List Step → List Episode
  | [] => []
  | step :: rest => step.episode bus b s :: episodes bus (chosen b [step]) (step.run bus b s).2.2 rest

theorem runSteps_cons (bus : Bus σ) (b : Board) (s : σ) (step : Step) (rest : List Step) :
    runSteps bus b s (step :: rest) =
      ((step.episode bus b s).outcome :: (runSteps bus (chosen b [step]) (step.run bus b s).2.2 rest).1,
        (runSteps bus (chosen b [step]) (step.run bus b s).2.2 rest).2) := by
  rw [runSteps, Step.run_eq]

theorem runSteps_outcomes (bus : Bus σ) (b : Board) (s : σ) (steps : List Step) :
    (runSteps bus b s steps).1 = (episodes bus b s steps).map (·.outcome) := by
  induction steps generalizing b s with
  | nil => rfl
  | cons step rest ih => rw [runSteps_cons, ih, episodes, List.map_cons]

/-- To keep a record changes nothing, and the record is what the episodes have asked, in order. -/
theorem runSteps_recorded (bus : Bus σ) (b : Board) (s : σ) (record : List Asked) (steps : List Step) :
    runSteps bus.recorded b (s, record) steps =
      ((runSteps bus b s steps).1, (runSteps bus b s steps).2.1, (runSteps bus b s steps).2.2,
        record ++ (episodes bus b s steps).flatMap (·.asked)) := by
  induction steps generalizing b s record with
  | nil => rw [episodes, List.flatMap_nil, List.append_nil, runSteps, runSteps]
  | cons step rest ih =>
    rw [runSteps, Step.run_recorded]
    simp only [ih, runSteps_cons, episodes, List.flatMap_cons, List.append_assoc]

theorem episodes_take (bus : Bus σ) (b : Board) (s : σ) (steps : List Step) (i : Nat) :
    episodes bus b s (steps.take i) = (episodes bus b s steps).take i := by
  induction steps generalizing b s i with
  | nil => rw [List.take_nil, episodes, List.take_nil]
  | cons step rest ih =>
    cases i with
    | zero => rfl
    | succ i => rw [List.take_succ_cons, episodes, episodes, List.take_succ_cons, ih]

theorem length_episodes (bus : Bus σ) (b : Board) (s : σ) (steps : List Step) :
    (episodes bus b s steps).length = steps.length := by
  induction steps generalizing b s with
  | nil => rfl
  | cons step rest ih => exact congrArg Nat.succ (ih _ _)

theorem amounts_episodes (bus : Bus σ) (b : Board) (s : σ) {steps : List Step} {i : Nat} {e : Episode}
    (h : (episodes bus b s steps)[i]? = some e) :
    ∃ step, steps[i]? = some step ∧ Amounts (chosen b (steps.take i)) step e := by
  induction steps generalizing b s i with
  | nil => cases h
  | cons first rest ih =>
    cases i with
    | zero =>
      obtain rfl := Option.some.inj h
      exact ⟨first, rfl, first.amounts_episode bus b s⟩
    | succ i =>
      obtain ⟨step, hstep, hamounts⟩ := ih (chosen b [first]) (first.run bus b s).2.2 h
      rw [List.take_succ_cons, chosen_cons]
      exact ⟨step, hstep, hamounts⟩

/-! ### What replies are understood -/

theorem listed_fault {reply : Json} {fault : Fault} (h : (listed reply).1 = .error fault) :
    ∃ source, fault = .json source := by
  unfold listed at h
  cases hlists : reply.byteLists with
  | ok values =>
    rw [hlists] at h
    cases h
  | error cause =>
    rw [hlists] at h
    exact ⟨⟨cause, none⟩, (Except.error.inj h).symm⟩

theorem decode_fault {bytes : List UInt8} {fault : Fault} (h : decode bytes = .error fault) :
    ∃ source, Utf8.decode bytes = .error source ∧ fault = .utf8 bytes source := by
  unfold decode at h
  cases hdecode : Utf8.decode bytes with
  | ok text =>
    rw [hdecode] at h
    cases h
  | error source =>
    rw [hdecode] at h
    exact ⟨source, rfl, (Except.error.inj h).symm⟩

theorem decodeFrom_fault {taken : List String} {values : List (List UInt8)} {fault : Fault}
    (h : decodeFrom taken values = .error fault) : ∃ bytes source, fault = .utf8 bytes source := by
  obtain ⟨_, bytes, _, _, _, hbytes⟩ := collects_decodeFrom.error_iff.mp h
  obtain ⟨source, -, rfl⟩ := decode_fault hbytes
  exact ⟨bytes, source, rfl⟩

theorem Operation.value_fault {op : Operation} {reply : Json} {fault : Fault} (h : op.value reply = .error fault) :
    (∃ source, fault = .json source) ∨ ∃ bytes source, fault = .utf8 bytes source := by
  cases op with
  | put key value => cases h
  | putBytes key value => cases h
  | get key =>
    rcases bind_eq_error (error_of_map_eq h) with hlisted | ⟨values, -, hdecode⟩
    · exact Or.inl (listed_fault hlisted)
    · exact Or.inr (decodeFrom_fault hdecode)
  | getBytes key => exact Or.inl (listed_fault (error_of_map_eq h))

theorem Operation.value_getBytes_iff {key : List UInt8} {reply : Json} {values : List (List UInt8)} :
    (getBytes key).value reply = .ok (.bytes values) ↔ reply = .array (values.map .ofBytes) := by
  rw [← listed_ok_iff, value]
  exact map_ok_iff fun _ _ h => Value.bytes.inj h

theorem Operation.value_get_iff {key : String} {reply : Json} {texts : List String} :
    (get key).value reply = .ok (.texts texts) ↔ reply = .array (texts.map fun s => .ofBytes (Utf8.encode s)) := by
  rw [← @get_conclude_iff default key, value]
  exact map_ok_iff fun _ _ h => Value.texts.inj h

/-! ### The course of steps -/

/-- How steps go on a board that begins with the default application, on any bus. -/
structure Course (bus : Bus σ) (s : σ) (steps : List Step) : Prop where
  /-- Each step has one episode, and gives what that says. -/
  length : (episodes bus default s steps).length = steps.length
  outcomes : (runSteps bus default s steps).1 = (episodes bus default s steps).map (·.outcome)
  /-- Each step asks the bus what its episode says, and nothing else. -/
  asked : ∀ i, (runSteps bus.recorded default (s, []) (steps.take i)).2.2.2 =
    ((episodes bus default s steps).take i).flatMap (·.asked)
  /-- Nobody can tell that a record is kept. -/
  recorded : (runSteps bus.recorded default (s, []) steps).1 = (runSteps bus default s steps).1 ∧
    (runSteps bus.recorded default (s, []) steps).2.2.1 = (runSteps bus default s steps).2.2
  /-- Every step comes to what it may come to for the application that was chosen last before it. -/
  amounts : ∀ i e, (episodes bus default s steps)[i]? = some e →
    ∃ step, steps[i]? = some step ∧ Amounts (chosen default (steps.take i)) step e
  /-- A fault of the bus is passed on as it is. -/
  unchanged : ∀ e ∈ episodes bus default s steps, ∀ fault, .error fault ∈ e.said → e.outcome = .error fault
  /-- The same step for the same application is the same episode wherever the bus says the same, whatever was done on the
      one board or the other before, and whatever the buses are like. -/
  alone : ∀ {τ : Type} (bus' : Bus τ) (s' : τ) (steps' : List Step) (i j : Nat) (e e' : Episode),
    (episodes bus default s steps)[i]? = some e → (episodes bus' default s' steps')[j]? = some e' →
    steps[i]? = steps'[j]? → chosen default (steps.take i) = chosen default (steps'.take j) → e.said = e'.said → e = e'
  /-- A reply is understood if it lists byte strings, and for texts if each of them is one. -/
  bytes_iff : ∀ key reply values,
    (Operation.getBytes key).value reply = .ok (.bytes values) ↔ reply = .array (values.map .ofBytes)
  texts_iff : ∀ key reply texts, (Operation.get key).value reply = .ok (.texts texts) ↔
    reply = .array (texts.map fun s => .ofBytes (Utf8.encode s))
  misunderstood : ∀ (op : Operation) reply fault, op.value reply = .error fault →
    (∃ source, fault = .json source) ∨ ∃ bytes source, fault = .utf8 bytes source

/-- On every bus, each step on a board asks once or not at all, and goes by nothing but the answer. -/
theorem course_of_steps (bus : Bus σ) (s : σ) (steps : List Step) : Course bus s steps where
  length := length_episodes bus default s steps
  outcomes := runSteps_outcomes bus default s steps
  asked i := by rw [runSteps_recorded, List.nil_append, episodes_take]
  recorded := by
    rw [runSteps_recorded]
    exact ⟨rfl, rfl⟩
  amounts _ _ h := amounts_episodes bus default s h
  unchanged e he fault hsaid := by
    obtain ⟨i, hi⟩ := List.mem_iff_getElem?.mp he
    obtain ⟨step, -, hamounts⟩ := amounts_episodes bus default s hi
    exact hamounts.unchanged hsaid
  alone bus' s' steps' i j e e' he he' hstep hchosen hsaid := by
    obtain ⟨step, hi, hamounts⟩ := amounts_episodes bus default s he
    obtain ⟨step', hj, hamounts'⟩ := amounts_episodes bus' default s' he'
    obtain rfl := Option.some.inj (hi.symm.trans (hstep.trans hj))
    rw [← hchosen] at hamounts'
    exact hamounts.unique hamounts' hsaid
  bytes_iff _ _ _ := Operation.value_getBytes_iff
  texts_iff _ _ _ := Operation.value_get_iff
  misunderstood _ _ _ h := Operation.value_fault h

end Board

end Pinboard
