import Pinboard.Client

/-! Which responses answer a question, as relations apart from the code that looks for them. A response grants a
    value or denies it only if it is meant for the question; whatever else comes in is a fault of the protocol. -/

namespace Pinboard

namespace Ask

/-- The response answers the question with a value: by the id of the call, or by the name of the object. -/
def Grants {β : Type} (id : CallId) : Ask β → Response → β → Prop
  | call _ _ _, r, value => r = .result id value
  | hasObject name, r, present => r = .objectPresence name present

/-- The response answers the question with an error. It may name a call by its id, and for an object it names none. -/
def Denies {β : Type} (id : CallId) : Ask β → Response → String → Prop
  | call _ _ _, r, message => r = .error none message ∨ r = .error (some id) message
  | hasObject _, r, message => r = .error none message

variable {β : Type} {id : CallId} {ask : Ask β} {r : Response}

theorem answer_of_grants {v : β} (h : ask.Grants id r v) : ask.answer id r = .ok v := by
  cases ask with
  | call target method args =>
    rw [show r = .result id v from h]
    exact if_pos rfl
  | hasObject name =>
    rw [show r = .objectPresence name v from h]
    exact if_pos rfl

theorem answer_of_denies {message : String} (h : ask.Denies id r message) : ask.answer id r = .error (.remote message) := by
  cases ask with
  | call target method args =>
    rcases h with rfl | rfl
    · rfl
    · exact if_pos rfl
  | hasObject name =>
    rw [show r = .error none message from h]
    rfl

theorem answer_cases (id : CallId) (ask : Ask β) (r : Response) :
    (∃ v, ask.Grants id r v) ∨ (∃ message, ask.Denies id r message) ∨
      ∃ text, ask.answer id r = .error (.protocol text) := by
  cases ask with
  | call target method args =>
    cases r with
    | result i value =>
      by_cases h : i = id
      · exact Or.inl ⟨value, h ▸ rfl⟩
      · exact Or.inr (Or.inr ⟨_, if_neg h⟩)
    | error i message =>
      cases i with
      | none => exact Or.inr (Or.inl ⟨message, Or.inl rfl⟩)
      | some i =>
        by_cases h : i = id
        · exact Or.inr (Or.inl ⟨message, Or.inr (h ▸ rfl)⟩)
        · exact Or.inr (Or.inr ⟨_, if_neg h⟩)
    | objectPresence name present => exact Or.inr (Or.inr ⟨_, rfl⟩)
  | hasObject name =>
    cases r with
    | result i value => exact Or.inr (Or.inr ⟨_, rfl⟩)
    | error i message =>
      cases i with
      | none => exact Or.inr (Or.inl ⟨message, rfl⟩)
      | some i => exact Or.inr (Or.inr ⟨_, rfl⟩)
    | objectPresence n present =>
      by_cases h : n = name
      · exact Or.inl ⟨present, h ▸ rfl⟩
      · exact Or.inr (Or.inr ⟨_, if_neg h⟩)

theorem answer_ok_iff {v : β} : ask.answer id r = .ok v ↔ ask.Grants id r v := by
  refine ⟨fun h => ?_, answer_of_grants⟩
  rcases answer_cases id ask r with ⟨w, hw⟩ | ⟨message, hm⟩ | ⟨text, ht⟩
  · rw [answer_of_grants hw, Except.ok.injEq] at h
    exact h ▸ hw
  · rw [answer_of_denies hm] at h
    cases h
  · rw [ht] at h
    cases h

theorem answer_remote_iff {message : String} : ask.answer id r = .error (.remote message) ↔ ask.Denies id r message := by
  refine ⟨fun h => ?_, answer_of_denies⟩
  rcases answer_cases id ask r with ⟨v, hv⟩ | ⟨m, hm⟩ | ⟨text, ht⟩
  · rw [answer_of_grants hv] at h
    cases h
  · rw [answer_of_denies hm, Except.error.injEq, Fault.remote.injEq] at h
    exact h ▸ hm
  · rw [ht, Except.error.injEq] at h
    cases h

/-- What a caller is told who has put a question under an id, once its request has an outcome. -/
def told (id : CallId) (ask : Ask β) (outcome : Except StreamFault Response) : Except Fault β :=
  (((Query.plain ask).pending id).finish outcome).1

@[simp] theorem told_ok (id : CallId) (ask : Ask β) (r : Response) : ask.told id (.ok r) = ask.answer id r := by
  simp only [told, Query.pending, Query.plain, Query.outcome]
  cases ask.answer id r <;> rfl

end Ask

namespace Client

variable {β α : Type}

theorem answer_eq (peer : Peer) (ask : Ask β) (c : Client) :
    (c.answer peer ask).1 =
      ask.told (c.ids c.asked) (c.connection.request peer (ask.request (c.ids c.asked))).1 := by
  simp only [answer, takeId, note]
  rcases c.connection.request peer (ask.request (c.ids c.asked)) with ⟨_ | r, connection⟩
  · rfl
  · exact (Ask.told_ok (c.ids c.asked) ask r).symm

theorem run_eq (peer : Peer) (q : Query β α) (c : Client) :
    (c.run peer q).1 = (q.outcome
      (q.ask.told (c.ids c.asked) (c.connection.request peer (q.ask.request (c.ids c.asked))).1)).1 := by
  simp only [run, Bus.run, bus]
  rw [answer_eq]

theorem run_connection (peer : Peer) (q : Query β α) (c : Client) :
    (c.run peer q).2.connection = (c.connection.request peer (q.ask.request (c.ids c.asked))).2 := by
  simp only [run, Bus.run, bus, answer, takeId, note]
  rcases c.connection.request peer (q.ask.request (c.ids c.asked)) with ⟨_ | r, connection⟩
  · rfl
  · rfl

/-- A query takes one id. -/
theorem run_ids (peer : Peer) (q : Query β α) (c : Client) :
    (c.run peer q).2.ids = c.ids ∧ (c.run peer q).2.asked = c.asked + 1 := by
  simp only [run, Bus.run, bus, answer, takeId, note]
  rcases c.connection.request peer (q.ask.request (c.ids c.asked)) with ⟨_ | r, connection⟩
  · exact ⟨rfl, rfl⟩
  · exact ⟨rfl, rfl⟩

end Client

end Pinboard
