import Pinboard.Proofs.Connection.Shared

/-! Requests in the order in which a connection takes them up. What becomes of those that it takes up is told by their
    order alone: callers and the queue decide what the order is and how far it goes, and nothing else (`takeUp_run`).
    So runs in which the order is the same are the same as far as both go. -/

namespace Pinboard

theorem zip_append_right {α β : Type} (l : List α) (a b : List β) :
    l.zip (a ++ b) = l.zip a ++ (l.drop a.length).zip b := by
  induction a generalizing l with
  | nil => simp
  | cons x a ih =>
    cases l with
    | nil => simp
    | cons y l => simp [ih]

theorem map_fst_zip_of_le {β γ : Type} (l : List β) (m : List γ) (h : m.length ≤ l.length) :
    (l.zip m).map (·.1) = l.take m.length := by
  induction m generalizing l with
  | nil => rw [List.zip_nil_right, List.map_nil, List.length_nil, List.take_zero]
  | cons y m ih =>
    cases l with
    | nil => exact absurd h (Nat.not_succ_le_zero _)
    | cons x l => exact congrArg (x :: ·) (ih l (Nat.le_of_succ_le_succ h))

namespace Connection

/-- Takes up requests in order while the connection lasts, and gives the outcomes of those that it has taken up. -/
def takeUp (peer : Peer) (c : Connection) : List Request → List Outcome × Connection
  | [] => ([], c)
  | r :: rest =>
    if c.live then
      let (outcome, after) := c.exchange peer r
      let (outcomes, last) := after.takeUp peer rest
      (outcome :: outcomes, last)
    else ([], c)

/-- Makes requests one after another, each once the one before has its outcome. -/
def requestEach (peer : Peer) (c : Connection) : List Request → List Outcome × Connection
  | [] => ([], c)
  | r :: rest =>
    let (outcome, after) := c.request peer r
    let (outcomes, last) := after.requestEach peer rest
    (outcome :: outcomes, last)

variable {peer : Peer} {c : Connection} {r : Request} {rs more : List Request}

theorem takeUp_cons (live : c.live = true) :
    c.takeUp peer (r :: rs) =
      ((c.exchange peer r).1 :: ((c.exchange peer r).2.takeUp peer rs).1, ((c.exchange peer r).2.takeUp peer rs).2) := by
  rw [takeUp, if_pos live]

theorem takeUp_ended (ended : c.live = false) (rs : List Request) : c.takeUp peer rs = ([], c) := by
  cases rs with
  | nil => rfl
  | cons r rs => rw [takeUp, if_neg (Bool.eq_false_iff.mp ended)]

theorem takeUp_append (peer : Peer) (c : Connection) (rs more : List Request) :
    c.takeUp peer (rs ++ more) =
      ((c.takeUp peer rs).1 ++ ((c.takeUp peer rs).2.takeUp peer more).1, ((c.takeUp peer rs).2.takeUp peer more).2) := by
  induction rs generalizing c with
  | nil => rfl
  | cons r rs ih =>
    cases live : c.live with
    | true => rw [List.cons_append, takeUp_cons live, takeUp_cons live, ih, List.cons_append]
    | false => rw [takeUp_ended live, takeUp_ended live, takeUp_ended live, List.append_nil]

theorem takeUp_prefix (peer : Peer) (c : Connection) (h : rs <+: more) :
    (c.takeUp peer rs).1 <+: (c.takeUp peer more).1 := by
  obtain ⟨rest, rfl⟩ := h
  rw [takeUp_append]
  exact List.prefix_append _ _

theorem takeUp_of_prefix (h : rs <+: more) (ended : (c.takeUp peer rs).2.live = false) :
    c.takeUp peer more = c.takeUp peer rs := by
  obtain ⟨rest, rfl⟩ := h
  rw [takeUp_append, takeUp_ended ended, List.append_nil]

theorem length_takeUp_le (peer : Peer) (c : Connection) (rs : List Request) : (c.takeUp peer rs).1.length ≤ rs.length := by
  induction rs generalizing c with
  | nil => exact Nat.le_refl 0
  | cons r rs ih =>
    cases live : c.live with
    | true =>
      rw [takeUp_cons live]
      exact Nat.succ_le_succ (ih _)
    | false =>
      rw [takeUp_ended live]
      exact Nat.zero_le _

/-- The requests that are taken up are the first ones, and the others leave no trace. -/
theorem takeUp_take (peer : Peer) (c : Connection) (rs : List Request) :
    c.takeUp peer (rs.take (c.takeUp peer rs).1.length) = c.takeUp peer rs := by
  induction rs generalizing c with
  | nil => rfl
  | cons r rs ih =>
    cases live : c.live with
    | true => rw [takeUp_cons live, List.length_cons, List.take_succ_cons, takeUp_cons live, ih]
    | false => rw [takeUp_ended live, takeUp_ended live]

/-- Only the last request that is taken up can end the connection. -/
theorem live_of_lt_length_takeUp {k : Nat} (h : k < (c.takeUp peer rs).1.length) :
    (c.takeUp peer (rs.take k)).2.live = true := by
  induction rs generalizing c k with
  | nil => exact absurd h (Nat.not_lt_zero k)
  | cons r rs ih =>
    cases live : c.live with
    | true =>
      rw [takeUp_cons live, List.length_cons] at h
      cases k with
      | zero => exact live
      | succ k =>
        rw [List.take_succ_cons, takeUp_cons live]
        exact ih (Nat.lt_of_succ_lt_succ h)
    | false =>
      rw [takeUp_ended live] at h
      exact absurd h (Nat.not_lt_zero k)

/-- A connection that lasts takes up all requests. -/
theorem ended_of_length_takeUp_lt (h : (c.takeUp peer rs).1.length < rs.length) : (c.takeUp peer rs).2.live = false := by
  induction rs generalizing c with
  | nil => exact absurd h (Nat.not_lt_zero _)
  | cons r rs ih =>
    cases live : c.live with
    | true =>
      rw [takeUp_cons live] at h ⊢
      exact ih (Nat.lt_of_succ_lt_succ h)
    | false =>
      rw [takeUp_ended live]
      exact live

/-! ### Parts of one order -/

section Parts

variable {order rs' : List Request} {outcomes outcomes' : List Outcome} {last last' : Connection}

theorem getElem?_takeUp (h : rs <+: order) (taken : c.takeUp peer rs = (outcomes, last)) {n : Nat} {outcome : Outcome}
    (hn : outcomes[n]? = some outcome) : (c.takeUp peer order).1[n]? = some outcome := by
  have hpart := takeUp_prefix peer c h
  rw [taken] at hpart
  obtain ⟨hlt, rfl⟩ := List.getElem?_eq_some_iff.mp hn
  exact List.prefix_iff_getElem?.mp hpart n hlt

/-- If the connection ends with one part, no other part goes further. -/
theorem length_le_of_ended (h : rs <+: order) (h' : rs' <+: order) (taken : c.takeUp peer rs = (outcomes, last))
    (taken' : c.takeUp peer rs' = (outcomes', last')) (ended : last.live = false) : outcomes'.length ≤ outcomes.length := by
  have hpart := takeUp_prefix peer c h'
  rw [taken', takeUp_of_prefix h (by rw [taken]; exact ended), taken] at hpart
  exact hpart.length_le

/-- After parts of the same length the connections are the same. -/
theorem last_eq_of_length (h : rs <+: order) (h' : rs' <+: order) (taken : c.takeUp peer rs = (outcomes, last))
    (taken' : c.takeUp peer rs' = (outcomes', last')) (length : rs.length = rs'.length) : last = last' := by
  have hsame := (List.prefix_of_prefix_length_le h h' (Nat.le_of_eq length)).eq_of_length length
  rw [hsame, taken'] at taken
  exact congrArg Prod.snd taken.symm

end Parts

theorem requestEach_cons (peer : Peer) (c : Connection) (r : Request) (rs : List Request) :
    c.requestEach peer (r :: rs) =
      ((c.request peer r).1 :: ((c.request peer r).2.requestEach peer rs).1, ((c.request peer r).2.requestEach peer rs).2) :=
  rfl

/-- Of the requests that are made one after another, those behind the end find that the connection has ended. -/
theorem requestEach_eq (peer : Peer) (c : Connection) (rs : List Request) :
    c.requestEach peer rs =
      ((c.takeUp peer rs).1 ++ List.replicate (rs.length - (c.takeUp peer rs).1.length) (.error .connectionEnded),
        (c.takeUp peer rs).2) := by
  induction rs generalizing c with
  | nil => rfl
  | cons r rs ih =>
    rw [requestEach_cons, ih]
    cases live : c.live with
    | true =>
      rw [request, if_pos live, takeUp_cons live, List.length_cons, List.length_cons, Nat.succ_sub_succ, List.cons_append]
    | false =>
      rw [request, if_neg (Bool.eq_false_iff.mp live), takeUp_ended live, takeUp_ended live]
      rfl

theorem requestEach_of_taken (h : (c.takeUp peer rs).1.length = rs.length) : c.requestEach peer rs = c.takeUp peer rs := by
  rw [requestEach_eq, h, Nat.sub_self, List.replicate_zero, List.append_nil]

/-! ### Serving in turns -/

/-- The turn in which the serving of requests comes to its end. -/
def lastTurn (peer : Peer) (c : Connection) (turn : Turn) : List Request → Turn
  | [] => turn
  | r :: rest =>
    if c.live then
      let after := (c.exchange peer r).2
      after.lastTurn peer (turnAfter peer c after turn) rest
    else turn

theorem lastTurn_cons (turn : Turn) (live : c.live = true) :
    c.lastTurn peer turn (r :: rs) =
      (c.exchange peer r).2.lastTurn peer (turnAfter peer c (c.exchange peer r).2 turn) rs := by
  rw [lastTurn, if_pos live]

theorem lastTurn_ended (turn : Turn) (ended : c.live = false) (rs : List Request) : c.lastTurn peer turn rs = turn := by
  cases rs with
  | nil => rfl
  | cons r rs => rw [lastTurn, if_neg (Bool.eq_false_iff.mp ended)]

theorem serve_cons (peer : Peer) (turn : Turn) (r : Request) (rs : List Request) (live : c.live = true) :
    c.serve peer turn (r :: rs) =
      ((c.exchange peer r).1 ::
        ((c.exchange peer r).2.serve peer (turnAfter peer c (c.exchange peer r).2 turn) rs).1,
        ((c.exchange peer r).2.serve peer (turnAfter peer c (c.exchange peer r).2 turn) rs).2) := by
  rw [serve, if_pos live]

theorem serve_ended (peer : Peer) (turn : Turn) (rs : List Request) (ended : c.live = false) :
    c.serve peer turn rs = (unserved turn.queued rs, c) := by
  cases rs with
  | nil => simp [serve, unserved]
  | cons r rs => rw [serve, if_neg (Bool.eq_false_iff.mp ended)]

/-- The turns decide only what becomes of the requests that are not taken up. -/
theorem serve_eq (peer : Peer) (c : Connection) (turn : Turn) (rs : List Request) :
    c.serve peer turn rs =
      ((c.takeUp peer rs).1 ++ unserved (c.lastTurn peer turn rs).queued (rs.drop (c.takeUp peer rs).1.length),
        (c.takeUp peer rs).2) := by
  induction rs generalizing c turn with
  | nil => simp [serve, takeUp, unserved]
  | cons r rs ih =>
    cases live : c.live with
    | true =>
      rw [serve_cons peer turn r rs live, takeUp_cons live, lastTurn_cons turn live, ih, List.cons_append, List.length_cons,
        List.drop_succ_cons]
    | false =>
      rw [serve_ended peer turn _ live, takeUp_ended live, lastTurn_ended turn live]
      rfl

/-- Requests that are all taken up have the same outcomes, made together or one after another. -/
theorem requestAll_of_taken (live : c.live = true) (h : (c.takeUp peer rs).1.length = rs.length) :
    c.requestAll peer rs = c.takeUp peer rs := by
  rw [requestAll, if_pos live, serve_eq, h, List.drop_length, unserved, List.take_nil, List.drop_nil, List.map_nil,
    List.map_nil, List.append_nil, List.append_nil]

end Connection

namespace Shared

/-- In every run, what became of the requests that were served is what becomes of them when they are taken up in order. -/
theorem takeUp_run (peer : Peer) (c : Connection) (events : List Event) :
    c.takeUp peer (((start c).run peer events).served.map (·.1.request)) =
      (((start c).run peer events).served.map (·.2), ((start c).run peer events).connection) := by
  refine run_served peer
    (P := fun c' served => c.takeUp peer (served.map (·.1.request)) = (served.map (·.2), c')) rfl ?_ events
  intro c' served t live h
  rw [List.map_append, List.map_append, Connection.takeUp_append, h, List.map_singleton, List.map_singleton,
    Connection.takeUp_cons live]
  rfl

end Shared

end Pinboard
