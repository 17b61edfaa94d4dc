import Pinboard.Proofs.Frame.Delivery

/-! Frames read from any bytes, whoever has sent them. A read goes by the bytes that are left and takes a whole frame,
    a length alone, or all of them, so the reads of a stream are settled by its bytes, however these are cut into
    pieces. Those before the first fault take the stream apart into frames, as many as there are. -/

namespace Pinboard

/-- A fault as its kind and its text, which is what a caller sees of it. -/
def StreamFault.seen (fault : StreamFault) : FaultKind × String := (fault.kind, fault.message)

namespace Frame

variable {bytes rest : List UInt8} {bodies : List (List UInt8)}

/-! ### One read -/

/-- The outcome of a read as a caller sees it. -/
abbrev Seen := Except (FaultKind × String) (List UInt8)

/-- What a read makes of the bytes that are left, and which of them it leaves. -/
inductive Reading : List UInt8 → Seen → List UInt8 → Prop
  | noLength {bytes : List UInt8} (short : bytes.length < 4) :
    Reading bytes (.error (.unexpectedEof, "unexpected end of file")) []
  | tooLong {length : Nat} {rest : List UInt8} (spelled : length < 0x100000000) (long : maxBody < length) :
    Reading (lengthBytes length ++ rest)
      (.error (.invalidData, "packet of " ++ Nat.repr length ++ " bytes exceeds limit")) rest
  | cut {length : Nat} {rest : List UInt8} (legal : length ≤ maxBody) (short : rest.length < length) :
    Reading (lengthBytes length ++ rest) (.error (.unexpectedEof, "early eof")) []
  | frame {body rest : List UInt8} (legal : body.length ≤ maxBody) : Reading (encode body ++ rest) (.ok body) rest

theorem exists_length (h : 4 ≤ bytes.length) :
    ∃ length rest, length < 0x100000000 ∧ bytes = lengthBytes length ++ rest := by
  have h4 : (bytes.take 4).length = 4 := List.length_take_of_le h
  exact ⟨_, bytes.drop 4, lengthOf_lt h4, by rw [lengthBytes_lengthOf h4, List.take_append_drop]⟩

theorem Reading.eq_split {outcome : Seen} (h : Reading bytes outcome rest) :
    outcome = (split none bytes).1.mapError StreamFault.seen ∧ rest = (split none bytes).2 := by
  cases h with
  | noLength short =>
    rw [split, if_pos short]
    exact ⟨rfl, rfl⟩
  | tooLong spelled long =>
    rw [split_lengthBytes spelled, if_pos long]
    exact ⟨rfl, rfl⟩
  | cut legal short =>
    rw [split_lengthBytes (Nat.lt_of_le_of_lt legal maxBody_lt), if_neg (Nat.not_lt.mpr legal), if_pos short]
    exact ⟨rfl, rfl⟩
  | frame legal =>
    rw [split_frame legal]
    exact ⟨rfl, rfl⟩

theorem reading_split (bytes : List UInt8) :
    Reading bytes ((split none bytes).1.mapError StreamFault.seen) (split none bytes).2 := by
  by_cases h4 : bytes.length < 4
  · rw [split, if_pos h4]
    exact .noLength h4
  obtain ⟨length, rest, spelled, rfl⟩ := exists_length (Nat.le_of_not_lt h4)
  rw [split_lengthBytes spelled]
  by_cases long : maxBody < length
  · rw [if_pos long]
    exact .tooLong spelled long
  rw [if_neg long]
  by_cases short : rest.length < length
  · rw [if_pos short]
    exact .cut (Nat.le_of_not_lt long) short
  rw [if_neg short]
  have hlength : (rest.take length).length = length := List.length_take_of_le (Nat.le_of_not_lt short)
  have hframe := @Reading.frame (rest.take length) (rest.drop length) (hlength.symm ▸ Nat.le_of_not_lt long)
  rwa [encode, hlength, List.append_assoc, List.take_append_drop] at hframe

/-- A body that is read was written as just the bytes that are taken for it. -/
theorem Reading.written {body : List UInt8} (h : Reading bytes (.ok body) rest) {out : Pace} (hout : ∀ n, out n ≠ some 0) :
    ∃ sink, write body (.empty out none) = (.ok (), sink) ∧ sink.accepted.length = 4 + body.length ∧
      bytes = sink.accepted ++ rest := by
  cases h with
  | frame legal =>
    have flows : (Sink.empty out none).Flows := hout
    obtain ⟨houtcome, offered⟩ := write_of_flows flows rfl legal
    have haccepted : (write body (.empty out none)).2.accepted = encode body := offered.accepted
    exact ⟨_, Prod.ext (houtcome.trans (if_pos nofun)) rfl, by rw [haccepted, length_encode], by rw [haccepted]⟩

/-! ### Reads one after another -/

/-- Reads one after another, each of what the one before has left, whether that has failed or not. -/
inductive Readings : List UInt8 → List (Seen × List UInt8) → Prop
  | none {bytes : List UInt8} : Readings bytes []
  | more {bytes left : List UInt8} {outcome : Seen} {steps : List (Seen × List UInt8)}
      (first : Reading bytes outcome left) (others : Readings left steps) : Readings bytes ((outcome, left) :: steps)

/-- What is seen of so many reads: each outcome, and the bytes that are left then. -/
def observed (source : Source) (n : Nat) : List (Seen × List UInt8) :=
  (readEach source n).map fun step => (step.1.mapError StreamFault.seen, step.2.unread)

/-- On a source that flows and then ends, so many reads are seen as these, and they could not be others. -/
theorem readings_iff {source : Source} (flows : source.Flows) (ends : source.fault = none) {n : Nat}
    {steps : List (Seen × List UInt8)} :
    Readings source.unread steps ∧ steps.length = n ↔ steps = observed source n := by
  induction n generalizing source steps with
  | zero =>
    constructor
    · rintro ⟨-, hlength⟩
      exact List.length_eq_zero_iff.mp hlength
    · rintro rfl
      exact ⟨.none, rfl⟩
  | succ n ih =>
    obtain ⟨hread, hleft⟩ := read_of_flows flows
    have flows' : (Frame.read source).2.Flows := (keeps_read source).flows flows
    have ends' : (Frame.read source).2.fault = none := (keeps_read source).fault.trans ends
    rw [ends] at hread hleft
    have hobserved : observed source (n + 1) =
        ((split none source.unread).1.mapError StreamFault.seen, (split none source.unread).2) ::
          observed (Frame.read source).2 n := by
      rw [← hread, ← hleft]
      rfl
    rw [hobserved]
    constructor
    · rintro ⟨hsteps, hlength⟩
      cases hsteps with
      | none => cases hlength
      | more first others =>
        obtain ⟨rfl, rfl⟩ := first.eq_split
        rw [← hleft] at others
        rw [(ih flows' ends').mp ⟨others, Nat.succ.inj hlength⟩]
    · rintro rfl
      obtain ⟨others, hlength⟩ := (ih flows' ends').mpr rfl
      rw [hleft] at others
      exact ⟨.more (reading_split source.unread) others, congrArg Nat.succ hlength⟩

/-! ### The frames at the front -/

/-- The bytes are the frames of the bodies, and what is behind them begins with no further frame. -/
structure Decomposes (bytes : List UInt8) (bodies : List (List UInt8)) (rest : List UInt8) : Prop where
  whole : bytes = encodeAll bodies ++ rest
  legal : ∀ body ∈ bodies, body.length ≤ maxBody
  ended : ∀ body more, body.length ≤ maxBody → rest ≠ encode body ++ more

theorem exists_decomposes (bytes : List UInt8) : ∃ bodies rest, Decomposes bytes bodies rest := by
  induction hn : bytes.length using Nat.strongRecOn generalizing bytes with
  | ind n ih =>
    by_cases starts : Starts bytes
    · obtain ⟨body, more, legal, rfl⟩ := starts_iff.mp starts
      have hlt : more.length < n := by
        rw [← hn, List.length_append, length_encode]
        omega
      obtain ⟨bodies, rest, h⟩ := ih _ hlt more rfl
      refine ⟨body :: bodies, rest, ?_, List.forall_mem_cons.mpr ⟨legal, h.legal⟩, h.ended⟩
      rw [encodeAll_cons, List.append_assoc, ← h.whole]
    · exact ⟨[], bytes, rfl, nofun, fun body more legal h => starts (starts_iff.mpr ⟨body, more, legal, h⟩)⟩

/-- Whatever frames the bytes begin with, they are among the first of these. -/
theorem Decomposes.maximal (h : Decomposes bytes bodies rest) {bodies' : List (List UInt8)} {rest' : List UInt8}
    (legal : ∀ body ∈ bodies', body.length ≤ maxBody) (whole : bytes = encodeAll bodies' ++ rest') :
    bodies' <+: bodies := by
  induction bodies' generalizing bytes bodies with
  | nil => exact List.nil_prefix
  | cons body' bodies' ih =>
    obtain ⟨hbody', hbodies'⟩ := List.forall_mem_cons.mp legal
    rw [encodeAll_cons, List.append_assoc] at whole
    cases bodies with
    | nil => exact absurd (h.whole.symm.trans whole) (h.ended _ _ hbody')
    | cons body bodies =>
      obtain ⟨hbody, hbodies⟩ := List.forall_mem_cons.mp h.legal
      have hwhole := h.whole
      rw [encodeAll_cons, List.append_assoc] at hwhole
      obtain ⟨rfl, hmore⟩ := encode_append_inj hbody hbody' (hwhole.symm.trans whole)
      exact List.cons_prefix_cons.mpr ⟨rfl, ih ⟨rfl, hbodies, h.ended⟩ hbodies' hmore⟩

theorem Decomposes.unique (h : Decomposes bytes bodies rest) {bodies' : List (List UInt8)} {rest' : List UInt8}
    (h' : Decomposes bytes bodies' rest') : bodies' = bodies ∧ rest' = rest := by
  obtain rfl := (h.maximal h'.legal h'.whole).eq_of_length_le (h'.maximal h.legal h.whole).length_le
  exact ⟨rfl, List.append_cancel_left (h'.whole.symm.trans h.whole)⟩

/-- The reads that take the frames of the bodies, with `rest` behind them. -/
def passed (rest : List UInt8) : List (List UInt8) → List (Seen × List UInt8)
  | [] => []
  | body :: bodies => (.ok body, encodeAll bodies ++ rest) :: passed rest bodies

theorem length_passed (rest : List UInt8) (bodies : List (List UInt8)) : (passed rest bodies).length = bodies.length := by
  induction bodies with
  | nil => rfl
  | cons body bodies ih => exact congrArg Nat.succ ih

theorem Readings.passed {steps : List (Seen × List UInt8)} (legal : ∀ body ∈ bodies, body.length ≤ maxBody) (h : Readings rest steps) :
    Readings (encodeAll bodies ++ rest) (Frame.passed rest bodies ++ steps) := by
  induction bodies with
  | nil => exact h
  | cons body bodies ih =>
    obtain ⟨hbody, hbodies⟩ := List.forall_mem_cons.mp legal
    rw [encodeAll_cons, List.append_assoc]
    exact .more (.frame hbody) (ih hbodies)

/-- The frames at the front are read one by one, and the next read fails. -/
theorem Decomposes.observed (h : Decomposes bytes bodies rest) {into : Pace} (hinto : ∀ n, into n ≠ some 0) (n : Nat) :
    ∃ fault left others, observed (.ofBytes bytes into) (bodies.length + (n + 1)) =
      passed rest bodies ++ (.error fault, left) :: others := by
  have flows (bytes : List UInt8) : (Source.ofBytes bytes into).Flows := hinto
  obtain ⟨hrest, hlength⟩ := (readings_iff (flows rest) rfl).mpr (rfl : Frame.observed (.ofBytes rest into) (n + 1) = _)
  generalize Frame.observed (.ofBytes rest into) (n + 1) = steps at hrest hlength
  have hall : Readings (encodeAll bodies ++ rest) (passed rest bodies ++ steps) := hrest.passed h.legal
  rw [← h.whole] at hall
  have hobserved := (readings_iff (flows bytes) rfl).mp ⟨hall, by rw [List.length_append, length_passed, hlength]⟩
  cases hrest with
  | none => cases hlength
  | more first others =>
    cases first with
    | frame legal => exact absurd rfl (h.ended _ _ legal)
    | noLength short => exact ⟨_, _, _, hobserved.symm⟩
    | tooLong spelled long => exact ⟨_, _, _, hobserved.symm⟩
    | cut legal short => exact ⟨_, _, _, hobserved.symm⟩

/-- What is known of reading frames from bytes that come in pieces, going on after faults. -/
structure Dissects (bytes : List UInt8) (into : Pace) : Prop where
  /-- Each read is told by the bytes that are left. -/
  readings : ∀ n steps, Readings bytes steps ∧ steps.length = n ↔ steps = observed (.ofBytes bytes into) n
  /-- What a read takes for a body is what writing that body writes. -/
  written : ∀ left body left', Reading left (.ok body) left' → ∀ out : Pace, (∀ n, out n ≠ some 0) →
    ∃ sink, write body (.empty out none) = (.ok (), sink) ∧ sink.accepted.length = 4 + body.length ∧
      left = sink.accepted ++ left'
  /-- The reads before the first fault find all frames at the front of the bytes, and there is one way to find them. -/
  decomposes : ∃ bodies rest, Decomposes bytes bodies rest ∧
    (∀ bodies' rest', Decomposes bytes bodies' rest' → bodies' = bodies ∧ rest' = rest) ∧
    (∀ bodies' rest', (∀ body ∈ bodies', body.length ≤ maxBody) → bytes = encodeAll bodies' ++ rest' →
      bodies' <+: bodies) ∧
    ∀ n, ∃ fault left others, observed (.ofBytes bytes into) (bodies.length + (n + 1)) =
      passed rest bodies ++ (.error fault, left) :: others

/-- Any bytes are taken apart by reading them, in one way, and into whatever pieces they are cut. -/
theorem dissects (bytes : List UInt8) (into : Pace) (hinto : ∀ n, into n ≠ some 0) : Dissects bytes into where
  readings n steps :=
    have flows : (Source.ofBytes bytes into).Flows := hinto
    readings_iff flows rfl
  written _ _ _ h _ hout := h.written hout
  decomposes := by
    obtain ⟨bodies, rest, h⟩ := exists_decomposes bytes
    exact ⟨bodies, rest, h, fun _ _ => h.unique, fun _ _ => h.maximal, h.observed hinto⟩

/-- Behind two frames there is a length that is too large, and then another one that is cut off. -/
theorem dissects_refused :
    (∀ n, Pace.steady 3 n ≠ some 0) ∧
      Dissects (encodeAll [[7, 8], []] ++ lengthBytes (maxBody + 1) ++ [0, 0]) (.steady 3) ∧
      observed (.ofBytes (encodeAll [[7, 8], []] ++ lengthBytes (maxBody + 1) ++ [0, 0]) (.steady 3)) 5 =
        [(.ok [7, 8], encodeAll [[]] ++ lengthBytes (maxBody + 1) ++ [0, 0]),
         (.ok [], lengthBytes (maxBody + 1) ++ [0, 0]),
         (.error (.invalidData, "packet of 16777217 bytes exceeds limit"), [0, 0]),
         (.error (.unexpectedEof, "unexpected end of file"), []),
         (.error (.unexpectedEof, "unexpected end of file"), [])] :=
  have hinto : ∀ n, Pace.steady 3 n ≠ some 0 := fun _ => nofun
  ⟨hinto, dissects _ _ hinto, rfl⟩

end Frame

end Pinboard
