import Pinboard.Frame
import Pinboard.Proofs.Stream

/-! Frames on streams. The four bytes in front of a body tell its length and nothing else, so what is read is told by
    the bytes and by how the source goes on behind them: a frame is read just when a whole one of legal length stands at
    the front of the source. -/

namespace Pinboard.Frame

/-! ### The length in front of a body -/

@[simp] theorem length_lengthBytes (n : Nat) : (lengthBytes n).length = 4 := rfl

theorem lengthOf_four (a b c d : UInt8) :
    lengthOf [a, b, c, d] = ((a.toNat * 256 + b.toNat) * 256 + c.toNat) * 256 + d.toNat := by
  simp [lengthOf]

theorem lengthOf_lengthBytes {n : Nat} (h : n < 0x100000000) : lengthOf (lengthBytes n) = n := by
  simp only [lengthBytes, lengthOf_four, Nat.toUInt8_eq, UInt8.toNat_ofNat']
  omega

theorem exists_four {bytes : List UInt8} (h : bytes.length = 4) : ∃ a b c d, bytes = [a, b, c, d] := by
  match bytes, h with
  | [a, b, c, d], _ => exact ⟨a, b, c, d, rfl⟩

theorem lengthBytes_lengthOf {bytes : List UInt8} (h : bytes.length = 4) : lengthBytes (lengthOf bytes) = bytes := by
  obtain ⟨a, b, c, d, rfl⟩ := exists_four h
  have ha := a.toNat_lt
  have hb := b.toNat_lt
  have hc := c.toNat_lt
  have hd := d.toNat_lt
  have byte : ∀ {n : Nat} {x : UInt8}, n % 256 = x.toNat → n.toUInt8 = x := fun {n x} hn => by
    rw [← UInt8.toNat_inj, Nat.toUInt8_eq, UInt8.toNat_ofNat']
    exact hn
  simp only [lengthBytes, lengthOf_four]
  rw [byte (x := a) (by omega), byte (x := b) (by omega), byte (x := c) (by omega), byte (x := d) (by omega)]

theorem lengthOf_lt {bytes : List UInt8} (h : bytes.length = 4) : lengthOf bytes < 0x100000000 := by
  obtain ⟨a, b, c, d, rfl⟩ := exists_four h
  have ha := a.toNat_lt
  have hb := b.toNat_lt
  have hc := c.toNat_lt
  have hd := d.toNat_lt
  rw [lengthOf_four]
  omega

theorem maxBody_lt : maxBody < 0x100000000 := by decide

@[simp] theorem take_lengthBytes (n : Nat) (rest : List UInt8) : (lengthBytes n ++ rest).take 4 = lengthBytes n :=
  List.take_left' rfl

@[simp] theorem drop_lengthBytes (n : Nat) (rest : List UInt8) : (lengthBytes n ++ rest).drop 4 = rest :=
  List.drop_left' rfl

/-! ### Frames at the front of bytes -/

theorem length_encode (body : List UInt8) : (encode body).length = 4 + body.length := by simp [encode]

/-- The frames of bodies, one after another. -/
def encodeAll (bodies : List (List UInt8)) : List UInt8 := bodies.flatMap encode

@[simp] theorem encodeAll_nil : encodeAll [] = [] := rfl

theorem encodeAll_cons (body : List UInt8) (bodies : List (List UInt8)) :
    encodeAll (body :: bodies) = encode body ++ encodeAll bodies := rfl

@[simp] theorem encodeAll_append (bodies more : List (List UInt8)) :
    encodeAll (bodies ++ more) = encodeAll bodies ++ encodeAll more :=
  List.flatMap_append

@[simp] theorem encodeAll_singleton (body : List UInt8) : encodeAll [body] = encode body := by
  simp [encodeAll]

/-- A whole frame of legal length stands at the front. -/
def Starts (bytes : List UInt8) : Prop :=
  4 ≤ bytes.length ∧ lengthOf (bytes.take 4) ≤ maxBody ∧ 4 + lengthOf (bytes.take 4) ≤ bytes.length

/-- The bytes end before a frame or inside its length, or announce too much, or end inside the body. -/
def Broken (bytes : List UInt8) : Prop :=
  bytes.length < 4 ∨ maxBody < lengthOf (bytes.take 4) ∨ bytes.length < 4 + lengthOf (bytes.take 4)

theorem broken_iff {bytes : List UInt8} : Broken bytes ↔ ¬Starts bytes := by
  unfold Broken Starts
  omega

theorem starts_iff {bytes : List UInt8} :
    Starts bytes ↔ ∃ body rest, body.length ≤ maxBody ∧ bytes = encode body ++ rest := by
  constructor
  · rintro ⟨h4, hmax, hlen⟩
    have hbody : ((bytes.drop 4).take (lengthOf (bytes.take 4))).length = lengthOf (bytes.take 4) := by
      rw [List.length_take, List.length_drop]
      omega
    refine ⟨(bytes.drop 4).take (lengthOf (bytes.take 4)), (bytes.drop 4).drop (lengthOf (bytes.take 4)), ?_, ?_⟩
    · rw [hbody]
      exact hmax
    · rw [encode, hbody, lengthBytes_lengthOf (by rw [List.length_take]; omega), List.append_assoc,
        List.take_append_drop, List.take_append_drop]
  · rintro ⟨body, rest, hmax, rfl⟩
    have htake : (encode body ++ rest).take 4 = lengthBytes body.length := by
      rw [encode, List.append_assoc, take_lengthBytes]
    have hlen : (encode body ++ rest).length = 4 + body.length + rest.length := by
      simp [encode, Nat.add_assoc]
    rw [Starts, htake, hlen, lengthOf_lengthBytes (Nat.lt_of_le_of_lt hmax maxBody_lt)]
    omega

/-- Of two legal frames at the front of the same bytes, the one is the other. -/
theorem encode_append_inj {body body' rest rest' : List UInt8} (hb : body.length ≤ maxBody)
    (hb' : body'.length ≤ maxBody) (h : encode body ++ rest = encode body' ++ rest') : body = body' ∧ rest = rest' := by
  simp only [encode, List.append_assoc] at h
  obtain ⟨hlen, h⟩ := List.append_inj h rfl
  have hlen' := congrArg lengthOf hlen
  rw [lengthOf_lengthBytes (Nat.lt_of_le_of_lt hb maxBody_lt),
    lengthOf_lengthBytes (Nat.lt_of_le_of_lt hb' maxBody_lt)] at hlen'
  exact List.append_inj h hlen'

/-! ### Writing -/

/-- A fault of writing a frame that is not too long. -/
def WriteFault (sink : Sink) (fault : StreamFault) : Prop := sink.WriteFault fault ∨ sink.flushFault = some fault

theorem WriteFault.kind_ne {sink : Sink} {fault : StreamFault} (h : WriteFault sink fault) (apart : sink.TellsApart) :
    fault.kind ≠ .invalidInput := by
  rcases h with h | h
  · exact h.kind_ne apart
  · exact apart.flush fault h

/-- How writing a frame can go. -/
inductive Written (body : List UInt8) (sink : Sink) : Except StreamFault Unit → Sink → Prop
  /-- A body that is too long is refused, and nothing is written. -/
  | refused (long : maxBody < body.length) : Written body sink (.error (.tooLongToSend body.length)) sink
  /-- A fault stops it, with a beginning of the frame written. -/
  | cut {fault : StreamFault} {part : List UInt8} {sink' : Sink} (fits : body.length ≤ maxBody)
      (fault_of : WriteFault sink fault) (beginning : part <+: encode body) (took : sink.Took part sink') :
      Written body sink (.error fault) sink'
  /-- The whole frame is written. -/
  | whole {sink' : Sink} (fits : body.length ≤ maxBody) (took : sink.Took (encode body) sink') :
      Written body sink (.ok ()) sink'

theorem written (body : List UInt8) (sink : Sink) : Written body sink (write body sink).1 (write body sink).2 := by
  unfold write
  by_cases hlong : body.length > maxBody
  · simp only [if_pos hlong]
    exact .refused hlong
  · have fits : body.length ≤ maxBody := Nat.le_of_not_lt hlong
    simp only [if_neg hlong]
    rcases sink.writeAll_cases (lengthBytes body.length) with
      ⟨s₁, h₁, took₁⟩ | ⟨fault, part, s₁, h₁, hf, hpart, took₁⟩
    · simp only [h₁]
      rcases s₁.writeAll_cases body with ⟨s₂, h₂, took₂⟩ | ⟨fault, part, s₂, h₂, hf, hpart, took₂⟩
      · simp only [h₂]
        have took : sink.Took (encode body) s₂ := took₁.trans took₂
        rcases s₂.flush_cases with ⟨s₃, h₃, took₃⟩ | ⟨fault, h₃, hf⟩
        · rw [h₃]
          refine .whole fits ?_
          simpa only [List.append_nil] using took.trans took₃
        · rw [h₃]
          refine .cut fits (Or.inr ?_) (List.prefix_refl _) took
          rw [← hf, took.flushFault]
      · simp only [h₂]
        refine .cut fits (Or.inl ?_) ((List.prefix_append_right_inj _).mpr hpart) (took₁.trans took₂)
        rwa [Sink.WriteFault, took₁.fault] at hf
    · simp only [h₁]
      exact .cut fits (Or.inl hf) (hpart.trans (List.prefix_append _ _)) took₁

/-- A sink that flows takes of a legal frame what its room allows, whatever the pieces. -/
theorem write_of_flows {sink : Sink} (flows : sink.Flows) (unflushed : sink.flushFault = none) {body : List UInt8}
    (fits : body.length ≤ maxBody) :
    (write body sink).1 = (if RoomFor sink.room (encode body).length then .ok () else .error sink.fault) ∧
      sink.Offered (encode body) (write body sink).2 := by
  obtain ⟨h₁, offered₁⟩ := sink.writeAll_of_flows flows (lengthBytes body.length)
  simp only [write, if_neg (Nat.not_lt.mpr fits)]
  generalize sink.writeAll (lengthBytes body.length) = step₁ at h₁ offered₁ ⊢
  obtain ⟨outcome₁, sink₁⟩ := step₁
  simp only at h₁ offered₁
  by_cases h4 : RoomFor sink.room (lengthBytes body.length).length
  · have hroom : RoomFor sink₁.room body.length ↔ RoomFor sink.room (encode body).length := by
      rw [offered₁.room, roomFor_add h4, length_encode, length_lengthBytes]
    obtain ⟨h₂, offered₂⟩ := sink₁.writeAll_of_flows (offered₁.flows flows) body
    rw [h₁, if_pos h4]
    simp only
    generalize sink₁.writeAll body = step₂ at h₂ offered₂ ⊢
    obtain ⟨outcome₂, sink₂⟩ := step₂
    simp only [hroom] at h₂ offered₂
    have offered : sink.Offered (encode body) sink₂ := offered₁.trans offered₂
    by_cases hb : RoomFor sink.room (encode body).length
    · rw [if_pos hb] at h₂ ⊢
      rw [h₂]
      exact Sink.flush_of_none (offered.flushFault.trans unflushed) offered
    · rw [if_neg hb] at h₂ ⊢
      rw [h₂, offered₁.fault]
      exact ⟨rfl, offered⟩
  · have hb : ¬RoomFor sink.room (encode body).length := fun h => h4 fun r hr => by
      have := h r hr
      rw [length_encode] at this
      rw [length_lengthBytes]
      omega
    rw [h₁, if_neg h4, if_neg hb]
    exact ⟨rfl, offered₁.behind h4⟩

theorem write_of_long {body : List UInt8} (long : ¬body.length ≤ maxBody) (sink : Sink) :
    write body sink = (.error (.tooLongToSend body.length), sink) :=
  if_pos (Nat.not_le.mp long)

/-! ### Reading -/

/-- The read has failed because nothing more comes in: it reports the fault that is the source's own, or else the end. -/
def MeetsEnd (own : Option StreamFault) (outcome : Except StreamFault (List UInt8)) : Prop :=
  ∃ ended, outcome = .error (own.getD ended) ∧ ended.kind = .unexpectedEof

/-- The bytes that a read takes for its outcome, where `own` is the fault of the source if it has one. -/
inductive Share (own : Option StreamFault) : Except StreamFault (List UInt8) → List UInt8 → Prop
  | noLength {part : List UInt8} (short : part.length < 4) : Share own (.error (own.getD .endBeforeFrame)) part
  | tooLong {length : Nat} (spelled : length < 0x100000000) (long : maxBody < length) :
    Share own (.error (.tooLongToReceive length)) (lengthBytes length)
  | cut {length : Nat} {part : List UInt8} (legal : length ≤ maxBody) (short : part.length < length) :
    Share own (.error (own.getD .endInFrame)) (lengthBytes length ++ part)
  | frame {body : List UInt8} (legal : body.length ≤ maxBody) : Share own (.ok body) (encode body)

/-- The bytes end inside a length, or inside a body of legal length. -/
def Short (bytes : List UInt8) : Prop :=
  bytes.length < 4 ∨ lengthOf (bytes.take 4) ≤ maxBody ∧ bytes.length < 4 + lengthOf (bytes.take 4)

theorem short_lengthBytes {length : Nat} {part : List UInt8} (spelled : length < 0x100000000) :
    Short (lengthBytes length ++ part) ↔ length ≤ maxBody ∧ part.length < length := by
  rw [Short, take_lengthBytes, lengthOf_lengthBytes spelled, List.length_append, length_lengthBytes]
  omega

/-- A read takes its share off the front of a source, which is all there was if the source flows and the share is
    short. -/
structure Takes (source : Source) (outcome : Except StreamFault (List UInt8)) (taken : List UInt8) (source' : Source) :
    Prop where
  share : Share source.fault outcome taken
  unread : source.unread = taken ++ source'.unread
  keeps : source.Keeps source'
  all : source.Flows → Short taken → source'.unread = []

theorem exists_takes (source : Source) : ∃ taken, Takes source (read source).1 taken (read source).2 := by
  rw [read]
  rcases h₁ : source.readExact 4 .endBeforeFrame with ⟨_ | bytes, source₁⟩
  · obtain ⟨rfl, part, short, htaken, keeps, hall⟩ := Source.readExact_error h₁
    exact ⟨part, .noLength short, htaken, keeps, fun flows _ => hall flows⟩
  obtain ⟨h4, htaken, keeps⟩ := Source.readExact_ok h₁
  obtain ⟨length, spelled, rfl⟩ : ∃ length < 0x100000000, bytes = lengthBytes length :=
    ⟨lengthOf bytes, lengthOf_lt h4, (lengthBytes_lengthOf h4).symm⟩
  simp only [lengthOf_lengthBytes spelled]
  by_cases long : maxBody < length
  · rw [if_pos long]
    refine ⟨lengthBytes length, .tooLong spelled long, htaken, keeps, fun _ short => ?_⟩
    rw [← List.append_nil (lengthBytes length), short_lengthBytes spelled] at short
    exact absurd long (Nat.not_lt.mpr short.1)
  rw [if_neg long]
  have legal : length ≤ maxBody := Nat.le_of_not_lt long
  rcases h₂ : source₁.readExact length .endInFrame with ⟨_ | body, source₂⟩
  · obtain ⟨rfl, part, short, htaken₂, keeps₂, hall⟩ := Source.readExact_error h₂
    rw [keeps.fault]
    refine ⟨lengthBytes length ++ part, .cut legal short, ?_, keeps.trans keeps₂, fun flows _ => hall (keeps.flows flows)⟩
    rw [htaken, htaken₂, List.append_assoc]
  · obtain ⟨rfl, htaken₂, keeps₂⟩ := Source.readExact_ok h₂
    refine ⟨encode body, .frame legal, ?_, keeps.trans keeps₂, fun _ short => ?_⟩
    · rw [htaken, htaken₂, encode, List.append_assoc]
    · rw [encode, short_lengthBytes spelled] at short
      exact absurd short.2 (Nat.lt_irrefl _)

/-- What is read off the front of bytes, and the bytes that are left then. -/
def split (own : Option StreamFault) (bytes : List UInt8) : Except StreamFault (List UInt8) × List UInt8 :=
  let length := lengthOf (bytes.take 4)
  if bytes.length < 4 then (.error (own.getD .endBeforeFrame), [])
  else if length > maxBody then (.error (.tooLongToReceive length), bytes.drop 4)
  else if bytes.length < 4 + length then (.error (own.getD .endInFrame), [])
  else (.ok ((bytes.drop 4).take length), bytes.drop (4 + length))

section Reading
variable {own : Option StreamFault} {source : Source}

theorem split_lengthBytes {length : Nat} {rest : List UInt8} (spelled : length < 0x100000000) :
    split own (lengthBytes length ++ rest) =
      if maxBody < length then (.error (.tooLongToReceive length), rest)
      else if rest.length < length then (.error (own.getD .endInFrame), [])
      else (.ok (rest.take length), rest.drop length) := by
  have hshort : (lengthBytes length ++ rest).length < 4 + length ↔ rest.length < length := by
    simp
  have hlong : ¬(lengthBytes length ++ rest).length < 4 := by simp
  simp only [split, take_lengthBytes, lengthOf_lengthBytes spelled, ← List.drop_drop, drop_lengthBytes, hshort,
    if_neg hlong, gt_iff_lt]

theorem split_frame {body rest : List UInt8} (fits : body.length ≤ maxBody) :
    split own (encode body ++ rest) = (.ok body, rest) := by
  rw [encode, List.append_assoc, split_lengthBytes (Nat.lt_of_le_of_lt fits maxBody_lt), if_neg (Nat.not_lt.mpr fits),
    if_neg (by rw [List.length_append]; omega), List.take_left' rfl, List.drop_left' rfl]

theorem keeps_read (source : Source) : source.Keeps (read source).2 := by
  obtain ⟨taken, h⟩ := exists_takes source
  exact h.keeps

/-- On a source that flows, what is read is told by the bytes that are left, whatever the pieces. -/
theorem read_of_flows (flows : source.Flows) :
    (read source).1 = (split source.fault source.unread).1 ∧
      (read source).2.unread = (split source.fault source.unread).2 := by
  obtain ⟨taken, hshare, hunread, -, hall⟩ := exists_takes source
  have hall := hall flows
  generalize (read source).1 = outcome at hshare ⊢
  rw [hunread]
  cases hshare with
  | noLength short =>
    rw [hall (Or.inl short), List.append_nil, split, if_pos short]
    exact ⟨rfl, rfl⟩
  | tooLong spelled long =>
    rw [split_lengthBytes spelled, if_pos long]
    exact ⟨rfl, rfl⟩
  | cut legal short =>
    have spelled := Nat.lt_of_le_of_lt legal maxBody_lt
    rw [hall ((short_lengthBytes spelled).mpr ⟨legal, short⟩), List.append_nil, split_lengthBytes spelled,
      if_neg (Nat.not_lt.mpr legal), if_pos short]
    exact ⟨rfl, rfl⟩
  | frame legal =>
    rw [split_frame legal]
    exact ⟨rfl, rfl⟩

/-- Where reading has a fault of its own, that is what is reported and not the end. -/
example : (read { Source.ofBytes [0, 0, 0] Pace.unbounded with fault := some (.system (.ofCode 104)) }).1 =
    .error (.system ⟨104, .connectionReset, "Connection reset by peer"⟩) := rfl

/-- The faults of reading a frame. -/
def ReadFault (own : Option StreamFault) (fault : StreamFault) : Prop :=
  fault = own.getD .endBeforeFrame ∨ fault = own.getD .endInFrame ∨ ∃ length, fault = .tooLongToReceive length

/-- Neither the end of a source nor a length is a fault of the kind of refusals, so one of this kind is the source's own. -/
theorem ReadFault.eq_own {fault : StreamFault} (h : ReadFault own fault) (hkind : fault.kind = .invalidInput) :
    own = some fault := by
  rcases own with _ | fault'
  · rcases h with rfl | rfl | ⟨length, rfl⟩ <;> cases hkind
  · rcases h with rfl | rfl | ⟨length, rfl⟩
    · rfl
    · rfl
    · cases hkind

/-- How reading a frame can go. -/
inductive Got (source : Source) : Except StreamFault (List UInt8) → Source → Prop
  /-- A whole frame is taken off the front. -/
  | frame {body : List UInt8} {source' : Source} (fits : body.length ≤ maxBody)
      (taken : source.unread = encode body ++ source'.unread) : Got source (.ok body) source'
  /-- No whole frame is there, and some bytes are lost. -/
  | broken {fault : StreamFault} {eaten : List UInt8} {source' : Source} (fault_of : ReadFault source.fault fault)
      (taken : source.unread = eaten ++ source'.unread) (none_starts : source.Flows → ¬Starts source.unread) :
      Got source (.error fault) source'

theorem got (source : Source) : Got source (read source).1 (read source).2 := by
  obtain ⟨taken, hshare, hunread, -, -⟩ := exists_takes source
  -- A frame at the front of a source that flows is read, so there is none where a read has failed.
  have hnone : source.Flows → Starts source.unread → ∃ body, (read source).1 = .ok body := by
    intro flows starts
    obtain ⟨body, rest, fits, hbytes⟩ := starts_iff.mp starts
    refine ⟨body, ?_⟩
    rw [(read_of_flows flows).1, hbytes, split_frame fits]
  generalize (read source).1 = outcome at hshare hnone ⊢
  cases hshare with
  | noLength short => exact .broken (Or.inl rfl) hunread fun flows starts => nomatch hnone flows starts
  | tooLong spelled long =>
    exact .broken (Or.inr (Or.inr ⟨_, rfl⟩)) hunread fun flows starts => nomatch hnone flows starts
  | cut legal short => exact .broken (Or.inr (Or.inl rfl)) hunread fun flows starts => nomatch hnone flows starts
  | frame legal => exact .frame legal hunread

/-- On a source that flows, a frame is read just when a whole one stands at the front. -/
theorem read_ok_iff (flows : source.Flows) :
    (∃ body, (read source).1 = .ok body) ↔ Starts source.unread := by
  have hr := got source
  generalize (read source).1 = outcome at hr ⊢
  generalize (read source).2 = source' at hr
  cases hr with
  | @frame body _ fits taken => exact ⟨fun _ => starts_iff.mpr ⟨body, _, fits, taken⟩, fun _ => ⟨body, rfl⟩⟩
  | broken fault_of taken none_starts =>
    refine ⟨fun ⟨body, h⟩ => (by cases h), fun starts => ?_⟩
    exact absurd starts (none_starts flows)

end Reading

end Pinboard.Frame
