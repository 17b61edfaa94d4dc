import Pinboard.Stream

/-! What reading and writing in pieces do to the bytes as a whole. Reading takes bytes off the front of a source and
    never gives one back, and writing puts a beginning of what is written behind what the sink took before. Only
    on a source that flows, where no piece is empty, does a read fail just when too few bytes are left. A read that
    fails reports the source's own fault, or that the source has ended if it has none. -/

namespace Pinboard

/-! ### Sources -/

/-- An empty piece stands for the end of what comes in, so as every reader promises, no piece is empty before. The
    source then ends only where no byte is left. -/
def Source.Flows (s : Source) : Prop := ∀ n, s.pace n ≠ some 0

/-- What no read changes. -/
structure Source.Keeps (s t : Source) : Prop where
  pace : t.pace = s.pace
  fault : t.fault = s.fault

/-- The fault of the source, if it has one, is not of the kind by which a refusal is told. -/
def Source.TellsApart (s : Source) : Prop := ∀ fault, s.fault = some fault → fault.kind ≠ .invalidInput

namespace Source

theorem Keeps.refl (s : Source) : s.Keeps s := ⟨rfl, rfl⟩

theorem Keeps.trans {s t u : Source} (h₁ : s.Keeps t) (h₂ : t.Keeps u) : s.Keeps u :=
  ⟨h₂.pace.trans h₁.pace, h₂.fault.trans h₁.fault⟩

theorem Keeps.flows {s t : Source} (h : s.Keeps t) (flows : s.Flows) : t.Flows := fun n => h.pace ▸ flows n

theorem read_unread (s : Source) (want : Nat) :
    s.unread = (s.read want).1 ++ (s.read want).2.unread ∧ (s.read want).1.length ≤ want ∧
      s.Keeps (s.read want).2 := by
  simp only [Source.read, List.splitAt_eq, List.take_append_drop, List.length_take, true_and]
  refine ⟨?_, rfl, rfl⟩
  split
  · exact Nat.min_le_left _ _
  · exact Nat.le_trans (Nat.min_le_left _ _) (Nat.min_le_left _ _)

theorem read_eq_nil {s : Source} (flows : s.Flows) {want : Nat} (hw : want ≠ 0) (h : (s.read want).1 = []) :
    s.unread = [] := by
  have hpace := flows s.reads
  simp only [Source.read, List.splitAt_eq, List.take_eq_nil_iff] at h
  rcases h with h | h
  · split at h
    · exact absurd h hw
    · rename_i n hn
      have hne : n ≠ 0 := fun h0 => hpace (h0 ▸ hn)
      rcases Nat.min_eq_zero_iff.mp h with h | h
      · exact absurd h hw
      · exact absurd h hne
  · exact h

/-- Gathering moves bytes from the front of the source behind those that were taken before, up to as many as are
    wanted. -/
theorem gather_unread (tries : Nat) (taken : List (List UInt8)) (want : Nat) (s : Source) :
    ∃ got, (gather taken want tries s).1.reverse.flatten = taken.reverse.flatten ++ got ∧
      got.length + (gather taken want tries s).2.1 = want ∧
      s.unread = got ++ (gather taken want tries s).2.2.unread ∧ s.Keeps (gather taken want tries s).2.2 := by
  induction tries generalizing taken want s with
  | zero => exact ⟨[], by simp [gather, Keeps.refl]⟩
  | succ tries ih =>
    obtain ⟨hread, hlen, keeps⟩ := read_unread s want
    simp only [gather]
    split
    · exact ⟨[], by simp [Keeps.refl]⟩
    · split
      · rename_i hnil
        rw [List.isEmpty_iff.mp hnil, List.nil_append] at hread
        exact ⟨[], by simp [hread, keeps]⟩
      · obtain ⟨got, htaken, hleft, hrest, keeps'⟩ :=
          ih ((s.read want).1 :: taken) (want - (s.read want).1.length) (s.read want).2
        refine ⟨(s.read want).1 ++ got, by simp [htaken], ?_, ?_, keeps.trans keeps'⟩
        · rw [List.length_append]
          omega
        · rw [hread, hrest, List.append_assoc]

/-- On a source that flows, gathering falls short only where nothing is left. -/
theorem gather_short (tries : Nat) (taken : List (List UInt8)) (want : Nat) (s : Source) (flows : s.Flows)
    (enough : want ≤ tries) (short : (gather taken want tries s).2.1 ≠ 0) :
    (gather taken want tries s).2.2.unread = [] := by
  induction tries generalizing taken want s with
  | zero => exact absurd (Nat.le_zero.mp enough) short
  | succ tries ih =>
    obtain ⟨hread, hlen, keeps⟩ := read_unread s want
    have flows' : (s.read want).2.Flows := keeps.flows flows
    simp only [gather] at short ⊢
    split at short
    · rename_i hw
      exact absurd hw short
    · rename_i hw
      rw [if_neg hw]
      split at short
      · rename_i hnil
        rw [if_pos hnil]
        rw [List.isEmpty_iff] at hnil
        have hs := read_eq_nil flows hw hnil
        rw [hnil, List.nil_append] at hread
        exact hread ▸ hs
      · rename_i hnil
        rw [if_neg hnil]
        have hne : (s.read want).1 ≠ [] := fun h => hnil (List.isEmpty_iff.mpr h)
        have hpos := List.length_pos_iff.mpr hne
        exact ih _ _ _ flows' (by omega) short

/-- The two forms in which the pieces are put together give the same bytes. -/
theorem readExact_eq (s : Source) (want : Nat) (ended : StreamFault) :
    s.readExact want ended =
      (if (gather [] want want s).2.1 = 0 then .ok (gather [] want want s).1.reverse.flatten
        else .error ((gather [] want want s).2.2.fault.getD ended),
        (gather [] want want s).2.2) := by
  unfold readExact
  split
  · rename_i h
    simp [h]
  · rename_i h
    simp [h]
  · rename_i h
    simp [h]

theorem readExact_ok {s s' : Source} {want : Nat} {ended : StreamFault} {bytes : List UInt8}
    (h : s.readExact want ended = (.ok bytes, s')) :
    bytes.length = want ∧ s.unread = bytes ++ s'.unread ∧ s.Keeps s' := by
  obtain ⟨got, htaken, hleft, hrest, keeps⟩ := gather_unread want [] want s
  rw [readExact_eq] at h
  obtain ⟨houtcome, rfl⟩ := Prod.mk.inj h
  split at houtcome
  · rename_i hzero
    obtain rfl := Except.ok.inj houtcome
    rw [htaken, List.reverse_nil, List.flatten_nil, List.nil_append]
    exact ⟨by omega, hrest, keeps⟩
  · cases houtcome

/-- A read that fails has taken fewer bytes than were wanted, and from a source that flows all there were. -/
theorem readExact_error {s s' : Source} {want : Nat} {ended fault : StreamFault}
    (h : s.readExact want ended = (.error fault, s')) :
    fault = s.fault.getD ended ∧
      ∃ eaten, eaten.length < want ∧ s.unread = eaten ++ s'.unread ∧ s.Keeps s' ∧ (s.Flows → s'.unread = []) := by
  obtain ⟨got, -, hleft, hrest, keeps⟩ := gather_unread want [] want s
  rw [readExact_eq] at h
  obtain ⟨houtcome, rfl⟩ := Prod.mk.inj h
  split at houtcome
  · cases houtcome
  · rename_i hne
    obtain rfl := Except.error.inj houtcome
    refine ⟨by rw [keeps.fault], got, by omega, hrest, keeps, fun flows => ?_⟩
    exact gather_short want [] want s flows (Nat.le_refl _) hne

end Source

/-! ### Sinks -/

/-- No fault that the sink reports is of the kind by which a refusal is told. -/
structure Sink.TellsApart (s : Sink) : Prop where
  write : s.fault.kind ≠ .invalidInput
  flush : ∀ fault, s.flushFault = some fault → fault.kind ≠ .invalidInput

/-- No fault of the stream is of that kind, in either direction. -/
structure Stream.TellsApart (s : Stream) : Prop where
  source : s.source.TellsApart
  sink : s.sink.TellsApart

/-- The sink has taken these bytes on top of those that another had, and reports the same faults. -/
structure Sink.Took (s : Sink) (bytes : List UInt8) (s' : Sink) : Prop where
  accepted : s'.accepted = s.accepted ++ bytes
  fault : s'.fault = s.fault
  flushFault : s'.flushFault = s.flushFault

namespace Sink

theorem Took.refl (s : Sink) : s.Took [] s := ⟨by simp, rfl, rfl⟩

theorem Took.trans {s t u : Sink} {a b : List UInt8} (h₁ : s.Took a t) (h₂ : t.Took b u) : s.Took (a ++ b) u where
  accepted := by rw [h₂.accepted, h₁.accepted, List.append_assoc]
  fault := h₂.fault.trans h₁.fault
  flushFault := h₂.flushFault.trans h₁.flushFault

theorem Took.tellsApart {s t : Sink} {a : List UInt8} (h : s.Took a t) (apart : s.TellsApart) : t.TellsApart where
  write := h.fault ▸ apart.write
  flush := h.flushFault ▸ apart.flush

/-- A fault of writing: the one that the sink reports when it has no room, or that it takes nothing. -/
def WriteFault (s : Sink) (fault : StreamFault) : Prop := fault = s.fault ∨ fault = .writeZero

theorem write_cases (s : Sink) (bytes : List UInt8) :
    (∃ rest piece s', s.write bytes = (.ok rest, s') ∧ bytes = piece ++ rest ∧ s.Took piece s') ∨
      ∃ fault s', s.write bytes = (.error fault, s') ∧ s.WriteFault fault ∧ s.Took [] s' := by
  unfold write
  split
  · exact Or.inr ⟨s.fault, _, rfl, Or.inl rfl, ⟨by simp [accepted], rfl, rfl⟩⟩
  · split
    · exact Or.inl ⟨[], bytes, _, rfl, by simp, ⟨by simp [accepted], rfl, rfl⟩⟩
    · exact Or.inr ⟨.writeZero, _, rfl, Or.inr rfl, ⟨by simp [accepted], rfl, rfl⟩⟩
    · rename_i most _ _
      simp only [List.splitAt_eq]
      exact Or.inl ⟨bytes.drop most, bytes.take most, _, rfl, by simp, ⟨by simp [accepted], rfl, rfl⟩⟩

/-- Writing goes on over the pieces: it takes all bytes, or stops at a fault with a beginning of them taken. -/
theorem writeFrom_cases (tries : Nat) (s : Sink) (bytes : List UInt8) :
    (∃ s', writeFrom tries s bytes = (.ok (), s') ∧ s.Took bytes s') ∨
      ∃ fault part s', writeFrom tries s bytes = (.error fault, s') ∧ s.WriteFault fault ∧ part <+: bytes ∧
        s.Took part s' := by
  induction tries generalizing s bytes with
  | zero =>
    cases bytes with
    | nil => exact Or.inl ⟨s, rfl, Took.refl s⟩
    | cons b bytes => exact Or.inr ⟨s.fault, [], s, rfl, Or.inl rfl, List.nil_prefix, Took.refl s⟩
  | succ tries ih =>
    cases bytes with
    | nil => exact Or.inl ⟨s, rfl, Took.refl s⟩
    | cons b bytes =>
      simp only [writeFrom]
      rcases write_cases s (b :: bytes) with ⟨rest, piece, t, hw, hsplit, htook⟩ | ⟨fault, t, hw, hf, htook⟩
      · simp only [hw]
        rcases ih t rest with ⟨u, hu, htook'⟩ | ⟨fault, part, u, hu, hf, hpart, htook'⟩
        · exact Or.inl ⟨u, hu, hsplit ▸ htook.trans htook'⟩
        · refine Or.inr ⟨fault, piece ++ part, u, hu, ?_, ?_, htook.trans htook'⟩
          · rwa [WriteFault, htook.fault] at hf
          · rw [hsplit]
            exact (List.prefix_append_right_inj piece).mpr hpart
      · simp only [hw]
        exact Or.inr ⟨fault, [], t, rfl, hf, List.nil_prefix, htook⟩

theorem writeAll_cases (s : Sink) (bytes : List UInt8) :
    (∃ s', s.writeAll bytes = (.ok (), s') ∧ s.Took bytes s') ∨
      ∃ fault part s', s.writeAll bytes = (.error fault, s') ∧ s.WriteFault fault ∧ part <+: bytes ∧ s.Took part s' :=
  writeFrom_cases bytes.length s bytes

theorem flush_cases (s : Sink) :
    (∃ s', s.flush = (.ok (), s') ∧ s.Took [] s') ∨
      ∃ fault, s.flush = (.error fault, s) ∧ s.flushFault = some fault := by
  unfold flush
  split
  · rename_i fault hf
    exact Or.inr ⟨fault, rfl, hf⟩
  · exact Or.inl ⟨_, rfl, ⟨by simp [accepted], rfl, rfl⟩⟩

theorem WriteFault.kind_ne {s : Sink} {fault : StreamFault} (h : s.WriteFault fault) (apart : s.TellsApart) :
    fault.kind ≠ .invalidInput := by
  rcases h with rfl | rfl
  · exact apart.write
  · exact nofun

end Sink

/-! ### Room -/

/-- There is room for so many bytes, where no bound stands for room without end. -/
def RoomFor (room : Option Nat) (n : Nat) : Prop := ∀ r, room = some r → n ≤ r

/-- As many of the bytes as there is room for. -/
def within (room : Option Nat) (bytes : List UInt8) : List UInt8 :=
  match room with
  | none => bytes
  | some r => bytes.take r

instance (room : Option Nat) (n : Nat) : Decidable (RoomFor room n) :=
  match room with
  | none => isTrue nofun
  | some r => decidable_of_iff (n ≤ r) ⟨fun h _ hr => Option.some.inj hr ▸ h, fun h => h r rfl⟩

theorem within_eq_self {room : Option Nat} {bytes : List UInt8} (h : RoomFor room bytes.length) : within room bytes = bytes := by
  cases room with
  | none => rfl
  | some r => exact List.take_of_length_le (h r rfl)

theorem within_append (room : Option Nat) (a b : List UInt8) :
    within room (a ++ b) = within room a ++ within (room.map (· - a.length)) b := by
  cases room with
  | none => rfl
  | some r => exact List.take_append

theorem roomFor_add {room : Option Nat} {m n : Nat} (h : RoomFor room m) :
    RoomFor (room.map (· - m)) n ↔ RoomFor room (m + n) := by
  cases room with
  | none => exact ⟨nofun, nofun⟩
  | some r =>
    have := h r rfl
    simp only [RoomFor, Option.map_some, Option.some.injEq, forall_eq']
    omega

namespace Sink

/-- The sink takes some of the bytes each time, if it has room. -/
def Flows (s : Sink) : Prop := ∀ n, s.pace n ≠ some 0

/-- The bytes were offered to a sink, and it took as many as it had room for. -/
structure Offered (s : Sink) (bytes : List UInt8) (s' : Sink) : Prop where
  accepted : s'.accepted = s.accepted ++ within s.room bytes
  room : s'.room = s.room.map (· - bytes.length)
  pace : s'.pace = s.pace
  fault : s'.fault = s.fault
  flushFault : s'.flushFault = s.flushFault

theorem Offered.flows {s t : Sink} {bytes : List UInt8} (h : s.Offered bytes t) (flows : s.Flows) : t.Flows :=
  fun n => h.pace ▸ flows n

theorem Offered.refl (s : Sink) : s.Offered [] s where
  accepted := by
    cases h : s.room <;> simp [within]
  room := by simp
  pace := rfl
  fault := rfl
  flushFault := rfl

theorem Offered.trans {s t u : Sink} {a b : List UInt8} (h₁ : s.Offered a t) (h₂ : t.Offered b u) :
    s.Offered (a ++ b) u where
  accepted := by rw [h₂.accepted, h₁.accepted, h₁.room, within_append, List.append_assoc]
  room := by
    rw [h₂.room, h₁.room, Option.map_map, List.length_append]
    congr 1
    funext r
    exact (Nat.sub_add_eq r a.length b.length).symm
  pace := h₂.pace.trans h₁.pace
  fault := h₂.fault.trans h₁.fault
  flushFault := h₂.flushFault.trans h₁.flushFault

theorem least_cases {bound room : Option Nat} (hb : bound ≠ some 0) (hr : room ≠ some 0) :
    (room = none ∧ least bound room = none) ∨
      ∃ m, least bound room = some (m + 1) ∧ ∀ r, room = some r → m + 1 ≤ r := by
  match bound, room with
  | none, none => exact Or.inl ⟨rfl, rfl⟩
  | none, some 0 => exact absurd rfl hr
  | none, some (r + 1) => exact Or.inr ⟨r, rfl, fun _ h => Nat.le_of_eq (Option.some.inj h)⟩
  | some 0, _ => exact absurd rfl hb
  | some (n + 1), none => exact Or.inr ⟨n, rfl, nofun⟩
  | some (n + 1), some 0 => exact absurd rfl hr
  | some (n + 1), some (r + 1) =>
    refine Or.inr ⟨min n r, by rw [least, Nat.succ_min_succ], fun _ h => ?_⟩
    obtain rfl := Option.some.inj h
    exact Nat.succ_le_succ (Nat.min_le_right n r)

theorem write_of_flows {s : Sink} (flows : s.Flows) (b : UInt8) (bytes : List UInt8) :
    (s.room = some 0 ∧ (s.write (b :: bytes)).1 = .error s.fault ∧ s.Offered (b :: bytes) (s.write (b :: bytes)).2) ∨
      ∃ piece rest s', s.write (b :: bytes) = (.ok rest, s') ∧ b :: bytes = piece ++ rest ∧ piece ≠ [] ∧
        RoomFor s.room piece.length ∧ s.Offered piece s' := by
  unfold write
  by_cases hroom : s.room = some 0
  · rw [if_pos hroom]
    exact Or.inl ⟨hroom, rfl, by simp [accepted, within, hroom], by simp [hroom], rfl, rfl, rfl⟩
  · rw [if_neg hroom]
    refine Or.inr ?_
    rcases least_cases (flows s.writes) hroom with ⟨hnone, hleast⟩ | ⟨m, hleast, hle⟩
    · have fits : RoomFor s.room (b :: bytes).length := by
        rw [hnone]
        exact nofun
      refine ⟨b :: bytes, [], { s with taken := (b :: bytes) :: s.taken, writes := s.writes + 1 }, by rw [hleast],
        by simp, by simp, fits, ?_, by simp [hnone], rfl, rfl, rfl⟩
      rw [within_eq_self fits]
      simp [accepted]
    · have fits : RoomFor s.room ((b :: bytes).take (m + 1)).length := fun r hr => by
        rw [List.length_take]
        exact Nat.le_trans (Nat.min_le_left _ _) (hle r hr)
      generalize hpiece : (b :: bytes).take (m + 1) = piece at fits
      refine ⟨piece, (b :: bytes).drop (m + 1),
        { s with taken := piece :: s.taken, writes := s.writes + 1, room := s.room.map (· - piece.length) }, ?_, ?_, ?_,
        fits, ?_, rfl, rfl, rfl, rfl⟩
      · rw [hleast]
        simp only [List.splitAt_eq, hpiece]
      · rw [← hpiece, List.take_append_drop]
      · rw [← hpiece]
        exact nofun
      · rw [within_eq_self fits]
        simp [accepted]

theorem writeFrom_of_flows (tries : Nat) {s : Sink} (flows : s.Flows) {bytes : List UInt8} (enough : bytes.length ≤ tries) :
    (writeFrom tries s bytes).1 = (if RoomFor s.room bytes.length then .ok () else .error s.fault) ∧
      s.Offered bytes (writeFrom tries s bytes).2 := by
  induction tries generalizing s bytes with
  | zero =>
    obtain rfl := List.length_eq_zero_iff.mp (Nat.le_zero.mp enough)
    exact ⟨(if_pos fun _ _ => Nat.zero_le _).symm, Offered.refl s⟩
  | succ tries ih =>
    cases bytes with
    | nil => exact ⟨(if_pos fun _ _ => Nat.zero_le _).symm, Offered.refl s⟩
    | cons b bytes =>
      rw [writeFrom]
      rcases write_of_flows flows b bytes with ⟨hroom, herror, hoffered⟩ | ⟨piece, rest, t, hw, hsplit, hne, hfits, hoffered⟩
      · have hno : ¬RoomFor s.room (b :: bytes).length := fun h => Nat.not_succ_le_zero _ (h 0 hroom)
        rw [if_neg hno]
        rcases hw : s.write (b :: bytes) with ⟨_ | _, t⟩
        · rw [hw] at herror hoffered
          obtain rfl := Except.error.inj herror
          exact ⟨rfl, hoffered⟩
        · rw [hw] at herror
          cases herror
      · have hlen := congrArg List.length hsplit
        have hpos := List.length_pos_iff.mpr hne
        rw [List.length_append] at hlen
        rw [hw]
        obtain ⟨houtcome, hrest⟩ := @ih t (hoffered.flows flows) rest (by omega)
        refine ⟨?_, hsplit ▸ hoffered.trans hrest⟩
        rw [hlen]
        simp only [houtcome, hoffered.room, hoffered.fault, roomFor_add hfits]

/-- A sink that flows takes bytes as its room allows, whatever the pieces. -/
theorem writeAll_of_flows {s : Sink} (flows : s.Flows) (bytes : List UInt8) :
    (s.writeAll bytes).1 = (if RoomFor s.room bytes.length then .ok () else .error s.fault) ∧
      s.Offered bytes (s.writeAll bytes).2 :=
  writeFrom_of_flows bytes.length flows (Nat.le_refl _)

/-- A sink that was full before the first bytes were over takes nothing of those behind them. -/
theorem Offered.behind {s t : Sink} {a b : List UInt8} (h : s.Offered a t) (full : ¬RoomFor s.room a.length) :
    s.Offered (a ++ b) t := by
  cases hroom : s.room with
  | none => exact absurd (hroom ▸ nofun) full
  | some r =>
    have hr : r < a.length :=
      Nat.lt_of_not_le fun hle => full fun r' hr' => Option.some.inj (hroom.symm.trans hr') ▸ hle
    refine ⟨?_, ?_, h.pace, h.fault, h.flushFault⟩
    · rw [h.accepted, hroom]
      simp only [within]
      rw [List.take_append_of_le_length (Nat.le_of_lt hr)]
    · rw [h.room, hroom, List.length_append]
      simp only [Option.map_some, Option.some.injEq]
      omega

theorem flush_of_none {s : Sink} (h : s.flushFault = none) {t : Sink} {bytes : List UInt8} (offered : t.Offered bytes s) :
    s.flush.1 = .ok () ∧ t.Offered bytes s.flush.2 := by
  simp only [flush, h]
  exact ⟨trivial, offered.accepted, offered.room, offered.pace, offered.fault, h ▸ offered.flushFault⟩

/-! ### Passing on -/

theorem flushes_write (s : Sink) (bytes : List UInt8) : (s.write bytes).2.flushes = s.flushes := by
  unfold write
  split
  · rfl
  · split <;> rfl

theorem flushes_writeFrom (tries : Nat) (s : Sink) (bytes : List UInt8) :
    (writeFrom tries s bytes).2.flushes = s.flushes := by
  induction tries generalizing s bytes with
  | zero => cases bytes <;> rfl
  | succ tries ih =>
    cases bytes with
    | nil => rfl
    | cons b bytes =>
      have hwrite := flushes_write s (b :: bytes)
      rw [writeFrom]
      generalize s.write (b :: bytes) = step at hwrite ⊢
      obtain ⟨fault | rest, t⟩ := step
      · exact hwrite
      · exact (ih t rest).trans hwrite

theorem flushes_writeAll (s : Sink) (bytes : List UInt8) : (s.writeAll bytes).2.flushes = s.flushes :=
  flushes_writeFrom bytes.length s bytes

theorem flushes_flush (s : Sink) : s.flush.2.flushes = s.flushes + if s.flush.1.isOk then 1 else 0 := by
  unfold flush
  split <;> rfl

end Sink

end Pinboard
