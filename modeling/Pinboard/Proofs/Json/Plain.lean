import Pinboard.Proofs.Json.Values

/-! Values apart from their texts: how deep they nest, which of them are made of whole numbers alone, and what inserting
    members one by one makes of an object. -/

namespace Pinboard.Json

mutual

/-- How many brackets of the value are open at a time, at most. -/
def depth : Json → Nat
  | .array items => depthItems items + 1
  | .object members => depthMembers members + 1
  | _ => 0

/-- The depth of the deepest item. -/
def depthItems : List Json → Nat
  | [] => 0
  | j :: rest => max (depth j) (depthItems rest)

/-- The depth of the deepest member. -/
def depthMembers : List (String × Json) → Nat
  | [] => 0
  | (_, j) :: rest => max (depth j) (depthMembers rest)

end

theorem depthItems_le {d : Nat} {items : List Json} : depthItems items ≤ d ↔ ∀ j ∈ items, j.depth ≤ d := by
  induction items with
  | nil => exact ⟨fun _ => nofun, fun _ => Nat.zero_le d⟩
  | cons j items ih => rw [depthItems, Nat.max_le, ih, List.forall_mem_cons]

theorem depthMembers_le {d : Nat} {members : List (String × Json)} :
    depthMembers members ≤ d ↔ ∀ m ∈ members, m.2.depth ≤ d := by
  induction members with
  | nil => exact ⟨fun _ => nofun, fun _ => Nat.zero_le d⟩
  | cons m members ih => rw [depthMembers, Nat.max_le, ih, List.forall_mem_cons]

/-- The whole numbers that are kept as such: from `-2^63` up to below `2^64`. -/
def InRange (n : Int) : Prop := -(Nat.pow 2 63 : Int) ≤ n ∧ n < (Nat.pow 2 64 : Int)

/-- The members stand in ascending order of their names, each name once. -/
def Ascending (members : List (String × Json)) : Prop := members.Pairwise fun a b => a.1 < b.1

/-- A value made of `null`, truth values, strings, whole numbers, arrays and objects. -/
inductive Plain : Json → Prop
  | null : Plain .null
  | bool (b : Bool) : Plain (.bool b)
  | integer {n : Int} (range : InRange n) : Plain (.number (.integer n))
  | string (s : String) : Plain (.string s)
  | array {items : List Json} (plain : ∀ j ∈ items, Plain j) : Plain (.array items)
  | object {members : List (String × Json)} (ascending : Ascending members) (plain : ∀ m ∈ members, Plain m.2) :
      Plain (.object members)

/-! ### Members that are put in -/

theorem mem_insertMember {name : String} {v : Json} {members : List (String × Json)} {m : String × Json}
    (h : m ∈ insertMember name v members) : m = (name, v) ∨ m ∈ members := by
  induction members with
  | nil => exact .inl (List.mem_singleton.mp h)
  | cons n members ih =>
    rw [insertMember] at h
    split at h
    · exact (List.mem_cons.mp h).imp id fun hm => List.mem_cons_of_mem n hm
    split at h
    · exact List.mem_cons.mp h
    · rcases List.mem_cons.mp h with rfl | hm
      · exact .inr List.mem_cons_self
      · exact (ih hm).imp id fun hm => List.mem_cons_of_mem n hm

theorem mem_insertAll {taken : List (String × Json)} {ms : List (Member String × Json)} {m : String × Json}
    (h : m ∈ insertAll taken ms) : m ∈ taken ∨ ∃ x ∈ ms, m = (x.1.name, x.2) := by
  induction ms generalizing taken with
  | nil => exact .inl h
  | cons x ms ih =>
    rcases ih h with hm | ⟨y, hy, rfl⟩
    · rcases mem_insertMember hm with rfl | hm
      · exact .inr ⟨x, List.mem_cons_self, rfl⟩
      · exact .inl hm
    · exact .inr ⟨y, List.mem_cons_of_mem x hy, rfl⟩

theorem lt_of_not_le {a b : String} (hne : a ≠ b) (hlt : ¬a < b) : b < a :=
  Std.lt_of_le_of_ne (String.not_lt.mp hlt) (Ne.symm hne)

theorem Ascending.insertMember {members : List (String × Json)} (h : Ascending members) (name : String) (v : Json) :
    Ascending (insertMember name v members) := by
  induction members with
  | nil => exact List.pairwise_singleton _ _
  | cons n members ih =>
    obtain ⟨hfirst, hrest⟩ := List.pairwise_cons.mp h
    rw [Json.insertMember]
    split
    · rename_i hname
      exact List.pairwise_cons.mpr ⟨fun m hm => hname ▸ hfirst m hm, hrest⟩
    split
    · rename_i hlt
      refine List.pairwise_cons.mpr ⟨fun m hm => ?_, h⟩
      rcases List.mem_cons.mp hm with rfl | hm
      · exact hlt
      · exact String.lt_trans hlt (hfirst m hm)
    · rename_i hne hlt
      refine List.pairwise_cons.mpr ⟨fun m hm => ?_, ih hrest⟩
      rcases mem_insertMember hm with rfl | hm
      · exact lt_of_not_le hne hlt
      · exact hfirst m hm

theorem ascending_insertAll {taken : List (String × Json)} (h : Ascending taken) (ms : List (Member String × Json)) :
    Ascending (insertAll taken ms) := by
  induction ms generalizing taken with
  | nil => exact h
  | cons x ms ih => exact ih (h.insertMember x.1.name x.2)

/-- A member whose name is behind all others goes to the end. -/
theorem insertMember_last {name : String} {v : Json} {members : List (String × Json)} (h : ∀ m ∈ members, m.1 < name) :
    insertMember name v members = members ++ [(name, v)] := by
  induction members with
  | nil => rfl
  | cons n members ih =>
    obtain ⟨hn, hmembers⟩ := List.forall_mem_cons.mp h
    have hne : name ≠ n.1 := fun hname => String.lt_irrefl n.1 (hname ▸ hn)
    rw [insertMember, if_neg hne, if_neg (String.lt_asymm hn), ih hmembers, List.cons_append]

/-- Members in ascending order are put in as they are. -/
theorem insertAll_ascending {taken : List (String × Json)} {ms : List (Member String × Json)}
    (h : Ascending (taken ++ ms.map fun m => (m.1.name, m.2))) :
    insertAll taken ms = taken ++ ms.map fun m => (m.1.name, m.2) := by
  induction ms generalizing taken with
  | nil => exact (List.append_nil taken).symm
  | cons m ms ih =>
    have hlast : ∀ n ∈ taken, n.1 < m.1.name := fun n hn => (List.pairwise_append.mp h).2.2 n hn _ List.mem_cons_self
    rw [List.map_cons, List.append_cons] at h ⊢
    rw [← ih h, insertAll, List.foldl_cons, insertMember_last hlast]
    rfl

/-! ### Values that are spelled -/

theorem Spells.mono {d d' : Nat} {w : List UInt8} {j : Json} (h : Spells d w j) (hd : d ≤ d') : Spells d' w j := by
  induction h generalizing d' with
  | null => exact .null
  | true => exact .true
  | false => exact .false
  | number legal value => exact .number legal value
  | string text => exact .string text
  | array listed _ ih =>
    obtain ⟨d', rfl⟩ := Nat.exists_eq_add_of_lt hd
    exact .array listed fun i hi => ih i hi (by omega)
  | object named _ ih =>
    obtain ⟨d', rfl⟩ := Nat.exists_eq_add_of_lt hd
    exact .object named fun m hm => ih m hm (by omega)

theorem Spells.depth_le {d : Nat} {w : List UInt8} {j : Json} (h : Spells d w j) : j.depth ≤ d := by
  induction h with
  | array _ _ ih =>
    rw [depth]
    refine Nat.succ_le_succ (depthItems_le.mpr fun j hj => ?_)
    obtain ⟨i, hi, rfl⟩ := List.mem_map.mp hj
    exact ih i hi
  | object _ _ ih =>
    rw [depth]
    refine Nat.succ_le_succ (depthMembers_le.mpr fun m hm => ?_)
    rcases mem_insertAll hm with hm | ⟨x, hx, rfl⟩
    · cases hm
    · exact ih x hx
  | _ => exact Nat.zero_le _

/-- Bytes spell one value at most, however deep it may be. -/
theorem Spells.unique {d d' : Nat} {w : List UInt8} {j j' : Json} (h : Spells d w j) (h' : Spells d' w j') :
    j = j' := by
  have hread : ∀ {k : Json}, Spells (max d d') w k → value (w.length + 1) (max d d') w = .ok (k, []) := by
    intro k hk
    have hsteps : (w ++ []).length < w.length + 1 := by rw [List.append_nil]; exact Nat.lt_succ_self _
    have hvalue := (reads_value (w.length + 1) (max d d')).complete hk delimited_nil hsteps
    rwa [List.append_nil] at hvalue
  have heq := hread (h.mono (Nat.le_max_left d d'))
  rw [hread (h'.mono (Nat.le_max_right d d')), Except.ok.injEq, Prod.mk.injEq] at heq
  exact heq.1.symm

end Pinboard.Json
