import Pinboard.Json.ByteLists

/-! Byte strings are read from a value just if the value is what writing them gives. So nothing is read into a value
    of another kind, and no item of a list is left out, added or moved. -/

namespace Pinboard

/-- A loop that reads items one by one, keeps what it has read, newest first, and stops at the first fault. -/
structure Collects {ι α ε : Type} (read : ι → Except ε α) (loop : List α → List ι → Except ε (List α)) : Prop where
  nil : ∀ taken, loop taken [] = .ok taken.reverse
  error : ∀ {taken i rest fault}, read i = .error fault → loop taken (i :: rest) = .error fault
  ok : ∀ {taken i rest a}, read i = .ok a → loop taken (i :: rest) = loop (a :: taken) rest

/-- If reading an item inverts writing one, the loop inverts writing all of them. -/
theorem Collects.ok_iff {ι α ε : Type} {read : ι → Except ε α} {loop : List α → List ι → Except ε (List α)}
    (collects : Collects read loop) {write : α → ι} (h : ∀ i a, read i = .ok a ↔ i = write a) {taken out : List α}
    {items : List ι} : loop taken items = .ok out ↔ ∃ rest, out = taken.reverse ++ rest ∧ items = rest.map write := by
  induction items generalizing taken with
  | nil =>
    rw [collects.nil, Except.ok.injEq]
    constructor
    · rintro rfl
      exact ⟨[], by simp, rfl⟩
    · rintro ⟨rest, hout, hrest⟩
      rw [List.map_eq_nil_iff.mp hrest.symm, List.append_nil] at hout
      exact hout.symm
  | cons i items ih =>
    cases hi : read i with
    | error fault =>
      rw [collects.error hi]
      refine ⟨fun h => (by cases h), ?_⟩
      rintro ⟨rest, -, hrest⟩
      obtain ⟨a, rest, rfl, ha, -⟩ := List.map_eq_cons_iff.mp hrest.symm
      rw [(h i a).mpr ha.symm] at hi
      cases hi
    | ok a =>
      rw [collects.ok hi, ih, List.reverse_cons]
      simp only [List.append_assoc, List.singleton_append]
      constructor
      · rintro ⟨rest, hout, rfl⟩
        exact ⟨a :: rest, hout, by rw [List.map_cons, ← (h i a).mp hi]⟩
      · rintro ⟨rest, hout, hrest⟩
        obtain ⟨a', rest, rfl, ha', hrest⟩ := List.map_eq_cons_iff.mp hrest.symm
        have hsame := (h i a').mpr ha'.symm
        rw [hi, Except.ok.injEq] at hsame
        exact ⟨rest, hsame ▸ hout, hrest.symm⟩

/-- The loop fails with the fault of the first item that cannot be read, whatever is behind it. -/
theorem Collects.error_iff {ι α ε : Type} {read : ι → Except ε α} {loop : List α → List ι → Except ε (List α)}
    (collects : Collects read loop) {taken : List α} {items : List ι} {fault : ε} :
    loop taken items = .error fault ↔
      ∃ before i after, items = before ++ i :: after ∧ (∀ j ∈ before, ∃ a, read j = .ok a) ∧ read i = .error fault := by
  induction items generalizing taken with
  | nil =>
    rw [collects.nil]
    refine ⟨nofun, ?_⟩
    rintro ⟨before, i, after, h, -⟩
    simp at h
  | cons i items ih =>
    cases hi : read i with
    | error fault' =>
      rw [collects.error hi]
      constructor
      · intro h
        exact ⟨[], i, items, rfl, nofun, hi.trans (congrArg _ (Except.error.inj h))⟩
      · rintro ⟨before, j, after, hsplit, hbefore, hj⟩
        rcases List.cons_eq_append_iff.mp hsplit with ⟨rfl, h⟩ | ⟨before, rfl, -⟩
        · rw [(List.cons.inj h).1, hi] at hj
          exact congrArg _ (Except.error.inj hj)
        · obtain ⟨a, ha⟩ := hbefore i (List.mem_cons_self ..)
          exact absurd (hi.symm.trans ha) nofun
    | ok a =>
      rw [collects.ok hi, ih]
      constructor
      · rintro ⟨before, j, after, rfl, hbefore, hj⟩
        exact ⟨i :: before, j, after, rfl, List.forall_mem_cons.mpr ⟨⟨a, hi⟩, hbefore⟩, hj⟩
      · rintro ⟨before, j, after, hsplit, hbefore, hj⟩
        rcases List.cons_eq_append_iff.mp hsplit with ⟨rfl, h⟩ | ⟨before, rfl, hitems⟩
        · rw [(List.cons.inj h).1, hi] at hj
          cases hj
        · exact ⟨before, j, after, hitems, (List.forall_mem_cons.mp hbefore).2, hj⟩

namespace Json

theorem byte_ok_iff {j : Json} {b : UInt8} : j.byte = .ok b ↔ j = .number (.integer b.toNat) := by
  constructor
  · intro h
    unfold byte at h
    split at h
    · rename_i n
      split at h
      · rename_i hn
        rw [Except.ok.injEq] at h
        rw [← h, Nat.toUInt8_eq, UInt8.toNat_ofNat', Nat.mod_eq_of_lt (by omega), Int.toNat_of_nonneg hn.1]
      · cases h
    · cases h
  · rintro rfl
    have hlt := b.toNat_lt
    rw [byte, if_pos (by omega), Int.toNat_natCast, Nat.toUInt8_eq, UInt8.ofNat_toNat]

section Lists

variable {α : Type} {read : Json → Except Cause α} {write : α → Json}

theorem collects_itemsFrom (read : Json → Except Cause α) : Collects read (itemsFrom read) where
  nil _ := rfl
  error hj := by rw [itemsFrom, hj]
  ok hj := by rw [itemsFrom, hj]

theorem list_ok_iff (h : ∀ j a, read j = .ok a ↔ j = write a) {j : Json} {out : List α} :
    j.list read = .ok out ↔ j = .array (out.map write) := by
  constructor
  · intro hj
    unfold list at hj
    split at hj
    · obtain ⟨rest, rfl, rfl⟩ := ((collects_itemsFrom read).ok_iff h).mp hj
      rfl
    · cases hj
  · rintro rfl
    exact ((collects_itemsFrom read).ok_iff h).mpr ⟨out, rfl, rfl⟩

end Lists

theorem ofBytes_ok_iff {j : Json} {bytes : List UInt8} : j.list byte = .ok bytes ↔ j = ofBytes bytes := by
  have h : ∀ (j : Json) (b : UInt8), j.byte = .ok b ↔ j = .number (.integer b.toNat) := fun _ _ => byte_ok_iff
  exact list_ok_iff h

/-- Byte strings are read from the arrays of arrays of bytes and from nothing else. -/
theorem byteLists_ok_iff {j : Json} {values : List (List UInt8)} :
    j.byteLists = .ok values ↔ j = .array (values.map ofBytes) :=
  list_ok_iff fun _ _ => ofBytes_ok_iff

end Json

end Pinboard
