import Pinboard.Proofs.Json.Passing

/-! Bytes are taken apart in one way only. A value ends where it would be passed over to, so lists and objects whose items
    are values have no other items and no other end. -/

namespace Pinboard.Json

/-! ### What is read is a value -/

theorem Escaped.skipped {e c w : List UInt8} (h : Escaped e c) (hw : Skipped w) : Skipped (0x5c :: (e ++ w)) := by
  have unit : ∀ {a b c d : UInt8} {n : Nat} {w : List UInt8}, Scan.hexNumber? [a, b, c, d] = some n → Skipped w →
      Skipped (0x5c :: 0x75 :: ([a, b, c, d] ++ w)) := fun digits hw =>
    .unit rfl ((Scan.isSome_hexNumber? _).mp (Option.isSome_of_eq_some digits)) hw
  cases h with
  | short letter => exact .short letter hw
  | unit digits _ => exact unit digits hw
  | pair digits digits' _ _ => exact unit digits (unit digits' hw)

theorem Resolves.skipped {w out : List UInt8} (h : Resolves w out) : Skipped w := by
  induction h with
  | nil => exact .nil
  | raw plain _ ih => exact .raw plain ih
  | escape escaped _ ih => exact escaped.skipped ih

theorem Named.map {ν μ : Type} {Names : List UInt8 → ν → Prop} {Names' : List UInt8 → μ → Prop} {f : ν → μ}
    (hf : ∀ {n name}, Names n name → Names' n (f name)) {first : Bool} {c : List UInt8} {ms : List (Member ν)}
    (h : Named Names first c ms) : Named Names' first c (ms.map fun m => ⟨f m.name, m.bytes⟩) := by
  induction h with
  | close blanks => exact .close blanks
  | member leads names blanks blanks' _ ih => exact .member leads (hf names) blanks blanks' ih

/-- An object of values is a value, whatever its names are. -/
theorem passed_object {c : List UInt8} {ms : List (Member String)} (named : Named SpellsText true c ms)
    (passed : ∀ m ∈ ms, Passed m.bytes) : Passed (0x7b :: c) := by
  refine .object (named.map (f := fun _ => ()) fun h => h.skipped) ?_
  intro m hm
  obtain ⟨m', hm', rfl⟩ := List.mem_map.mp hm
  exact passed m' hm'

theorem Spells.passed {d : Nat} {w : List UInt8} {j : Json} (h : Spells d w j) : Passed w := by
  induction h with
  | null => exact .null
  | true => exact .true
  | false => exact .false
  | number legal _ => exact .number legal
  | string text => exact .string text.skipped
  | array listed _ ih =>
    refine .list listed ?_
    intro w hw
    obtain ⟨i, hi, rfl⟩ := List.mem_map.mp hw
    exact ih i hi
  | object named _ ih =>
    refine passed_object named ?_
    intro m hm
    obtain ⟨m', hm', rfl⟩ := List.mem_map.mp hm
    exact ih m' hm'

/-- All that the contents of a record hold are values. -/
def Contents.Passed : Contents → Prop
  | .members ms => ∀ m ∈ ms, Json.Passed m.bytes
  | .items ws => ∀ w ∈ ws, Json.Passed w

theorem Contents.Written.passed {w : List UInt8} {contents : Contents} (h : Contents.Written w contents)
    (passed : contents.Passed) : Json.Passed w := by
  cases h with
  | object named => exact passed_object named passed
  | list listed => exact .list listed passed

theorem Contents.Holds.passed {contents : Contents} {entries : List FieldEntry} (h : contents.Holds entries)
    (spelled : ∀ e ∈ entries, ∀ w, e.Spelled w → Json.Passed w) : contents.Passed := by
  cases contents with
  | members ms =>
    intro m hm
    by_cases hname : m.name ∈ entries.map (·.name)
    · obtain ⟨e, he, hname⟩ := List.mem_map.mp hname
      have hmember : m ∈ membersOf e.name ms := List.mem_filter.mpr ⟨hm, decide_eq_true hname.symm⟩
      obtain ⟨-, hnil⟩ | ⟨w, honce, hw⟩ := h.1 e he
      · rw [hnil] at hmember
        cases hmember
      · rw [honce, List.mem_singleton] at hmember
        exact hmember ▸ spelled e he w hw
    · exact h.2 m hm hname
  | items ws =>
    induction h with
    | nil => exact nofun
    | cons hw _ ih =>
      obtain ⟨he, spelled⟩ := List.forall_mem_cons.mp spelled
      exact List.forall_mem_cons.mpr ⟨he _ hw, ih spelled⟩

/-! ### One way to take bytes apart -/

/-- A value in front of a blank, a comma, a closing bracket or the end ends in one place. -/
theorem Passed.unique {w w' rest rest' : List UInt8} (hw : Passed w) (hw' : Passed w') (hrest : Delimited rest)
    (hrest' : Delimited rest') (h : w ++ rest = w' ++ rest') : w = w' ∧ rest = rest' := by
  have hpass := @passes_complete ((w ++ rest).length + 1) [] w rest nofun hw hrest (Nat.lt_succ_self _)
  have hpass' := @passes_complete ((w ++ rest).length + 1) [] w' rest' nofun hw' hrest' (h ▸ Nat.lt_succ_self _)
  rw [List.nil_append, h] at hpass
  rw [List.nil_append, h, hpass, Except.ok.injEq] at hpass'
  subst hpass'
  exact ⟨List.append_cancel_right h, rfl⟩

theorem eq_of_blanks {bl bl' v v' : List UInt8} (hbl : Blanks bl) (hbl' : Blanks bl') (hv : Opens v) (hv' : Opens v')
    (h : bl ++ v = bl' ++ v') : v = v' := by
  obtain ⟨b, u, rfl, hb, -⟩ := hv
  obtain ⟨b', u', rfl, hb', -⟩ := hv'
  have hskip := congrArg skipBlanks h
  rwa [skipBlanks_lead hbl hb, skipBlanks_lead hbl' hb'] at hskip

/-- A list of values has no other items and no other end. -/
theorem Listed.unique {first : Bool} {c c' rest rest' : List UInt8} {ws ws' : List (List UInt8)} (h : Listed first c ws)
    (h' : Listed first c' ws') (hws : ∀ w ∈ ws, Passed w) (hws' : ∀ w ∈ ws', Passed w) (heq : c ++ rest = c' ++ rest') :
    ws = ws' ∧ rest = rest' := by
  induction h generalizing c' ws' with
  | @close first w blanks =>
    have hnext := nextItem_of_close blanks first rest
    rw [← List.singleton_append, ← List.append_assoc, heq] at hnext
    cases h' with
    | @close _ w' blanks' =>
      rw [List.append_assoc, List.singleton_append, nextItem_of_close blanks'] at hnext
      cases hnext
      exact ⟨rfl, rfl⟩
    | @item _ lead w' c' ws' leads listed =>
      rw [List.append_assoc, List.append_assoc,
        nextItem_of_item leads ((hws' w' List.mem_cons_self).opens.append _)] at hnext
      cases hnext
  | @item first lead w c ws leads listed ih =>
    obtain ⟨hw, hws⟩ := List.forall_mem_cons.mp hws
    have hnext := nextItem_of_item leads (hw.opens.append (c ++ rest))
    rw [← List.append_assoc w, ← List.append_assoc lead, heq] at hnext
    cases h' with
    | @close _ w' blanks' =>
      rw [List.append_assoc, List.singleton_append, nextItem_of_close blanks'] at hnext
      cases hnext
    | @item _ lead' w' c' ws' leads' listed' =>
      obtain ⟨hw', hrest'⟩ := List.forall_mem_cons.mp hws'
      rw [List.append_assoc, List.append_assoc, nextItem_of_item leads' (hw'.opens.append _)] at hnext
      have hitem : w ++ (c ++ rest) = w' ++ (c' ++ rest') := by
        rw [Except.ok.injEq, Next.item.injEq, List.append_assoc] at hnext
        exact hnext.symm
      obtain ⟨rfl, hrest⟩ := hw.unique hw' (listed.delimited rest) (listed'.delimited rest') hitem
      obtain ⟨rfl, rfl⟩ := ih listed' hws hrest' hrest
      exact ⟨rfl, rfl⟩

/-- An object of values has no other members and no other end. -/
theorem Named.unique {first : Bool} {c c' rest rest' : List UInt8} {ms ms' : List (Member String)}
    (h : Named SpellsText first c ms) (h' : Named SpellsText first c' ms') (hms : ∀ m ∈ ms, Passed m.bytes)
    (hms' : ∀ m ∈ ms', Passed m.bytes) (heq : c ++ rest = c' ++ rest') : ms = ms' ∧ rest = rest' := by
  induction h generalizing c' ms' with
  | @close first w blanks =>
    have hnext := nextMember_of_close blanks first rest
    rw [← List.singleton_append, ← List.append_assoc, heq] at hnext
    cases h' with
    | @close _ w' blanks' =>
      rw [List.append_assoc, List.singleton_append, nextMember_of_close blanks'] at hnext
      cases hnext
      exact ⟨rfl, rfl⟩
    | @member _ lead n u u' v d name ns leads names blanks blanks' named =>
      rw [List.append_assoc, List.cons_append, nextMember_of_item leads] at hnext
      cases hnext
  | @member first lead n w w' v c name ms leads names blanks blanks' named ih =>
    obtain ⟨hv, hms⟩ := List.forall_mem_cons.mp hms
    have hnext := nextMember_of_item leads ((n ++ 0x22 :: (w ++ 0x3a :: (w' ++ (v ++ c)))) ++ rest)
    rw [← List.cons_append, ← List.append_assoc lead, heq] at hnext
    cases h' with
    | @close _ w' blanks' =>
      rw [List.append_assoc, List.singleton_append, nextMember_of_close blanks'] at hnext
      cases hnext
    | @member _ lead' n' u u' v' c' name' ms' leads' names' blanks₂ blanks₂' named' =>
      obtain ⟨hv', hothers⟩ := List.forall_mem_cons.mp hms'
      rw [List.append_assoc, List.cons_append, nextMember_of_item leads', Except.ok.injEq, Next.item.injEq] at hnext
      simp only [List.append_assoc, List.cons_append] at hnext
      have hstring : Scan.string (n' ++ 0x22 :: (u ++ 0x3a :: (u' ++ (v' ++ (c' ++ rest'))))) = _ :=
        Scan.string_ok_iff.mpr ⟨n', names', rfl⟩
      rw [hnext, Scan.string_ok_iff.mpr ⟨n, names, rfl⟩, Except.ok.injEq, Prod.mk.injEq] at hstring
      obtain ⟨rfl, hafter⟩ := hstring
      have hcolon : colon (u ++ 0x3a :: (u' ++ (v' ++ (c' ++ rest')))) = _ := colon_ok_iff.mpr ⟨u, blanks₂, rfl⟩
      rw [← hafter, colon_ok_iff.mpr ⟨w, blanks, rfl⟩, Except.ok.injEq] at hcolon
      have hvalue := eq_of_blanks blanks' blanks₂' (hv.opens.append _) (hv'.opens.append _) hcolon
      obtain ⟨rfl, hrest⟩ := hv.unique hv' (named.delimited rest) (named'.delimited rest') hvalue
      obtain ⟨rfl, rfl⟩ := ih named' hms hothers hrest
      exact ⟨rfl, rfl⟩

/-- The contents of a record are what it is written with, if they are values. -/
theorem Contents.Written.unique {w : List UInt8} {contents contents' : Contents} (h : Contents.Written w contents)
    (h' : Contents.Written w contents') (passed : contents.Passed) (passed' : contents'.Passed) :
    contents = contents' := by
  cases h with
  | @object c _ named =>
    cases h' with
    | object named' =>
      obtain ⟨rfl, -⟩ := named.unique named' passed passed' (show c ++ [] = c ++ [] from rfl)
      rfl
  | @list c _ listed =>
    cases h' with
    | list listed' =>
      obtain ⟨rfl, -⟩ := listed.unique listed' passed passed' (show c ++ [] = c ++ [] from rfl)
      rfl

end Pinboard.Json
