import Pinboard.Fault
import Pinboard.Proofs.Text.Quoting

/-! Texts that stay on one line. What is quoted does, since a line feed is escaped, and so does every fault with its
    parts named. -/

namespace Pinboard

namespace Text

/-- The text stays on one line. -/
def OneLine (s : String) : Prop := '\n' ∉ s.toList

instance (s : String) : Decidable (OneLine s) := inferInstanceAs (Decidable (_ ∉ _))

variable {s t : String}

@[simp] theorem oneLine_append : OneLine (s ++ t) ↔ OneLine s ∧ OneLine t := by
  simp only [OneLine, String.toList_append, List.mem_append, not_or]

theorem Clean.oneLine (h : Clean s) : OneLine s := fun hfeed => h '\n' hfeed (by decide)

theorem oneLine_intercalate {separator : String} {texts : List String} (hseparator : OneLine separator)
    (h : ∀ t ∈ texts, OneLine t) : OneLine (separator.intercalate texts) := by
  have hne {t : String} (ht : OneLine t) : ∀ c ∈ t.toList, c ≠ '\n' := fun c hc heq => ht (heq ▸ hc)
  exact fun hfeed => forall_mem_intercalate (hne hseparator) (fun t ht => hne (h t ht)) '\n' hfeed rfl

theorem oneLine_repr (n : Nat) : OneLine (Nat.repr n) := by
  have hdigit : ∀ d < 10, Nat.digitChar d ≠ '\n' := by decide
  have hne : ∀ c ∈ Nat.toDigits 10 n, c ≠ '\n' := forall_mem_toDigits (by decide) hdigit n
  rw [OneLine, Nat.toList_repr]
  exact fun hfeed => hne '\n' hfeed rfl

theorem oneLine_quoted (s : String) : OneLine (quoted s) := (clean_quotedWith covers_isUnprintable s).oneLine

theorem oneLine_shownRecord {name : String} {fields : List (String × String)} (hname : OneLine name)
    (h : ∀ field ∈ fields, OneLine field.1 ∧ OneLine field.2) : OneLine (shownRecord name fields) := by
  simp only [shownRecord, oneLine_append]
  refine ⟨⟨⟨hname, by decide⟩, oneLine_intercalate (by decide) ?_⟩, by decide⟩
  intro t ht
  obtain ⟨field, hfield, rfl⟩ := List.mem_map.mp ht
  obtain ⟨hlabel, htext⟩ := h field hfield
  simp only [oneLine_append]
  exact ⟨⟨hlabel, by decide⟩, htext⟩

end Text

open Text

theorem FaultKind.oneLine_name (kind : FaultKind) : OneLine kind.name := by
  cases kind <;> decide

theorem Json.Fault.oneLine_shown (f : Json.Fault) : OneLine f.shown := by
  simp only [shown, oneLine_append]
  exact ⟨⟨⟨⟨⟨⟨by decide, oneLine_quoted _⟩, by decide⟩, oneLine_repr _⟩, by decide⟩, oneLine_repr _⟩, by decide⟩

theorem StreamFault.oneLine_shown (f : StreamFault) : OneLine f.shown := by
  have hname := f.kind.oneLine_name
  have custom : OneLine (shownRecord "Custom" [("kind", f.kind.name), ("error", quoted f.message)]) := by
    refine oneLine_shownRecord (by decide) ?_
    simp only [List.forall_mem_cons]
    exact ⟨⟨by decide, hname⟩, ⟨by decide, oneLine_quoted _⟩, nofun⟩
  cases f with
  | endBeforeFrame => decide
  | writeZero => decide
  | notAResponse fault =>
    refine oneLine_shownRecord (by decide) ?_
    simp only [List.forall_mem_cons]
    exact ⟨⟨by decide, hname⟩, ⟨by decide, fault.oneLine_shown⟩, nofun⟩
  | address fault =>
    refine oneLine_shownRecord (by decide) ?_
    simp only [List.forall_mem_cons]
    exact ⟨⟨by decide, hname⟩, ⟨by decide, oneLine_quoted _⟩, nofun⟩
  | system fault =>
    refine oneLine_shownRecord (by decide) ?_
    simp only [List.forall_mem_cons]
    exact ⟨⟨by decide, oneLine_repr _⟩, ⟨by decide, hname⟩, ⟨by decide, oneLine_quoted _⟩, nofun⟩
  | _ => exact custom

/-- A fault is shown on one line, whatever texts from outside are in it. -/
theorem Fault.oneLine_shown (f : Fault) : OneLine f.shown := by
  have record {name label text : String} (hname : OneLine name) (hlabel : OneLine label) (htext : OneLine text) :
      OneLine (shownRecord name [(label, text)]) := by
    refine oneLine_shownRecord hname ?_
    simp only [List.forall_mem_cons]
    exact ⟨⟨hlabel, htext⟩, nofun⟩
  cases f with
  | connect address source =>
    refine oneLine_shownRecord (by decide) ?_
    simp only [List.forall_mem_cons]
    exact ⟨⟨by decide, oneLine_quoted _⟩, ⟨by decide, source.oneLine_shown⟩, nofun⟩
  | io source => exact record (by decide) (by decide) source.oneLine_shown
  | json source => exact record (by decide) (by decide) source.oneLine_shown
  | remote text => exact record (by decide) (by decide) (oneLine_quoted _)
  | protocol text => exact record (by decide) (by decide) (oneLine_quoted _)
  | utf8 bytes source =>
    have hbytes : OneLine ("[" ++ ", ".intercalate (bytes.map fun b => Nat.repr b.toNat) ++ "]") := by
      simp only [oneLine_append]
      refine ⟨⟨by decide, oneLine_intercalate (by decide) ?_⟩, by decide⟩
      intro t ht
      obtain ⟨b, -, rfl⟩ := List.mem_map.mp ht
      exact oneLine_repr _
    simp only [shown, oneLine_append]
    refine ⟨⟨by decide, oneLine_shownRecord (by decide) ?_⟩, by decide⟩
    simp only [List.forall_mem_cons]
    refine ⟨⟨by decide, hbytes⟩, ⟨by decide, oneLine_shownRecord (by decide) ?_⟩, nofun⟩
    simp only [List.forall_mem_cons]
    refine ⟨⟨by decide, oneLine_repr _⟩, ⟨by decide, ?_⟩, nofun⟩
    split
    · decide
    · simp only [oneLine_append]
      exact ⟨⟨by decide, oneLine_repr _⟩, by decide⟩

end Pinboard
