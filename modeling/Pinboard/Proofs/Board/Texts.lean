import Pinboard.Proofs.Board.Course
import Pinboard.Proofs.Text.Decoding

/-! Stored values as texts. Every text has one byte string, and every byte string that is UTF-8 has one text. Of any other
    a board says how far it is well formed and what is wrong then, and makes no text of it. -/

namespace Pinboard.Board

/-- What becomes of bytes that are to be a text. -/
structure Decodes (bytes : List UInt8) : Prop where
  ok_iff : ∀ text, decode bytes = .ok text ↔ Utf8.encode text = bytes
  wellFormed_iff : (∃ text, decode bytes = .ok text) ↔ Utf8.WellFormed bytes
  /-- A number that is spelled in so many bytes is accepted as a character only if it is one and needs so many. -/
  strict : ∀ k ≤ 3, ∀ n < Utf8.limit k, bytes = Utf8.spelling k n →
    ((∃ text, decode bytes = .ok text) ↔ n.isValidChar ∧ ∀ j < k, Utf8.limit j ≤ n)
  /-- Bytes that are not well formed are a fault, which has them all and tells where they stop to be. -/
  located : ¬Utf8.WellFormed bytes → ∃ f, decode bytes = .error (.utf8 bytes f) ∧ Utf8.Locates bytes f
  incomplete : ∀ f : Utf8.Fault, f.badLength = none → (Fault.utf8 bytes f).message =
    "UTF-8 decoding error: " ++ ("incomplete utf-8 byte sequence from index " ++ Nat.repr f.validUpTo)
  invalid : ∀ (f : Utf8.Fault) n, f.badLength = some n → (Fault.utf8 bytes f).message =
    "UTF-8 decoding error: " ++
      ("invalid utf-8 sequence of " ++ Nat.repr n ++ " bytes from index " ++ Nat.repr f.validUpTo)

theorem message_utf8 (bytes : List UInt8) (f : Utf8.Fault) :
    (Fault.utf8 bytes f).message = "UTF-8 decoding error: " ++ f.message := rfl

theorem decodes (bytes : List UInt8) : Decodes bytes where
  ok_iff text := decode_ok_iff.trans eq_comm
  wellFormed_iff := by simp only [decode_ok_iff, Utf8.wellFormed_iff]
  strict k hk n hn h := by
    rw [← Utf8.wellFormed_spelling_iff hk hn, ← h]
    simp only [decode_ok_iff, Utf8.wellFormed_iff]
  located h := by
    cases hdecode : decode bytes with
    | ok text => exact absurd (Utf8.wellFormed_iff.mpr ⟨text, decode_ok_iff.mp hdecode⟩) h
    | error fault =>
      obtain ⟨f, hf, rfl⟩ := decode_fault hdecode
      exact ⟨f, rfl, Utf8.locates hf⟩
  incomplete f h := by rw [message_utf8, Utf8.message_incomplete h]
  invalid f n h := by rw [message_utf8, Utf8.message_invalid h]

/-- Texts and the byte strings that are UTF-8 are told by each other, and no other byte string is taken for a text. -/
theorem decode_bijective :
    (∀ text, decode (Utf8.encode text) = .ok text) ∧ (∀ text, ∃! bytes, decode bytes = .ok text) ∧
      ∀ bytes, Decodes bytes :=
  ⟨fun _ => decode_ok_iff.mpr rfl, fun _ => ⟨_, decode_ok_iff.mpr rfl, fun _ h => decode_ok_iff.mp h⟩, decodes⟩

end Pinboard.Board
