import Mathlib.Data.List.Forall2
import Pinboard.Proofs.Frame

/-! Reading frame after frame comes to an end. Each read has a share of the bytes to itself: a frame, a length that is too
    large, or what there is before the end. At the end a source reports just that, or its own fault if it has one. The share
    of a read that does not meet the end has at least the four bytes of a length, whatever these were meant to be. So there
    are no more such reads than a quarter of the bytes, and on a source that flows each read but the last leaves four bytes
    less than the one before. -/

namespace Pinboard.Frame

variable {source : Source}

/-! ### One read -/

theorem Share.meetsEnd_or_le {own : Option StreamFault} {outcome : Except StreamFault (List UInt8)} {taken : List UInt8}
    (h : Share own outcome taken) : MeetsEnd own outcome ∨ 4 ≤ taken.length := by
  cases h with
  | noLength short => exact Or.inl ⟨_, rfl, rfl⟩
  | tooLong spelled long => exact Or.inr (Nat.le_refl 4)
  | cut legal short => exact Or.inl ⟨_, rfl, rfl⟩
  | frame legal =>
    rw [length_encode]
    exact Or.inr (Nat.le_add_right 4 _)

/-- A read meets the end, or four bytes are gone. -/
theorem meetsEnd_or_le (source : Source) :
    MeetsEnd source.fault (read source).1 ∨ 4 + (read source).2.unread.length ≤ source.unread.length := by
  obtain ⟨taken, h⟩ := exists_takes source
  refine h.share.meetsEnd_or_le.imp_right fun h4 => ?_
  rw [h.unread, List.length_append]
  exact Nat.add_le_add_right h4 _

theorem meetsEnd_of_nil (h : source.unread = []) :
    MeetsEnd source.fault (read source).1 ∧ (read source).2.unread = [] := by
  constructor
  · refine (meetsEnd_or_le source).resolve_right fun hle => ?_
    rw [h, List.length_nil] at hle
    omega
  · obtain ⟨taken, htakes⟩ := exists_takes source
    exact (List.append_eq_nil_iff.mp (htakes.unread.symm.trans h)).2

/-- Four bytes are gone, or all of them. -/
theorem length_unread_read (flows : source.Flows) : (read source).2.unread.length ≤ source.unread.length - 4 := by
  obtain ⟨taken, h⟩ := exists_takes source
  rcases Nat.lt_or_ge taken.length 4 with short | h4
  · rw [h.all flows (Or.inl short)]
    exact Nat.zero_le _
  · rw [h.unread, List.length_append]
    omega

/-! ### Reads one after another -/

/-- The source after so many reads. -/
def sourceAfter (source : Source) (n : Nat) : Source := ((readEach source n).map (·.2)).getLastD source

theorem sourceAfter_succ (source : Source) (n : Nat) : sourceAfter source (n + 1) = sourceAfter (read source).2 n := by
  simp only [sourceAfter, readEach, List.map_cons, List.getLastD_cons]

theorem keeps_sourceAfter (source : Source) (n : Nat) : source.Keeps (sourceAfter source n) := by
  induction n generalizing source with
  | zero => exact .refl source
  | succ n ih =>
    rw [sourceAfter_succ]
    exact (keeps_read source).trans (ih (read source).2)

/-- The reads behind the first ones are reads of what these have left. -/
theorem drop_readEach (source : Source) (n m : Nat) :
    (readEach source m).drop n = readEach (sourceAfter source n) (m - n) := by
  induction n generalizing source m with
  | zero => rfl
  | succ n ih =>
    cases m with
    | zero => simp [readEach]
    | succ m => rw [readEach, List.drop_succ_cons, ih, sourceAfter_succ, Nat.succ_sub_succ]

theorem exists_shares (source : Source) (n : Nat) :
    ∃ shares, List.Forall₂ (fun step share => Share source.fault step.1 share) (readEach source n) shares ∧
      ∀ k ≤ n, source.unread = (shares.take k).flatten ++ (sourceAfter source k).unread := by
  induction n generalizing source with
  | zero =>
    refine ⟨[], .nil, fun k hk => ?_⟩
    rw [Nat.le_zero.mp hk]
    rfl
  | succ n ih =>
    obtain ⟨taken, h⟩ := exists_takes source
    obtain ⟨shares, hshares, hleft⟩ := ih (read source).2
    rw [h.keeps.fault] at hshares
    refine ⟨taken :: shares, .cons h.share hshares, fun k hk => ?_⟩
    cases k with
    | zero => rfl
    | succ k =>
      rw [List.take_succ_cons, List.flatten_cons, sourceAfter_succ, List.append_assoc,
        ← hleft k (Nat.le_of_succ_le_succ hk)]
      exact h.unread

theorem exists_meetsEnd {n : Nat} (h : source.unread.length / 4 < n) :
    ∃ step ∈ readEach source n, MeetsEnd source.fault step.1 := by
  induction n generalizing source with
  | zero => exact absurd h (Nat.not_lt_zero _)
  | succ n ih =>
    rcases meetsEnd_or_le source with hend | hle
    · exact ⟨read source, List.mem_cons_self, hend⟩
    · -- The read has used up one of the quarters.
      have hless : (read source).2.unread.length / 4 < n := by omega
      obtain ⟨step, hstep, hend⟩ := ih hless
      rw [(keeps_read source).fault] at hend
      exact ⟨step, List.mem_cons_of_mem _ hstep, hend⟩

theorem meetsEnd_readEach (h : source.unread = []) (n : Nat) :
    ∀ step ∈ readEach source n, MeetsEnd source.fault step.1 ∧ step.2.unread = [] := by
  induction n generalizing source with
  | zero => exact fun _ hstep => absurd hstep List.not_mem_nil
  | succ n ih =>
    have hfirst := meetsEnd_of_nil h
    have hothers := ih hfirst.2
    rw [(keeps_read source).fault] at hothers
    rw [readEach, List.forall_mem_cons]
    exact ⟨hfirst, hothers⟩

theorem length_unread_sourceAfter (flows : source.Flows) (n : Nat) :
    (sourceAfter source n).unread.length ≤ source.unread.length - 4 * n := by
  induction n generalizing source with
  | zero => exact Nat.le_refl _
  | succ n ih =>
    have hfirst := length_unread_read flows
    have hothers := ih ((keeps_read source).flows flows)
    rw [sourceAfter_succ]
    omega

/-- What is known of reading frame after frame from a source, going on after faults. -/
structure Exhausts (source : Source) : Prop where
  /-- Each read has a share of the bytes for its outcome, and at any time just those are left that no read has had. -/
  shares : ∀ n, ∃ shares, List.Forall₂ (fun step share => Share source.fault step.1 share) (readEach source n) shares ∧
    ∀ k ≤ n, source.unread = (shares.take k).flatten ++ (sourceAfter source k).unread
  /-- A quarter as many reads as there are bytes, rounded up, take them all if no piece is empty. -/
  usedUp : source.Flows → ∀ n, (source.unread.length + 3) / 4 ≤ n → (sourceAfter source n).unread = []
  /-- Once nothing is left, every further read fails for the end, or by the fault that is the source's own. -/
  further : ∀ n, (sourceAfter source n).unread = [] → ∀ m, ∀ step ∈ (readEach source m).drop n,
    MeetsEnd source.fault step.1 ∧ step.2.unread = []
  /-- Among more reads than a quarter of the bytes one meets the end, even if an empty piece stands for it, so a loop that
      reads until then is over. -/
  ends : ∀ n, source.unread.length / 4 < n → ∃ step ∈ readEach source n, MeetsEnd source.fault step.1

/-- Reading frames comes to an end, whatever is wrong with the bytes and into whatever pieces they are cut. -/
theorem exhausts (source : Source) : Exhausts source where
  shares := exists_shares source
  usedUp flows n hn := by
    have hleft := length_unread_sourceAfter flows n
    exact List.length_eq_zero_iff.mp (by omega)
  further n hleft m step hstep := by
    rw [drop_readEach] at hstep
    rw [← (keeps_sourceAfter source n).fault]
    exact meetsEnd_readEach hleft _ step hstep
  ends _ := exists_meetsEnd

/-- Behind a length that is too large the bytes of the body are read as frames, and all three reads are needed. -/
theorem exhausts_refused :
    Exhausts (.ofBytes (lengthBytes (maxBody + 1) ++ [0, 0, 0, 0, 9]) (.steady 3)) ∧
      (Source.ofBytes (lengthBytes (maxBody + 1) ++ [0, 0, 0, 0, 9]) (.steady 3)).Flows ∧
      ((lengthBytes (maxBody + 1) ++ [0, 0, 0, 0, 9]).length + 3) / 4 = 3 ∧
      (sourceAfter (.ofBytes (lengthBytes (maxBody + 1) ++ [0, 0, 0, 0, 9]) (.steady 3)) 2).unread = [9] ∧
      (sourceAfter (.ofBytes (lengthBytes (maxBody + 1) ++ [0, 0, 0, 0, 9]) (.steady 3)) 3).unread = [] :=
  have flows : (Source.ofBytes (lengthBytes (maxBody + 1) ++ [0, 0, 0, 0, 9]) (.steady 3)).Flows := fun _ => nofun
  have h := exhausts (.ofBytes (lengthBytes (maxBody + 1) ++ [0, 0, 0, 0, 9]) (.steady 3))
  ⟨h, flows, rfl, rfl, h.usedUp flows 3 (Nat.le_refl 3)⟩

end Pinboard.Frame
