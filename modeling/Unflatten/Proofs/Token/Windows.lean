import Unflatten.Proofs.Token.Scanning

/-! # Windows of comments

The comments of a text are ordered, so binary search finds how many of them end before a position
(`CommentRange.countBefore`).  Where no comment reaches over the ends of a window, the comments
between them are those that are counted at its end and not at its start (`between_eq`). -/

set_option autoImplicit false

namespace Unflatten

/-! ## Binary search -/

/-- What a binary search in an interval finds: of the places behind it none satisfies the test, and
it satisfies the test itself unless it is the first place. -/
structure IsLastOf (before : Nat → Bool) (base size found : Nat) : Prop where
  base_le : base ≤ found
  lt : found < base + size
  holds : found = base ∨ before found = true
  last : ∀ place, found < place → place < base + size → before place = false

theorem isLastOf_bisect {before : Nat → Bool} {base size : Nat}
    (falls : ∀ i j, i ≤ j → before j = true → before i = true) (some : 0 < size) :
    IsLastOf before base size (bisect before base size) := by
  induction size using Nat.strongRecOn generalizing base with
  | ind size ih =>
    rw [bisect]
    by_cases small : size ≤ 1
    · rw [if_pos small]
      exact ⟨Nat.le_refl _, by omega, .inl rfl, fun place _ _ => by omega⟩
    · rw [if_neg small]
      have half := @ih (size - size / 2) (by omega) (if before (base + size / 2) then base + size / 2 else base)
        (by omega)
      revert half
      generalize bisect before (if before (base + size / 2) then base + size / 2 else base) (size - size / 2) =
        found
      cases middle : before (base + size / 2) with
      | true =>
        rintro ⟨base_le, lt, holds, last⟩
        rw [if_pos rfl] at base_le lt holds last
        refine ⟨by omega, by omega, .inr ?_, fun place behind within => last place behind (by omega)⟩
        rcases holds with rfl | holds
        · exact middle
        · exact holds
      | false =>
        rintro ⟨base_le, lt, holds, last⟩
        rw [if_neg Bool.false_ne_true] at base_le lt holds last
        refine ⟨base_le, by omega, holds, fun place behind within => ?_⟩
        by_cases early : place < base + (size - size / 2)
        · exact last place behind early
        · -- what is true of a place is true of those before it
          refine Bool.eq_false_iff.mpr fun there => Bool.eq_false_iff.mp middle (falls _ _ ?_ there)
          omega

/-- Where those that satisfy a test come first, `partitionPoint` counts them. -/
theorem lt_partitionPoint_iff {α : Type} {items : Array α} {before : α → Bool}
    (falls : ∀ i j : Nat, i ≤ j → items[j]?.any before = true → items[i]?.any before = true) (place : Nat) :
    place < partitionPoint items before ↔ items[place]?.any before = true := by
  unfold partitionPoint
  rcases Nat.eq_zero_or_pos items.size with bare | some
  · rw [if_pos (Array.isEmpty_iff_size_eq_zero.mpr bare), Array.getElem?_eq_none (by omega)]
    simp
  · rw [if_neg fun none => Nat.ne_of_gt some (Array.isEmpty_iff_size_eq_zero.mp none)]
    obtain ⟨-, lt, holds, last⟩ := isLastOf_bisect falls some
    dsimp only
    generalize bisect (fun place => items[place]?.any before) 0 items.size = found at *
    by_cases there : items[found]?.any before = true
    · rw [if_pos there]
      refine ⟨fun less => falls place found (Nat.le_of_lt_succ less) there, fun here => ?_⟩
      by_contra behind
      have inside : place < items.size := by
        by_contra out
        rw [Array.getElem?_eq_none (Nat.le_of_not_lt out)] at here
        cases here
      rw [last place (by omega) (by omega)] at here
      cases here
    · obtain rfl : found = 0 := holds.resolve_right there
      rw [if_neg there]
      exact ⟨fun less => absurd less (Nat.not_lt_zero _), fun here =>
        absurd (falls 0 place (Nat.zero_le _) here) there⟩

/-! ## Comments before a position -/

namespace CommentRange

/-- How many comments end at or before a position. -/
def countBefore (comments : Array CommentRange) (position : Nat) : Nat :=
  partitionPoint comments (·.stop ≤ position)

/-- No comment reaches over a position. -/
def Spares (comments : Array CommentRange) (position : Nat) : Prop :=
  ∀ comment ∈ comments, comment.stop ≤ position ∨ position ≤ comment.start

section Ordered
variable {text : List Char} {comments : Array CommentRange} {limit after position : Nat}

theorem spares_zero (comments : Array CommentRange) : Spares comments 0 := fun _ _ => .inr (Nat.zero_le _)

/-- Of two comments the earlier one ends first. -/
theorem stop_mono (ordered : Lexer.AreOrdered text comments limit) {i j : Nat} (le : i ≤ j)
    {first second : CommentRange} (here : comments[i]? = some first) (there : comments[j]? = some second) :
    first.start ≤ second.start ∧ first.stop ≤ second.stop := by
  rcases Nat.eq_or_lt_of_le le with rfl | less
  · cases here.symm.trans there
    exact ⟨Nat.le_refl _, Nat.le_refl _⟩
  · obtain ⟨inside, rfl⟩ := Array.getElem?_eq_some_iff.mp here
    obtain ⟨inside', rfl⟩ := Array.getElem?_eq_some_iff.mp there
    have apart := List.pairwise_iff_getElem.mp ordered.order i j inside inside' less
    have filled := ordered.filled _ (Array.getElem_mem inside)
    have filled' := ordered.filled _ (Array.getElem_mem inside')
    simp only [Array.getElem_toList] at apart
    omega

/-- A test that the earlier of two comments satisfies if the later one does. -/
theorem lt_partitionPoint_comments (ordered : Lexer.AreOrdered text comments limit) {test : CommentRange → Bool}
    (falls : ∀ first second : CommentRange, first.start ≤ second.start → first.stop ≤ second.stop →
      test second = true → test first = true) (place : Nat) :
    place < partitionPoint comments test ↔ ∃ comment, comments[place]? = some comment ∧ test comment = true := by
  rw [lt_partitionPoint_iff, Option.any_eq_true]
  intro i j le there
  obtain ⟨comment, found, holds⟩ := (Option.any_eq_true _ _).mp there
  have inside : i < comments.size := Nat.lt_of_le_of_lt le (Array.getElem?_eq_some_iff.mp found).1
  have here := Array.getElem?_eq_getElem inside
  obtain ⟨starts, stops⟩ := stop_mono ordered le here found
  exact (Option.any_eq_true _ _).mpr ⟨_, here, falls _ _ starts stops holds⟩

theorem lt_countBefore_iff (ordered : Lexer.AreOrdered text comments limit) (place : Nat) :
    place < countBefore comments position ↔ ∃ comment, comments[place]? = some comment ∧
      comment.stop ≤ position := by
  rw [countBefore, lt_partitionPoint_comments ordered fun first second _ stops holds => ?_]
  · simp only [decide_eq_true_eq]
  · exact decide_eq_true (Nat.le_trans stops (of_decide_eq_true holds))

/-- Counting the comments that start before a position comes to the same where none reaches over it. -/
theorem partitionPoint_start (ordered : Lexer.AreOrdered text comments limit) (spared : Spares comments position) :
    partitionPoint comments (·.start < position) = countBefore comments position := by
  have same : ∀ place, place < partitionPoint comments (·.start < position) ↔
      place < countBefore comments position := fun place => by
    rw [lt_countBefore_iff ordered, lt_partitionPoint_comments ordered fun first second starts _ holds => ?_]
    · refine exists_congr fun comment => and_congr_right fun found => ?_
      obtain ⟨inside, rfl⟩ := Array.getElem?_eq_some_iff.mp found
      have filled := ordered.filled _ (Array.getElem_mem inside)
      have apart := spared _ (Array.getElem_mem inside)
      rw [decide_eq_true_eq]
      omega
    · exact decide_eq_true (Nat.lt_of_le_of_lt starts (of_decide_eq_true holds))
  exact Nat.le_antisymm (Nat.le_of_not_lt fun less => Nat.lt_irrefl _ ((same _).mp less))
    (Nat.le_of_not_lt fun less => Nat.lt_irrefl _ ((same _).mpr less))

theorem countBefore_le_size (ordered : Lexer.AreOrdered text comments limit) :
    countBefore comments position ≤ comments.size := by
  by_contra more
  obtain ⟨_, found, -⟩ := (lt_countBefore_iff ordered comments.size).mp (Nat.lt_of_not_le more)
  exact absurd (Array.getElem?_eq_some_iff.mp found).1 (Nat.lt_irrefl _)

theorem countBefore_mono (ordered : Lexer.AreOrdered text comments limit) (le : after ≤ position) :
    countBefore comments after ≤ countBefore comments position := by
  by_contra more
  obtain ⟨comment, found, stops⟩ := (lt_countBefore_iff ordered _).mp (Nat.lt_of_not_le more)
  have less := (lt_countBefore_iff ordered _).mpr ⟨comment, found, Nat.le_trans stops le⟩
  exact absurd less (Nat.lt_irrefl _)

theorem countBefore_zero (ordered : Lexer.AreOrdered text comments limit) : countBefore comments 0 = 0 := by
  refine Nat.eq_zero_of_not_pos fun some => ?_
  obtain ⟨comment, found, stops⟩ := (lt_countBefore_iff ordered 0).mp some
  obtain ⟨inside, rfl⟩ := Array.getElem?_eq_some_iff.mp found
  have filled := ordered.filled _ (Array.getElem_mem inside)
  omega

theorem countBefore_limit (ordered : Lexer.AreOrdered text comments limit) (le : limit ≤ position) :
    countBefore comments position = comments.size := by
  refine Nat.le_antisymm (countBefore_le_size ordered) (Nat.le_of_not_lt fun less => ?_)
  have stops := ordered.before _ (Array.getElem_mem less)
  have counted := (lt_countBefore_iff ordered _).mpr
    ⟨_, Array.getElem?_eq_getElem less, Nat.le_trans stops le⟩
  exact absurd counted (Nat.lt_irrefl _)

/-- A window holds the comments that are counted at its end and not at its start. -/
theorem take_countBefore (ordered : Lexer.AreOrdered text comments limit) (spared : Spares comments after)
    (le : after ≤ position) : comments.toList.take (countBefore comments position) =
      comments.toList.take (countBefore comments after) ++ between comments after position := by
  have more := countBefore_mono ordered le
  have window : between comments after position =
      (comments.toList.take (countBefore comments position)).drop (countBefore comments after) := by
    rw [between, partitionPoint_start ordered spared]
    change (if countBefore comments position ≤ countBefore comments after then [] else _) = _
    split
    · exact (List.drop_eq_nil_of_le (Nat.le_trans (List.length_take_le _ _) ‹_›)).symm
    · rw [Array.toList_extract, List.extract_eq_take_drop, List.drop_take]
      rfl
  have start : comments.toList.take (countBefore comments after) =
      (comments.toList.take (countBefore comments position)).take (countBefore comments after) := by
    rw [List.take_take, Nat.min_eq_left more]
  rw [window, start, List.take_append_drop]

end Ordered

end CommentRange

end Unflatten
