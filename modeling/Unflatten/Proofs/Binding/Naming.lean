import Mathlib
import Unflatten.Rename

/-! # New names are new

A name that is given out bears the number of its turn (`IsNumbered`), so it is none of those given
out before, and it is none of the texts of the tree as long as those do not fill all the numbers
that are tried behind a name. -/

set_option autoImplicit false

namespace Unflatten

namespace Naming

/-- The name begins with a number behind `_u`. -/
def IsNumbered (number : Nat) (name : String) : Prop :=
  ∃ (part : Char) (rest : List Char), part.isDigit = false ∧
    name.toList = "_u".toList ++ ((toString number).toList ++ part :: rest)

theorem isDigit_of_mem_toString {number : Nat} {char : Char}
    (member : char ∈ (toString number).toList) : char.isDigit = true := by
  rw [Nat.toString_eq_ofList_toDigits, String.toList_ofList] at member
  exact Nat.isDigit_of_mem_toDigits (by decide) (by decide) member

theorem toString_injective : Function.Injective (fun number : Nat => toString number) :=
  fun _ _ same => Nat.repr_inj.mp same

/-- A name bears only one number. -/
theorem IsNumbered.unique {first second : Nat} {name : String} (one : IsNumbered first name)
    (other : IsNumbered second name) : first = second := by
  obtain ⟨part, rest, apart, spelled⟩ := one
  obtain ⟨part', rest', apart', spelled'⟩ := other
  have digits : ∀ (number : Nat) {part : Char} (rest : List Char), part.isDigit = false →
      ((toString number).toList ++ part :: rest).takeWhile Char.isDigit = (toString number).toList := by
    intro number part rest apart
    rw [List.takeWhile_append_of_pos fun _ => isDigit_of_mem_toString,
      List.takeWhile_cons_of_neg (by rw [apart]; decide), List.append_nil]
  have same := congrArg (List.takeWhile Char.isDigit)
    (List.append_cancel_left (spelled.symm.trans spelled'))
  rw [digits first rest apart, digits second rest' apart'] at same
  exact toString_injective (String.toList_injective same)

theorem IsNumbered.append {number : Nat} {name : String} (numbered : IsNumbered number name)
    (suffix : String) : IsNumbered number (name ++ suffix) := by
  obtain ⟨part, rest, apart, spelled⟩ := numbered
  exact ⟨part, rest ++ suffix.toList, apart, by rw [String.toList_append, spelled]; simp⟩

/-- The part that a name plays is a letter. -/
theorem isNumbered_base (number : Nat) {part : Char} (apart : part.isDigit = false) :
    IsNumbered number (("_u" ++ toString number).push part) :=
  ⟨part, [], apart, by rw [String.toList_push, String.toList_append, List.append_assoc]⟩

section FirstFree
variable {taken : Std.HashSet String} {base candidate : String} {tries suffix : Nat}

theorem firstFree_cases (taken : Std.HashSet String) (base : String) (tries suffix : Nat)
    (candidate : String) : firstFree taken base tries suffix candidate = candidate ∨
    ∃ number : Nat, firstFree taken base tries suffix candidate = base ++ toString number := by
  induction tries generalizing suffix candidate with
  | zero => exact .inl rfl
  | succ tries ih =>
    unfold firstFree
    split
    · rcases ih (suffix + 1) (base ++ toString suffix) with same | some
      · exact .inr ⟨suffix, same⟩
      · exact .inr some
    · exact .inl rfl

/-- If the name that is found is taken, so are all that were tried. -/
theorem firstFree_taken
    (found : taken.contains (firstFree taken base tries suffix candidate) = true) :
    taken.contains candidate = true ∧
      ∀ number < tries, taken.contains (base ++ toString (suffix + number)) = true := by
  induction tries generalizing suffix candidate with
  | zero => exact ⟨found, fun _ bound => absurd bound (Nat.not_lt_zero _)⟩
  | succ tries ih =>
    unfold firstFree at found
    split at found
    · rename_i here
      obtain ⟨first, later⟩ := ih found
      refine ⟨here, fun number bound => ?_⟩
      cases number with
      | zero => exact first
      | succ number =>
        have := later number (Nat.lt_of_succ_lt_succ bound)
        rwa [Nat.add_right_comm, Nat.add_assoc] at this
    · rename_i here
      exact absurd found here

/-- A number of tries find a free name if the names that could be in the way are fewer. -/
theorem firstFree_free {names : List String}
    (few : names.dedup.length < tries)
    (among : ∀ number : Nat, taken.contains (base ++ toString number) = true → base ++ toString number ∈ names) :
    taken.contains (firstFree taken base tries suffix candidate) = false := by
  by_contra found
  obtain ⟨-, all⟩ := firstFree_taken (Bool.not_eq_false _ ▸ found)
  have inside : (Finset.range tries).image (fun number => base ++ toString (suffix + number)) ⊆
      names.toFinset := by
    refine Finset.image_subset_iff.mpr fun number member => ?_
    exact List.mem_toFinset.mpr (among _ (all number (Finset.mem_range.mp member)))
  have count := Finset.card_le_card inside
  rw [Finset.card_image_of_injective, Finset.card_range, List.card_toFinset] at count
  · exact absurd count (Nat.not_le.mpr few)
  · intro first second same
    exact Nat.add_left_cancel (toString_injective ((String.append_right_inj base).mp same))

end FirstFree

/-- The names given out are different ones and none of some texts. -/
structure IsFresh (texts : List String) (naming : Naming) : Prop where
  taken : ∀ word, naming.taken.contains word = true ↔
    word ∈ texts ∨ ∃ number : SymbolId, naming.names[number]? = some word
  numbered : ∀ (number : SymbolId) (word : String), naming.names[number]? = some word →
    ∃ turn < naming.count, IsNumbered turn word
  new : ∀ (number : SymbolId) (word : String), naming.names[number]? = some word → word ∉ texts
  apart : ∀ (first second : SymbolId) (word : String), naming.names[first]? = some word →
    naming.names[second]? = some word → first = second

section Fresh
variable {texts : List String} {naming : Naming} {store : Store} {bindings : Bindings} {part : Char}

theorem start_isFresh (store : Store) (root : NodeId) :
    (start store root).IsFresh
      ((store.descendants (some root)).filterMap fun id => store.identifier? (some id)) := by
  have nothing : ∀ number : SymbolId, (start store root).names[number]? = none :=
    fun _ => Std.TreeMap.getElem?_emptyc
  refine ⟨fun word => ?_, fun number word found => ?_, fun number word found => ?_,
    fun first second word found _ => ?_⟩
  · simp only [start, Std.HashSet.contains_ofList, List.contains_iff_mem, Std.TreeMap.getElem?_emptyc,
      reduceCtorEq, exists_false, or_false]
  all_goals
    rw [nothing] at found
    cases found

/-- A name that is given out is free and bears the number of its turn. -/
theorem IsFresh.fresh (fresh : naming.IsFresh texts) (few : texts.dedup.length < 9000)
    (apart : part.isDigit = false) :
    naming.taken.contains (naming.fresh part).2 = false ∧
      IsNumbered naming.count (naming.fresh part).2 := by
  have base := isNumbered_base naming.count apart
  constructor
  · refine firstFree_free (Nat.lt_trans few (by decide)) fun number found => ?_
    rcases (fresh.taken _).mp found with text | ⟨other, given⟩
    · exact text
    · obtain ⟨turn, before, numbered⟩ := fresh.numbered other _ given
      exact absurd (numbered.unique (base.append _)) (Nat.ne_of_lt before)
  · simp only [Naming.fresh]
    rcases firstFree_cases naming.taken _ (maxRenameSuffix - 2) 2 _ with same | ⟨number, same⟩
    · rw [same]
      exact base
    · rw [same]
      exact base.append _

/-- A symbol without a name gets one that is free and bears the number of the turn. -/
theorem IsFresh.give (fresh : naming.IsFresh texts) {symbol : SymbolId} {word : String}
    (unnamed : naming.names[symbol]? = none) (free : naming.taken.contains word = false)
    (numbered : IsNumbered naming.count word) :
    IsFresh texts ⟨naming.count + 1, naming.taken.insert word, naming.names.insert symbol word⟩ := by
  have unused : ¬ (word ∈ texts ∨ ∃ number : SymbolId, naming.names[number]? = some word) := by
    rw [← fresh.taken, free]
    decide
  have listed : ∀ number : SymbolId, (naming.names.insert symbol word)[number]? =
      if symbol = number then some word else naming.names[number]? := by
    intro number
    simp only [Std.TreeMap.getElem?_insert, compare_eq_iff_eq]
  have old : ∀ number, naming.names[number]? ≠ some word :=
    fun number given => unused (.inr ⟨number, given⟩)
  refine ⟨fun text => ?_, fun number text found => ?_, fun number text found => ?_,
    fun first second text found also => ?_⟩
  · simp only [Std.HashSet.contains_insert, Bool.or_eq_true, beq_iff_eq, fresh.taken, listed]
    constructor
    · rintro (rfl | text | ⟨number, given⟩)
      · exact .inr ⟨symbol, if_pos rfl⟩
      · exact .inl text
      · refine .inr ⟨number, ?_⟩
        rw [if_neg, given]
        rintro rfl
        rw [unnamed] at given
        cases given
    · rintro (text | ⟨number, given⟩)
      · exact .inr (.inl text)
      · split at given
        · exact .inl (Option.some.inj given)
        · exact .inr (.inr ⟨number, given⟩)
  · rw [listed] at found
    split at found
    · cases found
      exact ⟨naming.count, Nat.lt_succ_self _, numbered⟩
    · obtain ⟨turn, before, numbers⟩ := fresh.numbered number text found
      exact ⟨turn, Nat.lt_succ_of_lt before, numbers⟩
  · rw [listed] at found
    split at found
    · cases found
      exact fun text => unused (.inl text)
    · exact fresh.new number text found
  · rw [listed] at found also
    split at found <;> split at also
    · rename_i one other
      exact one.symm.trans other
    · cases found
      exact absurd also (old second)
    · cases also
      exact absurd found (old first)
    · exact fresh.apart first second text found also

theorem IsFresh.plan (fresh : naming.IsFresh texts) (few : texts.dedup.length < 9000)
    (apart : part.isDigit = false) (identifier : Slot) :
    (naming.plan bindings part identifier).IsFresh texts := by
  unfold Naming.plan
  split
  · exact fresh
  split
  · exact fresh
  rename_i unnamed
  obtain ⟨free, numbered⟩ := fresh.fresh few apart
  refine fresh.give ?_ free numbered
  rw [Std.TreeMap.contains_eq_isSome_getElem?] at unnamed
  exact Option.not_isSome_iff_eq_none.mp unnamed

theorem IsFresh.planAll (fresh : naming.IsFresh texts) (few : texts.dedup.length < 9000)
    (apart : part.isDigit = false) (identifiers : List Slot) :
    (identifiers.foldl (fun naming identifier => naming.plan bindings part identifier)
      naming).IsFresh texts := by
  induction identifiers generalizing naming with
  | nil => exact fresh
  | cons identifier rest ih => exact ih (fresh.plan few apart identifier)

theorem IsFresh.visit (fresh : naming.IsFresh texts) (few : texts.dedup.length < 9000)
    (id : NodeId) : (naming.visit store bindings id).IsFresh texts := by
  unfold Naming.visit
  split
  · exact (fresh.plan few (by decide) _).planAll few (by decide) _
  · exact fresh.plan few (by decide) _
  · exact fresh

/-- The new names of a tree are new. -/
theorem of_isFresh {root : NodeId} (bindings : Bindings)
    (few : ((store.descendants (some root)).filterMap fun id =>
      store.identifier? (some id)).dedup.length < 9000) :
    (of store root bindings).IsFresh
      ((store.descendants (some root)).filterMap fun id => store.identifier? (some id)) := by
  suffices all : ∀ (ids : List NodeId) (naming : Naming), naming.IsFresh _ →
      (ids.foldl (visit store bindings) naming).IsFresh _ from all _ _ (start_isFresh store root)
  intro ids
  induction ids with
  | nil => exact fun _ fresh => fresh
  | cons id rest ih => exact fun naming fresh => ih _ (fresh.visit few id)

end Fresh

end Naming

end Unflatten
