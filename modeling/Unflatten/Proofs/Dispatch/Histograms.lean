import Unflatten.Dispatch.Restore
import Unflatten.Proofs.Dispatch.FoundKeys
import Unflatten.Proofs.Dispatch.KeyWrites
import Unflatten.Proofs.Dispatch.Moves

/-! # What a histogram says

A key that is tracked has in its histogram exactly the values that some place gives it, with the
number of these places: the statements `key = n;` of the dispatcher whose literal is worth `n`, and
the start (`track_exact`).  That no such statement is passed over because its number is no safe
integer is due to the tracker, which gives up at it.  All keys that are tracked are tracked in one
go, each by itself (`keys_trackKeys`).  A key that has been taken on keeps the histogram that merging
left behind, where a value that nothing gives the key any more is counted zero times. -/

set_option autoImplicit false

namespace Unflatten

/-! ## The worth of a literal -/

namespace Number

/-- The number that a scaled integer stands for. -/
def Scaled.toRat (s : Scaled) : ℚ := (if s.negative then -1 else 1) * s.significand * 2 ^ s.exponent

/-- The double is finite and is this integer. -/
def IsExactly (x : Float) (value : Int) : Prop := ∃ s, Scaled.ofFloat? x = some s ∧ s.toRat = value

theorem Scaled.toRat_of_isIntegral {s : Scaled} (integral : s.isIntegral = true) :
    s.toRat = s.truncate := by
  have magnitude : (s.significand : ℚ) * 2 ^ s.exponent = s.magnitude := by
    unfold Scaled.magnitude
    by_cases up : 0 ≤ s.exponent
    · obtain ⟨shift, same⟩ := Int.eq_ofNat_of_zero_le up
      rw [if_pos up, same, Int.toNat_natCast, Nat.shiftLeft_eq, zpow_natCast]
      push_cast
      ring
    · obtain ⟨shift, same⟩ := Int.eq_ofNat_of_zero_le (show 0 ≤ -s.exponent by omega)
      have whole : 2 ^ shift ∣ s.significand := by
        simp only [Scaled.isIntegral, up, same, decide_false, Bool.false_or, Int.toNat_natCast,
          beq_iff_eq] at integral
        exact Nat.dvd_of_mod_eq_zero integral
      obtain ⟨kept, split⟩ := whole
      have shifted : s.exponent = -(shift : Int) := by omega
      rw [if_neg up, same, Int.toNat_natCast, Nat.shiftRight_eq_div_pow, split,
        Nat.mul_div_cancel_left _ (Nat.two_pow_pos shift), shifted, zpow_neg, zpow_natCast]
      push_cast
      field_simp
  rw [Scaled.toRat, mul_assoc, magnitude, Scaled.truncate]
  cases s.negative <;> simp

theorem isExactly_of_safeInteger? {x : Float} {value : Int} (safe : safeInteger? x = some value) :
    IsExactly x value := by
  unfold safeInteger? at safe
  split at safe
  · rename_i s finite
    split at safe
    · rename_i integral
      cases safe
      rw [Bool.and_eq_true] at integral
      exact ⟨s, finite, Scaled.toRat_of_isIntegral integral.1⟩
    · cases safe
  · cases safe

theorem IsExactly.unique {x : Float} {value other : Int} (one : IsExactly x value)
    (two : IsExactly x other) : value = other := by
  obtain ⟨s, finite, worth⟩ := one
  obtain ⟨t, again, worth'⟩ := two
  cases finite.symm.trans again
  exact_mod_cast worth.symm.trans worth'

end Number

/-! ## Sites -/

namespace Store

/-- The statement `name = n;`, with the value `n` written as a number. -/
def Assigns (store : Store) (name : String) (value : Int) (statement : NodeId) : Prop :=
  ∃ binary left right text x,
    store.shape? (some statement) = some (.expressionStatement (some binary)) ∧
    store.shape? (some binary) = some (.binary (some left) .equals (some right)) ∧
    store.shape? (some left) = some (.identifier name) ∧
    store.shape? (some right) = some (.literal .number text (some x)) ∧ Number.IsExactly x value

/-- The statements below a slot that give a name a value. -/
def sites (store : Store) (name : String) (value : Int) (slot : Slot) : Set NodeId :=
  {statement | statement ∈ store.descendants slot ∧ store.Assigns name value statement}

theorem assigns_of_keyValue? {store : Store} {name : String} {value : Int} {statement : NodeId}
    (assigns : store.keyValue? (some statement) name = some value) :
    store.Assigns name value statement := by
  obtain ⟨⟨left, right⟩, sides, -⟩ := Option.bind_eq_some_iff.mp assigns
  unfold assignment? expression? at sides
  cases shaped : store.shape? (some statement) with
  | none => simp [shaped] at sides
  | some shape =>
    rw [shaped] at sides
    cases shape
    case expressionStatement expression =>
      cases expression with
      | none => cases sides
      | some binary =>
        obtain ⟨left, right, text, x, binaryThere, nameThere, numberThere, safe⟩ :=
          Removal.exists_sides assigns shaped
        cases left with
        | none => cases nameThere
        | some left =>
          cases right with
          | none => cases numberThere
          | some right =>
            exact ⟨binary, left, right, text, x, shaped, binaryThere, nameThere, numberThere,
              Number.isExactly_of_safeInteger? safe⟩
    all_goals cases sides

section Assigns
variable {store : Store} {name : String} {value other : Int} {statement : NodeId}

theorem Assigns.isSome_assignment? (assigns : store.Assigns name value statement) :
    (store.assignment? (some statement)).isSome = true := by
  obtain ⟨binary, left, right, text, x, shaped, sides, -⟩ := assigns
  simp [assignment?, expression?, shaped, sides]

/-- A statement gives no two values. -/
theorem Assigns.eq_of_keyValue? (assigns : store.Assigns name value statement)
    (found : store.keyValue? (some statement) name = some other) : value = other := by
  obtain ⟨binary, left, right, text, x, shaped, sides, named, number, exactly⟩ := assigns
  obtain ⟨_, _, _, _, sides', -, number', safe⟩ := Removal.exists_sides found shaped
  cases sides.symm.trans sides'
  cases number.symm.trans number'
  exact exactly.unique (Number.isExactly_of_safeInteger? safe)

/-- Where each assignment gives the name another value, there is no site. -/
theorem ncard_sites_eq_zero {slot : Slot}
    (others : ∀ statement ∈ store.descendants slot, (store.assignment? (some statement)).isSome = true →
      ∃ other ≠ value, store.keyValue? (some statement) name = some other) :
    (store.sites name value slot).ncard = 0 := by
  have none : store.sites name value slot = ∅ := by
    rw [Set.eq_empty_iff_forall_notMem]
    rintro statement ⟨below, assigns⟩
    obtain ⟨other, differs, found⟩ := others statement below assigns.isSome_assignment?
    exact differs (assigns.eq_of_keyValue? found).symm
  rw [none, Set.ncard_empty]

end Assigns

end Store

namespace Tracking

section Sites
variable {store : Store} {root statement : NodeId} {key : DispatchKey} {tracked : Tracked}

/-- Every number that the dispatcher gives a tracked key is a safe integer. -/
theorem exists_keyValue? {binary left right : NodeId} {text : String} {x : Float}
    (arena : store.IsArena root) (inside : key.loop ∈ store.descendants (some root))
    (tracks : track store root key = .ok tracked)
    (listed : statement ∈ store.descendants (key.dispatcher? store))
    (shaped : store.shape? (some statement) = some (.expressionStatement (some binary)))
    (sides : store.shape? (some binary) = some (.binary (some left) .equals (some right)))
    (named : store.shape? (some left) = some (.identifier key.name))
    (number : store.shape? (some right) = some (.literal .number text (some x))) :
    ∃ value, store.keyValue? (some statement) key.name = some value := by
  obtain ⟨whole, holds, rooted, nodup⟩ := arena.tree
  have insideWhole := inside
  rw [← rooted, (holds.descendants_perm nodup).mem_iff] at insideWhole
  obtain ⟨found, framed, -⟩ := track_spec tracks
  obtain ⟨_, _, _, _, loopThere, -, -, sameDispatcher, -⟩ := frame_spec framed
  obtain ⟨condition, prelude, dispatcher, stands⟩ := frame_stands holds nodup insideWhole framed
  have held := holds.within stands.within
  have perm := held.descendants_perm (stands.within.nodup nodup)
  rw [stands.root, sameDispatcher] at perm
  have binaryInside := held.slot_mem (perm.mem_iff.mp listed) shaped List.mem_cons_self
  obtain ⟨leftInside, linked⟩ := held.slot_mem binaryInside.1 sides List.mem_cons_self
  have writes : store.isWrite left = true := by
    simp only [Store.isWrite, linked, sides, beq_self_eq_true, Bool.true_and]
    rfl
  have outside : store.isAncestorOrSelf (loopTest store key) (some left) = false := by
    have sameTest : loopTest store key = condition.root := by
      rw [loopTest, loopThere, stands.conditionRoot]
    rw [sameTest, ← Bool.not_eq_true, holds.isAncestorOrSelf_iff nodup (by rw [rooted, arena.top])
      stands.conditionWithin (stands.within.names_subset leftInside)]
    exact stands.besideCondition left leftInside
  have present : left ∈ store.descendants (some root) := by
    rw [← rooted, (holds.descendants_perm nodup).mem_iff]
    exact stands.within.names_subset leftInside
  have identifier : store.isIdentifier (some left) key.name = true := by
    rw [Store.isIdentifier, Store.identifier?, named, beq_self_eq_true]
  obtain ⟨other, middle, operand, among, otherThere, middleThere, constant⟩ :=
    isAccounted_of_isWrite arena.tree arena.top inside tracks present identifier writes outside
  -- the way up from the name leads to one statement only
  have middleInside := held.slot_mem (perm.mem_iff.mp among) otherThere List.mem_cons_self
  have above := (held.slot_mem middleInside.1 middleThere List.mem_cons_self).2
  cases linked.symm.trans above
  cases binaryInside.2.symm.trans middleInside.2
  rcases constant with ⟨value, assigns, -⟩ | exits
  · exact ⟨value, assigns⟩
  · simp [Store.isKeyExit, Store.assignment?, Store.expression?, shaped, sides, Store.isUndefined,
      number] at exits

/-- Each value is counted as often as it is given. -/
theorem count_eq_sites (arena : store.IsArena root) (inside : key.loop ∈ store.descendants (some root))
    (tracks : track store root key = .ok tracked) (value : Int) :
    tracked.histogram.count value =
      (store.sites key.name value (key.dispatcher? store)).ncard + if value = key.start then 1 else 0 := by
  have counts := count_eq arena.tree arena.top inside tracks value
  obtain ⟨-, dispatcher, -, -, holds, rooted, nodup, -⟩ :=
    track_counts arena.tree arena.top inside tracks
  have distinct : (store.descendants (key.dispatcher? store)).Nodup := by
    rw [← rooted]
    exact (holds.descendants_perm nodup).symm.nodup nodup
  have listed : store.sites key.name value (key.dispatcher? store) =
      (Expansion.statementsBelow store key.name value [key.dispatcher? store]).toFinset := by
    ext statement
    simp only [Store.sites, Set.mem_ofPred_eq, List.coe_toFinset, Expansion.statementsBelow,
      List.flatMap_singleton, List.mem_filter, beq_iff_eq]
    refine and_congr_right fun below => ⟨?_, Store.assigns_of_keyValue?⟩
    intro assigns
    obtain ⟨binary, left, right, text, x, shaped, sides, named, number, -⟩ := id assigns
    obtain ⟨given, found⟩ := exists_keyValue? arena inside tracks below shaped sides named number
    rw [found, assigns.eq_of_keyValue? found]
  rw [counts, listed, Set.ncard_coe_finset, Nat.add_comm, List.toFinset_card_of_nodup]
  rw [Expansion.statementsBelow, List.flatMap_singleton]
  exact distinct.filter _

end Sites

/-! ## No zeros, and the exits -/

section Entries
variable {store : Store} {frame : Frame} {histogram after : Histogram}

/-- Counting leaves no value that is counted zero times. -/
theorem countReferences_ne_zero {references : List NodeId}
    (counted : references.foldlM (countReference store frame) histogram = .ok after)
    (filled : ∀ value : Int, histogram[value]? ≠ some 0) : ∀ value : Int, after[value]? ≠ some 0 := by
  induction references generalizing histogram with
  | nil =>
    cases counted
    exact filled
  | cons first rest ih =>
    rw [List.foldlM_cons] at counted
    cases step : countReference store frame histogram first with
    | error obstacle =>
      rw [step] at counted
      cases counted
    | ok middle =>
      rw [step] at counted
      refine ih counted fun value => ?_
      rw [(countReference_spec step).2]
      split
      · rw [Histogram.increment, Std.TreeMap.getElem?_insert]
        split
        · simp
        · exact filled value
      · exact filled value

/-- The exits are values of the list that is tested. -/
theorem mem_of_exitValues {values exits : List Int} (tested : exitValues store frame values = .ok exits) :
    ∀ value ∈ exits, value ∈ values := by
  induction values generalizing exits with
  | nil =>
    cases tested
    exact fun _ member => member
  | cons first rest ih =>
    unfold exitValues at tested
    simp only at tested
    split at tested
    · cases tested
    · rename_i holds decided
      obtain ⟨later, tested, same⟩ : ∃ later, exitValues store frame rest = .ok later ∧
          (if holds then later else first :: later) = exits := by
        cases found : exitValues store frame rest with
        | error obstacle =>
          rw [found] at tested
          cases tested
        | ok later =>
          rw [found] at tested
          exact ⟨later, rfl, Except.ok.inj tested⟩
      intro value member
      rw [← same] at member
      split at member
      · exact List.mem_cons_of_mem _ (ih tested value member)
      · rcases List.mem_cons.mp member with rfl | deeper
        · exact List.mem_cons_self
        · exact List.mem_cons_of_mem _ (ih tested value deeper)

end Entries

/-- The histogram has the values that some place gives the key, with the number of places. -/
theorem track_exact {store : Store} {root : NodeId} {key : DispatchKey} {tracked : Tracked}
    (arena : store.IsArena root) (tracks : track store root key = .ok tracked) :
    let places (value : Int) :=
      (store.sites key.name value (key.dispatcher? store)).ncard + if value = key.start then 1 else 0
    (∀ value : Int, tracked.histogram[value]? =
        if places value = 0 then none else some (places value)) ∧
      (∀ value ∈ tracked.exits, value ∈ tracked.histogram) ∧ key.start ∉ tracked.exits := by
  intro places
  obtain ⟨found, framed, counted, -, tested, stays⟩ := track_spec tracks
  have inside : key.loop ∈ store.descendants (some root) := by
    rw [← arena.isAttached_iff]
    unfold frame at framed
    simpa using (of_checked framed).1
  have filled : ∀ value : Int, tracked.histogram[value]? ≠ some 0 := by
    apply countReferences_ne_zero counted
    intro value
    rw [Std.TreeMap.getElem?_insert]
    split <;> simp
  refine ⟨fun value => ?_, fun value member => ?_, stays⟩
  · have count : tracked.histogram.count value = places value := count_eq_sites arena inside tracks value
    rw [← count, Histogram.count]
    cases entry : tracked.histogram[value]? with
    | none => rfl
    | some places =>
      have positive : places ≠ 0 := fun zero => filled value (by rw [entry, zero])
      simp [positive]
  · exact Std.TreeMap.mem_keys.mp (mem_of_exitValues tested value member)

end Tracking

/-! ## All keys -/

/-- A key with what tracking it finds out. -/
def DispatchKey.retracked (key : DispatchKey) (store : Store) (root : NodeId) : DispatchKey :=
  if key.isVisited || key.obstacle.isSome then key
  else
    match Tracking.track store root key with
    | .ok tracked => { key with histogram := tracked.histogram, exits := tracked.exits }
    | .error obstacle => { key with obstacle := some obstacle }

namespace Findings

section Keys
variable {findings : Findings} {store : Store} {root : NodeId} {key : DispatchKey}
  {front back : List DispatchKey}

theorem name_retracked (key : DispatchKey) : (key.retracked store root).name = key.name := by
  unfold DispatchKey.retracked
  split
  · rfl
  · split <;> rfl

/-- Where each name is that of one key, changing the key of a name changes that key only. -/
theorem keys_updateKey (listed : findings.keys = front ++ key :: back)
    (distinct : (findings.keys.map DispatchKey.name).Nodup) (change : DispatchKey → DispatchKey) :
    (findings.updateKey key.name change).keys = front ++ change key :: back := by
  rw [listed, List.map_append, List.map_cons, List.nodup_middle, List.nodup_cons] at distinct
  have others : ∀ other ∈ front ++ back, (if other.name == key.name then change other else other) = other := by
    intro other member
    refine if_neg fun same => distinct.1 ?_
    rw [← eq_of_beq same, ← List.map_append]
    exact List.mem_map_of_mem member
  rw [List.forall_mem_append] at others
  rw [updateKey, listed, List.map_append, List.map_cons, List.map_congr_left others.1,
    List.map_congr_left others.2, List.map_id', List.map_id', beq_self_eq_true, if_pos rfl]

theorem keys_trackKey (listed : findings.keys = front ++ key :: back)
    (distinct : (findings.keys.map DispatchKey.name).Nodup) :
    (findings.trackKey store root key).keys = front ++ key.retracked store root :: back := by
  unfold trackKey DispatchKey.retracked
  split
  · exact listed
  · cases Tracking.track store root key with
    | ok tracked => exact keys_updateKey listed distinct _
    | error obstacle => exact keys_updateKey listed distinct _

theorem keys_foldl_trackKey (listed : findings.keys = front ++ back)
    (distinct : (findings.keys.map DispatchKey.name).Nodup) :
    (back.foldl (trackKey store root) findings).keys =
      front ++ back.map fun key => key.retracked store root := by
  induction back generalizing findings front with
  | nil => exact listed
  | cons key rest ih =>
    have after : (findings.trackKey store root key).keys = _ := keys_trackKey listed distinct
    rw [List.foldl_cons, @ih _ (front ++ [key.retracked store root]), List.map_cons,
      List.append_assoc, List.singleton_append]
    · rw [after, List.append_assoc, List.singleton_append]
    · rw [listed] at distinct
      rw [after]
      simpa [name_retracked] using distinct

/-- Each key is tracked by itself. -/
theorem keys_trackKeys (distinct : (findings.keys.map DispatchKey.name).Nodup) :
    (findings.trackKeys store root).keys = findings.keys.map fun key => key.retracked store root := by
  rw [trackKeys, keys_foldl_trackKey (List.nil_append _).symm distinct, List.nil_append]

end Keys

/-- A key that is tracked and can be tracked has a histogram of the places that give it values. -/
theorem trackKeys_counts_sites {findings : Findings} {store : Store} {root : NodeId}
    (arena : store.IsArena root) (distinct : (findings.keys.map DispatchKey.name).Nodup) :
    ∀ key ∈ (findings.trackKeys store root).keys, key.isVisited = false → key.obstacle = none →
      let places (value : Int) :=
        (store.sites key.name value (key.dispatcher? store)).ncard + if value = key.start then 1 else 0
      (∀ value : Int, key.histogram[value]? =
          if places value = 0 then none else some (places value)) ∧
        (∀ value ∈ key.exits, value ∈ key.histogram) ∧ key.start ∉ key.exits := by
  intro key member unvisited clear
  rw [keys_trackKeys distinct] at member
  obtain ⟨before, -, rfl⟩ := List.mem_map.mp member
  unfold DispatchKey.retracked at unvisited clear ⊢
  split at unvisited
  · rename_i skipped
    rw [if_pos skipped] at clear
    simp [unvisited, clear] at skipped
  · rename_i open_
    rw [if_neg open_] at clear ⊢
    split at clear
    · rename_i tracked tracks
      exact Tracking.track_exact arena tracks
    · cases clear

/-! ## A value that nothing leads to any more -/

/-- `for (;;) { switch (s) { case 0: s = 1; break; case 1: if (t) { s = 0; break; } return; } }`. -/
def chained : Store := ⟨#[
  ⟨.file default [some 1], .none, 0, 0, none⟩,
  ⟨.loop .forLoop none none none (some 2), .none, 0, 0, some 0⟩,
  ⟨.block [some 3], .none, 0, 0, some 1⟩,
  ⟨.switch (some 4) [some 5, some 12], .none, 0, 0, some 2⟩,
  ⟨.identifier "s", .none, 0, 0, some 3⟩,
  ⟨.clause false (some 6) [some 7, some 11], .none, 0, 0, some 3⟩,
  ⟨.literal .number "0" (some 0.0), .none, 0, 0, some 5⟩,
  ⟨.expressionStatement (some 8), .none, 0, 0, some 5⟩,
  ⟨.binary (some 9) .equals (some 10), .none, 0, 0, some 7⟩,
  ⟨.identifier "s", .none, 0, 0, some 8⟩,
  ⟨.literal .number "1" (some 1.0), .none, 0, 0, some 8⟩,
  ⟨.jump .breaks none, .none, 0, 0, some 5⟩,
  ⟨.clause false (some 13) [some 14, some 22], .none, 0, 0, some 3⟩,
  ⟨.literal .number "1" (some 1.0), .none, 0, 0, some 12⟩,
  ⟨.conditionalStatement (some 15) (some 16) none, .none, 0, 0, some 12⟩,
  ⟨.identifier "t", .none, 0, 0, some 14⟩,
  ⟨.block [some 17, some 21], .none, 0, 0, some 14⟩,
  ⟨.expressionStatement (some 18), .none, 0, 0, some 16⟩,
  ⟨.binary (some 19) .equals (some 20), .none, 0, 0, some 17⟩,
  ⟨.identifier "s", .none, 0, 0, some 18⟩,
  ⟨.literal .number "0" (some 0.0), .none, 0, 0, some 18⟩,
  ⟨.jump .breaks none, .none, 0, 0, some 16⟩,
  ⟨.exit .returns none, .none, 0, 0, some 12⟩]⟩

/-- The key of the loop, as it is found. -/
def chainedKey : DispatchKey := ⟨"s", 0, 1, none, 0, 0, [], ∅, [], none, false⟩

/-- What is known once the key has been found. -/
def chainedFindings : Findings := ⟨[], [chainedKey], Journal.empty⟩

theorem chained_isArena : chained.IsArena 0 :=
  ⟨@Store.isTree_of_isGrown _ 10 0 (by decide) (by decide), rfl,
    Store.hasTrueLinks_of_linksHold (by decide)⟩

/-- Two places give the key 0, its start among them, one gives it 1, and nothing gives it 2. -/
theorem chained_sites :
    chained.IsArena 0 ∧ (chainedFindings.keys.map DispatchKey.name).Nodup ∧
      ∃ key ∈ (chainedFindings.trackKeys chained 0).keys,
        (key.isVisited = false ∧ key.obstacle = none ∧ key.histogram.toList = [(0, 2), (1, 1)]) ∧
        (chained.sites "s" 0 (some 3)).ncard = 1 ∧ (chained.sites "s" 1 (some 3)).ncard = 1 ∧
        (chained.sites "s" 2 (some 3)).ncard = 0 := by
  have distinct : (chainedFindings.keys.map DispatchKey.name).Nodup := by decide
  refine ⟨chained_isArena, distinct, ?_⟩
  have member : chainedKey.retracked chained 0 ∈ (chainedFindings.trackKeys chained 0).keys := by
    rw [keys_trackKeys distinct]
    exact List.mem_singleton_self _
  generalize tracks : chainedKey.retracked chained 0 = key at member
  have found : key.isVisited = false ∧ key.obstacle = none ∧ key.histogram.toList = [(0, 2), (1, 1)] := by
    rw [← tracks]
    decide +kernel
  have known : key.name = "s" ∧ key.start = 0 ∧ key.dispatcher? chained = some 3 := by
    rw [← tracks]
    decide +kernel
  have entries : key.histogram[(0 : Int)]? = some 2 ∧ key.histogram[(1 : Int)]? = some 1 ∧
      key.histogram[(2 : Int)]? = none := by
    rw [← tracks]
    decide +kernel
  obtain ⟨zero, one, two⟩ := entries
  have counts := (trackKeys_counts_sites chained_isArena distinct key member found.1 found.2.1).1
  rw [known.1, known.2.1, known.2.2] at counts
  have places : ∀ {count places : Nat}, some count = (if places = 0 then none else some places) →
      places = count := by
    intro count places same
    split at same
    · cases same
    · exact (Option.some.inj same).symm
  refine ⟨key, member, found, ?_, ?_, ?_⟩
  · exact Nat.succ.inj (places (zero.symm.trans (counts 0)))
  · exact places (one.symm.trans (counts 1))
  · have none := two.symm.trans (counts 2)
    split at none
    · rename_i unplaced
      exact unplaced
    · cases none

/-- Merging takes the second case into the first.  The key has been taken on then and is not tracked
again, and it keeps a count of zero for a value that nothing gives it any more. -/
theorem merged_value_stays :
    let restored := restoreDispatchers chained 0 (chainedFindings.trackKeys chained 0)
    ∃ key ∈ (restored.2.1.trackKeys restored.1 0).keys, key.obstacle = none ∧
      restored.1.isAttached 0 (key.dispatcher? restored.1) = true ∧
      key.histogram[(1 : Int)]? = some 0 ∧
      (restored.1.sites key.name 1 (key.dispatcher? restored.1)).ncard = 0 ∧ key.start ≠ 1 := by
  intro restored
  have distinct : (restored.2.1.keys.map DispatchKey.name).Nodup := by decide +kernel
  have listed : (restored.2.1.trackKeys restored.1 0).keys =
      restored.2.1.keys.map fun key => key.retracked restored.1 0 := keys_trackKeys distinct
  have first : ∃ key ∈ restored.2.1.keys, key.isVisited = true ∧ key.obstacle = none ∧
      key.histogram[(1 : Int)]? = some 0 ∧ key.start ≠ 1 ∧ key.name = "s" ∧
      restored.1.isAttached 0 (key.dispatcher? restored.1) = true ∧
      ∀ statement ∈ restored.1.descendants (key.dispatcher? restored.1),
        (restored.1.assignment? (some statement)).isSome = true →
          restored.1.keyValue? (some statement) "s" = some 0 := by decide +kernel
  obtain ⟨key, member, visited, clear, none, start, named, attached, others⟩ := first
  have kept : key.retracked restored.1 0 = key := by
    rw [DispatchKey.retracked, visited, Bool.true_or, if_pos rfl]
  refine ⟨key, ?_, clear, attached, none, ?_, start⟩
  · rw [listed]
    exact List.mem_map.mpr ⟨key, member, kept⟩
  · rw [named]
    exact Store.ncard_sites_eq_zero fun statement below assigns =>
      ⟨0, by decide, others statement below assigns⟩

end Findings

end Unflatten
