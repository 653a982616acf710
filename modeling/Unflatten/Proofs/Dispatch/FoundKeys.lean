import Unflatten.Dispatch.Classify
import Unflatten.Proofs.Dispatch.Removing
import Unflatten.Proofs.Dispatch.TrackedKeys

/-! # The keys that are found

A key is taken down while its loop and its declaration stand in the program, and it can be taken on
once its loop has been found to have the form of a dispatch loop.  So what `Known` says of a key is
true from the start, and each pass that only edits the program keeps it so. -/

set_option autoImplicit false

namespace Unflatten

open Store

/-- The same key, of which other things may have been found out. -/
structure DispatchKey.Agrees (key other : DispatchKey) : Prop where
  name : other.name = key.name
  loop : other.loop = key.loop
  prelude : other.prelude = key.prelude
  place : other.place = key.place
  declaration : other.declaration = key.declaration

/-- What the findings say of keys is true, and there is one key of each name. -/
structure Findings.Hold (findings : Findings) (store : Store) (tree : Tree) : Prop where
  names : (findings.keys.map DispatchKey.name).Nodup
  known : ∀ key ∈ findings.keys, Known store tree key

section Known
variable {store : Store} {root id : NodeId} {tree : Tree} {key other : DispatchKey} {slot : Slot}

theorem DispatchKey.Agrees.refl (key : DispatchKey) : key.Agrees key := ⟨rfl, rfl, rfl, rfl, rfl⟩

theorem DispatchKey.Agrees.trans {last : DispatchKey} (first : key.Agrees other)
    (second : other.Agrees last) : key.Agrees last :=
  ⟨second.name.trans first.name, second.loop.trans first.loop, second.prelude.trans first.prelude,
    second.place.trans first.place, second.declaration.trans first.declaration⟩

theorem Known.agreeing (known : Known store tree key) (agrees : key.Agrees other)
    (framed : other.IsOpen → key.loop ∈ tree.names → ∀ prelude,
      key.prelude = none ∨ key.prelude = some prelude → store.IsFramed key.loop prelude) :
    Known store tree other := by
  obtain ⟨name, loop, declaration, prelude, start, place, children, histogram, exits, obstacle,
    isVisited⟩ := other
  obtain ⟨-, same, samePrelude, samePlace, sameDeclaration⟩ := agrees
  cases same
  cases samePrelude
  cases samePlace
  cases sameDeclaration
  exact ⟨known.loop, known.declaration, known.place, known.declares, framed, known.spent,
    known.emptied⟩

/-- A new key whose loop and declaration stand in the program. -/
theorem Store.Stands.known (stands : store.Stands root tree) (inside : key.loop ∈ tree.names)
    (declared : key.declaration ∈ tree.names) (place : key.place = key.prelude.toList.length)
    (declares : ∀ prelude, key.prelude = some prelude →
      store.kind? (some prelude) = some .variableStatement)
    (fresh : key.histogram.isEmpty = true) : Known store tree key where
  loop := stands.holds.lt_size inside
  declaration := stands.holds.lt_size declared
  place := place
  declares := declares
  framed isOpen := by
    have tracked := isOpen.2.2
    rw [fresh] at tracked
    cases tracked
  spent gone := absurd inside gone
  emptied _ linked gone := absurd (stands.parent_mem declared linked).1 gone

end Known

namespace Findings

namespace Hold

section Keys
variable {findings other : Findings} {store later : Store} {root : NodeId} {tree remade : Tree}
  {key : DispatchKey} {name : String} {change : DispatchKey → DispatchKey}

theorem empty : Findings.empty.Hold store tree := ⟨List.nodup_nil, List.forall_mem_nil _⟩

theorem proceeds (hold : findings.Hold store tree) (proceeds : Proceeds store later root tree remade) :
    findings.Hold later remade :=
  ⟨hold.names, fun key member => proceeds.known (hold.known key member)⟩

theorem of_keys (hold : findings.Hold store tree) (same : other.keys = findings.keys) :
    other.Hold store tree := by
  constructor
  · rw [same]
    exact hold.names
  · rw [same]
    exact hold.known

/-- Things are found out about the key of a name. -/
theorem updateKey (hold : findings.Hold store tree) (agrees : ∀ key, DispatchKey.Agrees key (change key))
    (framed : ∀ key ∈ findings.keys, key.name = name → (change key).IsOpen → key.loop ∈ tree.names →
      ∀ prelude, key.prelude = none ∨ key.prelude = some prelude → store.IsFramed key.loop prelude) :
    (findings.updateKey name change).Hold store tree := by
  constructor
  · have same : (findings.updateKey name change).keys.map DispatchKey.name =
        findings.keys.map DispatchKey.name := by
      rw [Findings.updateKey, List.map_map]
      refine List.map_congr_left fun key _ => ?_
      rw [Function.comp_apply]
      split
      · exact (agrees key).name
      · rfl
    rw [same]
    exact hold.names
  · intro changed member
    obtain ⟨key, inside, rfl⟩ := List.mem_map.mp member
    split
    · rename_i named
      exact (hold.known key inside).agreeing (agrees key) (framed key inside (eq_of_beq named))
    · exact hold.known key inside

/-- A key is added unless there is one of its name. -/
theorem addKey (hold : findings.Hold store tree) (known : Known store tree key) :
    (findings.addKey store key).Hold store tree := by
  unfold Findings.addKey
  split
  · exact hold
  · rename_i absent
    simp only
    constructor
    · rw [List.map_append, List.map_singleton]
      refine List.nodup_append.mpr ⟨hold.names, List.nodup_singleton _, fun taken among new same => ?_⟩
      obtain ⟨older, member, rfl⟩ := List.mem_map.mp among
      cases List.mem_singleton.mp same
      rintro equal
      refine absent (List.find?_isSome.mpr ⟨older, member, ?_⟩)
      exact beq_iff_eq.mpr equal
    · intro other member
      rcases List.mem_append.mp member with old | new
      · exact hold.known other old
      · cases List.mem_singleton.mp new
        exact known

end Keys

end Hold

/-! ## Taking keys down -/

section Classify
variable {findings : Findings} {store : Store} {root id : NodeId} {tree : Tree} {key : DispatchKey}
  {bindings : Bindings} {name : String} {slot : Slot}

theorem climb_mem (stands : store.Stands root tree) {test : NodeId → Bool} {steps : Nat}
    (inside : ∀ start, slot = some start → start ∈ tree.names)
    (found : store.climb test steps slot = some id) : id ∈ tree.names := by
  induction steps generalizing slot with
  | zero => cases found
  | succ steps ih =>
    cases slot with
    | none => cases found
    | some start =>
      rw [climb] at found
      split at found
      · cases found
        exact inside id rfl
      · exact ih (fun above linked => (stands.parent_mem (inside start rfl) linked).1) found

theorem headDeclarations?_mem (stands : store.Stands root tree) {loop declaration : NodeId}
    {declarations : List Slot} (inside : loop ∈ tree.names)
    (head : store.headDeclarations? loop = some declarations)
    (listed : some declaration ∈ declarations) : declaration ∈ tree.names := by
  unfold headDeclarations? at head
  split at head
  · rename_i initializer _ _ _ shaped
    split at head
    · rename_i found
      cases head
      cases initializer with
      | none => cases found
      | some list =>
        have there := (stands.holds.slot_mem inside shaped List.mem_cons_self).1
        exact (stands.holds.slot_mem there found listed).1
    · cases head
  · cases head

/-- The key of a masked declaration. -/
theorem masked?_known (stands : store.Stands root tree) (inside : id ∈ tree.names) {masked : Masked}
    (reads : masked? store bindings id = some masked) : Known store tree masked.key := by
  unfold masked? at reads
  split at reads
  · rename_i nameSlot initializer _
    obtain ⟨name, -, reads⟩ := Option.bind_eq_some_iff.mp reads
    obtain ⟨⟨mask, operand⟩, -, reads⟩ := Option.bind_eq_some_iff.mp reads
    obtain ⟨loop, around, reads⟩ := Option.bind_eq_some_iff.mp reads
    obtain ⟨declarations, head, reads⟩ := Option.bind_eq_some_iff.mp reads
    obtain ⟨first, isFirst, reads⟩ := Option.bind_eq_some_iff.mp reads
    obtain ⟨declaration, isSome, reads⟩ := Option.bind_eq_some_iff.mp reads
    obtain ⟨⟨keyName, start⟩, -, reads⟩ := Option.bind_eq_some_iff.mp reads
    simp only [Option.ite_none_right_eq_some, Option.some_inj, Bool.and_eq_true] at reads
    obtain ⟨⟨-, kind⟩, rfl⟩ := reads
    have kind := eq_of_beq kind
    have loopInside : loop ∈ tree.names := by
      unfold enclosingFor? at around
      simp only at around
      split at around
      · refine climb_mem stands (fun start above => ?_) around
        cases linked : store.parent (some id) with
        | none =>
          rw [linked] at above
          cases above
        | some statement =>
          rw [linked] at above
          exact (stands.parent_mem (stands.parent_mem inside linked).1 above).1
      · cases around
    refine stands.known loopInside
      (headDeclarations?_mem stands loopInside head (isSome ▸ List.mem_of_mem_head? isFirst)) ?_ ?_
      rfl
    · cases linked : store.parent (some id) with
      | none =>
        rw [linked] at kind
        cases kind
      | some statement =>
        simp only [newKey]
        rfl
    · intro prelude given
      simp only [newKey] at given
      rw [← given]
      exact kind
  · cases reads

/-- The declaration of the key of a direct loop. -/
theorem directDeclaration?_mem (stands : store.Stands root tree) (inside : id ∈ tree.names)
    {start : Int} {declaration : NodeId}
    (declares : directDeclaration? store id name = some (start, declaration)) :
    declaration ∈ tree.names := by
  have of_named : ∀ {slot : Slot} {result : Int × NodeId},
      (slot.bind fun id => (store.numericDeclaration? slot).bind fun declared =>
        if declared.1 == name then some (declared.2, id) else none) = some result →
      slot = some result.2 := by
    intro slot result named
    obtain ⟨other, isSome, named⟩ := Option.bind_eq_some_iff.mp named
    obtain ⟨⟨found, start⟩, -, named⟩ := Option.bind_eq_some_iff.mp named
    simp only [Option.ite_none_right_eq_some, Option.some_inj] at named
    rw [isSome, ← named.2]
  unfold directDeclaration? at declares
  simp only at declares
  split at declares
  · obtain ⟨declarations, head, found⟩ := Option.bind_eq_some_iff.mp declares
    obtain ⟨slot, member, named⟩ := List.exists_of_findSome?_eq_some found
    cases of_named named
    exact headDeclarations?_mem stands inside head member
  · split at declares
    · rename_i container place position
      split at declares
      · rename_i slot shaped
        cases of_named declares
        obtain ⟨linked, outer, slots, found, has, -⟩ := mem_of_position? position
        have above := (stands.parent_mem inside linked).1
        have listed := shaped
        rw [statements?, found, Option.bind_some, has, Option.getD_some] at listed
        cases before : (slots[place]?).join with
        | none =>
          rw [before] at listed
          cases listed
        | some statement =>
          rw [before] at listed
          have among : some statement ∈ slots :=
            List.mem_of_getElem? (Option.join_eq_some_iff.mp before)
          have there :=
            (stands.holds.slot_mem above found (Shape.statements?_subset has among)).1
          exact (stands.holds.slot_mem there listed (List.mem_singleton_self _)).1
      · cases declares
    · cases declares
  · cases declares

/-- The key of a direct loop. -/
theorem direct?_known (stands : store.Stands root tree) (inside : id ∈ tree.names)
    (reads : direct? store bindings id = some key) : Known store tree key := by
  unfold direct? at reads
  split at reads
  · obtain ⟨discriminant?, -, reads⟩ := Option.bind_eq_some_iff.mp reads
    obtain ⟨discriminant, -, reads⟩ := Option.bind_eq_some_iff.mp reads
    obtain ⟨name, -, reads⟩ := Option.bind_eq_some_iff.mp reads
    obtain ⟨⟨start, declaration⟩, declares, reads⟩ := Option.bind_eq_some_iff.mp reads
    obtain ⟨symbol, -, reads⟩ := Option.bind_eq_some_iff.mp reads
    simp only [Option.ite_none_right_eq_some, Option.some_inj] at reads
    obtain ⟨-, rfl⟩ := reads
    exact stands.known inside (directDeclaration?_mem stands inside declares) rfl
      (fun prelude given => by cases given) rfl
  · cases reads

theorem addMasked_hold (hold : findings.Hold store tree) {masked : Masked}
    (known : Known store tree masked.key) : (findings.addMasked store masked).Hold store tree := by
  unfold addMasked
  simp only
  split
  · exact hold
  · have noted (parts : List DispatchVariable) (journal : Journal) :
        (Findings.mk parts findings.keys journal).Hold store tree := hold.of_keys rfl
    have added := fun journal => (noted (findings.parts ++ [masked.part]) journal).addKey known
    refine (added _).updateKey (fun key => ?_) fun key member _ isOpen inside => ?_
    · split
      · exact .refl key
      · exact ⟨rfl, rfl, rfl, rfl, rfl⟩
    · refine ((added _).known key member).framed ?_ inside
      split at isOpen <;> exact isOpen

/-- What classification takes down is true. -/
theorem classify_hold (stands : store.Stands root tree) (hold : findings.Hold store tree) :
    (findings.classify store root).Hold store tree := by
  have inTree : ∀ id ∈ store.descendants (some root), id ∈ tree.names := fun _ =>
    stands.mem_descendants.mp
  unfold classify
  generalize store.descendants (some root) = ids at inTree
  induction ids generalizing findings with
  | nil => exact hold
  | cons id rest ih =>
    rw [List.foldl_cons]
    refine ih ?_ fun other member => inTree other (List.mem_cons_of_mem _ member)
    have inside := inTree id List.mem_cons_self
    unfold classifyNode
    split
    · cases reads : masked? store (Bindings.of store root) id with
      | none => exact hold
      | some masked => exact addMasked_hold hold (masked?_known stands inside reads)
    · cases reads : direct? store (Bindings.of store root) id with
      | none => exact hold
      | some key => exact Hold.addKey hold (direct?_known stands inside reads)
    · exact hold

end Classify

/-! ## Tracking keys -/

section Track
variable {findings : Findings} {store : Store} {root : NodeId} {tree : Tree} {key : DispatchKey}

/-- The body of a loop that has a frame. -/
theorem frame_body {frame : Tracking.Frame} (framed : Tracking.frame store root key = .ok frame) :
    store.isAttached root (some key.loop) = true ∧
      ∃ dispatcher, store.loopBody key.loop = key.prelude.toList.map some ++ [dispatcher] := by
  unfold Tracking.frame at framed
  obtain ⟨attached, framed⟩ := Tracking.of_checked framed
  refine ⟨by simpa using attached, ?_⟩
  split at framed
  · obtain ⟨_, framed⟩ := Tracking.of_checked framed
    simp only at framed
    obtain ⟨expected, _⟩ := Tracking.of_checked framed
    match given : key.prelude, listed : store.loopBody key.loop with
    | some prelude, [first, second] =>
      simp only [given, listed, Bool.not_eq_true', Bool.not_eq_false] at expected
      exact ⟨second, by rw [eq_of_beq expected]; rfl⟩
    | none, [dispatcher] => exact ⟨dispatcher, rfl⟩
    | some _, [] | some _, [_] | some _, _ :: _ :: _ :: _ | none, [] | none, _ :: _ :: _ =>
      simp [given, listed] at expected
  · cases framed

/-- The loop of a key with a frame is framed. -/
theorem isFramed_of_frame {frame : Tracking.Frame} (stands : store.Stands root tree)
    (known : Known store tree key) (framed : Tracking.frame store root key = .ok frame)
    (prelude : NodeId) (given : key.prelude = none ∨ key.prelude = some prelude) :
    store.IsFramed key.loop prelude := by
  obtain ⟨-, dispatcher, listed⟩ := frame_body framed
  obtain ⟨kind, initializer, incrementor, slot, shaped, -, -, same, selects, -⟩ :=
    Tracking.frame_spec framed
  have found : (store.statements? slot).getD [] = key.prelude.toList.map some ++ [dispatcher] := by
    rw [loopBody, shaped] at listed
    exact listed
  rw [same, DispatchKey.dispatcher?, listed, known.place] at selects
  have isDispatcher : store.isSwitch dispatcher = true := by
    rw [List.getElem?_append_right (by simp)] at selects
    simpa using selects
  cases has : store.statements? slot with
  | none =>
    rw [has] at found
    simp at found
  | some slots =>
    rw [has, Option.getD_some] at found
    cases slot with
    | none => cases has
    | some body =>
      obtain ⟨outer, there, statements⟩ := Option.bind_eq_some_iff.mp has
      have isBody := (stands.tidy key.loop _ shaped).body body (List.mem_singleton_self _)
      rw [satisfies, there, Option.any_some] at isBody
      have block := Shape.isBlock_of_isBody isBody (by rw [Shape.isContainer, statements]; rfl)
      cases outer with
      | block listedSlots =>
        cases statements
        refine ⟨body, ⟨kind, initializer, frame.condition, incrementor, shaped⟩, slots, there,
          fun statement member => ?_, ?_⟩
        · have steady : ∀ shape, store.kind? statement = some .variableStatement ∨
              store.kind? statement = some .switchStatement →
              store.shape? statement = some shape → shape.isSteady = true := by
            intro shape kinds shapes
            rw [kind?, shapes, Option.map_some, Option.some_inj, Option.some_inj] at kinds
            exact (isSteady_iff shape).mpr kinds
          have kinds : store.kind? statement = some .variableStatement ∨
              store.kind? statement = some .switchStatement := by
            rw [found, List.mem_append, List.mem_singleton] at member
            rcases member with among | rfl
            · obtain ⟨other, isPrelude, rfl⟩ := List.mem_map.mp among
              exact .inl (known.declares other (Option.mem_toList.mp isPrelude))
            · exact .inr (isSwitch_iff.mp isDispatcher)
          cases shapes : store.shape? statement with
          | none =>
            rw [kind?, shapes] at kinds
            rcases kinds with kind | kind <;> cases kind
          | some shape =>
            rw [satisfies, shapes, Option.any_some]
            exact steady shape kinds shapes
        · rcases given with none | some
          · rw [found, none]
            exact .inl (Nat.le_refl 1)
          · rw [found, some]
            exact .inr ⟨dispatcher, rfl, known.declares prelude some⟩
      | _ => cases block

/-- The loop of a key that is tracked is framed. -/
theorem isFramed_of_track {tracked : Tracking.Tracked} (stands : store.Stands root tree)
    (known : Known store tree key) (tracks : Tracking.track store root key = .ok tracked)
    (prelude : NodeId) (given : key.prelude = none ∨ key.prelude = some prelude) :
    store.IsFramed key.loop prelude := by
  obtain ⟨frame, framed, -⟩ := Tracking.track_spec tracks
  exact isFramed_of_frame stands known framed prelude given

/-- Tracking a key finds out something about it, and opens it only if it can be tracked. -/
theorem trackKey_cases (findings : Findings) (store : Store) (root : NodeId) (key : DispatchKey) :
    findings.trackKey store root key = findings ∨ ∃ change remark,
      findings.trackKey store root key = (findings.updateKey key.name change).note store remark ∧
        (∀ other, DispatchKey.Agrees other (change other)) ∧
        ∀ other, (change other).IsOpen → ∃ tracked, Tracking.track store root key = .ok tracked := by
  unfold trackKey
  split
  · exact .inl rfl
  · split
    · rename_i tracked tracks
      exact .inr ⟨_, _, rfl, fun _ => ⟨rfl, rfl, rfl, rfl, rfl⟩, fun _ _ => ⟨tracked, tracks⟩⟩
    · exact .inr ⟨_, _, rfl, fun _ => ⟨rfl, rfl, rfl, rfl, rfl⟩, fun _ isOpen => by cases isOpen.2.1⟩

theorem trackKey_hold (stands : store.Stands root tree) (hold : findings.Hold store tree)
    (known : Known store tree key)
    (agrees : ∀ other ∈ findings.keys, other.name = key.name → key.Agrees other) :
    (findings.trackKey store root key).Hold store tree := by
  rcases trackKey_cases findings store root key with same | ⟨change, remark, result, still, opens⟩
  · rw [same]
    exact hold
  · rw [result]
    have updated : (findings.updateKey key.name change).Hold store tree := by
      refine hold.updateKey still fun other member named isOpen _ prelude given => ?_
      obtain ⟨tracked, tracks⟩ := opens other isOpen
      have same := agrees other member named
      rw [same.loop]
      rw [same.prelude] at given
      exact isFramed_of_track stands known tracks prelude given
    exact updated.of_keys rfl

/-- The keys are the same after one has been tracked. -/
theorem trackKey_agrees (findings : Findings) (key : DispatchKey) {other : DispatchKey}
    (member : other ∈ (findings.trackKey store root key).keys) :
    ∃ before ∈ findings.keys, DispatchKey.Agrees before other := by
  rcases trackKey_cases findings store root key with same | ⟨change, remark, result, still, -⟩
  · rw [same] at member
    exact ⟨other, member, .refl other⟩
  · rw [result] at member
    obtain ⟨before, inside, rfl⟩ := List.mem_map.mp member
    refine ⟨before, inside, ?_⟩
    split
    · exact still before
    · exact .refl before

theorem foldl_trackKey_hold (keys : List DispatchKey) (stands : store.Stands root tree)
    (hold : findings.Hold store tree) (known : ∀ key ∈ keys, Known store tree key)
    (agrees : ∀ key ∈ keys, ∀ other ∈ findings.keys, other.name = key.name → key.Agrees other) :
    (keys.foldl (trackKey store root) findings).Hold store tree := by
  induction keys generalizing findings with
  | nil => exact hold
  | cons key rest ih =>
    refine ih (trackKey_hold stands hold (known key List.mem_cons_self)
      (agrees key List.mem_cons_self)) (fun other member => known other (List.mem_cons_of_mem _ member))
      fun later member other among named => ?_
    obtain ⟨before, inside, same⟩ := trackKey_agrees findings key among
    exact (agrees later (List.mem_cons_of_mem _ member) before inside
      (same.name.symm.trans named)).trans same

/-- What tracking finds out about the keys is true. -/
theorem trackKeys_hold (stands : store.Stands root tree) (hold : findings.Hold store tree) :
    (findings.trackKeys store root).Hold store tree := by
  refine foldl_trackKey_hold findings.keys stands hold hold.known fun key member other among same => ?_
  rw [List.inj_on_of_nodup_map hold.names among member same]
  exact .refl key

end Track

end Findings

end Unflatten
