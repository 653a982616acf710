import Unflatten.Proofs.Parser.Labels
import Unflatten.Proofs.Syntax.Escaping
import Unflatten.Proofs.Syntax.Walking

/-! # The jumps that leave some statements

The search for jumps carries two marks down, whether it has come through a loop and whether it has
come through a `switch`.  At a node the marks tell what stands on the way to it: in a tree there is
one way, so what stands between the root and the node (`Store.IsBetween`) is what the search came
through.  The list therefore holds the jumps whose target lies outside, and no others
(`Store.escapingJumps_exact`). -/

set_option autoImplicit false

namespace Unflatten

/-- A shape below which nothing is looked for. -/
def Shape.isSealed (shape : Shape) : Bool := !shape.isSearched

namespace Store

/-- A node stands under a slot and above another node.  The node of the slot itself is such a one. -/
def IsBetween (store : Store) (root : Slot) (id above : NodeId) : Prop :=
  store.IsUnder root above ∧ store.LeadsDown above id ∧ above ≠ id

/-- On the way from a slot to a node stands one of some sort. -/
def Passes (store : Store) (root : Slot) (id : NodeId) (test : Shape → Bool) : Prop :=
  ∃ above, store.IsBetween root id above ∧ store.satisfies (some above) test = true

/-- A `break` with a label, or in no loop and no `switch`; or a `continue`, if those are asked for,
with a label or in no loop. -/
def Leaves (store : Store) (withContinue : Bool) (jump : NodeId) (inLoop inSwitch : Prop) : Prop :=
  match store.shape? (some jump) with
  | some (.jump .breaks label) => label.isSome = true ∨ ¬inLoop ∧ ¬inSwitch
  | some (.jump .continues label) => withContinue = true ∧ (label.isSome = true ∨ ¬inLoop)
  | _ => False

/-- The search gets from a slot to a jump under it, and the jump leaves all that the search came
through: what the marks at the slot stand for and what is on the way. -/
def IsOutward (store : Store) (withContinue inLoop inSwitch : Bool) (root : Slot) (jump : NodeId) : Prop :=
  ¬store.Passes root jump Shape.isSealed ∧
    store.Leaves withContinue jump (inLoop = true ∨ store.Passes root jump Shape.isLoop)
      (inSwitch = true ∨ store.Passes root jump Shape.selects)

/-- Under each of some slots the nodes are a tree, and no two of the trees share a node. -/
structure IsForest (store : Store) (roots : List Slot) : Prop where
  branches : ∀ root ∈ roots, store.Branches root
  apart : roots.Pairwise fun first second => ∀ id, ¬(store.IsUnder first id ∧ store.IsUnder second id)

section Between
variable {store : Store} {root : Slot} {id child jump above : NodeId} {test : Shape → Bool}

theorem Branches.antisymm (branches : store.Branches root) (under : store.IsUnder root id)
    (leads : store.LeadsDown id above) (back : store.LeadsDown above id) : above = id := by
  rcases leads.cases_head with same | ⟨child, member, way⟩
  · exact same.symm
  · exact absurd (way.trans back) (branches.acyclic under member)

theorem Branches.not_passes_self (branches : store.Branches root) (under : store.IsUnder root id) :
    ¬store.Passes (some id) id test := by
  rintro ⟨above, ⟨leads, back, apart⟩, -⟩
  exact apart (branches.antisymm under (isUnder_some.mp leads) back)

theorem Passes.imp {other : Shape → Bool} (passes : store.Passes root jump test)
    (weaker : ∀ shape, test shape = true → other shape = true) : store.Passes root jump other := by
  obtain ⟨above, between, holds⟩ := passes
  rw [satisfies, Option.any_eq_true] at holds
  obtain ⟨shape, found, holds⟩ := holds
  exact ⟨above, between, by rw [satisfies, found, Option.any_some, weaker shape holds]⟩

/-- The way to a node below a child comes through the node itself and then through the child. -/
theorem Branches.passes_iff (branches : store.Branches root) (under : store.IsUnder root id)
    (member : child ∈ store.children id) (way : store.LeadsDown child jump) :
    store.Passes (some id) jump test ↔
      store.satisfies (some id) test = true ∨ store.Passes (some child) jump test := by
  constructor
  · rintro ⟨above, ⟨leads, down, apart⟩, passes⟩
    rcases (isUnder_some.mp leads).cases_head with rfl | ⟨other, listed, wayThere⟩
    · exact .inl passes
    · cases branches.siblings under member listed way (wayThere.trans down)
      exact .inr ⟨above, ⟨isUnder_some.mpr wayThere, down, apart⟩, passes⟩
  · rintro (passes | ⟨above, ⟨leads, down, apart⟩, passes⟩)
    · refine ⟨id, ⟨isUnder_some.mpr .refl, .head member way, ?_⟩, passes⟩
      rintro rfl
      exact branches.acyclic under member way
    · exact ⟨above, ⟨isUnder_some.mpr (.head member (isUnder_some.mp leads)), down, apart⟩, passes⟩

end Between

/-! ## One step of the search -/

section Search
variable {store : Store} {root : Slot} {depth : Nat} {id child jump : NodeId} {shape : Shape}
  {withContinue inLoop inSwitch : Bool}

/-- Either the children of a node are searched next, or nothing is. -/
theorem outward_cases (store : Store) (withContinue : Bool) (site : Site) :
    (∃ shape, store.shape? (some site.id) = some shape ∧ shape.isSearched = true ∧
      (store.outward withContinue).found? site = none ∧
      (store.outward withContinue).next site = (store.children site.id).reverse.map
        (⟨·, site.inLoop || shape.isLoop, site.inSwitch || shape.selects⟩)) ∨
    (∀ shape, store.shape? (some site.id) = some shape → shape.isSearched = false) ∧
      (store.outward withContinue).next site = [] := by
  unfold outward children
  dsimp only
  cases found : store.shape? (some site.id) with
  | none => exact .inr ⟨fun shape impossible => (nomatch impossible), rfl⟩
  | some shape =>
    cases shape
    case function => exact .inr ⟨fun shape same => by cases same; rfl, rfl⟩
    case jump => exact .inr ⟨fun shape same => by cases same; rfl, rfl⟩
    all_goals exact .inl ⟨_, rfl, rfl, rfl, rfl⟩

/-- The search lists a node if it is a jump that leaves all that was come through. -/
theorem mem_found? : jump ∈ ((store.outward withContinue).found? ⟨id, inLoop, inSwitch⟩).toList ↔
    jump = id ∧ store.Leaves withContinue id (inLoop = true) (inSwitch = true) := by
  unfold outward Leaves
  dsimp only
  cases store.shape? (some id) with
  | none => simp
  | some shape =>
    cases shape
    case jump kind label =>
      cases kind <;> cases inLoop <;> cases inSwitch <;> cases withContinue <;> cases label <;> simp
    all_goals simp

theorem jumpsBelow_succ : store.jumpsBelow withContinue (depth + 1) inLoop inSwitch id =
    ((store.outward withContinue).found? ⟨id, inLoop, inSwitch⟩).toList ++
      ((store.outward withContinue).next ⟨id, inLoop, inSwitch⟩).flatMap fun site =>
        store.jumpsBelow withContinue depth site.inLoop site.inSwitch site.id := by
  rcases outward_cases store withContinue ⟨id, inLoop, inSwitch⟩ with
    ⟨shape, found, searched, nothing, next⟩ | ⟨sealed, next⟩
  · rw [jumpsBelow_searched found searched, nothing, next, List.flatMap_map, children, found]
    rfl
  · rw [next, List.flatMap_nil, List.append_nil, jumpsBelow]
    unfold outward
    dsimp only
    cases found : store.shape? (some id) with
    | none => rfl
    | some shape =>
      cases shape
      case function => rfl
      case jump kind label => cases kind <;> dsimp only <;> split <;> rfl
      all_goals cases sealed _ found

/-- The search goes on at children only. -/
theorem mem_children_of_next {site next : Site}
    (member : next ∈ (store.outward withContinue).next site) : next.id ∈ store.children site.id := by
  rcases outward_cases store withContinue site with ⟨shape, -, -, -, listed⟩ | ⟨-, listed⟩
  · rw [listed, List.mem_map] at member
    obtain ⟨child, among, rfl⟩ := member
    exact List.mem_reverse.mp among
  · rw [listed] at member
    cases member

theorem EndsWithin.finds_outward (ends : store.EndsWithin depth id) (inLoop inSwitch : Bool) :
    (store.outward withContinue).Finds [⟨id, inLoop, inSwitch⟩]
      (store.jumpsBelow withContinue depth inLoop inSwitch id) := by
  induction ends generalizing inLoop inSwitch with
  | @node depth id _ ih =>
    rw [jumpsBelow_succ]
    exact (Walk.finds_flatMap fun site member =>
      ih site.id (mem_children_of_next member) site.inLoop site.inSwitch).single

/-! ## What the search finds in a tree -/

/-- At a child the marks stand for one node more, which is no longer on the way. -/
theorem Branches.isOutward_child (branches : store.Branches root) (under : store.IsUnder root id)
    (found : store.shape? (some id) = some shape) (searched : shape.isSearched = true)
    (member : child ∈ store.children id) (way : store.LeadsDown child jump) :
    store.IsOutward withContinue (inLoop || shape.isLoop) (inSwitch || shape.selects) (some child) jump ↔
      store.IsOutward withContinue inLoop inSwitch (some id) jump := by
  have onTheWay : ∀ test, store.Passes (some id) jump test ↔
      test shape = true ∨ store.Passes (some child) jump test := by
    intro test
    rw [branches.passes_iff under member way, satisfies, found, Option.any_some]
  simp only [IsOutward, onTheWay, Bool.or_eq_true, or_assoc, Shape.isSealed, searched, Bool.not_true,
    Bool.false_eq_true, false_or]

/-- Below a jump or a function nothing is come to. -/
theorem Branches.not_isOutward (branches : store.Branches root) (under : store.IsUnder root id)
    (sealed : ∀ shape, store.shape? (some id) = some shape → shape.isSearched = false)
    (member : child ∈ store.children id) (way : store.LeadsDown child jump) :
    ¬store.IsOutward withContinue inLoop inSwitch (some id) jump := by
  rintro ⟨free, -⟩
  obtain ⟨shape, found⟩ := exists_shape_of_child member
  refine free ((branches.passes_iff under member way).mpr (.inl ?_))
  rw [satisfies, found, Option.any_some, Shape.isSealed, sealed shape found]
  rfl

/-- The search below a node finds the jumps that it gets to and that leave. -/
theorem Branches.mem_jumpsBelow (branches : store.Branches root) (under : store.IsUnder root id)
    (ends : store.EndsWithin depth id) (inLoop inSwitch : Bool) :
    jump ∈ store.jumpsBelow withContinue depth inLoop inSwitch id ↔
      store.LeadsDown id jump ∧ store.IsOutward withContinue inLoop inSwitch (some id) jump := by
  induction ends generalizing inLoop inSwitch with
  | @node depth id below ih =>
    rw [jumpsBelow_succ, List.mem_append, List.mem_flatMap, mem_found?]
    by_cases same : jump = id
    · subst same
      -- no way down from the node comes back to it
      have nowhere : ¬∃ site ∈ (store.outward withContinue).next ⟨jump, inLoop, inSwitch⟩,
          jump ∈ store.jumpsBelow withContinue depth site.inLoop site.inSwitch site.id := by
        rintro ⟨site, listed, there⟩
        have member := mem_children_of_next listed
        have back := (ih site.id member (under.toChild member) site.inLoop site.inSwitch).mp there
        exact branches.acyclic under member back.1
      have here : store.LeadsDown jump jump := .refl
      simp only [nowhere, here, IsOutward, branches.not_passes_self under, or_false, true_and,
        not_false_eq_true]
    · have lower : store.LeadsDown id jump ↔ ∃ child ∈ store.children id, store.LeadsDown child jump :=
        ⟨fun leads => leads.cases_head.resolve_left fun here => same here.symm,
          fun ⟨child, member, way⟩ => .head member way⟩
      rw [lower]
      rcases outward_cases store withContinue ⟨id, inLoop, inSwitch⟩ with
        ⟨shape, found, searched, -, next⟩ | ⟨sealed, next⟩
      · simp only [same, false_and, false_or, next, List.mem_map, List.mem_reverse,
          exists_exists_and_eq_and]
        constructor
        · rintro ⟨child, member, there⟩
          obtain ⟨way, outward⟩ := (ih child member (under.toChild member) _ _).mp there
          exact ⟨⟨child, member, way⟩,
            (branches.isOutward_child under found searched member way).mp outward⟩
        · rintro ⟨⟨child, member, way⟩, outward⟩
          exact ⟨child, member, (ih child member (under.toChild member) _ _).mpr
            ⟨way, (branches.isOutward_child under found searched member way).mpr outward⟩⟩
      · simp only [same, false_and, false_or, next, List.not_mem_nil, exists_false, false_iff, not_and]
        rintro ⟨child, member, way⟩
        exact branches.not_isOutward under sealed member way

/-- The search comes to each node once. -/
theorem Branches.nodup_jumpsBelow (branches : store.Branches root) (under : store.IsUnder root id)
    (ends : store.EndsWithin depth id) (inLoop inSwitch : Bool) :
    (store.jumpsBelow withContinue depth inLoop inSwitch id).Nodup := by
  induction ends generalizing inLoop inSwitch with
  | @node depth id below ih =>
    rw [jumpsBelow_succ]
    rcases outward_cases store withContinue ⟨id, inLoop, inSwitch⟩ with
      ⟨shape, found, searched, nothing, next⟩ | ⟨sealed, next⟩
    · rw [nothing, next, List.flatMap_map, Option.toList_none, List.nil_append]
      refine ((List.reverse_perm _).flatMap_right _).nodup_iff.mpr (branches.nodup_flatMap under ?_ ?_)
      · exact fun child member => ih child member (under.toChild member) _ _
      · intro child member other there
        exact ((branches.mem_jumpsBelow (under.toChild member) (below child member) _ _).mp there).1
    · rw [next, List.flatMap_nil, List.append_nil]
      cases (store.outward withContinue).found? ⟨id, inLoop, inSwitch⟩ with
      | none => exact List.nodup_nil
      | some found => exact List.nodup_singleton found

end Search

/-! ## The jumps below some statements -/

section Roots
variable {store : Store} {root : Slot} {roots : List Slot} {id child jump : NodeId}
  {kind : JumpKind} {label : Slot} {withContinue : Bool}

theorem Branches.below (branches : store.Branches root) (under : store.IsUnder root id) :
    store.Branches (some id) := by
  have inside : ∀ other, store.IsUnder (some id) other → store.IsUnder root other :=
    fun other deeper => under.leads (isUnder_some.mp deeper)
  refine ⟨fun other deeper child member same => ?_, fun first second child one two => ?_,
    fun other deeper => branches.once other (inside other deeper)⟩
  · cases same
    exact branches.acyclic (inside other deeper) member (isUnder_some.mp deeper)
  · exact branches.parent first second child (inside first one) (inside second two)

/-- The children of a node of a tree have trees of their own. -/
theorem Branches.isForest_children (branches : store.Branches root) (under : store.IsUnder root id) :
    store.IsForest ((store.children id).map some) := by
  refine ⟨fun slot listed => ?_, List.pairwise_map.mpr ((branches.once id under).imp_of_mem ?_)⟩
  · obtain ⟨child, member, rfl⟩ := List.mem_map.mp listed
    exact branches.below (under.toChild member)
  · rintro first second one two apart other ⟨deeper, also⟩
    exact apart (branches.siblings under one two (isUnder_some.mp deeper) (isUnder_some.mp also))

theorem mem_reverse_filterMap {top : NodeId} :
    (top ∈ roots.reverse.filterMap fun slot => slot) ↔ some top ∈ roots := by
  simp

theorem IsForest.endsWithin (forest : store.IsForest roots) {top : NodeId} (listed : some top ∈ roots) :
    store.EndsWithin store.depthBound top :=
  (forest.branches _ listed).endsWithin (isUnder_some.mpr .refl)

theorem IsForest.mem_jumpsBelow (forest : store.IsForest roots) {top : NodeId}
    (listed : some top ∈ roots) : jump ∈ store.jumpsBelow withContinue store.depthBound false false top ↔
      store.LeadsDown top jump ∧ store.IsOutward withContinue false false (some top) jump :=
  (forest.branches _ listed).mem_jumpsBelow (isUnder_some.mpr .refl) (forest.endsWithin listed) false false

theorem IsForest.walkJumps_eq (forest : store.IsForest roots) (withContinue : Bool) :
    store.walkJumps roots withContinue = some (store.escapingJumps roots withContinue) := by
  let site (top : NodeId) : Site := ⟨top, false, false⟩
  let tops := roots.reverse.filterMap fun slot => slot
  have found : (store.outward withContinue).Finds (tops.map site) ((tops.map site).flatMap fun site =>
      store.jumpsBelow withContinue store.depthBound site.inLoop site.inSwitch site.id) := by
    refine Walk.finds_flatMap (List.forall_mem_map.mpr fun top member => ?_)
    exact (forest.endsWithin (mem_reverse_filterMap.mp member)).finds_outward false false
  rw [List.flatMap_map] at found
  exact found.run_eq

theorem IsForest.mem_escapingJumps (forest : store.IsForest roots) :
    jump ∈ store.escapingJumps roots withContinue ↔ ∃ root ∈ roots,
      store.IsUnder root jump ∧ store.IsOutward withContinue false false root jump := by
  rw [escapingJumps, List.mem_flatMap]
  constructor
  · rintro ⟨top, member, there⟩
    have listed := mem_reverse_filterMap.mp member
    obtain ⟨way, outward⟩ := (forest.mem_jumpsBelow listed).mp there
    exact ⟨some top, listed, isUnder_some.mpr way, outward⟩
  · rintro ⟨root, listed, ⟨top, rfl, way⟩, outward⟩
    exact ⟨top, mem_reverse_filterMap.mpr listed, (forest.mem_jumpsBelow listed).mpr ⟨way, outward⟩⟩

theorem IsForest.nodup_escapingJumps (forest : store.IsForest roots) (withContinue : Bool) :
    (store.escapingJumps roots withContinue).Nodup := by
  have apart : (roots.reverse.filterMap fun slot => slot).Pairwise fun first second =>
      ∀ id, ¬(store.LeadsDown first id ∧ store.LeadsDown second id) := by
    rw [List.pairwise_filterMap, List.pairwise_reverse]
    refine forest.apart.imp fun apart second two first one id both => ?_
    exact apart id ⟨⟨first, one, both.2⟩, ⟨second, two, both.1⟩⟩
  refine List.nodup_flatMap.mpr ⟨fun top member => ?_, apart.imp_of_mem ?_⟩
  · have listed := mem_reverse_filterMap.mp member
    exact (forest.branches _ listed).nodup_jumpsBelow (isUnder_some.mpr .refl) (forest.endsWithin listed)
      false false
  · intro first second one two apart id there also
    exact apart id ⟨((forest.mem_jumpsBelow (mem_reverse_filterMap.mp one)).mp there).1,
      ((forest.mem_jumpsBelow (mem_reverse_filterMap.mp two)).mp also).1⟩

/-- Below a jump there is at most a name. -/
theorem JumpsToNames.below (named : store.JumpsToNames)
    (found : store.shape? (some id) = some (.jump kind label)) (member : child ∈ store.children id)
    (way : store.LeadsDown child jump) : ∃ text, store.shape? (some jump) = some (.identifier text) := by
  have labeled : some child = label := by
    rw [children, found] at member
    simpa [Shape.children, Shape.visible, Shape.slots] using member
  subst labeled
  have isName := named id kind child found
  unfold identifier? at isName
  split at isName
  · rename_i text spelled
    obtain rfl | ⟨other, lower, -⟩ := way.cases_head
    · exact ⟨text, spelled⟩
    · rw [children, spelled] at lower
      cases lower
  · cases isName

/-- So what is not in a function is not below a jump either. -/
theorem JumpsToNames.isOutward_iff (named : store.JumpsToNames) :
    store.IsOutward withContinue false false root jump ↔ ¬store.Passes root jump Shape.isFunction ∧
      store.Leaves withContinue jump (store.Passes root jump Shape.isLoop)
        (store.Passes root jump Shape.selects) := by
  simp only [IsOutward, Bool.false_eq_true, false_or]
  refine and_congr_left fun leaves => not_congr ⟨?_, fun passes => passes.imp fun shape isFunction => ?_⟩
  · rintro ⟨above, ⟨under, down, apart⟩, sealed⟩
    refine ⟨above, ⟨under, down, apart⟩, ?_⟩
    rw [satisfies, Option.any_eq_true] at sealed ⊢
    obtain ⟨shape, found, sealed⟩ := sealed
    refine ⟨shape, found, ?_⟩
    cases shape
    case function => rfl
    case jump kind label =>
      obtain rfl | ⟨child, member, way⟩ := down.cases_head
      · exact absurd rfl apart
      · -- it is no jump that stands in the label
        obtain ⟨text, spelled⟩ := named.below found member way
        rw [Leaves, spelled] at leaves
        exact leaves.elim
    all_goals cases sealed
  · cases shape <;> first | rfl | cases isFunction

/-- The jumps that leave some statements are listed once each: those in no function between their
statement and themselves that have a label or leave all loops there, a `break` all `switch`es too, and
a `continue` only if those are asked for. -/
theorem escapingJumps_exact (forest : store.IsForest roots) (named : store.JumpsToNames)
    (withContinue : Bool) :
    store.walkJumps roots withContinue = some (store.escapingJumps roots withContinue) ∧
    (store.escapingJumps roots withContinue).Nodup ∧
    ∀ jump, jump ∈ store.escapingJumps roots withContinue ↔ ∃ root ∈ roots,
      store.IsUnder root jump ∧ ¬store.Passes root jump Shape.isFunction ∧
        store.Leaves withContinue jump (store.Passes root jump Shape.isLoop)
          (store.Passes root jump Shape.selects) := by
  refine ⟨forest.walkJumps_eq withContinue, forest.nodup_escapingJumps withContinue, fun jump => ?_⟩
  rw [forest.mem_escapingJumps]
  exact exists_congr fun root => and_congr_right fun _ => and_congr_right fun _ => named.isOutward_iff

/-- Three statements of five are left: the loop with a label, the `switch` and the conditional. -/
theorem statements_searched :
    let program := parse ("while (a) break; out: while (b) for (;;) { break out; } " ++
      "switch (c) { default: continue; } function f() { while (d) break; } if (e) break;").toList
    let roots := (program.store.children program.root).map some
    program.store.IsForest roots ∧ program.store.JumpsToNames ∧
      program.store.walkJumps roots true = some (program.store.escapingJumps roots true) ∧
      (program.store.escapingJumps roots true).length = 3 := by
  intro program roots
  obtain ⟨tree, stands⟩ : ∃ tree, program.store.Stands program.root tree := parse_stands _
  have isTree : program.store.IsTree program.root := ⟨tree, stands.holds, stands.rooted, stands.nodup⟩
  have forest : program.store.IsForest roots := isTree.branches.isForest_children (isUnder_some.mpr .refl)
  have named : program.store.JumpsToNames := (parse_hasSoundLabels _).jumps
  exact ⟨forest, named, (escapingJumps_exact forest named true).1, by decide +kernel⟩

end Roots

end Store

end Unflatten
