import Unflatten.Proofs.Dispatch.Flattening
import Unflatten.Proofs.Parser.Grammar

/-! # Flattening comes to an end

The chains of a tree are tried walk by walk, until a walk replaces none.  `Plans` goes down a chain
and `Runs` from walk to walk without a bound.  The bounds of the program are never reached, since a
chain lies in a tree and each replacement takes a test away (`replaced_openTests`).  What is still
tested in the end is a link of a chain that could not be replaced (`flattenChains_finishes`).  It need
not have been tried itself (`inner_link_untried`). -/

set_option autoImplicit false

namespace Unflatten

open Store

namespace Chain

/-! ## A chain is followed to its end -/

/-- Where values are planned: at a link of the chain or for a branch of one. -/
inductive Place where
  | link (id : NodeId)
  | branch (slot : Slot)

/-- What planning comes to, however long the chain is. -/
inductive Plans (store : Store) (name : String) :
    Place → List Int → Plan → Plan × Option Failure → Prop
  | bare {link : NodeId} {values : List Int} {plan : Plan} (partless : parts? store link = none) :
      Plans store name (.link link) values plan ({ plan with links := plan.links ++ [link] }, none)
  | undecided {link : NodeId} {values : List Int} {plan : Plan} {test thenBody elseBody : Slot}
      {cause : EvalError} (parts : parts? store link = some (test, thenBody, elseBody))
      (fails : split store name test values = .error cause) :
      Plans store name (.link link) values plan
        ({ plan with links := plan.links ++ [link] }, some (.undecidedTest cause))
  | failed {link : NodeId} {values taken others : List Int} {plan middle : Plan}
      {test thenBody elseBody : Slot} {failure : Failure}
      (parts : parts? store link = some (test, thenBody, elseBody))
      (halves : split store name test values = .ok (taken, others))
      (first : Plans store name (.branch thenBody) taken { plan with links := plan.links ++ [link] }
        (middle, some failure)) :
      Plans store name (.link link) values plan (middle, some failure)
  | half {link : NodeId} {values taken others : List Int} {plan middle : Plan} {test thenBody : Slot}
      (parts : parts? store link = some (test, thenBody, none))
      (halves : split store name test values = .ok (taken, others))
      (first : Plans store name (.branch thenBody) taken { plan with links := plan.links ++ [link] }
        (middle, none)) :
      Plans store name (.link link) values plan (middle, none)
  | whole {link : NodeId} {values taken others : List Int} {plan middle : Plan}
      {test thenBody elseBody : Slot} {result : Plan × Option Failure}
      (parts : parts? store link = some (test, thenBody, elseBody))
      (halves : split store name test values = .ok (taken, others))
      (first : Plans store name (.branch thenBody) taken { plan with links := plan.links ++ [link] }
        (middle, none)) (more : elseBody.isSome = true)
      (second : Plans store name (.branch elseBody) others middle result) :
      Plans store name (.link link) values plan result
  | follow {branch : Slot} {next : NodeId} {values : List Int} {plan : Plan}
      {result : Plan × Option Failure} (further : nextLink? store name branch = some next)
      (rest : Plans store name (.link next) values plan result) :
      Plans store name (.branch branch) values plan result
  | assign {branch : Slot} {values : List Int} {plan : Plan}
      (last : nextLink? store name branch = none) :
      Plans store name (.branch branch) values plan (plan.assign branch values)

/-- The links of a chain, from one of them on. -/
inductive Linked (store : Store) (name : String) (first : NodeId) : NodeId → Prop
  | here : Linked store name first first
  | next {link next : NodeId} {branch test thenBody elseBody : Slot}
      (linked : Linked store name first link)
      (parts : parts? store link = some (test, thenBody, elseBody))
      (either : branch = thenBody ∨ branch = elseBody)
      (further : nextLink? store name branch = some next) : Linked store name first next

/-- The links from a place on. -/
def Place.LeadsTo (store : Store) (name : String) : Place → NodeId → Prop
  | .link first, last => Linked store name first last
  | .branch side, last => ∃ next, nextLink? store name side = some next ∧ Linked store name next last

section Plans
variable {store : Store} {name : String} {place : Place} {link first middle last : NodeId}
  {branch : Slot} {values : List Int} {plan : Plan} {result : Plan × Option Failure}

theorem Linked.trans (one : Linked store name first middle) (two : Linked store name middle last) :
    Linked store name first last := by
  induction two with
  | here => exact one
  | next _ parts either further ih => exact ih.next parts either further

theorem Linked.of_branch {test thenBody elseBody : Slot}
    (parts : parts? store link = some (test, thenBody, elseBody))
    (either : branch = thenBody ∨ branch = elseBody)
    (leads : (Place.branch branch).LeadsTo store name last) : Linked store name link last := by
  obtain ⟨next, further, linked⟩ := leads
  exact (Linked.here.next parts either further).trans linked

theorem Plan.links_assign (plan : Plan) (branch : Slot) (values : List Int) :
    (plan.assign branch values).1.links = plan.links := by
  unfold Plan.assign
  split
  · rfl
  · rfl
  · split <;> rfl

/-- A plan lists links of its chain only. -/
theorem Plans.links (plans : Plans store name place values plan result) :
    ∀ link ∈ result.1.links, link ∈ plan.links ∨ place.LeadsTo store name link := by
  have started : ∀ {link other : NodeId} {links : List NodeId}, other ∈ links ++ [link] →
      other ∈ links ∨ Linked store name link other := by
    intro link other links member
    rcases List.mem_append.mp member with before | same
    · exact .inl before
    · rw [List.mem_singleton.mp same]
      exact .inr .here
  induction plans with
  | bare => exact fun _ member => started member
  | undecided => exact fun _ member => started member
  | failed parts _ _ ih =>
    intro other member
    rcases ih other member with before | leads
    · exact started before
    · exact .inr (.of_branch parts (.inl rfl) leads)
  | half parts _ _ ih =>
    intro other member
    rcases ih other member with before | leads
    · exact started before
    · exact .inr (.of_branch parts (.inl rfl) leads)
  | whole parts _ _ _ _ ih ih' =>
    intro other member
    rcases ih' other member with first | leads
    · rcases ih other first with before | leads
      · exact started before
      · exact .inr (.of_branch parts (.inl rfl) leads)
    · exact .inr (.of_branch parts (.inr rfl) leads)
  | follow further _ ih =>
    intro other member
    exact (ih other member).imp_right fun linked => ⟨_, further, linked⟩
  | assign =>
    intro other member
    rw [Plan.links_assign] at member
    exact .inl member

/-- A plan keeps the links that it has. -/
theorem Plans.keeps (plans : Plans store name place values plan result) :
    plan.links ⊆ result.1.links := by
  induction plans with
  | bare => exact List.subset_append_left _ _
  | undecided => exact List.subset_append_left _ _
  | failed _ _ _ ih => exact List.Subset.trans (List.subset_append_left _ _) ih
  | half _ _ _ ih => exact List.Subset.trans (List.subset_append_left _ _) ih
  | whole _ _ _ _ _ ih ih' =>
    exact List.Subset.trans (List.subset_append_left _ _) (List.Subset.trans ih ih')
  | follow _ _ ih => exact ih
  | assign =>
    rw [Plan.links_assign]
    exact List.Subset.refl _

/-- The link where a plan begins is one of its links. -/
theorem Plans.mem_links (plans : Plans store name (.link link) values plan result) :
    link ∈ result.1.links := by
  have last : link ∈ plan.links ++ [link] := List.mem_append_right _ (List.mem_singleton_self _)
  cases plans with
  | bare => exact last
  | undecided => exact last
  | failed _ _ first => exact first.keeps last
  | half _ _ first => exact first.keeps last
  | whole _ _ first _ second => exact second.keeps (first.keeps last)

/-- Where the links below are planned to their end, so is a branch. -/
theorem plans_planBranch {depth : Nat} (below : ∀ next, nextLink? store name branch = some next →
      Plans store name (.link next) values plan (planLink store name depth next values plan)) :
    Plans store name (.branch branch) values plan (planBranch store name depth branch values plan) := by
  unfold planBranch
  cases further : nextLink? store name branch with
  | some next => exact .follow further (below next further)
  | none => exact .assign further

/-- A depth that is as large as the tree of a link does not end a plan early. -/
theorem plans_planLink {tree : Tree} (depth : Nat) (holds : store.Holds tree)
    (rooted : tree.root = some link) (deep : tree.height ≤ depth) (values : List Int) (plan : Plan) :
    Plans store name (.link link) values plan (planLink store name depth link values plan) := by
  induction depth generalizing tree link values plan with
  | zero =>
    cases tree with
    | nothing => cases rooted
    | node => exact absurd deep (Nat.not_succ_le_zero _)
  | succ depth ih =>
    cases parts : parts? store link with
    | none =>
      simp only [planLink, parts]
      exact .bare parts
    | some triple =>
      obtain ⟨test, thenBody, elseBody⟩ := triple
      -- the links below a branch have lower trees
      have below : ∀ branch, branch = thenBody ∨ branch = elseBody → ∀ values plan,
          Plans store name (.branch branch) values plan
            (planBranch store name depth branch values plan) := by
        intro branch either values plan
        apply plans_planBranch
        intro next further
        obtain ⟨id, shape, children, part, rfl, member, here⟩ := exists_branch holds rooted parts either
        have contained := holds.within (.deeper member .whole)
        have lower := @Tree.height_lt_node _ id shape _ member
        obtain ⟨inner, within, there⟩ := blockStatements_within contained here (mem_of_nextLink further)
        have low := within.height_le
        exact ih (contained.within within) there (by omega) values plan
      cases halves : split store name test values with
      | error cause =>
        simp only [planLink, parts, halves]
        exact .undecided parts halves
      | ok pair =>
        obtain ⟨taken, others⟩ := pair
        rw [planLink_succ depth values plan parts halves]
        have one := below thenBody (.inl rfl) taken { plan with links := plan.links ++ [link] }
        generalize planBranch store name depth thenBody taken
          { plan with links := plan.links ++ [link] } = outcome at one
        obtain ⟨middle, failure⟩ := outcome
        cases failure with
        | some failure => exact .failed parts halves one
        | none =>
          cases elseBody with
          | none => exact .half parts halves one
          | some elseBody => exact .whole parts halves one rfl (below _ (.inr rfl) others middle)

/-- The chain of a link that stands in a tree is planned to its end. -/
theorem plans_plan {tree : Tree} (holds : store.Holds tree) (nodup : tree.names.Nodup)
    (inside : link ∈ tree.names) (domainSize : Nat) :
    Plans store name (.link link) ((List.range domainSize).map Int.ofNat) .empty
      (Chain.plan store name domainSize link) := by
  obtain ⟨part, within, rooted⟩ := Tree.exists_within inside
  have held := holds.within within
  exact plans_planLink _ held rooted (Nat.le_succ_of_le (held.height_le (within.nodup nodup))) _ _

end Plans

/-! ## A replaced chain takes its test away -/

section Tests
variable {shape : Shape} {link root id : NodeId} {name : String} {tree : Tree}

theorem exists_conditional {store : Store} {parts : Slot × Slot × Slot}
    (found : parts? store id = some parts) :
    store.shape? (some id) = some (.conditionalStatement parts.1 parts.2.1 parts.2.2) := by
  unfold parts? at found
  split at found
  · rename_i shaped
    cases found
    exact shaped
  · cases found

theorem parts?_beyond {store : Store} (beyond : store.nodes.size ≤ id) : parts? store id = none := by
  cases found : parts? store id with
  | none => rfl
  | some parts =>
    exact absurd (lt_size_of_shape? (exists_conditional found)) (Nat.not_lt_of_le beyond)

/-! What a `switch` is made of is no `if`. -/

theorem parts?_make (store : Store) (other : ∀ test thenBody elseBody,
      shape ≠ .conditionalStatement test thenBody elseBody) (id : NodeId) :
    parts? (store.make shape).1 id = parts? store id := by
  by_cases new : id = store.nodes.size
  · rw [parts?_beyond (Nat.le_of_eq new.symm), new, parts?, shape?_make_id]
    cases shape <;> first | rfl | exact absurd rfl (other _ _ _)
  · simp only [parts?, shape?_make, if_neg new]

theorem parts?_makeBranchClause (store : Store) (label branch : Slot) (id : NodeId) :
    parts? (makeBranchClause store label branch).1 id = parts? store id := by
  have wrapped : ∀ (store : Store) (statements : List Slot),
      parts? ((store.makeBlock statements).1.makeClause label [some (store.makeBlock statements).2]).1 id =
        parts? store id := by
    intro store statements
    rw [makeClause, parts?_make, makeBlock, parts?_make] <;> (intro _ _ _ same; cases same)
  unfold makeBranchClause
  by_cases closed : (store.blockStatements branch).getLast?.any store.isTerminator
  · simp only [if_pos closed]
    exact wrapped store _
  · simp only [if_neg closed]
    rw [wrapped, makeBreak, parts?_make]
    intro _ _ _ same
    cases same

theorem parts?_makeCases (pairs : List (Int × Slot)) (state : Store × Array Slot) (id : NodeId) :
    parts? (makeCases pairs state).1 id = parts? state.1 id := by
  induction pairs generalizing state with
  | nil => rfl
  | cons pair rest ih =>
    have case : parts? (makeCase state.1 pair.1 pair.2).1 id = parts? state.1 id := by
      rw [makeCase, parts?_makeBranchClause, makeNumber, parts?_make]
      intro _ _ _ same
      cases same
    rw [← case]
    exact ih _

theorem parts?_makeSwitch (plan : Plan) (store : Store) (name : String) (id : NodeId) :
    parts? (plan.makeSwitch store name).1 id = parts? store id := by
  have default : ∀ state, parts? (makeDefault plan.default? state).1 id = parts? state.1 id := by
    intro state
    unfold makeDefault
    split
    · exact parts?_makeBranchClause _ _ _ _
    · rfl
  rw [makeSwitch_eq]
  simp only
  rw [parts?_make, makeIdentifier, parts?_make, default, parts?_makeCases] <;> (intro _ _ _ same; cases same)

theorem ne_root {store : Store} (stands : store.Stands root tree)
    (tested : testedName? store (some link) = some name) : link ≠ root := by
  rintro rfl
  obtain ⟨_, test, thenBody, elseBody, same, parts⟩ := parts_of_testedName tested
  cases same
  have file := stands.file
  rw [kind?, exists_conditional parts] at file
  cases file

theorem exists_some_of_shape? {store : Store} {slot : Slot} (found : store.shape? slot = some shape) :
    ∃ id, slot = some id := by
  cases slot with
  | none => cases found
  | some id => exact ⟨id, rfl⟩

theorem forall₂_replaceFirst {slots changed : List Slot} {old new : Slot}
    (replaced : replaceFirst slots old new = some changed) :
    List.Forall₂ (fun before after => after = before ∨ after = new) slots changed := by
  induction slots generalizing changed with
  | nil => cases replaced
  | cons slot rest ih =>
    unfold replaceFirst at replaced
    split at replaced
    · cases replaced
      exact .cons (.inr rfl) (List.forall₂_same.mpr fun _ _ => .inl rfl)
    · obtain ⟨later, further, rfl⟩ := Option.map_eq_some_iff.mp replaced
      exact .cons (.inl rfl) (ih further)

/-- What a node was before a child of its parent was replaced: the same, but for the child. -/
theorem StandsFor.back {before after : Store} {new : NodeId} {later : Shape}
    (stands : StandsFor before after link new) (holds : before.Holds tree) (inside : id ∈ tree.names)
    (found : after.shape? (some id) = some later) :
    ∃ shape, before.shape? (some id) = some shape ∧ later = shape.withSlots later.slots ∧
      List.Forall₂ (fun old slot => slot = old ∨ slot = some new) shape.slots later.slots := by
  obtain ⟨parent, outer, slots, -, outside, replaced, placed, -, same⟩ := stands
  obtain ⟨shape, there⟩ := exists_shape? (holds.lt_size inside)
  by_cases here : id = parent
  · subst here
    rw [placed] at found
    cases found
    rw [Shape.slots_withSlots _ _ (length_replaceFirst replaced)]
    exact ⟨outer, outside, rfl, forall₂_replaceFirst replaced⟩
  · have kept := same id here shape there
    rw [found] at kept
    cases kept
    exact ⟨_, there, (Shape.withSlots_slots _).symm, List.forall₂_same.mpr fun _ _ => .inl rfl⟩

/-- A test is the same as before. -/
theorem StandsFor.testedName {before after : Store} {new : NodeId} {discriminant : Slot}
    {clauses : List Slot} (stands : StandsFor before after link new) (holds : before.Holds tree)
    (inside : id ∈ tree.names) (replacement : after.shape? (some new) = some (.switch discriminant clauses))
    (tested : testedName? after (some id) = some name) : testedName? before (some id) = some name := by
  unfold testedName? at tested
  split at tested
  case h_2 => cases tested
  rename_i test' thenBody' elseBody' shaped
  split at tested
  case h_2 => cases tested
  rename_i left' operator right' compared
  have named : after.shape? left' = some (.identifier name) := by
    unfold identifier? at tested
    split at tested
    · rename_i found
      cases tested
      exact found
    · cases tested
  -- neither the test nor its left side is the `switch`
  obtain ⟨shape, found, same, slots⟩ := stands.back holds inside shaped
  cases shape <;> cases same
  rename_i test thenBody elseBody
  rcases slots with _ | ⟨rfl | rfl, -⟩
  case cons.inr => cases replacement.symm.trans compared
  obtain ⟨testId, rfl⟩ := exists_some_of_shape? compared
  have below := (holds.slot_mem inside found List.mem_cons_self).1
  obtain ⟨shape, found', same, slots⟩ := stands.back holds below compared
  cases shape <;> cases same
  rename_i left right
  rcases slots with _ | ⟨rfl | rfl, -⟩
  case cons.inr => cases replacement.symm.trans named
  obtain ⟨leftId, rfl⟩ := exists_some_of_shape? named
  have under := (holds.slot_mem below found' List.mem_cons_self).1
  obtain ⟨shape, found'', same, -⟩ := stands.back holds under named
  cases shape <;> cases same
  simp only [testedName?, found, found', identifier?, found'']

end Tests

/-- The `if` statements of a tree that test a dispatch variable. -/
def openTests (root : NodeId) (work : Work) : List NodeId :=
  (work.store.descendants (some root)).filter fun link =>
    (testedVariable? work.store work.findings link).isSome

section OpenTests
variable {work after : Work} {root link id : NodeId} {tree : Tree}

theorem mem_openTests (stands : work.store.Stands root tree) : id ∈ openTests root work ↔
    id ∈ tree.names ∧ (testedVariable? work.store work.findings id).isSome = true := by
  rw [openTests, List.mem_filter, stands.mem_descendants]

theorem nodup_openTests (stands : work.store.Stands root tree) : (openTests root work).Nodup := by
  have perm := stands.holds.descendants_perm stands.nodup
  rw [stands.rooted] at perm
  exact (perm.nodup_iff.mpr stands.nodup).filter _

theorem length_openTests_le (stands : work.store.Stands root tree) :
    (openTests root work).length ≤ work.store.nodes.size := by
  apply Store.length_le_size (nodup_openTests stands)
  intro id member
  exact stands.holds.lt_size ((mem_openTests stands).mp member).1

theorem parts_flatten (work : Work) (link : NodeId) :
    (flatten work link).1.findings.parts = work.findings.parts := by
  unfold flatten
  split
  · rfl
  · split
    · rfl
    · simp only
      split <;> rfl

theorem testedVariable?_isSome {store : Store} {findings : Findings}
    (tested : (testedVariable? store findings id).isSome = true) : ∃ name,
    testedName? store (some id) = some name ∧ (findings.variableNamed? name).isSome = true := by
  unfold testedVariable? at tested
  cases named : testedName? store (some id) with
  | none =>
    rw [named] at tested
    cases tested
  | some name =>
    rw [named] at tested
    exact ⟨name, rfl, tested⟩

/-- What has left a tree by its parent link does not stand in it. -/
theorem not_mem_names {store : Store} (stands : store.Stands root tree) (below : id ≠ root)
    (detached : store.parent (some id) = none) : id ∉ tree.names := by
  intro inside
  obtain ⟨part, within, rooted⟩ := Tree.exists_within inside
  have other : part ≠ tree := by
    rintro rfl
    exact below (Option.some.inj (rooted.symm.trans stands.rooted))
  obtain ⟨_, _, linked, -⟩ := stands.holds.exists_parent within rooted other
  cases detached.symm.trans linked

/-- A replaced chain takes away its own test and adds none. -/
theorem replaced_openTests (stands : work.store.Stands root tree) (inside : link ∈ tree.names)
    (replaced : flatten work link = (after, true)) :
    (openTests root after).length < (openTests root work).length := by
  obtain ⟨_, _, found, -⟩ := flatten_eq replaced
  have below := ne_root stands (tested_of_variable found)
  obtain ⟨tested, plan, switch, _, _, -, -, -, standsFor, isSwitch, detached, shapes⟩ :=
    flatten_switches stands.isArena.tree (stands.mem_descendants.mpr inside) below replaced
  obtain ⟨_, -, -, switched⟩ := isSwitch.built
  have parts := parts_flatten work link
  have done := flatten_remade work link tree stands inside
  rw [replaced] at parts done
  obtain ⟨remade, remakes⟩ := done
  have later := stands.remade remakes
  have again : link :: openTests root after ⊆ openTests root work := by
    apply List.cons_subset.mpr ⟨(mem_openTests stands).mpr ⟨inside, by rw [found]; rfl⟩, ?_⟩
    intro id member
    obtain ⟨there, isTested⟩ := (mem_openTests later).mp member
    obtain ⟨name, named, isPart⟩ := testedVariable?_isSome isTested
    rcases remakes.rebuilds.names id (Tree.mem_namesAll.mpr ⟨remade, List.mem_cons_self, there⟩) with
      old | new
    · obtain ⟨_, only, here⟩ := Tree.mem_namesAll.mp old
      rw [List.mem_singleton.mp only] at here
      have before := standsFor.testedName stands.holds here switched named
      apply (mem_openTests stands).mpr ⟨here, ?_⟩
      rw [testedVariable?, before, Option.bind_some, Findings.variableNamed?, ← parts]
      exact isPart
    · obtain ⟨_, _, _, _, same, conditional⟩ := parts_of_testedName named
      cases same
      rw [parts?, shapes id new] at conditional
      cases ((parts?_makeSwitch plan _ _ id).trans (parts?_beyond new)).symm.trans conditional
  have gone : link ∉ openTests root after := by
    intro member
    exact not_mem_names later below detached ((mem_openTests later).mp member).1
  exact ((List.nodup_cons.mpr ⟨gone, nodup_openTests later⟩).subperm again).length_le

end OpenTests

/-! ## The `switch` is in order -/

/-- At most one clause is a default clause, and the labels of the others ascend within a domain. -/
structure Orderly (store : Store) (domainSize : Nat) (clauses : List Slot) : Prop where
  default : clauses.countP store.isDefault ≤ 1
  labelled : ∀ clause ∈ clauses, store.isDefault clause = false →
    ∃ value < domainSize, store.labelKey? clause = some (value : Int)
  ascending : (clauses.filterMap store.labelKey?).Pairwise (· < ·)

section Orderly
variable {before store : Store} {plan : Plan} {name : String} {switch link : NodeId} {tree : Tree}
  {cases defaults : List Slot} {domainSize : Nat}

theorem labelKeys_cases {pairs : List (Int × Slot)}
    (all : List.Forall₂ (fun pair clause => IsCase before store pair.1 pair.2 clause) pairs cases)
    (safe : ∀ pair ∈ pairs, pair.1.natAbs < 2 * Number.implicitBit) :
    cases.filterMap store.labelKey? = pairs.map Prod.fst := by
  induction all with
  | nil => rfl
  | @cons pair clause pairs cases isCase _ ih =>
    rw [List.filterMap_cons_some (isCase.labelKey (safe pair List.mem_cons_self)), List.map_cons,
      ih fun pair member => safe pair (List.mem_cons_of_mem _ member)]

theorem IsSwitchOf.orderly (isSwitch : IsSwitchOf before store plan name switch cases defaults)
    (safe : ∀ pair ∈ plan.cases.toList, pair.1.natAbs < 2 * Number.implicitBit)
    (bounds : ∀ pair ∈ plan.cases.toList, ∃ value < domainSize, pair.1 = (value : Int)) :
    Orderly store domainSize (cases ++ defaults) where
  default := by
    have labelled : cases.countP store.isDefault = 0 := by
      apply List.countP_eq_zero.mpr
      intro clause member
      obtain ⟨pair, -, isCase⟩ := exists_of_mem_forall₂ isSwitch.cases member
      rw [isCase.not_isDefault]
      exact Bool.false_ne_true
    have single : defaults.length ≤ 1 := by
      rw [← isSwitch.defaults.length_eq]
      cases plan.default? <;> simp
    rw [List.countP_append, labelled, Nat.zero_add]
    exact Nat.le_trans List.countP_le_length single
  labelled := by
    intro clause member plain
    rcases List.mem_append.mp member with case | default
    · obtain ⟨pair, listed, isCase⟩ := exists_of_mem_forall₂ isSwitch.cases case
      obtain ⟨value, bound, same⟩ := bounds pair listed
      exact ⟨value, bound, by rw [isCase.labelKey (safe pair listed), same]⟩
    · obtain ⟨_, -, isDefault⟩ := exists_of_mem_forall₂ isSwitch.defaults default
      cases plain.symm.trans isDefault.isDefault
  ascending := by
    have unlabelled : defaults.filterMap store.labelKey? = [] := by
      apply List.filterMap_eq_nil_iff.mpr
      intro clause member
      obtain ⟨_, -, isDefault⟩ := exists_of_mem_forall₂ isSwitch.defaults member
      exact isDefault.labelKey
    rw [List.filterMap_append, unlabelled, List.append_nil, labelKeys_cases isSwitch.cases safe,
      List.pairwise_map]
    exact Std.TreeMap.ordered_keys_toList.imp fun less => compare_lt_iff_lt.mp less

/-- The cases of a plan are for values of its domain. -/
theorem plan_bounds (holds : store.Holds tree) (rooted : tree.root = some link)
    (nodup : tree.names.Nodup) (tested : testedName? store (some link) = some name)
    (planned : Chain.plan store name domainSize link = (plan, none)) :
    ∀ pair ∈ plan.cases.toList, ∃ value < domainSize, pair.1 = (value : Int) := by
  intro pair member
  have set := Std.TreeMap.mem_toList_iff_getElem?_eq_some.mp member
  have distinct : ((List.range domainSize).map Int.ofNat).Nodup :=
    List.nodup_range.map fun _ _ same => Int.ofNat.inj same
  have adds := plansTo _ _ _ holds rooted (Nat.le_succ_of_le (holds.height_le nodup)) tested distinct
    (fun value _ => by simp [Plan.empty]) planned
  by_contra outside
  have untouched := adds.extends_.frame pair.1 fun listed => by
    obtain ⟨value, inside, same⟩ := List.mem_map.mp listed
    exact outside ⟨value, List.mem_range.mp inside, same.symm⟩
  rw [set] at untouched
  simp [Plan.empty] at untouched

end Orderly

/-! ## Chains are tried until none is replaced -/

/-- A chain that is tried, and the work as it is then. -/
structure Attempt where
  work : Work
  link : NodeId

namespace Attempt

def after (attempt : Attempt) : Work := (flatten attempt.work attempt.link).1

def succeeds (attempt : Attempt) : Bool := (flatten attempt.work attempt.link).2

/-- The chain could not be replaced, and it has this link. -/
def Fails (attempt : Attempt) (link : NodeId) : Prop :=
  attempt.succeeds = false ∧ ∃ tested,
    testedVariable? attempt.work.store attempt.work.findings attempt.link = some tested ∧
    Linked attempt.work.store tested.name attempt.link link

/-- The chain gave way to a `switch` with its clauses in order, and fewer tests are left. -/
def Replaces (root : NodeId) (attempt : Attempt) : Prop :=
  (openTests root attempt.after).length < (openTests root attempt.work).length ∧
    ∃ tested switch discriminant clauses,
      testedVariable? attempt.work.store attempt.work.findings attempt.link = some tested ∧
      StandsFor attempt.work.store attempt.after.store attempt.link switch ∧
      attempt.after.store.shape? (some switch) = some (.switch discriminant clauses) ∧
      Orderly attempt.after.store tested.domainSize clauses

/-- The chain is planned to its end, for all values of its domain. -/
def IsPlanned (attempt : Attempt) : Prop :=
  ∀ tested, testedVariable? attempt.work.store attempt.work.findings attempt.link = some tested →
    Plans attempt.work.store tested.name (.link attempt.link)
      ((List.range tested.domainSize).map Int.ofNat) .empty
      (plan attempt.work.store tested.name tested.domainSize attempt.link)

end Attempt

/-- One walk over some chains, without those that are skipped or have left the tree. -/
inductive Walks (root : NodeId) : List NodeId → Work → List Attempt → Work → Prop
  | done {work : Work} : Walks root [] work [] work
  | pass {link : NodeId} {rest : List NodeId} {work final : Work} {attempts : List Attempt}
      (passed : work.skipped.contains link = true ∨ work.store.isAttached root (some link) = false)
      (more : Walks root rest work attempts final) : Walks root (link :: rest) work attempts final
  | tried {link : NodeId} {rest : List NodeId} {work final : Work} {attempts : List Attempt}
      (fresh : work.skipped.contains link = false)
      (attached : work.store.isAttached root (some link) = true)
      (more : Walks root rest (flatten work link).1 attempts final) :
      Walks root (link :: rest) work (⟨work, link⟩ :: attempts) final

/-- Walk after walk, as long as chains are replaced. -/
inductive Runs (root : NodeId) : Work → List Attempt → Work → Prop
  | last {work final : Work} {attempts : List Attempt}
      (walks : Walks root (candidates work root) work attempts final)
      (nothing : attempts.any Attempt.succeeds = false) : Runs root work attempts final
  | again {work middle final : Work} {attempts others : List Attempt}
      (walks : Walks root (candidates work root) work attempts middle)
      (progress : attempts.any Attempt.succeeds = true) (more : Runs root middle others final) :
      Runs root work (attempts ++ others) final

/-- What some attempts come to: each success costs a test, and what is skipped has failed. -/
structure Advances (root : NodeId) (work : Work) (attempts : List Attempt) (final : Work) : Prop where
  stands : ∃ tree, final.store.Stands root tree
  fewer : attempts.countP Attempt.succeeds + (openTests root final).length ≤ (openTests root work).length
  planned : ∀ attempt ∈ attempts, attempt.IsPlanned
  replaces : ∀ attempt ∈ attempts, attempt.succeeds = true → attempt.Replaces root
  skipped : ∀ link ∈ final.skipped, link ∈ work.skipped ∨ ∃ attempt ∈ attempts, attempt.Fails link

section Runs
variable {root link : NodeId} {work middle final : Work} {attempts others : List Attempt} {tree : Tree}
  {links : List NodeId}

theorem Advances.refl (stands : work.store.Stands root tree) : Advances root work [] work where
  stands := ⟨tree, stands⟩
  fewer := Nat.le_of_eq (Nat.zero_add _)
  planned := List.forall_mem_nil _
  replaces := List.forall_mem_nil _
  skipped _ member := .inl member

theorem Advances.trans (first : Advances root work attempts middle)
    (second : Advances root middle others final) : Advances root work (attempts ++ others) final where
  stands := second.stands
  fewer := by
    have one := first.fewer
    have two := second.fewer
    rw [List.countP_append]
    omega
  planned := List.forall_mem_append.mpr ⟨first.planned, second.planned⟩
  replaces := List.forall_mem_append.mpr ⟨first.replaces, second.replaces⟩
  skipped := by
    intro link member
    rcases second.skipped link member with before | ⟨attempt, later, fails⟩
    · rcases first.skipped link before with old | ⟨attempt, earlier, fails⟩
      · exact .inl old
      · exact .inr ⟨attempt, List.mem_append_left _ earlier, fails⟩
    · exact .inr ⟨attempt, List.mem_append_right _ later, fails⟩

theorem skipped_flatten (succeeds : (flatten work link).2 = true) :
    (flatten work link).1.skipped = work.skipped := by
  unfold flatten at succeeds ⊢
  split
  · rfl
  · rename_i tested found
    rw [found] at succeeds
    simp only at succeeds ⊢
    split
    · rename_i large
      rw [if_pos large] at succeeds
      cases succeeds
    · rename_i small
      rw [if_neg small] at succeeds
      split
      · rename_i refused
        rw [refused] at succeeds
        cases succeeds
      · rfl

/-- A chain that fails is skipped from then on, and with it only links of it. -/
theorem flatten_skips {tested : DispatchVariable} (stands : work.store.Stands root tree)
    (inside : link ∈ tree.names) (refused : (flatten work link).2 = false)
    (found : testedVariable? work.store work.findings link = some tested) :
    ∃ links, (flatten work link).1.skipped = links ++ work.skipped ∧ link ∈ links ∧
      ∀ other ∈ links, Linked work.store tested.name link other := by
  unfold flatten at refused ⊢
  rw [found] at refused ⊢
  simp only at refused ⊢
  by_cases large : maxDispatchDomain < tested.domainSize
  · rw [if_pos large]
    refine ⟨[link], rfl, List.mem_cons_self, fun other member => ?_⟩
    rw [List.mem_singleton.mp member]
    exact .here
  · rw [if_neg large] at refused ⊢
    have plans := @plans_plan work.store tested.name link tree stands.holds stands.nodup inside tested.domainSize
    split
    · refine ⟨_, rfl, plans.mem_links, fun other member => ?_⟩
      rcases plans.links other member with before | linked
      · cases before
      · exact linked
    · rename_i accepted
      rw [accepted] at refused
      cases refused

theorem replaces_of_succeeds (stands : work.store.Stands root tree) (inside : link ∈ tree.names)
    (succeeds : Attempt.succeeds ⟨work, link⟩ = true) : Attempt.Replaces root ⟨work, link⟩ := by
  have replaced : flatten work link = ((flatten work link).1, true) := Prod.ext rfl succeeds
  refine ⟨replaced_openTests stands inside replaced, ?_⟩
  obtain ⟨_, _, found, -⟩ := flatten_eq replaced
  obtain ⟨tested, plan, switch, cases, defaults, found, fits, planned, standsFor, isSwitch, -⟩ :=
    flatten_switches stands.isArena.tree (stands.mem_descendants.mpr inside)
      (ne_root stands (tested_of_variable found)) replaced
  obtain ⟨part, within, rooted⟩ := Tree.exists_within inside
  have bounds := plan_bounds (stands.holds.within within) rooted (within.nodup stands.nodup)
    (tested_of_variable found) planned
  have safe : ∀ pair ∈ plan.cases.toList, pair.1.natAbs < 2 * Number.implicitBit := by
    intro pair member
    obtain ⟨value, small, same⟩ := bounds pair member
    unfold maxDispatchDomain at fits
    unfold Number.implicitBit
    omega
  obtain ⟨_, -, -, built⟩ := isSwitch.built
  exact ⟨tested, switch, _, _, found, standsFor, built, isSwitch.orderly safe bounds⟩

/-- What an attempt comes to. -/
theorem advances_flatten (stands : work.store.Stands root tree) (inside : link ∈ tree.names) :
    Advances root work [⟨work, link⟩] (flatten work link).1 := by
  obtain ⟨remade, remakes⟩ := flatten_remade work link tree stands inside
  have skips : ∀ other ∈ (flatten work link).1.skipped, other ∈ work.skipped ∨
      Attempt.Fails ⟨work, link⟩ other := by
    intro other member
    cases succeeds : (flatten work link).2 with
    | true =>
      rw [skipped_flatten succeeds] at member
      exact .inl member
    | false =>
      cases found : testedVariable? work.store work.findings link with
      | none =>
        rw [flatten, found] at member
        exact .inl member
      | some tested =>
        obtain ⟨links, same, -, linked⟩ := flatten_skips stands inside succeeds found
        rw [same] at member
        rcases List.mem_append.mp member with new | old
        · exact .inr ⟨succeeds, tested, found, linked other new⟩
        · exact .inl old
  have fewer : [Attempt.mk work link].countP Attempt.succeeds +
      (openTests root (flatten work link).1).length ≤ (openTests root work).length := by
    rw [List.countP_singleton, Attempt.succeeds]
    cases succeeds : (flatten work link).2 with
    | true =>
      rw [if_pos rfl, Nat.add_comm]
      exact replaced_openTests stands inside (Prod.ext rfl succeeds)
    | false =>
      obtain ⟨journal, links, same⟩ := flatten_refused succeeds
      rw [if_neg Bool.false_ne_true, same, Nat.zero_add]
      exact Nat.le_refl _
  refine ⟨⟨remade, stands.remade remakes⟩, fewer, ?_, ?_, ?_⟩
  · intro attempt member
    rw [List.mem_singleton.mp member]
    exact fun tested _ => plans_plan stands.holds stands.nodup inside tested.domainSize
  · intro attempt member
    rw [List.mem_singleton.mp member]
    exact replaces_of_succeeds stands inside
  · intro other member
    exact (skips other member).imp_right fun fails => ⟨_, List.mem_singleton_self _, fails⟩

theorem Walks.advances (walks : Walks root links work attempts final)
    (stands : work.store.Stands root tree) : Advances root work attempts final := by
  induction walks generalizing tree with
  | done => exact .refl stands
  | pass _ _ ih => exact ih stands
  | tried _ attached _ ih =>
    have step := advances_flatten stands (stands.mem_of_isAttached attached)
    obtain ⟨later, stands'⟩ := step.stands
    exact step.trans (ih stands')

theorem openTests_congr {later : Work} (store : later.store = work.store)
    (parts : later.findings.parts = work.findings.parts) : openTests root later = openTests root work := by
  have same : later.findings.variableNamed? = work.findings.variableNamed? := by
    funext name
    rw [Findings.variableNamed?, Findings.variableNamed?, parts]
  simp only [openTests, testedVariable?, same, store]

/-- A walk that replaces nothing leaves the tree alone and skips all that it has not skipped yet. -/
theorem Walks.quiet (walks : Walks root links work attempts final)
    (nothing : attempts.any Attempt.succeeds = false) (stands : work.store.Stands root tree) :
    final.store = work.store ∧ final.findings.parts = work.findings.parts ∧
      work.skipped ⊆ final.skipped ∧
      ∀ link ∈ links, link ∈ openTests root work → link ∈ final.skipped := by
  induction walks generalizing tree with
  | done => exact ⟨rfl, rfl, List.Subset.refl _, fun _ member => absurd member List.not_mem_nil⟩
  | pass passed _ ih =>
    obtain ⟨store, parts, kept, all⟩ := ih nothing stands
    refine ⟨store, parts, kept, fun other member there => ?_⟩
    rcases List.mem_cons.mp member with rfl | later
    · rcases passed with skipped | gone
      · exact kept (List.contains_iff_mem.mp skipped)
      · have attached := stands.isArena.isAttached_iff.mpr (List.mem_filter.mp there).1
        cases gone.symm.trans attached
    · exact all other later there
  | @tried link rest work final attempts _ attached _ ih =>
    obtain ⟨refused, others⟩ := Bool.or_eq_false_iff.mp nothing
    obtain ⟨journal, links, same⟩ := flatten_refused refused
    have store : (flatten work link).1.store = work.store := by rw [same]
    have parts := parts_flatten work link
    obtain ⟨store', parts', kept, all⟩ := ih others (by rwa [store])
    have grows : work.skipped ⊆ (flatten work link).1.skipped := by
      rw [same]
      exact List.subset_append_right _ _
    refine ⟨store'.trans store, parts'.trans parts, List.Subset.trans grows kept, fun other member there => ?_⟩
    rcases List.mem_cons.mp member with rfl | later
    · obtain ⟨inside, isTested⟩ := (mem_openTests stands).mp there
      obtain ⟨tested, found⟩ := Option.isSome_iff_exists.mp isTested
      obtain ⟨skipped, after, own, -⟩ := flatten_skips stands inside refused found
      apply kept
      rw [after]
      exact List.mem_append_left _ own
    · apply all other later
      rwa [openTests_congr store parts]

theorem Runs.advances (runs : Runs root work attempts final) (stands : work.store.Stands root tree) :
    Advances root work attempts final := by
  induction runs generalizing tree with
  | last walks _ => exact walks.advances stands
  | again walks _ _ ih =>
    have step := walks.advances stands
    obtain ⟨later, stands'⟩ := step.stands
    exact step.trans (ih stands')

/-- In the end all that is still tested is skipped. -/
theorem Runs.all_skipped (runs : Runs root work attempts final) (stands : work.store.Stands root tree) :
    ∀ link ∈ openTests root final, link ∈ final.skipped := by
  induction runs generalizing tree with
  | again walks _ _ ih =>
    obtain ⟨later, stands'⟩ := (walks.advances stands).stands
    exact ih stands'
  | @last work final attempts walks nothing =>
    obtain ⟨store, parts, kept, all⟩ := walks.quiet nothing stands
    intro link member
    rw [openTests_congr store parts] at member
    by_cases skipped : link ∈ work.skipped
    · exact kept skipped
    · apply all link ?_ member
      obtain ⟨descends, isTested⟩ := List.mem_filter.mp member
      apply List.mem_filter.mpr ⟨descends, ?_⟩
      simp [isTested, skipped]

/-! There is one run only. -/

theorem Walks.unique {final' : Work} (walks : Walks root links work attempts final)
    (also : Walks root links work others final') : attempts = others ∧ final = final' := by
  induction walks generalizing others with
  | done =>
    cases also
    exact ⟨rfl, rfl⟩
  | pass passed _ ih =>
    cases also with
    | pass _ more => exact ih more
    | tried fresh attached _ => rcases passed with skipped | gone <;> simp_all
  | tried fresh attached _ ih =>
    cases also with
    | pass passed _ => rcases passed with skipped | gone <;> simp_all
    | tried _ _ more => exact (ih more).imp_left (congrArg _)

theorem Runs.unique {final' : Work} (runs : Runs root work attempts final)
    (also : Runs root work others final') : attempts = others ∧ final = final' := by
  induction runs generalizing others with
  | last walks nothing =>
    cases also with
    | last walks' _ => exact walks.unique walks'
    | again walks' progress _ =>
      obtain ⟨rfl, -⟩ := walks.unique walks'
      cases nothing.symm.trans progress
  | again walks progress _ ih =>
    cases also with
    | last walks' nothing =>
      obtain ⟨rfl, -⟩ := walks.unique walks'
      cases nothing.symm.trans progress
    | again walks' _ more =>
      obtain ⟨rfl, rfl⟩ := walks.unique walks'
      exact (ih more).imp_left (congrArg _)

/-! The bounds of the program are never reached. -/

/-- The chain at one place of a walk. -/
def visit (root : NodeId) (state : Work × Bool) (link : NodeId) : Work × Bool :=
  let (work, progress) := state
  if work.skipped.contains link || !work.store.isAttached root (some link) then (work, progress)
  else
    let (work, applied) := flatten work link
    (work, progress || applied)

theorem walks_foldl (links : List NodeId) (state : Work × Bool) :
    ∃ attempts, Walks root links state.1 attempts (links.foldl (visit root) state).1 ∧
      (links.foldl (visit root) state).2 = (state.2 || attempts.any Attempt.succeeds) := by
  induction links generalizing state with
  | nil => exact ⟨[], .done, by simp⟩
  | cons link rest ih =>
    obtain ⟨work, progress⟩ := state
    rw [List.foldl_cons]
    by_cases passed : (work.skipped.contains link || !work.store.isAttached root (some link)) = true
    · obtain ⟨attempts, walks, noted⟩ := ih (work, progress)
      have same : visit root (work, progress) link = (work, progress) := if_pos passed
      rw [same]
      refine ⟨attempts, .pass ?_ walks, noted⟩
      simpa using passed
    · obtain ⟨attempts, walks, noted⟩ := ih ((flatten work link).1, progress || (flatten work link).2)
      have same : visit root (work, progress) link =
          ((flatten work link).1, progress || (flatten work link).2) := if_neg passed
      rw [same]
      simp only [Bool.or_eq_true, Bool.not_eq_true', not_or, Bool.not_eq_true, Bool.not_eq_false]
        at passed
      refine ⟨⟨work, link⟩ :: attempts, .tried passed.1 passed.2 walks, ?_⟩
      rw [noted, List.any_cons, Bool.or_assoc]
      rfl

/-- More walks than open tests are not needed. -/
theorem runs_sweepAll (limit : Nat) (stands : work.store.Stands root tree)
    (enough : (openTests root work).length < limit) :
    ∃ attempts, Runs root work attempts (sweepAll root limit work) := by
  induction limit generalizing work tree with
  | zero => exact absurd enough (Nat.not_lt_zero _)
  | succ limit ih =>
    obtain ⟨attempts, walks, noted⟩ := @walks_foldl root (candidates work root) (work, false)
    change Walks root _ _ _ (sweep root work).1 at walks
    change (sweep root work).2 = _ at noted
    rw [Bool.false_or] at noted
    rw [sweepAll]
    simp only [noted]
    cases progress : attempts.any Attempt.succeeds with
    | false => exact ⟨attempts, .last walks progress⟩
    | true =>
      have step := walks.advances stands
      obtain ⟨later, stands'⟩ := step.stands
      have success : 0 < attempts.countP Attempt.succeeds :=
        List.countP_pos_iff.mpr (List.any_eq_true.mp progress)
      have fewer : (openTests root (sweep root work).1).length < limit :=
        Nat.lt_of_lt_of_le (Nat.lt_of_lt_of_le (Nat.lt_add_of_pos_left success) step.fewer)
          (Nat.le_of_lt_succ enough)
      obtain ⟨others, more⟩ := ih stands' fewer
      exact ⟨attempts ++ others, .again walks progress more⟩

end Runs

end Chain

/-- Flattening comes to an end: each chain is planned to its end, each replacement costs a test and
makes a `switch` in order, and what is still tested is a link of a chain that failed. -/
theorem flattenChains_finishes {store : Store} {root : NodeId} {tree : Tree} (findings : Findings)
    (stands : store.Stands root tree) :
    ∃ attempts final, Chain.Runs root ⟨store, findings, [], 0⟩ attempts final ∧
      flattenChains store root findings = (final.store, final.findings, final.count) ∧
      (∀ attempt ∈ attempts, attempt.IsPlanned) ∧
      (∀ attempt ∈ attempts, attempt.succeeds = true → attempt.Replaces root) ∧
      ∀ link, final.store.isAttached root (some link) = true →
        (Chain.testedVariable? final.store final.findings link).isSome = true →
        ∃ attempt ∈ attempts, attempt.Fails link := by
  obtain ⟨attempts, final, runs, result⟩ : ∃ attempts final,
      Chain.Runs root ⟨store, findings, [], 0⟩ attempts final ∧
        flattenChains store root findings = (final.store, final.findings, final.count) := by
    unfold flattenChains
    by_cases known : findings.parts.isEmpty
    · have untested : Chain.candidates ⟨store, findings, [], 0⟩ root = [] := by
        apply List.filter_eq_nil_iff.mpr
        intro link _
        simp [Chain.testedVariable?, Findings.variableNamed?, List.isEmpty_iff.mp known]
      refine ⟨[], ⟨store, findings, [], 0⟩, .last ?_ rfl, if_pos known⟩
      rw [untested]
      exact .done
    · have enough := Nat.lt_succ_of_le (@Chain.length_openTests_le ⟨store, findings, [], 0⟩ root tree stands)
      obtain ⟨attempts, runs⟩ := Chain.runs_sweepAll store.depthBound stands enough
      exact ⟨attempts, _, runs, if_neg known⟩
  have done := runs.advances stands
  refine ⟨attempts, final, runs, result, done.planned, done.replaces, fun link attached isTested => ?_⟩
  obtain ⟨later, stands'⟩ := done.stands
  have open_ := (Chain.mem_openTests stands').mpr ⟨stands'.mem_of_isAttached attached, isTested⟩
  exact (done.skipped link (runs.all_skipped stands link open_)).resolve_left List.not_mem_nil

/-! ## A chain whose inner link is passed over -/

namespace Chain

/-- Two chains on `a`.  The first fails and has its inner `if` as a link, the second can be replaced. -/
def nestedChains : Program := parse "if(a<4)if(a==0)x;else y;else z;if(a==0)x".toList

/-- `a` has eight values. -/
def nestedParts : Findings := ⟨[⟨"a", 8, "s", some "s", 0⟩], [], Journal.empty⟩

def nestedWork : Work := ⟨nestedChains.store, nestedParts, [], 0⟩

/-- The work when the first chain has failed. -/
def nestedFailed : Work := (flatten nestedWork 13).1

/-- The work when the second chain has been replaced. -/
def nestedDone : Work := (flatten nestedFailed 19).1

theorem nested_candidates : nestedChains.root = 20 ∧ candidates nestedWork 20 = [13, 10, 19] ∧
    (nestedWork.skipped.contains 13 = false ∧ nestedWork.store.isAttached 20 (some 13) = true ∧
      (flatten nestedWork 13).2 = false) ∧
    nestedFailed.skipped.contains 10 = true ∧
    (nestedFailed.skipped.contains 19 = false ∧ nestedFailed.store.isAttached 20 (some 19) = true ∧
      (flatten nestedFailed 19).2 = true) ∧
    candidates nestedDone 20 = [] := by decide +kernel

theorem nested_runs : Runs 20 nestedWork [⟨nestedWork, 13⟩, ⟨nestedFailed, 19⟩] nestedDone := by
  obtain ⟨-, first, ⟨fresh, attached, -⟩, passed, ⟨fresh', attached', succeeds⟩, second⟩ :=
    nested_candidates
  have tries : Walks 20 [13, 10, 19] nestedWork [⟨nestedWork, 13⟩, ⟨nestedFailed, 19⟩] nestedDone :=
    .tried fresh attached (.pass (.inl passed) (.tried fresh' attached' .done))
  rw [← first] at tries
  have ends : Walks 20 (candidates nestedDone 20) nestedDone [] nestedDone := by
    rw [second]
    exact .done
  have progress : [Attempt.mk nestedWork 13, ⟨nestedFailed, 19⟩].any Attempt.succeeds = true :=
    List.any_eq_true.mpr ⟨_, List.mem_cons_of_mem _ List.mem_cons_self, succeeds⟩
  exact .again tries progress (.last ends rfl)

/-- The inner `if` is still tested in the end, but it was never tried, and alone it could be replaced. -/
theorem inner_link_untried : ∃ attempts final,
    Runs nestedChains.root nestedWork attempts final ∧
      flattenChains nestedChains.store nestedChains.root nestedParts =
        (final.store, final.findings, final.count) ∧
      final.store.isAttached nestedChains.root (some 10) = true ∧
      (testedVariable? final.store final.findings 10).isSome = true ∧
      (∀ attempt ∈ attempts, attempt.link ≠ 10) ∧ (flatten final 10).2 = true := by
  obtain ⟨tree, stands⟩ : ∃ tree, nestedWork.store.Stands nestedChains.root tree := parse_stands _
  rw [nested_candidates.1] at stands ⊢
  have same : sweepAll 20 nestedChains.store.depthBound nestedWork = nestedDone := by
    obtain ⟨attempts, runs⟩ :=
      runs_sweepAll nestedChains.store.depthBound stands (Nat.lt_succ_of_le (length_openTests_le stands))
    exact (runs.unique nested_runs).2
  have left : nestedDone.store.isAttached 20 (some 10) = true ∧
      (testedVariable? nestedDone.store nestedDone.findings 10).isSome = true ∧
      (flatten nestedDone 10).2 = true := by decide +kernel
  refine ⟨_, _, nested_runs, ?_, left.1, left.2.1, by decide, left.2.2⟩
  rw [← same]
  rfl

/-- The second chain is replaced, and the two tests that are left are links of the first. -/
theorem nested_chains_finish : ∃ attempts final, Runs nestedChains.root nestedWork attempts final ∧
    attempts.map Attempt.succeeds = [false, true] ∧ final.count = 1 ∧
    (openTests nestedChains.root nestedWork).length = 3 ∧ openTests nestedChains.root final = [13, 10] ∧
    ∀ link ∈ [13, 10], ∃ attempt ∈ attempts, attempt.Fails link := by
  obtain ⟨tree, stands⟩ : ∃ tree, nestedChains.store.Stands nestedChains.root tree := parse_stands _
  obtain ⟨attempts, final, runs, -, -, -, failed⟩ := flattenChains_finishes nestedParts stands
  rw [nested_candidates.1] at runs failed ⊢
  obtain ⟨rfl, rfl⟩ := runs.unique nested_runs
  have left : [Attempt.mk nestedWork 13, ⟨nestedFailed, 19⟩].map Attempt.succeeds = [false, true] ∧
      nestedDone.count = 1 ∧ (openTests 20 nestedWork).length = 3 ∧ openTests 20 nestedDone = [13, 10] ∧
      ∀ link ∈ [13, 10], nestedDone.store.isAttached 20 (some link) = true ∧
        (testedVariable? nestedDone.store nestedDone.findings link).isSome = true := by decide +kernel
  obtain ⟨succeeds, count, before, after, tests⟩ := left
  exact ⟨_, _, runs, succeeds, count, before, after, fun link member =>
    failed link (tests link member).1 (tests link member).2⟩

end Chain

end Unflatten
