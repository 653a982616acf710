import Unflatten.Dispatch.Chain
import Unflatten.Proofs.Syntax.Tree

/-! # The leaves of a chain

`Leads` follows a chain of tests for one value of the tested name to the leaf that it
reaches: a branch, or nothing where an `else` is missing.  A plan that was made without a
failure serves every value of the domain with its leaf. -/

set_option autoImplicit false

namespace Unflatten.Chain

/-- The branch that an `if` takes for a value of a name, if its test is decided: none where
the `else` is missing. -/
def choice? (store : Store) (name : String) (value : Int) (link : NodeId) :
    Option (Option Slot) :=
  match parts? store link with
  | none => none
  | some (test, thenBody, elseBody) =>
    match evaluateCondition store (Environment.bind [] name (Value.ofInt value)) test with
    | .error _ => none
    | .ok true => some (some thenBody)
    | .ok false => some (if elseBody.isSome then some elseBody else none)

/-- The leaf that a value of a name reaches from a link. -/
inductive Leads (store : Store) (name : String) (value : Int) : NodeId → Option Slot → Prop
  | missing {link : NodeId} (chosen : choice? store name value link = some none) :
      Leads store name value link none
  | leaf {link : NodeId} {branch : Slot}
      (chosen : choice? store name value link = some (some branch))
      (last : nextLink? store name branch = none) : Leads store name value link (some branch)
  | next {link next : NodeId} {branch : Slot} {leaf : Option Slot}
      (chosen : choice? store name value link = some (some branch))
      (further : nextLink? store name branch = some next)
      (rest : Leads store name value next leaf) : Leads store name value link leaf

/-- The leaf that a value reaches from a branch. -/
def LeadsFrom (store : Store) (name : String) (branch : Slot) (value : Int)
    (leaf : Option Slot) : Prop :=
  match nextLink? store name branch with
  | some next => Leads store name value next leaf
  | none => leaf = some branch

section Leads
variable {store : Store} {name : String} {value : Int} {link : NodeId} {leaf : Option Slot}
  {branch : Slot}

theorem Leads.of_branch (chosen : choice? store name value link = some (some branch))
    (rest : LeadsFrom store name branch value leaf) : Leads store name value link leaf := by
  unfold LeadsFrom at rest
  cases further : nextLink? store name branch with
  | none =>
    rw [further] at rest
    subst rest
    exact .leaf chosen further
  | some next =>
    rw [further] at rest
    exact .next chosen further rest

/-- A value reaches one leaf. -/
theorem Leads.unique {other : Option Slot} (leads : Leads store name value link leaf)
    (also : Leads store name value link other) : leaf = other := by
  induction leads with
  | missing chosen =>
    cases also with
    | missing => rfl
    | leaf chosen' _ => cases chosen.symm.trans chosen'
    | next chosen' _ _ => cases chosen.symm.trans chosen'
  | leaf chosen last =>
    cases also with
    | missing chosen' => cases chosen.symm.trans chosen'
    | leaf chosen' _ => exact Option.some.inj (chosen.symm.trans chosen')
    | next chosen' further' _ =>
      cases chosen.symm.trans chosen'
      cases last.symm.trans further'
  | next chosen further _ ih =>
    cases also with
    | missing chosen' => cases chosen.symm.trans chosen'
    | leaf chosen' last' =>
      cases chosen.symm.trans chosen'
      cases further.symm.trans last'
    | next chosen' further' rest' =>
      cases chosen.symm.trans chosen'
      cases further.symm.trans further'
      exact ih rest'

theorem parts_of_testedName {slot : Slot} (tested : testedName? store slot = some name) :
    ∃ link test thenBody elseBody, slot = some link ∧
      parts? store link = some (test, thenBody, elseBody) := by
  cases slot with
  | none => cases tested
  | some link =>
    unfold testedName? at tested
    split at tested
    · rename_i test thenBody elseBody found
      exact ⟨link, test, thenBody, elseBody, rfl, by simp only [parts?, found]⟩
    · cases tested

theorem testedName_of_nextLink {next : NodeId} (further : nextLink? store name branch = some next) :
    testedName? store (some next) = some name := by
  unfold nextLink? at further
  split at further
  · split at further
    · rename_i same
      rw [further] at same
      exact eq_of_beq same
    · cases further
  · cases further

end Leads

/-! ## Splitting a domain -/

section Split
variable {store : Store} {name : String} {test : Slot} {values taken others : List Int}

/-- Whether a test is known to hold for a value. -/
def holdsFor (store : Store) (name : String) (test : Slot) (value : Int) : Bool :=
  match evaluateCondition store (Environment.bind [] name (Value.ofInt value)) test with
  | .ok holds => holds
  | .error _ => false

/-- A split decides the test for every value and keeps the order of both halves. -/
theorem split_ok (done : split store name test values = .ok (taken, others)) :
    (∀ value ∈ values, evaluateCondition store
        (Environment.bind [] name (Value.ofInt value)) test =
      .ok (holdsFor store name test value)) ∧
      taken = values.filter (holdsFor store name test) ∧
      others = values.filter fun value => !holdsFor store name test value := by
  induction values generalizing taken others with
  | nil =>
    cases done
    simp
  | cons value rest ih =>
    unfold split at done
    cases decided : evaluateCondition store
        (Environment.bind [] name (Value.ofInt value)) test with
    | error cause =>
      rw [decided] at done
      cases done
    | ok holds =>
      rw [decided] at done
      cases later : split store name test rest with
      | error cause =>
        rw [later] at done
        cases done
      | ok halves =>
        rw [later] at done
        obtain ⟨each, first, second⟩ := ih later
        have known : holdsFor store name test value = holds := by
          simp only [holdsFor, decided]
        refine ⟨?_, ?_, ?_⟩
        · intro other member
          rcases List.mem_cons.mp member with rfl | member
          · rw [known, decided]
          · exact each other member
        · cases holds <;> cases done <;> simp [known, first]
        · cases holds <;> cases done <;> simp [known, second]

end Split

/-! ## What a plan serves -/

namespace Plan

/-- A plan serves a value with a leaf: by a case, or by the default if there is no case.  A
value that reaches nothing has no case. -/
def Serves (plan : Plan) (value : Int) : Option Slot → Prop
  | some branch => plan.cases[value]? = some branch ∨
      plan.cases[value]? = none ∧ plan.default? = some branch
  | none => plan.cases[value]? = none

/-- One plan goes on from another without touching the cases outside some values. -/
structure Extends (plan later : Plan) (values : List Int) : Prop where
  frame : ∀ value, value ∉ values → later.cases[value]? = plan.cases[value]?
  stays : ∀ branch, plan.default? = some branch → later.default? = some branch

variable {plan middle later : Plan} {values first second : List Int}

theorem Extends.trans (before : plan.Extends middle first) (after : middle.Extends later second)
    (within : first ⊆ values) (inside : second ⊆ values) : plan.Extends later values := by
  constructor
  · intro value outside
    rw [after.frame value fun member => outside (inside member),
      before.frame value fun member => outside (within member)]
  · intro branch there
    exact after.stays branch (before.stays branch there)

theorem Extends.serves {value : Int} {leaf : Option Slot} (extends_ : plan.Extends later values)
    (outside : value ∉ values) (serves : plan.Serves value leaf) : later.Serves value leaf := by
  have same := extends_.frame value outside
  cases leaf with
  | none => exact same.trans serves
  | some branch =>
    rcases serves with case | ⟨none, default⟩
    · exact .inl (same.trans case)
    · exact .inr ⟨same.trans none, extends_.stays branch default⟩

end Plan

/-- What a part of a chain adds to a plan: it serves each of some values with its leaf, and a
default that it sets is the leaf of one of them. -/
structure Adds (leads : Int → Option Slot → Prop) (values : List Int) (plan later : Plan) :
    Prop where
  extends_ : plan.Extends later values
  serves : ∀ value ∈ values, ∃ leaf, leads value leaf ∧ later.Serves value leaf
  default : ∀ branch, later.default? = some branch →
    plan.default? = some branch ∨ ∃ value ∈ values, leads value (some branch)

section Plan
variable {store : Store} {name : String} {values : List Int} {plan later : Plan}

theorem Plan.assign_adds {branch : Slot} {leads : Int → Option Slot → Prop}
    (fresh : ∀ value ∈ values, plan.cases[value]? = none)
    (there : ∀ value ∈ values, leads value (some branch))
    (done : plan.assign branch values = (later, none)) : Adds leads values plan later := by
  match values, done with
  | [], done =>
    cases done
    exact ⟨⟨fun _ _ => rfl, fun _ set => set⟩, by simp, fun _ set => .inl set⟩
  | [value], done =>
    cases done
    refine ⟨⟨?_, fun _ set => set⟩, ?_, fun _ set => .inl set⟩
    · intro other outside
      have different : ¬ value = other := fun same => outside (by simp [same])
      simp [Std.TreeMap.getElem?_insert, different]
    · intro other member
      cases List.mem_singleton.mp member
      exact ⟨some branch, there _ member, .inl (by simp)⟩
  | first :: second :: rest, done =>
    unfold Plan.assign at done
    cases set : plan.default? with
    | some other =>
      rw [set] at done
      cases done
    | none =>
      rw [set] at done
      cases done
      refine ⟨⟨fun _ _ => rfl, ?_⟩, ?_, ?_⟩
      · intro other there
        cases set.symm.trans there
      · intro value member
        exact ⟨some branch, there value member, .inr ⟨fresh value member, rfl⟩⟩
      · intro other same
        cases same
        exact .inr ⟨first, List.mem_cons_self, there first List.mem_cons_self⟩

/-- The links of a plan do not matter to what is added to it. -/
theorem Adds.of_links {leads : Int → Option Slot → Prop} {links : List NodeId}
    (adds : Adds leads values { plan with links := links } later) :
    Adds leads values plan later :=
  ⟨⟨adds.extends_.frame, adds.extends_.stays⟩, adds.serves, adds.default⟩

theorem Adds.nothing (fresh : ∀ value ∈ values, plan.cases[value]? = none) :
    Adds (fun _ leaf => leaf = none) values plan plan :=
  ⟨⟨fun _ _ => rfl, fun _ set => set⟩, fun value member => ⟨none, rfl, fresh value member⟩,
    fun _ set => .inl set⟩

/-- Two branches of an `if` add what their halves of the values reach. -/
theorem Adds.both {middle : Plan} {first second : List Int}
    {leads leadsFirst leadsSecond : Int → Option Slot → Prop}
    (one : Adds leadsFirst first plan middle) (two : Adds leadsSecond second middle later)
    (apart : ∀ value ∈ first, value ∉ second)
    (all : ∀ value, value ∈ values ↔ value ∈ first ∨ value ∈ second)
    (fromFirst : ∀ value ∈ first, ∀ leaf, leadsFirst value leaf → leads value leaf)
    (fromSecond : ∀ value ∈ second, ∀ leaf, leadsSecond value leaf → leads value leaf) :
    Adds leads values plan later := by
  refine ⟨one.extends_.trans two.extends_ (fun _ member => (all _).mpr (.inl member))
    (fun _ member => (all _).mpr (.inr member)), ?_, ?_⟩
  · intro value member
    rcases (all value).mp member with here | there
    · obtain ⟨leaf, reached, served⟩ := one.serves value here
      exact ⟨leaf, fromFirst value here leaf reached,
        two.extends_.serves (apart value here) served⟩
    · obtain ⟨leaf, reached, served⟩ := two.serves value there
      exact ⟨leaf, fromSecond value there leaf reached, served⟩
  · intro branch set
    rcases two.default branch set with before | ⟨value, member, reached⟩
    · rcases one.default branch before with earlier | ⟨value, member, reached⟩
      · exact .inl earlier
      · exact .inr ⟨value, (all value).mpr (.inl member), fromFirst value member _ reached⟩
    · exact .inr ⟨value, (all value).mpr (.inr member), fromSecond value member _ reached⟩

end Plan

/-! ## Planning a chain -/

section PlanLink
variable {store : Store} {name : String} {tree : Tree} {link : NodeId} {branch : Slot}

/-- The statements of a branch are in its tree. -/
theorem blockStatements_within {id : NodeId} (holds : store.Holds tree) (root : tree.root = branch)
    (member : some id ∈ store.blockStatements branch) :
    ∃ inner, Tree.Within inner tree ∧ inner.root = some id := by
  cases holds with
  | nothing =>
    cases root
    cases member
  | @node name shape below found _ roots _ _ =>
    cases root
    unfold Store.blockStatements at member
    rw [Tree.root_node, found] at member
    split at member
    · rename_i statements same
      cases same
      change some id ∈ (Shape.block statements).slots at member
      rw [roots] at member
      obtain ⟨inner, there, rooted⟩ := List.mem_map.mp member
      exact ⟨inner, .deeper there .whole, rooted⟩
    · have here : id = name := by simpa using member
      exact ⟨_, .whole, by rw [here, Tree.root_node]⟩

theorem mem_of_nextLink {next : NodeId} (further : nextLink? store name branch = some next) :
    some next ∈ store.blockStatements branch := by
  unfold nextLink? at further
  split at further
  · rename_i only listed
    split at further
    · rw [listed, further]
      exact List.mem_cons_self
    · cases further
  · cases further

/-- The branches of a link stand right below it. -/
theorem exists_branch {test thenBody elseBody : Slot} (holds : store.Holds tree)
    (root : tree.root = some link) (parts : parts? store link = some (test, thenBody, elseBody))
    (either : branch = thenBody ∨ branch = elseBody) :
    ∃ id shape below part, tree = .node id shape below ∧ part ∈ below ∧ part.root = branch := by
  cases holds with
  | nothing => cases root
  | @node id shape below found _ roots _ inner =>
    cases root
    unfold parts? at parts
    rw [found] at parts
    split at parts
    · rename_i same
      cases same
      cases parts
      have listed : branch ∈ below.map Tree.root := by
        rw [← roots]
        rcases either with rfl | rfl <;> simp [Shape.slots]
      obtain ⟨part, there, rooted⟩ := List.mem_map.mp listed
      exact ⟨_, _, below, part, rfl, there, rooted⟩
    · cases parts

/-- Plans a branch: as a part of the chain if it holds a link, and as a leaf otherwise. -/
def planBranch (store : Store) (name : String) (depth : Nat) (branch : Slot) (values : List Int)
    (plan : Plan) : Plan × Option Failure :=
  match nextLink? store name branch with
  | some next => planLink store name depth next values plan
  | none => plan.assign branch values

theorem planLink_succ (depth : Nat) (values : List Int) (plan : Plan)
    {test thenBody elseBody : Slot} {taken others : List Int}
    (parts : parts? store link = some (test, thenBody, elseBody))
    (halves : split store name test values = .ok (taken, others)) :
    planLink store name (depth + 1) link values plan =
      match planBranch store name depth thenBody taken
          { plan with links := plan.links ++ [link] } with
      | (plan, some failure) => (plan, some failure)
      | (plan, none) =>
        if elseBody.isSome then planBranch store name depth elseBody others plan
        else (plan, none) := by
  simp only [planLink, parts, halves]
  rfl

/-- The two halves of the values stand apart. -/
theorem split_apart {test : Slot} {values taken others : List Int}
    (halves : split store name test values = .ok (taken, others)) :
    (∀ value ∈ taken, value ∉ others) ∧ ∀ value, value ∈ values ↔ value ∈ taken ∨ value ∈ others := by
  obtain ⟨-, rfl, rfl⟩ := split_ok halves
  refine ⟨fun value here there => ?_, fun value => ?_⟩
  · rw [List.mem_filter] at here there
    simp [here.2] at there
  · rw [List.mem_filter, List.mem_filter]
    cases holdsFor store name test value <;> simp

/-- The values go to the branch that their half is planned for. -/
theorem choice?_split {test thenBody elseBody : Slot} {values taken others : List Int}
    (parts : parts? store link = some (test, thenBody, elseBody))
    (halves : split store name test values = .ok (taken, others)) :
    (∀ value ∈ taken, choice? store name value link = some (some thenBody)) ∧
      ∀ value ∈ others, choice? store name value link =
        some (if elseBody.isSome then some elseBody else none) := by
  have all := (split_apart halves).2
  obtain ⟨decided, first, second⟩ := split_ok halves
  refine ⟨fun value member => ?_, fun value member => ?_⟩
  · have known := decided value ((all value).mpr (.inl member))
    rw [first, List.mem_filter] at member
    rw [member.2] at known
    simp only [choice?, parts, known]
  · have known := decided value ((all value).mpr (.inr member))
    rw [second, List.mem_filter] at member
    have fails : holdsFor store name test value = false := by simpa using member.2
    rw [fails] at known
    simp only [choice?, parts, known]

/-- Planning at some depth serves the values that reach a link. -/
def PlansTo (store : Store) (name : String) (depth : Nat) : Prop :=
  ∀ {tree : Tree} {link : NodeId} {values : List Int} {plan later : Plan}, store.Holds tree →
    tree.root = some link → tree.height ≤ depth → testedName? store (some link) = some name →
    values.Nodup → (∀ value ∈ values, plan.cases[value]? = none) →
    planLink store name depth link values plan = (later, none) →
      Adds (fun value leaf => Leads store name value link leaf) values plan later

theorem planBranch_adds {depth : Nat} {values : List Int} {plan later : Plan}
    {test thenBody elseBody : Slot} (plans : PlansTo store name depth) (holds : store.Holds tree)
    (root : tree.root = some link) (deep : tree.height ≤ depth + 1)
    (parts : parts? store link = some (test, thenBody, elseBody))
    (either : branch = thenBody ∨ branch = elseBody) (nodup : values.Nodup)
    (fresh : ∀ value ∈ values, plan.cases[value]? = none)
    (done : planBranch store name depth branch values plan = (later, none)) :
    Adds (LeadsFrom store name branch) values plan later := by
  unfold LeadsFrom
  unfold planBranch at done
  cases further : nextLink? store name branch with
  | none =>
    rw [further] at done
    exact Plan.assign_adds fresh (fun _ _ => rfl) done
  | some next =>
    rw [further] at done
    obtain ⟨id, shape, below, part, rfl, member, rooted⟩ := exists_branch holds root parts either
    have contained := holds.within (.deeper member .whole)
    have lower := @Tree.height_lt_node _ id shape _ member
    obtain ⟨inner, within, there⟩ := blockStatements_within contained rooted (mem_of_nextLink further)
    have low := within.height_le
    exact plans (contained.within within) there (by omega) (testedName_of_nextLink further)
      nodup fresh done

/-- Planning the part of a chain below a link serves the values that reach it. -/
theorem plansTo (store : Store) (name : String) (depth : Nat) : PlansTo store name depth := by
  induction depth with
  | zero =>
    intro tree link values plan later _ root deep
    cases tree with
    | nothing => cases root
    | node => exact absurd deep (Nat.not_succ_le_zero _)
  | succ depth ih =>
    intro tree link values plan later holds root deep tested nodup fresh done
    obtain ⟨_, test, thenBody, elseBody, same, parts⟩ := parts_of_testedName tested
    cases same
    cases halves : split store name test values with
    | error cause =>
      simp only [planLink, parts, halves] at done
      cases done
    | ok pair =>
      obtain ⟨taken, others⟩ := pair
      obtain ⟨-, first, second⟩ := split_ok halves
      obtain ⟨apart, all⟩ := split_apart halves
      obtain ⟨chosenThen, chosenElse⟩ := choice?_split parts halves
      rw [planLink_succ depth values plan parts halves] at done
      cases ran : planBranch store name depth thenBody taken
          { plan with links := plan.links ++ [link] } with
      | mk middle failure =>
        rw [ran] at done
        cases failure with
        | some failure => cases done
        | none =>
          have unserved : ∀ value ∈ taken,
              ({ plan with links := plan.links ++ [link] } : Plan).cases[value]? = none :=
            fun value member => fresh value ((all value).mpr (.inl member))
          have one : Adds (LeadsFrom store name thenBody) taken plan middle := by
            refine Adds.of_links (planBranch_adds ih holds root deep parts (.inl rfl) ?_ unserved ran)
            rw [first]
            exact nodup.filter _
          have still : ∀ value ∈ others, middle.cases[value]? = none := by
            intro value member
            rw [one.extends_.frame value fun here => apart value here member]
            exact fresh value ((all value).mpr (.inr member))
          have fromThen : ∀ value ∈ taken, ∀ leaf, LeadsFrom store name thenBody value leaf →
              Leads store name value link leaf :=
            fun value member leaf reached => .of_branch (chosenThen value member) reached
          cases present : elseBody.isSome with
          | true =>
            simp only [present, if_true] at done
            have two := planBranch_adds ih holds root deep parts (.inr rfl)
              (by rw [second]; exact nodup.filter _) still done
            refine one.both two apart all fromThen ?_
            intro value member leaf reached
            exact .of_branch (by rw [chosenElse value member, present, if_pos rfl]) reached
          | false =>
            simp only [present, Bool.false_eq_true, if_false] at done
            cases done
            refine one.both (Adds.nothing still) apart all fromThen ?_
            intro value member leaf reached
            subst reached
            exact .missing (by rw [chosenElse value member, present, if_neg Bool.false_ne_true])

/-- A leaf is below the link that leads to it. -/
theorem Leads.leaf_within {value : Int} {start : NodeId} {leaf : Option Slot}
    (leads : Leads store name value start leaf) (reached : leaf = some branch)
    (holds : store.Holds tree) (root : tree.root = some start) :
    ∃ id shape below child part, tree = .node id shape below ∧ child ∈ below ∧
      Tree.Within part child ∧ part.root = branch := by
  have chosenBelow : ∀ {link : NodeId} {taken : Slot} {tree : Tree},
      choice? store name value link = some (some taken) → store.Holds tree →
      tree.root = some link → ∃ id shape below part, tree = .node id shape below ∧
        part ∈ below ∧ part.root = taken := by
    intro link taken tree chosen holds root
    unfold choice? at chosen
    split at chosen
    · cases chosen
    · rename_i test thenBody elseBody parts
      refine exists_branch holds root parts ?_
      split at chosen
      · cases chosen
      · cases chosen
        exact .inl rfl
      · split at chosen
        · cases chosen
          exact .inr rfl
        · cases chosen
  induction leads generalizing tree with
  | missing => cases reached
  | leaf chosen _ =>
    cases reached
    obtain ⟨id, shape, below, part, same, member, rooted⟩ := chosenBelow chosen holds root
    exact ⟨id, shape, below, part, part, same, member, .whole, rooted⟩
  | next chosen further _ ih =>
    obtain ⟨id, shape, below, part, rfl, member, rooted⟩ := chosenBelow chosen holds root
    have contained := holds.within (.deeper member .whole)
    obtain ⟨inner, within, there⟩ := blockStatements_within contained rooted
      (mem_of_nextLink further)
    obtain ⟨_, _, _, child, deep, rfl, below', within', rooted'⟩ :=
      ih reached (contained.within within) there
    exact ⟨id, shape, below, part, deep, rfl, member,
      (within'.trans (.deeper below' .whole)).trans within, rooted'⟩

end PlanLink

end Unflatten.Chain
