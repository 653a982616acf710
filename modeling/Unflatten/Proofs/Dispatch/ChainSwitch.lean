import Unflatten.Proofs.Dispatch.ChainLeaves
import Unflatten.Proofs.Evaluation.Denotation
import Unflatten.Dispatch.CaseTable
import Unflatten.Proofs.Syntax.Editing

/-! # The `switch` of a chain

The `switch` that replaces a chain has a clause for each leaf that a value reaches.  Every
value of the domain selects the clause of its leaf.  Only a value that reaches a missing
`else` can select a clause that is not its own: the default, if there is one. -/

set_option autoImplicit false

namespace Unflatten

namespace Store

/-- The value of the label of a clause. -/
def labelKey? (store : Store) (clause : Slot) : Option Int :=
  match store.shape? clause with
  | some (.clause false label _) => (evaluateKey store [] label).toOption
  | _ => none

/-- Whether a clause is a default clause. -/
def isDefault (store : Store) (clause : Slot) : Bool :=
  match store.shape? clause with
  | some (.clause true _ _) => true
  | _ => false

/-- The clause at which a `switch` starts for a value: the first with that label, or else
the default; of several the last one counts. -/
def selected? (store : Store) (value : Int) (clauses : List Slot) : Option Slot :=
  (clauses.find? fun clause => store.labelKey? clause == some value).or
    (clauses.reverse.find? store.isDefault)

/-- A node that is not in an earlier store. -/
def IsNew (before store : Store) (id : NodeId) (shape : Shape) : Prop :=
  before.nodes.size ≤ id ∧ store.shape? (some id) = some shape

/-- The one store goes on from the other by making nodes, and a node keeps its parent. -/
structure Grows (link : NodeId) (store later : Store) : Prop where
  keeps : store.Keeps later
  size : store.nodes.size ≤ later.nodes.size
  parent : link < store.nodes.size → later.parent (some link) = store.parent (some link)

section Grows
variable {link : NodeId} {before store middle later : Store} {id : NodeId} {shape : Shape}

theorem Grows.refl (link : NodeId) (store : Store) : Grows link store store :=
  ⟨.refl store, Nat.le_refl _, fun _ => rfl⟩

theorem Grows.trans (first : Grows link store middle) (second : Grows link middle later) :
    Grows link store later := by
  refine ⟨first.keeps.trans second.keeps, Nat.le_trans first.size second.size, ?_⟩
  intro bound
  rw [second.parent (Nat.lt_of_lt_of_le bound first.size), first.parent bound]

theorem grows_make (outside : some link ∉ shape.slots) : Grows link store (store.make shape).1 := by
  refine ⟨keeps_make store shape, ?_, ?_⟩
  · rw [size_make]
    exact Nat.le_succ _
  · intro bound
    rw [parent_make store shape link bound, if_neg outside]

theorem IsNew.carry (new : IsNew before store id shape) (grows : Grows link store later) :
    IsNew before later id shape := ⟨new.1, grows.keeps id shape new.2⟩

theorem isNew_make (grows : before.nodes.size ≤ store.nodes.size) :
    IsNew before (store.make shape).1 store.nodes.size shape :=
  ⟨grows, shape?_make_id store shape⟩

/-- The statements of a branch stay the same. -/
theorem blockStatements_keeps {branch : Slot} {part : Tree} (holds : store.Holds part)
    (root : part.root = branch) (keeps : store.Keeps later) :
    later.blockStatements branch = store.blockStatements branch := by
  subst root
  cases holds with
  | nothing => rfl
  | node found => simp only [blockStatements, Tree.root_node, found, keeps _ _ found]

/-- The statements of a branch are in the store. -/
theorem exists_shape_of_mem_blockStatements {branch statement : Slot} {part : Tree}
    (holds : store.Holds part) (root : part.root = branch)
    (member : statement ∈ store.blockStatements branch) :
    statement = none ∨ ∃ shape, store.shape? statement = some shape := by
  subst root
  cases holds with
  | nothing => cases member
  | @node id shape below found _ roots _ inner =>
    unfold blockStatements at member
    rw [Tree.root_node, found] at member
    split at member
    · rename_i statements same
      cases same
      change statement ∈ (Shape.block statements).slots at member
      rw [roots] at member
      obtain ⟨part, there, rooted⟩ := List.mem_map.mp member
      subst rooted
      cases inner part there with
      | nothing => exact .inl rfl
      | node found => exact .inr ⟨_, found⟩
    · have here : statement = some id := by simpa using member
      subst here
      exact .inr ⟨shape, found⟩

end Grows

end Store

namespace Chain

open Store

/-! ## Clauses -/

/-- The statements of a branch, closed by a `break` if they do not end their list. -/
def Closed (before store : Store) (branch : Slot) (statements : List Slot) : Prop :=
  if (before.blockStatements branch).getLast?.any before.isTerminator then
    statements = before.blockStatements branch
  else ∃ leave, IsNew before store leave (.jump .breaks none) ∧
    statements = before.blockStatements branch ++ [some leave]

/-- The contents of a clause: one block with the closed statements of a branch. -/
def Wraps (before store : Store) (branch : Slot) (contents : List Slot) : Prop :=
  ∃ block statements, contents = [some block] ∧ IsNew before store block (.block statements) ∧
    Closed before store branch statements

/-- The clause with the label of a value that runs a branch. -/
def IsCase (before store : Store) (value : Int) (branch clause : Slot) : Prop :=
  ∃ id label text contents, clause = some id ∧
    IsNew before store id (.clause false (some label) contents) ∧
    IsNew before store label (.literal .number text (some (Float.ofInt value))) ∧
    Wraps before store branch contents

/-- The default clause that runs a branch. -/
def IsDefault (before store : Store) (branch clause : Slot) : Prop :=
  ∃ id contents, clause = some id ∧ IsNew before store id (.clause true none contents) ∧
    Wraps before store branch contents

section Clauses
variable {link : NodeId} {before store later : Store} {branch label clause : Slot} {part : Tree}
  {statements contents : List Slot} {value : Int}

theorem Closed.carry (carries : ∀ id shape, IsNew before store id shape → IsNew before later id shape)
    (closed : Closed before store branch statements) : Closed before later branch statements := by
  unfold Closed at closed ⊢
  split
  · rename_i ends
    rwa [if_pos ends] at closed
  · rename_i open_
    rw [if_neg open_] at closed
    obtain ⟨leave, new, same⟩ := closed
    exact ⟨leave, carries _ _ new, same⟩

theorem Wraps.carry (carries : ∀ id shape, IsNew before store id shape → IsNew before later id shape)
    (wraps : Wraps before store branch contents) : Wraps before later branch contents := by
  obtain ⟨block, statements, same, new, closed⟩ := wraps
  exact ⟨block, statements, same, carries _ _ new, closed.carry carries⟩

theorem IsCase.carry (carries : ∀ id shape, IsNew before store id shape → IsNew before later id shape)
    (isCase : IsCase before store value branch clause) :
    IsCase before later value branch clause := by
  obtain ⟨id, label, text, contents, same, new, number, wraps⟩ := isCase
  exact ⟨id, label, text, contents, same, carries _ _ new, carries _ _ number,
    wraps.carry carries⟩

theorem IsDefault.carry
    (carries : ∀ id shape, IsNew before store id shape → IsNew before later id shape)
    (isDefault : IsDefault before store branch clause) :
    IsDefault before later branch clause := by
  obtain ⟨id, contents, same, new, wraps⟩ := isDefault
  exact ⟨id, contents, same, carries _ _ new, wraps.carry carries⟩

theorem isTerminator_keeps {statement : Slot}
    (known : statement = none ∨ ∃ shape, before.shape? statement = some shape)
    (keeps : before.Keeps store) : store.isTerminator statement = before.isTerminator statement := by
  rcases known with rfl | ⟨shape, found⟩
  · rfl
  · simp only [Store.isTerminator, satisfies, found, keeps.shape? found]

/-- A clause for a branch is made of new nodes. -/
theorem makeBranchClause_grows (holds : before.Holds part) (root : part.root = branch)
    (grows : Grows link before store) (inside : link < before.nodes.size) (other : some link ≠ label)
    (outside : some link ∉ before.blockStatements branch) :
    Grows link store (makeBranchClause store label branch).1 ∧
      ∃ contents, IsNew before (makeBranchClause store label branch).1
        (makeBranchClause store label branch).2 (.clause label.isNone label contents) ∧
        Wraps before (makeBranchClause store label branch).1 branch contents := by
  have same := blockStatements_keeps holds root grows.keeps
  have fresh : link ≠ store.nodes.size := Nat.ne_of_lt (Nat.lt_of_lt_of_le inside grows.size)
  have ends : (before.blockStatements branch).getLast?.any store.isTerminator =
      (before.blockStatements branch).getLast?.any before.isTerminator := by
    cases last : (before.blockStatements branch).getLast? with
    | none => rfl
    | some statement =>
      have known := exists_shape_of_mem_blockStatements holds root (List.mem_of_getLast? last)
      exact isTerminator_keeps known grows.keeps
  have clauses : ∀ {store' : Store} {statements : List Slot}, Grows link store store' →
      some link ∉ statements → Closed before store' branch statements →
      Grows link store (((store'.makeBlock statements).1).makeClause label
          [some (store'.makeBlock statements).2]).1 ∧
        ∃ contents, IsNew before (((store'.makeBlock statements).1).makeClause label
            [some (store'.makeBlock statements).2]).1
          (((store'.makeBlock statements).1).makeClause label
            [some (store'.makeBlock statements).2]).2 (.clause label.isNone label contents) ∧
          Wraps before (((store'.makeBlock statements).1).makeClause label
            [some (store'.makeBlock statements).2]).1 branch contents := by
    intro store' statements more apart closed
    have size := Nat.le_trans grows.size more.size
    have away : link ≠ store'.nodes.size := Nat.ne_of_lt (Nat.lt_of_lt_of_le inside size)
    have block : Grows link store' (store'.makeBlock statements).1 := grows_make apart
    have wrapped : Grows link (store'.makeBlock statements).1
        (((store'.makeBlock statements).1).makeClause label
          [some (store'.makeBlock statements).2]).1 := by
      refine grows_make ?_
      simpa [Shape.slots, makeBlock, away] using other
    refine ⟨more.trans (block.trans wrapped), _, isNew_make (Nat.le_trans size block.size),
      _, statements, rfl, ?_, ?_⟩
    · exact IsNew.carry (isNew_make size) wrapped
    · exact closed.carry fun _ _ new => (new.carry block).carry wrapped
  by_cases closes : (before.blockStatements branch).getLast?.any before.isTerminator
  · have made : makeBranchClause store label branch =
        ((store.makeBlock (before.blockStatements branch)).1).makeClause label
          [some (store.makeBlock (before.blockStatements branch)).2] := by
      simp only [makeBranchClause, same, ends, closes, if_true]
    rw [made]
    exact clauses (.refl link store) outside (by rw [Closed, if_pos closes])
  · have made : makeBranchClause store label branch =
        ((store.makeBreak.1.makeBlock (before.blockStatements branch ++
          [some store.makeBreak.2])).1).makeClause label
          [some (store.makeBreak.1.makeBlock (before.blockStatements branch ++
            [some store.makeBreak.2])).2] := by
      simp only [makeBranchClause, same, ends, closes, Bool.false_eq_true, if_false]
    have leave : Grows link store store.makeBreak.1 := grows_make (by simp [Shape.slots])
    rw [made]
    refine clauses leave ?_ ?_
    · simpa [makeBreak, fresh] using outside
    · rw [Closed, if_neg closes]
      exact ⟨_, isNew_make grows.size, rfl⟩

end Clauses

/-! ## The clauses of a plan -/

/-- The case that a plan makes for a value and a branch. -/
def makeCase (store : Store) (value : Int) (branch : Slot) : Store × NodeId :=
  let (store, label) := store.makeNumber (Float.ofInt value)
  makeBranchClause store (some label) branch

/-- The cases that a plan makes, behind others. -/
def makeCases (pairs : List (Int × Slot)) (state : Store × Array Slot) : Store × Array Slot :=
  pairs.foldl (fun state (value, branch) =>
    let (store, clause) := makeCase state.1 value branch
    (store, state.2.push (some clause))) state

/-- The default clause that a plan makes behind its cases, if it has a default. -/
def makeDefault (default? : Option Slot) (state : Store × Array Slot) : Store × Array Slot :=
  match default? with
  | some branch =>
    let (store, clause) := makeBranchClause state.1 none branch
    (store, state.2.push (some clause))
  | none => state

theorem makeSwitch_eq (plan : Plan) (store : Store) (name : String) :
    plan.makeSwitch store name =
      let (store, clauses) := makeDefault plan.default? (makeCases plan.cases.toList (store, #[]))
      let (store, discriminant) := store.makeIdentifier name
      store.make (.switch (some discriminant) clauses.toList) := by
  unfold Plan.makeSwitch makeDefault
  cases plan.default? <;> rfl

section Plans
variable {link : NodeId} {before store : Store} {branch : Slot}

/-- A branch of a chain: in the store, and without the chain in it. -/
def IsBranch (before : Store) (link : NodeId) (branch : Slot) : Prop :=
  (∃ part, before.Holds part ∧ part.root = branch) ∧ some link ∉ before.blockStatements branch

theorem makeCase_grows (isBranch : IsBranch before link branch) (grows : Grows link before store)
    (inside : link < before.nodes.size) (value : Int) :
    Grows link store (makeCase store value branch).1 ∧
      IsCase before (makeCase store value branch).1 value branch
        (some (makeCase store value branch).2) := by
  obtain ⟨⟨part, holds, root⟩, outside⟩ := isBranch
  have fresh : link ≠ store.nodes.size := Nat.ne_of_lt (Nat.lt_of_lt_of_le inside grows.size)
  have number : Grows link store (store.makeNumber (Float.ofInt value)).1 :=
    grows_make (by simp [Shape.slots])
  have apart : some link ≠ some (store.makeNumber (Float.ofInt value)).2 := by
    simpa [makeNumber] using fresh
  obtain ⟨more, contents, new, wraps⟩ :=
    makeBranchClause_grows holds root (grows.trans number) inside apart outside
  refine ⟨number.trans more, _, _, Number.format (Float.ofInt value), contents, rfl, new, ?_,
    wraps⟩
  exact IsNew.carry (isNew_make grows.size) more

theorem makeCases_grow {pairs : List (Int × Slot)} {clauses : Array Slot}
    (branches : ∀ pair ∈ pairs, IsBranch before link pair.2) (grows : Grows link before store)
    (inside : link < before.nodes.size) :
    Grows link store (makeCases pairs (store, clauses)).1 ∧
      ∃ cases, (makeCases pairs (store, clauses)).2.toList = clauses.toList ++ cases ∧
        List.Forall₂ (fun pair clause =>
          IsCase before (makeCases pairs (store, clauses)).1 pair.1 pair.2 clause) pairs cases := by
  induction pairs generalizing store clauses with
  | nil => exact ⟨.refl link store, [], (List.append_nil _).symm, .nil⟩
  | cons pair rest ih =>
    obtain ⟨value, branch⟩ := pair
    obtain ⟨more, isCase⟩ := makeCase_grows (branches (value, branch) List.mem_cons_self) grows
      inside value
    obtain ⟨others, cases, listed, all⟩ := @ih _
      (clauses.push (some (makeCase store value branch).2))
      (fun pair member => branches pair (List.mem_cons_of_mem _ member)) (grows.trans more)
    refine ⟨more.trans others, some (makeCase store value branch).2 :: cases, ?_, ?_⟩
    · rw [Array.toList_push, List.append_assoc] at listed
      exact listed
    · exact .cons (isCase.carry fun _ _ new => new.carry others) all

theorem makeDefault_grows {default? : Option Slot} {clauses : Array Slot}
    (branches : ∀ branch, default? = some branch → IsBranch before link branch)
    (grows : Grows link before store) (inside : link < before.nodes.size) :
    Grows link store (makeDefault default? (store, clauses)).1 ∧
      ∃ defaults, (makeDefault default? (store, clauses)).2.toList = clauses.toList ++ defaults ∧
        List.Forall₂ (IsDefault before (makeDefault default? (store, clauses)).1)
          default?.toList defaults := by
  cases default? with
  | none => exact ⟨.refl link store, [], (List.append_nil _).symm, .nil⟩
  | some branch =>
    obtain ⟨⟨part, holds, root⟩, outside⟩ := branches branch rfl
    obtain ⟨more, contents, new, wraps⟩ := makeBranchClause_grows holds root grows inside
      (Option.some_ne_none link) outside
    exact ⟨more, [some (makeBranchClause store none branch).2], Array.toList_push ..,
      .cons ⟨_, contents, rfl, new, wraps⟩ .nil⟩

/-- The `switch` of a plan: the cases of its values, then the clause of its default. -/
structure IsSwitchOf (before store : Store) (plan : Plan) (name : String) (switch : NodeId)
    (cases defaults : List Slot) : Prop where
  built : ∃ discriminant, IsNew before store discriminant (.identifier name) ∧
    IsNew before store switch (.switch (some discriminant) (cases ++ defaults))
  cases : List.Forall₂ (fun pair clause => IsCase before store pair.1 pair.2 clause)
    plan.cases.toList cases
  defaults : List.Forall₂ (IsDefault before store) plan.default?.toList defaults

theorem IsSwitchOf.carry {later : Store} {plan : Plan} {name : String} {switch : NodeId}
    {cases defaults : List Slot}
    (carries : ∀ id shape, IsNew before store id shape → IsNew before later id shape)
    (isSwitch : IsSwitchOf before store plan name switch cases defaults) :
    IsSwitchOf before later plan name switch cases defaults := by
  obtain ⟨⟨discriminant, name_, built⟩, all, others⟩ := isSwitch
  refine ⟨⟨discriminant, carries _ _ name_, carries _ _ built⟩, ?_, ?_⟩
  · exact all.imp fun _ _ isCase => isCase.carry carries
  · exact others.imp fun _ _ isDefault => isDefault.carry carries

theorem makeSwitch_grows {plan : Plan} {name : String}
    (branches : ∀ pair ∈ plan.cases.toList, IsBranch before link pair.2)
    (default : ∀ branch, plan.default? = some branch → IsBranch before link branch)
    (inside : link < before.nodes.size) :
    Grows link before (plan.makeSwitch before name).1 ∧
      ∃ cases defaults, IsSwitchOf before (plan.makeSwitch before name).1 plan name
        (plan.makeSwitch before name).2 cases defaults := by
  obtain ⟨first, cases, listed, all⟩ := @makeCases_grow link before before plan.cases.toList #[]
    branches (.refl link before) inside
  obtain ⟨second, defaults, listed', all'⟩ := @makeDefault_grows link before _ plan.default?
    (makeCases plan.cases.toList (before, #[])).2 default first inside
  generalize switched : makeDefault plan.default? (makeCases plan.cases.toList (before, #[])) =
    state at second listed' all'
  obtain ⟨store, clauses⟩ := state
  have grown := first.trans second
  have name_ : Grows link store (store.makeIdentifier name).1 := grows_make (by simp [Shape.slots])
  have size := Nat.le_trans grown.size name_.size
  have whole : clauses.toList = cases ++ defaults := by
    rw [listed', listed, List.nil_append]
  have fresh : some link ∉ cases ++ defaults := by
    intro member
    rcases List.mem_append.mp member with here | here
    · obtain ⟨pair, _, isCase⟩ := exists_of_mem_forall₂ all here
      obtain ⟨id, _, _, _, same, new, _⟩ := isCase
      cases same
      exact absurd new.1 (Nat.not_le_of_lt inside)
    · obtain ⟨branch, _, isDefault⟩ := exists_of_mem_forall₂ all' here
      obtain ⟨id, _, same, new, _⟩ := isDefault
      cases same
      exact absurd new.1 (Nat.not_le_of_lt inside)
  have more : Grows link (store.makeIdentifier name).1
      ((store.makeIdentifier name).1.make
        (.switch (some (store.makeIdentifier name).2) clauses.toList)).1 := by
    have apart : link ≠ store.nodes.size :=
      Nat.ne_of_lt (Nat.lt_of_lt_of_le inside grown.size)
    refine grows_make ?_
    rw [whole]
    simpa [Shape.slots, makeIdentifier, apart] using fresh
  have made : plan.makeSwitch before name = (store.makeIdentifier name).1.make
      (.switch (some (store.makeIdentifier name).2) clauses.toList) := by
    rw [makeSwitch_eq, switched]
  rw [made]
  refine ⟨grown.trans (name_.trans more), cases, defaults,
    ⟨(store.makeIdentifier name).2, ?_, ?_⟩, ?_, ?_⟩
  · exact IsNew.carry (isNew_make grown.size) more
  · rw [whole]
    exact isNew_make size
  · refine all.imp fun pair clause isCase => ?_
    exact isCase.carry fun _ _ new => ((new.carry second).carry name_).carry more
  · refine all'.imp fun branch clause isDefault => ?_
    exact isDefault.carry fun _ _ new => (new.carry name_).carry more

end Plans

/-! ## The clause of a value -/

section Selection
variable {before store : Store} {branch clause : Slot} {value : Int} {plan : Plan}
  {name : String} {switch : NodeId} {cases defaults : List Slot}

theorem IsCase.labelKey (isCase : IsCase before store value branch clause)
    (safe : value.natAbs < 2 * Number.implicitBit) : store.labelKey? clause = some value := by
  obtain ⟨id, label, text, contents, rfl, new, number, _⟩ := isCase
  have evaluated : evaluate store [] (some label) = .ok (.number (Float.ofInt value)) := by
    simp only [evaluate, maxEvaluationDepth, evaluateWithin, number.2]
  have key : Value.toKey (.number (Float.ofInt value)) = .ok value := by
    simp only [Value.toKey, Number.safeInteger?_ofInt value safe]
  simp only [labelKey?, new.2, evaluateKey, evaluated, Except.bind, key, Except.toOption]

theorem IsCase.not_isDefault (isCase : IsCase before store value branch clause) :
    store.isDefault clause = false := by
  obtain ⟨id, label, text, contents, rfl, new, _⟩ := isCase
  simp only [Store.isDefault, new.2]

theorem IsDefault.labelKey (isDefault : IsDefault before store branch clause) :
    store.labelKey? clause = none := by
  obtain ⟨id, contents, rfl, new, _⟩ := isDefault
  simp only [labelKey?, new.2]

theorem IsDefault.isDefault (isDefault : IsDefault before store branch clause) :
    store.isDefault clause = true := by
  obtain ⟨id, contents, rfl, new, _⟩ := isDefault
  simp only [Store.isDefault, new.2]

/-- The first case with the label of a value is the case of its pair. -/
theorem find_case {pairs : List (Int × Slot)}
    (all : List.Forall₂ (fun pair clause => IsCase before store pair.1 pair.2 clause) pairs cases)
    (safe : ∀ pair ∈ pairs, pair.1.natAbs < 2 * Number.implicitBit) (value : Int) :
    match cases.find? fun clause => store.labelKey? clause == some value with
    | some clause => ∃ branch, (value, branch) ∈ pairs ∧ IsCase before store value branch clause
    | none => ∀ branch, (value, branch) ∉ pairs := by
  induction all with
  | nil => exact fun _ => List.not_mem_nil
  | @cons pair clause pairs cases isCase _ ih =>
    obtain ⟨label, branch⟩ := pair
    have key := isCase.labelKey (safe _ List.mem_cons_self)
    have others := ih fun pair member => safe pair (List.mem_cons_of_mem _ member)
    by_cases same : label = value
    · subst same
      rw [List.find?_cons_of_pos (by rw [key]; exact beq_self_eq_true _)]
      exact ⟨branch, List.mem_cons_self, isCase⟩
    · rw [List.find?_cons_of_neg (by rw [key]; simpa using same)]
      split at others
      · obtain ⟨branch, member, found⟩ := others
        exact ⟨branch, List.mem_cons_of_mem _ member, found⟩
      · intro branch member
        rcases List.mem_cons.mp member with here | later
        · cases here
          exact same rfl
        · exact others branch later

/-- A value selects its own case, else the default, else nothing. -/
theorem IsSwitchOf.selected (isSwitch : IsSwitchOf before store plan name switch cases defaults)
    (safe : ∀ pair ∈ plan.cases.toList, pair.1.natAbs < 2 * Number.implicitBit) (value : Int) :
    match plan.cases[value]?, plan.default? with
    | some branch, _ => ∃ clause, store.selected? value (cases ++ defaults) = some clause ∧
        IsCase before store value branch clause
    | none, some branch => ∃ clause, store.selected? value (cases ++ defaults) = some clause ∧
        IsDefault before store branch clause
    | none, none => store.selected? value (cases ++ defaults) = none := by
  have noLabel : (defaults.find? fun clause => store.labelKey? clause == some value) = none := by
    refine List.find?_eq_none.mpr fun clause member => ?_
    obtain ⟨branch, _, isDefault⟩ := exists_of_mem_forall₂ isSwitch.defaults member
    rw [isDefault.labelKey]
    exact Bool.false_ne_true
  have noDefault : cases.reverse.find? store.isDefault = none := by
    refine List.find?_eq_none.mpr fun clause member => ?_
    obtain ⟨pair, _, isCase⟩ := exists_of_mem_forall₂ isSwitch.cases (List.mem_reverse.mp member)
    rw [isCase.not_isDefault]
    exact Bool.false_ne_true
  have found := find_case isSwitch.cases safe value
  unfold Store.selected?
  rw [List.find?_append, noLabel, Option.or_none, List.reverse_append, List.find?_append, noDefault,
    Option.or_none]
  split at found
  · rename_i clause there
    obtain ⟨branch, member, isCase⟩ := found
    rw [Std.TreeMap.mem_toList_iff_getElem?_eq_some] at member
    rw [member, there]
    exact ⟨clause, rfl, isCase⟩
  · rename_i nowhere
    have missing : plan.cases[value]? = none := by
      cases present : plan.cases[value]? with
      | none => rfl
      | some branch =>
        rw [← Std.TreeMap.mem_toList_iff_getElem?_eq_some] at present
        exact absurd present (found branch)
    rw [missing, nowhere, Option.none_or]
    have all := isSwitch.defaults
    cases set : plan.default? with
    | none =>
      rw [set] at all
      cases all
      rfl
    | some branch =>
      rw [set] at all
      cases all with
      | cons isDefault rest =>
        cases rest
        refine ⟨_, ?_, isDefault⟩
        rw [List.reverse_singleton, List.find?_cons_of_pos isDefault.isDefault]

end Selection

/-! ## The replaced chain -/

/-- A node stands for another below its parent, and no other node has a new shape. -/
def StandsFor (before after : Store) (old new : NodeId) : Prop :=
  ∃ parent shape slots, before.parent (some old) = some parent ∧
    before.shape? (some parent) = some shape ∧
    replaceFirst shape.slots (some old) (some new) = some slots ∧
    after.shape? (some parent) = some (shape.withSlots slots) ∧
    after.parent (some new) = some parent ∧
    ∀ id, id ≠ parent → ∀ shape, before.shape? (some id) = some shape →
      after.shape? (some id) = some shape

/-- Among some clauses a value selects the one that runs a leaf: the statements of the
branch, closed by a `break`, or nothing. -/
def RunsLeaf (before after : Store) (value : Int) (clauses : List Slot) :
    Option Slot → Prop
  | some branch => ∃ clause, after.selected? value clauses = some clause ∧
      Closed before after branch (after.clauseStatements clause)
  | none => after.selected? value clauses = none

section Flatten
variable {before store : Store} {branch clause : Slot} {value : Int} {plan : Plan}
  {name : String} {switch link : NodeId} {cases defaults : List Slot}

theorem Wraps.clauseStatements {id : NodeId} {isDefault : Bool} {label : Slot}
    {contents : List Slot} (new : IsNew before store id (.clause isDefault label contents))
    (wraps : Wraps before store branch contents) :
    Closed before store branch (store.clauseStatements (some id)) := by
  obtain ⟨block, statements, rfl, inner, closed⟩ := wraps
  have listed : store.statementsOf (some id) = [some block] := by
    simp only [statementsOf, Store.statements?, new.2, Option.bind_some, Shape.statements?,
      Option.getD_some]
  have looked : store.clauseStatements (some id) = statements := by
    simp only [Store.clauseStatements, listed, inner.2]
  rw [looked]
  exact closed

theorem IsCase.runs (isCase : IsCase before store value branch clause) :
    Closed before store branch (store.clauseStatements clause) := by
  obtain ⟨id, label, text, contents, rfl, new, _, wraps⟩ := isCase
  exact wraps.clauseStatements new

theorem IsDefault.runs (isDefault : IsDefault before store branch clause) :
    Closed before store branch (store.clauseStatements clause) := by
  obtain ⟨id, contents, rfl, new, wraps⟩ := isDefault
  exact wraps.clauseStatements new

/-- A `switch` runs the leaf that its plan serves, unless the default takes what should
reach nothing. -/
theorem IsSwitchOf.runs (isSwitch : IsSwitchOf before store plan name switch cases defaults)
    (safe : ∀ pair ∈ plan.cases.toList, pair.1.natAbs < 2 * Number.implicitBit)
    {leaf : Option Slot} (serves : plan.Serves value leaf) :
    RunsLeaf before store value (cases ++ defaults) leaf ↔
      (leaf = none → ∀ clause ∈ cases ++ defaults, store.isDefault clause = false) := by
  have chosen := isSwitch.selected safe value
  cases leaf with
  | some branch =>
    refine iff_of_true ?_ fun impossible => nomatch impossible
    rcases serves with case | ⟨noCase, default⟩
    · rw [case] at chosen
      obtain ⟨clause, selected, isCase⟩ := chosen
      exact ⟨clause, selected, isCase.runs⟩
    · rw [noCase, default] at chosen
      obtain ⟨clause, selected, isDefault⟩ := chosen
      exact ⟨clause, selected, isDefault.runs⟩
  | none =>
    have noCase : plan.cases[value]? = none := serves
    have plain : ∀ clause ∈ cases, store.isDefault clause = false := by
      intro clause member
      obtain ⟨pair, _, isCase⟩ := exists_of_mem_forall₂ isSwitch.cases member
      exact isCase.not_isDefault
    rw [noCase] at chosen
    have all := isSwitch.defaults
    unfold RunsLeaf
    cases set : plan.default? with
    | none =>
      rw [set] at all chosen
      cases all
      refine iff_of_true chosen fun _ clause member => ?_
      rw [List.append_nil] at member
      exact plain clause member
    | some branch =>
      rw [set] at all chosen
      obtain ⟨clause, selected, _⟩ := chosen
      refine iff_of_false (by rw [selected]; exact Option.some_ne_none clause) fun none_ => ?_
      cases all with
      | @cons _ default _ _ isDefault rest =>
        have not := none_ rfl default (List.mem_append_right _ List.mem_cons_self)
        rw [isDefault.isDefault] at not
        cases not

/-- What a chain gives way to. -/
theorem flatten_eq {work after : Work} {link : NodeId} (replaced : flatten work link = (after, true)) :
    ∃ tested plan, testedVariable? work.store work.findings link = some tested ∧
      tested.domainSize ≤ maxDispatchDomain ∧
      Chain.plan work.store tested.name tested.domainSize link = (plan, none) ∧
      after.store = ((plan.makeSwitch work.store tested.name).1.replaceNode (some link)
        (some (plan.makeSwitch work.store tested.name).2)).1 := by
  unfold flatten at replaced
  cases found : testedVariable? work.store work.findings link with
  | none =>
    rw [found] at replaced
    cases replaced
  | some tested =>
    rw [found] at replaced
    simp only at replaced
    split at replaced
    · cases replaced
    · rename_i fits
      cases planned : Chain.plan work.store tested.name tested.domainSize link with
      | mk plan failure? =>
        rw [planned] at replaced
        simp only at replaced
        cases refused : refusal? work.store link tested.name plan failure? with
        | some remarks =>
          rw [refused] at replaced
          cases replaced
        | none =>
          rw [refused] at replaced
          cases replaced
          have done : failure? = none := by
            cases failure? with
            | none => rfl
            | some failure => cases failure <;> cases refused
          subst done
          exact ⟨tested, plan, rfl, Nat.le_of_not_lt fits, planned, rfl⟩

theorem tested_of_variable {findings : Findings} {tested : DispatchVariable}
    (found : testedVariable? store findings link = some tested) :
    testedName? store (some link) = some tested.name := by
  unfold testedVariable? at found
  obtain ⟨name, there, named⟩ := Option.bind_eq_some_iff.mp found
  have same := List.find?_some named
  rw [there, eq_of_beq same]

/-- The plan of a chain serves the values of its domain and no others, with branches that
stand below the chain. -/
theorem plan_serves {tree : Tree} {domainSize : Nat} (holds : store.Holds tree)
    (root : tree.root = some link) (nodup : tree.names.Nodup)
    (tested : testedName? store (some link) = some name)
    (planned : Chain.plan store name domainSize link = (plan, none)) :
    (∀ value : Nat, value < domainSize →
      ∃ leaf, Leads store name value link leaf ∧ plan.Serves value leaf) ∧
      (∀ pair ∈ plan.cases.toList, pair.1.natAbs < domainSize ∧ IsBranch store link pair.2) ∧
      ∀ branch, plan.default? = some branch → IsBranch store link branch := by
  have distinct : ((List.range domainSize).map Int.ofNat).Nodup :=
    List.nodup_range.map fun _ _ same => Int.ofNat.inj same
  have empty : ∀ value : Int, Plan.empty.cases[value]? = none := fun value => by
    simp [Plan.empty]
  have adds := plansTo _ _ _ holds root (Nat.le_succ_of_le (holds.height_le nodup)) tested distinct
    (fun value _ => empty value) planned
  have isBranch : ∀ {value : Int} {branch : Slot}, Leads store name value link (some branch) →
      IsBranch store link branch := by
    intro value branch leads
    obtain ⟨id, shape, below, child, part, rfl, member, within, rooted⟩ :=
      leads.leaf_within rfl holds root
    cases root
    have contained := holds.within (within.trans (.deeper member .whole))
    refine ⟨⟨part, contained, rooted⟩, fun inside => ?_⟩
    obtain ⟨inner, deeper, there⟩ := blockStatements_within contained rooted inside
    have again := within.names_subset (deeper.names_subset (Tree.mem_names_root there))
    exact (List.nodup_cons.mp nodup).1 (Tree.mem_namesAll.mpr ⟨child, member, again⟩)
  refine ⟨?_, ?_, ?_⟩
  · intro value bound
    exact adds.serves value (List.mem_map.mpr ⟨value, List.mem_range.mpr bound, rfl⟩)
  · intro pair member
    have set := Std.TreeMap.mem_toList_iff_getElem?_eq_some.mp member
    by_cases inside : pair.1 ∈ (List.range domainSize).map Int.ofNat
    · obtain ⟨leaf, leads, serves⟩ := adds.serves pair.1 inside
      obtain ⟨value, there, same⟩ := List.mem_map.mp inside
      refine ⟨?_, ?_⟩
      · rw [← same]
        exact List.mem_range.mp there
      · cases leaf with
        | none => cases set.symm.trans serves
        | some branch =>
          rcases serves with case | ⟨noCase, _⟩
          · cases set.symm.trans case
            exact isBranch leads
          · cases set.symm.trans noCase
    · have untouched := adds.extends_.frame pair.1 inside
      rw [empty, set] at untouched
      cases untouched
  · intro branch set
    rcases adds.default branch set with before | ⟨value, _, leads⟩
    · cases before
    · exact isBranch leads

/-- The `switch` of a plan takes the place of its chain, and the chain has left the tree. -/
theorem flatten_switches {work after : Work} {root link : NodeId}
    (isTree : work.store.IsTree root) (inside : link ∈ work.store.descendants (some root))
    (below : link ≠ root) (replaced : flatten work link = (after, true)) :
    ∃ tested plan switch cases defaults,
      testedVariable? work.store work.findings link = some tested ∧
      tested.domainSize ≤ maxDispatchDomain ∧
      Chain.plan work.store tested.name tested.domainSize link = (plan, none) ∧
      StandsFor work.store after.store link switch ∧
      IsSwitchOf work.store after.store plan tested.name switch cases defaults ∧
      after.store.parent (some link) = none ∧
      ∀ id, work.store.nodes.size ≤ id → after.store.shape? (some id) =
        (plan.makeSwitch work.store tested.name).1.shape? (some id) := by
  obtain ⟨tested, plan, found, fits, planned, stored⟩ := flatten_eq replaced
  obtain ⟨inner, tree, within, holds, rooted, nodup, there⟩ := isTree.exists_within inside
  obtain ⟨serves, cases_, default⟩ := plan_serves (holds.within within) there
    (within.nodup nodup) (tested_of_variable found) planned
  have bound := holds.lt_size (within.names_subset (Tree.mem_names_root there))
  obtain ⟨grows, cases, defaults, isSwitch⟩ := @makeSwitch_grows link work.store plan tested.name
    (fun pair member => (cases_ pair member).2) default bound
  obtain ⟨discriminant, -, switchNew, built⟩ := isSwitch.built
  have other : inner ≠ tree := by
    rintro rfl
    exact below (Option.some.inj (there.symm.trans rooted))
  obtain ⟨parent, shape, linked, shaped, member⟩ := holds.exists_parent within there other
  obtain ⟨slots, replacedSlots⟩ :=
    exists_replaceFirst member (some (plan.makeSwitch work.store tested.name).2)
  have linked' := (grows.parent bound).trans linked
  have shaped' := grows.keeps parent shape shaped
  have placed := shape?_replaceNode linked' shaped' replacedSlots
  have beyond : ∀ id, work.store.nodes.size ≤ id → after.store.shape? (some id) =
      (plan.makeSwitch work.store tested.name).1.shape? (some id) := by
    intro id new
    have apart : id ≠ parent := Nat.ne_of_gt (Nat.lt_of_lt_of_le (lt_size_of_shape? shaped) new)
    rw [stored, placed id, if_neg apart]
  refine ⟨tested, plan, (plan.makeSwitch work.store tested.name).2, cases, defaults, found, fits,
    planned, ?_, isSwitch.carry fun id shape new => ⟨new.1, (beyond id new.1).trans new.2⟩, ?_, beyond⟩
  · refine ⟨parent, shape, slots, linked, shaped, replacedSlots, ?_, ?_, ?_⟩
    · rw [stored, placed parent, if_pos rfl]
    · rw [stored, parent_replaceNode linked' shaped' replacedSlots (lt_size_of_shape? built)]
    · intro id apart kept there
      rw [stored, placed id, if_neg apart]
      exact grows.keeps id kept there
  · have apart : ¬ some (plan.makeSwitch work.store tested.name).2 = some link := by
      intro same
      exact absurd bound (Nat.not_lt_of_le (Option.some.inj same ▸ switchNew))
    rw [stored, replaceNode_eq linked' shaped' replacedSlots, parent_setParent,
      if_neg fun both => apart both.1, parent_release, if_pos ⟨rfl, by rwa [parent_setShape]⟩]

/-- A replaced chain gives way to the `switch` of a plan that serves its domain. -/
theorem flatten_isSwitchOf {work after : Work} {root link : NodeId}
    (isTree : work.store.IsTree root) (inside : link ∈ work.store.descendants (some root))
    (below : link ≠ root) (replaced : flatten work link = (after, true)) :
    ∃ tested plan switch cases defaults,
      testedVariable? work.store work.findings link = some tested ∧
      StandsFor work.store after.store link switch ∧
      IsSwitchOf work.store after.store plan tested.name switch cases defaults ∧
      (∀ pair ∈ plan.cases.toList, pair.1.natAbs < 2 * Number.implicitBit) ∧
      ∀ value : Nat, value < tested.domainSize → value < 2 * Number.implicitBit ∧
        ∃ leaf, Leads work.store tested.name value link leaf ∧ plan.Serves value leaf := by
  obtain ⟨tested, plan, switch, cases, defaults, found, fits, planned, stands, isSwitch, -⟩ :=
    flatten_switches isTree inside below replaced
  obtain ⟨inner, tree, within, holds, -, nodup, there⟩ := isTree.exists_within inside
  obtain ⟨serves, cases_, -⟩ := plan_serves (holds.within within) there (within.nodup nodup)
    (tested_of_variable found) planned
  refine ⟨tested, plan, switch, cases, defaults, found, stands, isSwitch, ?_, ?_⟩
  · intro pair member
    have small := (cases_ pair member).1
    unfold maxDispatchDomain at fits
    unfold Number.implicitBit
    omega
  · intro value inDomain
    refine ⟨?_, serves value inDomain⟩
    unfold maxDispatchDomain at fits
    unfold Number.implicitBit
    omega

end Flatten

/-- A `switch` stands for a chain and is decided for every value of the domain.  The value
reaches one leaf of the chain, and the `switch` runs that leaf, unless the leaf is a missing
`else` and there is a default clause. -/
def RunsLeaves (work after : Work) (link : NodeId) : Prop :=
  ∃ tested switch discriminant clauses,
    testedVariable? work.store work.findings link = some tested ∧
    StandsFor work.store after.store link switch ∧
    after.store.shape? (some switch) = some (.switch discriminant clauses) ∧
    ∀ value : Nat, value < tested.domainSize →
      evaluateKey after.store (Environment.bind [] tested.name (Value.ofInt value))
        discriminant = .ok (value : Int) ∧
      ∃ leaf, (∀ other, Leads work.store tested.name value link other ↔ other = leaf) ∧
        (RunsLeaf work.store after.store value clauses leaf ↔
          (leaf = none → ∀ clause ∈ clauses, after.store.isDefault clause = false))

/-- A chain that is replaced anywhere in a tree gives way to a `switch` that runs its
leaves. -/
theorem flatten_runs_leaves {work after : Work} {root link : NodeId}
    (isTree : work.store.IsTree root) (inside : link ∈ work.store.descendants (some root))
    (below : link ≠ root) (replaced : flatten work link = (after, true)) :
    RunsLeaves work after link := by
  obtain ⟨tested, plan, switch, cases, defaults, found, stands, isSwitch, safe, serves⟩ :=
    flatten_isSwitchOf isTree inside below replaced
  obtain ⟨discriminant, name, built⟩ := isSwitch.built
  refine ⟨tested, switch, some discriminant, cases ++ defaults, found, stands, built.2, ?_⟩
  intro value inDomain
  obtain ⟨small, leaf, leads, served⟩ := serves value inDomain
  refine ⟨evaluateKey_bind [] name.2 small, leaf, fun other => ⟨fun also => also.unique leads, ?_⟩,
    isSwitch.runs safe served⟩
  rintro rfl
  exact leads

/-! ## A chain without its last `else` -/

/-- `if (a == 0) { x; } else if (a < limit) { y; }` as a program. -/
def shortChain (limit : Float) : Store := ⟨#[
  ⟨.file default [some 1], .none, 0, 0, none⟩,
  ⟨.conditionalStatement (some 2) (some 5) (some 8), .none, 0, 0, some 0⟩,
  ⟨.binary (some 3) .equalsEquals (some 4), .none, 0, 0, some 1⟩,
  ⟨.identifier "a", .none, 0, 0, some 2⟩,
  ⟨.literal .number "0" (some 0.0), .none, 0, 0, some 2⟩,
  ⟨.block [some 6], .none, 0, 0, some 1⟩,
  ⟨.expressionStatement (some 7), .none, 0, 0, some 5⟩,
  ⟨.identifier "x", .none, 0, 0, some 6⟩,
  ⟨.conditionalStatement (some 9) (some 12) none, .none, 0, 0, some 1⟩,
  ⟨.binary (some 10) .lessThan (some 11), .none, 0, 0, some 8⟩,
  ⟨.identifier "a", .none, 0, 0, some 9⟩,
  ⟨.literal .number (Number.format limit) (some limit), .none, 0, 0, some 9⟩,
  ⟨.block [some 13], .none, 0, 0, some 8⟩,
  ⟨.expressionStatement (some 14), .none, 0, 0, some 12⟩,
  ⟨.identifier "y", .none, 0, 0, some 13⟩]⟩

/-- The short chain and a variable `a` with four values, cut out of `s`. -/
def shortWork (limit : Float) : Work :=
  ⟨shortChain limit, ⟨[⟨"a", 4, "s", some "s", 0⟩], [], Journal.empty⟩, [], 0⟩

/-- With a test that holds up to the last value but one, three leaves are run and the
fourth is the default in place of nothing. -/
theorem short_chain_runs_leaves :
    (shortWork 3.0).store.IsTree 0 ∧ 1 ∈ (shortWork 3.0).store.descendants (some 0) ∧
      (1 : NodeId) ≠ 0 ∧ flatten (shortWork 3.0) 1 = ((flatten (shortWork 3.0) 1).1, true) ∧
      RunsLeaves (shortWork 3.0) (flatten (shortWork 3.0) 1).1 1 := by
  have isTree : (shortWork 3.0).store.IsTree 0 :=
    @isTree_of_isGrown _ 8 0 (by decide) (by decide)
  have inside : 1 ∈ (shortWork 3.0).store.descendants (some 0) := by decide
  have replaced : flatten (shortWork 3.0) 1 = ((flatten (shortWork 3.0) 1).1, true) := rfl
  exact ⟨isTree, inside, by decide, replaced,
    flatten_runs_leaves isTree inside (by decide) replaced⟩

/-- The value that reaches the missing `else` runs the default of the `switch`. -/
theorem missing_else_runs_default :
    ∃ after switch discriminant clauses,
      flatten (shortWork 3.0) 1 = (after, true) ∧
      after.store.statements? (some 0) = some [some switch] ∧
      after.store.shape? (some switch) = some (.switch discriminant clauses) ∧
      Leads (shortWork 3.0).store "a" 3 1 none ∧
      ¬ RunsLeaf (shortWork 3.0).store after.store 3 clauses none := by
  refine ⟨(flatten (shortWork 3.0) 1).1, 23, some 22, [some 18, some 21], rfl, by decide, rfl,
    ?_, ?_⟩
  · have first : choice? (shortWork 3.0).store "a" 3 1 = some (some (some 8)) := by decide
    have further : nextLink? (shortWork 3.0).store "a" (some 8) = some 8 := by decide
    have second : choice? (shortWork 3.0).store "a" 3 8 = some none := by decide
    exact .next first further (.missing second)
  · have taken : (flatten (shortWork 3.0) 1).1.store.selected? 3 [some 18, some 21] =
        some (some 21) := by decide +kernel
    intro nothing
    cases taken.symm.trans nothing

end Chain

end Unflatten
