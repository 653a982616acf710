import Unflatten.Proofs.Dispatch.TrackedKeys
import Unflatten.Proofs.Syntax.Remaking

/-! # Moves

Merging takes statements out of one list and puts them into another; it makes loops of `if`s,
and it removes jumps.  `Moves` says of the trees before and after that every node of the first
stands in the second exactly if it was not removed, and that their jumps need no more.  There is a
lemma for each kind of move.
Moves can be made one after another, beside other trees, in a block and in an arm of an `if`. -/

set_option autoImplicit false

namespace Unflatten

namespace Tree

/-- How many statements in some trees give the key a value. -/
def jumps (key : String) (value : Int) (trees : List Tree) : Nat :=
  (keyStatementsAll key value trees).length

/-- An `if` with blocks on both sides. -/
abbrev branch (id : NodeId) (test : Tree) (first second : NodeId) (thenBody elseBody : List Tree) :
    Tree :=
  .node id (.conditionalStatement test.root (some first) (some second))
    [test, .node first (.block (thenBody.map root)) thenBody,
      .node second (.block (elseBody.map root)) elseBody]

section Jumps
variable (key : String) (value : Int) (trees : List Tree)

@[simp] theorem jumps_nil : jumps key value [] = 0 := rfl

@[simp] theorem jumps_cons (tree : Tree) :
    jumps key value (tree :: trees) = (tree.keyStatements key value).length + jumps key value trees := by
  rw [jumps, keyStatementsAll, List.length_append]
  rfl

@[simp] theorem jumps_append (others : List Tree) :
    jumps key value (trees ++ others) = jumps key value trees + jumps key value others := by
  rw [jumps, keyStatementsAll_append, List.length_append]
  rfl

theorem length_keyStatements_nothing : (Tree.nothing.keyStatements key value).length = 0 := rfl

theorem length_keyStatements_node (id : NodeId) (shape : Shape) :
    ((Tree.node id shape trees).keyStatements key value).length =
      (if keyValue? key (.node id shape trees) = some value then 1 else 0) + jumps key value trees := by
  rw [keyStatements, List.length_append, jumps]
  split <;> rfl

/-- Only an assignment gives the key a value. -/
theorem length_keyStatements_other (id : NodeId) {shape : Shape}
    (other : ∀ expression, shape ≠ .expressionStatement expression) :
    ((Tree.node id shape trees).keyStatements key value).length = jumps key value trees := by
  have nothing : keyValue? key (.node id shape trees) = none := by
    cases shape
    case expressionStatement expression => exact absurd rfl (other expression)
    all_goals rfl
  rw [length_keyStatements_node, nothing, if_neg (by simp), Nat.zero_add]

theorem jumps_perm {trees others : List Tree} (perm : trees.Perm others) :
    jumps key value trees = jumps key value others := by
  simp only [jumps, keyStatementsAll_eq]
  exact (perm.flatMap_right _).length_eq

end Jumps

/-- A new block, loop or operator needs nothing that its parts do not need. -/
theorem unmet_isMade_subset {id : NodeId} {shape : Shape} {trees : List Tree}
    (isMade : shape.isMade = true) : (Tree.node id shape trees).unmet ⊆ unmetAll trees := by
  cases shape
  case block | unary =>
    rw [unmet_of_isClear rfl]
    exact List.Subset.refl _
  case loop =>
    intro target needed
    rw [unmet, List.mem_append] at needed
    obtain ⟨inner, there, left⟩ := List.mem_filterMap.mp (needed.resolve_left List.not_mem_nil)
    cases inner <;> cases left <;> exact there
  all_goals cases isMade

end Tree

/-- A statement that gives the key a value, with all its parts. -/
theorem Store.Holds.exists_keyStatement {store : Store} {tree : Tree} {key : String} {value : Int}
    (holds : store.Holds tree) (found : tree.keyValue? key = some value) :
    ∃ statement assignment name number text double,
      tree = .node statement (.expressionStatement (some assignment))
        [.node assignment (.binary (some name) .equals (some number))
          [.node name (.identifier key) [], .node number (.literal .number text double) []]] := by
  obtain ⟨statement, slot, assignment, left, right, name, below, other, rfl⟩ :=
    Tree.keyValue?_form found
  have assignmentHeld : store.Holds (.node assignment (.binary left .equals right)
    [.node name (.identifier key) below, other]) := holds.part List.mem_cons_self
  have nameHeld : store.Holds (.node name (.identifier key) below) :=
    assignmentHeld.part List.mem_cons_self
  have otherHeld : store.Holds other :=
    assignmentHeld.part (List.mem_cons_of_mem _ List.mem_cons_self)
  have slots : [slot] = [some assignment] := holds.slots rfl
  have sides : [left, right] = [some name, other.root] := assignmentHeld.slots rfl
  have under : [] = below.map Tree.root := nameHeld.slots rfl
  cases slots
  cases sides
  cases List.map_eq_nil_iff.mp under.symm
  cases other with
  | nothing => simp [Tree.keyValue?, Tree.assignment?, Tree.name?, Tree.number?] at found
  | node number shape parts =>
    cases shape
    case literal kind text double =>
      have empty : [] = parts.map Tree.root := otherHeld.slots rfl
      cases List.map_eq_nil_iff.mp empty.symm
      cases kind
      case number => exact ⟨statement, assignment, name, number, text, double, rfl⟩
      all_goals simp [Tree.keyValue?, Tree.assignment?, Tree.name?, Tree.number?] at found
    all_goals simp [Tree.keyValue?, Tree.assignment?, Tree.name?, Tree.number?] at found

theorem Store.Holds.branch {store : Store} {id first second : NodeId} {test : Tree}
    {thenBody elseBody : List Tree}
    (holds : store.Holds (Tree.branch id test first second thenBody elseBody)) :
    store.Holds test ∧ store.Holds (.node first (.block (thenBody.map Tree.root)) thenBody) ∧
      store.Holds (.node second (.block (elseBody.map Tree.root)) elseBody) :=
  ⟨holds.part List.mem_cons_self, holds.part (List.mem_cons_of_mem _ List.mem_cons_self),
    holds.part (List.mem_cons_of_mem _ (List.mem_cons_of_mem _ List.mem_cons_self))⟩

theorem Store.Holds.arms?_branch {store : Store} {id first second : NodeId} {test : Tree}
    {thenBody elseBody : List Tree}
    (holds : store.Holds (Tree.branch id test first second thenBody elseBody)) :
    store.arms? (some id) = some ⟨test.root, some first, some second⟩ := by
  have whole : store.shape? (some id) = some (.conditionalStatement test.root (some first) (some second)) :=
    holds.shape?
  obtain ⟨_, thenHeld, elseHeld⟩ := holds.branch
  have thenBlock : store.shape? (some first) = some (.block (thenBody.map Tree.root)) := thenHeld.shape?
  have elseBlock : store.shape? (some second) = some (.block (elseBody.map Tree.root)) := elseHeld.shape?
  simp [Store.arms?, Store.satisfies, whole, thenBlock, elseBlock, Shape.isBlock]

/-! ## Removals -/

/-- What a merge removes. -/
inductive Removal where
  /-- The nodes of `k = value; break;`. -/
  | jump (value : Int) (statement assignment name number leave : NodeId)
  /-- The nodes of `if (t) { … } else { … }` without what stands in its slots. -/
  | branch (conditional thenBlock elseBlock : NodeId)
  deriving Repr

namespace Removal

/-- The removed nodes. -/
def names : Removal → List NodeId
  | jump _ statement assignment name number leave => [statement, assignment, name, number, leave]
  | branch conditional thenBlock elseBlock => [conditional, thenBlock, elseBlock]

/-- Whether a jump to a case is removed. -/
def leadsTo (value : Int) : Removal → Bool
  | jump target _ _ _ _ _ => target == value
  | branch _ _ _ => false

/-- The store has what is removed. -/
def IsFrom (store : Store) (key : String) : Removal → Prop
  | jump value statement assignment name number leave =>
    store.keyValue? (some statement) key = some value ∧
      store.shape? (some statement) = some (.expressionStatement (some assignment)) ∧
      store.shape? (some assignment) = some (.binary (some name) .equals (some number)) ∧
      store.isPlainBreak (some leave) = true
  | branch conditional thenBlock elseBlock =>
    (∃ test, store.shape? (some conditional) =
        some (.conditionalStatement test (some thenBlock) (some elseBlock))) ∧
      store.satisfies (some thenBlock) Shape.isBlock = true ∧
      store.satisfies (some elseBlock) Shape.isBlock = true

/-- Among some nodes there is a new loop in the place of a removed `if`: it goes on while the test
of the `if` holds, or while it does not. -/
def BecomesLoop (store later : Store) (nodes : List NodeId) : Removal → Prop
  | jump _ _ _ _ _ _ => True
  | branch conditional thenBlock elseBlock =>
    ∃ test loop condition body,
      store.shape? (some conditional) =
        some (.conditionalStatement test (some thenBlock) (some elseBlock)) ∧
      later.shape? (some loop) = some (.loop .whileLoop none condition none body) ∧
      (condition = test ∨ ∃ negated, condition = some negated ∧
        later.shape? (some negated) = some (.unary false .exclamation test)) ∧
      loop ∈ nodes ∧ store.nodes.size ≤ loop

/-- All removed nodes. -/
def namesAll (removals : List Removal) : List NodeId := removals.flatMap names

/-- How many jumps to a case are removed. -/
def jumps (value : Int) (removals : List Removal) : Nat := removals.countP (leadsTo value)

theorem BecomesLoop.carry {store middle later : Store} {nodes more : List NodeId} {removal : Removal}
    (becomes : removal.BecomesLoop store middle nodes) (refills : middle.Refills later)
    (kept : ∀ id shape, middle.shape? (some id) = some shape → shape.isLoop = true → id ∈ nodes →
      id ∈ more) : removal.BecomesLoop store later more := by
  cases removal with
  | jump => trivial
  | branch =>
    obtain ⟨test, loop, condition, body, there, looped, tested, inside, new⟩ := becomes
    refine ⟨test, loop, condition, body, there, refills.keeps looped rfl, ?_,
      kept loop _ looped rfl inside, new⟩
    refine tested.imp_right ?_
    rintro ⟨negated, same, shaped⟩
    exact ⟨negated, same, refills.keeps shaped rfl⟩

section Sums
variable (value : Int) (first second : List Removal)

@[simp] theorem namesAll_append : namesAll (first ++ second) = namesAll first ++ namesAll second :=
  List.flatMap_append

@[simp] theorem jumps_append : jumps value (first ++ second) = jumps value first + jumps value second :=
  List.countP_append

theorem jumps_jump (other : Int) (statement assignment name number leave : NodeId) :
    jumps other [.jump value statement assignment name number leave] = if value = other then 1 else 0 := by
  simp [jumps, leadsTo, List.countP_singleton]

end Sums

section IsFrom
variable {store : Store} {key : String} {removal : Removal} {id : NodeId}

/-- The parts of a removed assignment. -/
theorem exists_sides {statement : Slot} {value : Int} {assignment : NodeId}
    (assigns : store.keyValue? statement key = some value)
    (shaped : store.shape? statement = some (.expressionStatement (some assignment))) :
    ∃ left right text double, store.shape? (some assignment) = some (.binary left .equals right) ∧
      store.shape? left = some (.identifier key) ∧
      store.shape? right = some (.literal .number text (some double)) ∧
      Number.safeInteger? double = some value := by
  obtain ⟨⟨left, right⟩, sides, given⟩ := Option.bind_eq_some_iff.mp assigns
  simp only [Option.ite_none_right_eq_some, Option.bind_eq_some_iff] at given
  obtain ⟨named, double, counted, safe⟩ := given
  rw [Store.assignment?, Store.expression?, shaped, Option.bind_some] at sides
  rw [Store.isIdentifier, beq_iff_eq, Store.identifier?] at named
  rw [Store.number?] at counted
  split at sides
  · rename_i there
    cases sides
    split at named
    · rename_i text nameThere
      cases named
      split at counted
      · rename_i digits _ numberThere
        cases counted
        exact ⟨left, right, digits, double, there, nameThere, numberThere, safe⟩
      · cases counted
    · cases named
  · cases sides

theorem keyValue?_of_sides {statement assignment left right : Slot} {text : String} {double : Float}
    {value : Int} (shaped : store.shape? statement = some (.expressionStatement assignment))
    (sides : store.shape? assignment = some (.binary left .equals right))
    (named : store.shape? left = some (.identifier key))
    (counted : store.shape? right = some (.literal .number text (some double)))
    (safe : Number.safeInteger? double = some value) : store.keyValue? statement key = some value := by
  simp [Store.keyValue?, Store.assignment?, Store.expression?, Store.isIdentifier, Store.identifier?,
    Store.number?, shaped, sides, named, counted, safe]

/-- What is removed is no loop. -/
theorem IsFrom.not_isLoop (isFrom : removal.IsFrom store key) (member : id ∈ removal.names) :
    ∃ shape, store.shape? (some id) = some shape ∧ shape.isLoop = false := by
  have block : ∀ id, store.satisfies (some id) Shape.isBlock = true →
      ∃ shape, store.shape? (some id) = some shape ∧ shape.isLoop = false := by
    intro id isBlock
    obtain ⟨shape, found, isBlock⟩ := (Option.any_eq_true _ _).mp isBlock
    exact ⟨shape, found, by cases shape <;> first | rfl | cases isBlock⟩
  cases removal with
  | jump value statement assignment name number leave =>
    obtain ⟨assigns, statementThere, assignmentThere, breaks⟩ := isFrom
    obtain ⟨left, right, text, double, sides, nameThere, numberThere, _⟩ :=
      exists_sides assigns statementThere
    cases assignmentThere.symm.trans sides
    simp only [names, List.mem_cons, List.not_mem_nil, or_false] at member
    rcases member with rfl | rfl | rfl | rfl | rfl
    · exact ⟨_, statementThere, rfl⟩
    · exact ⟨_, assignmentThere, rfl⟩
    · exact ⟨_, nameThere, rfl⟩
    · exact ⟨_, numberThere, rfl⟩
    · obtain ⟨shape, found, isBreak⟩ := (Option.any_eq_true _ _).mp breaks
      exact ⟨shape, found, by cases shape <;> first | rfl | cases isBreak⟩
  | branch conditional thenBlock elseBlock =>
    obtain ⟨⟨test, there⟩, thenThere, elseThere⟩ := isFrom
    simp only [names, List.mem_cons, List.not_mem_nil, or_false] at member
    rcases member with rfl | rfl | rfl
    · exact ⟨_, there, rfl⟩
    · exact block _ thenThere
    · exact block _ elseThere

end IsFrom

end Removal

/-! ## Moves -/

/-- Every node of some trees stands in the trees that come of them or is removed, but not
both, and every other node of these is new. -/
structure Moves (key : String) (store later : Store) (trees moved : List Tree)
    (removals : List Removal) : Prop where
  rebuilds : store.Rebuilds later trees moved
  needs : Tree.unmetAll moved ⊆ Tree.unmetAll trees
  refills : store.Refills later
  names : ∀ id, id < store.nodes.size →
    Tree.occurs id trees = Tree.occurs id moved + (Removal.namesAll removals).count id
  jumps : ∀ value, Tree.jumps key value trees = Tree.jumps key value moved + Removal.jumps value removals
  isFrom : ∀ removal ∈ removals, removal.IsFrom store key

namespace Moves

section Laws
variable {key : String} {store middle later : Store} {trees moved final others : List Tree}
  {removals more : List Removal} {removal : Removal} {id : NodeId}

theorem before (moves : Moves key store later trees moved removals) : store.HoldsAll trees :=
  moves.rebuilds.before

theorem after (moves : Moves key store later trees moved removals) : later.HoldsAll moved :=
  moves.rebuilds.all

theorem touches (moves : Moves key store later trees moved removals) :
    store.Touches later (Tree.namesAll trees) := moves.rebuilds.touches

/-- The same trees in another order, or with empty ones between them. -/
theorem regroup (key : String) (all : store.HoldsAll trees) (moved : List Tree)
    (same : ∀ tree ∈ moved, tree = .nothing ∨ tree ∈ trees)
    (names : ∀ id, Tree.occurs id trees = Tree.occurs id moved)
    (jumps : ∀ value, Tree.jumps key value trees = Tree.jumps key value moved) :
    Moves key store store trees moved [] := by
  have allMoved : store.HoldsAll moved := by
    refine all.of_occurs (fun tree member => ?_) fun id => Nat.le_of_eq (names id).symm
    rcases same tree member with rfl | there
    · exact .nothing
    · exact all.holds tree there
  refine ⟨(Store.Rebuilds.refl all).regroup allMoved fun id => ?_, fun target needed => ?_,
    .refl store, fun id _ => names id, jumps, fun _ impossible => by cases impossible⟩
  · rw [← Tree.occurs_pos, ← names, Tree.occurs_pos]
  · obtain ⟨tree, member, there⟩ := Tree.mem_unmetAll.mp needed
    rcases same tree member with rfl | inside
    · cases there
    · exact Tree.mem_unmetAll.mpr ⟨tree, inside, there⟩

theorem perm (key : String) (all : store.HoldsAll trees) (perm : trees.Perm moved) :
    Moves key store store trees moved [] :=
  regroup key all moved (fun _ member => .inr (perm.mem_iff.mpr member)) (fun id => Tree.occurs_perm id perm)
    fun value => Tree.jumps_perm key value perm

/-- Nodes come from the trees or are new. -/
theorem old_or_new (moves : Moves key store later trees moved removals)
    (inside : id ∈ Tree.namesAll moved) : id ∈ Tree.namesAll trees ∨ store.nodes.size ≤ id :=
  moves.rebuilds.names id inside

theorem removed_mem (moves : Moves key store later trees moved removals) (member : removal ∈ removals)
    (inside : id ∈ removal.names) : id ∈ Tree.namesAll trees := by
  obtain ⟨shape, found, _⟩ := (moves.isFrom removal member).not_isLoop inside
  have same := moves.names id (Store.lt_size_of_shape? found)
  have here := List.count_pos_iff.mpr (List.mem_flatMap.mpr ⟨removal, member, inside⟩)
  refine (Tree.occurs_pos id).mp ?_
  rw [same]
  exact Nat.add_pos_right _ here

/-- What is removed later was there before. -/
theorem isFrom_before (moves : Moves key store later trees moved removals)
    (isFrom : removal.IsFrom later key) (inside : ∀ id ∈ removal.names, id ∈ Tree.namesAll moved) :
    removal.IsFrom store key := by
  have back : ∀ {slot : Slot} {shape : Shape}, later.shape? slot = some shape →
      shape.isMade = false → store.shape? slot = some shape := moves.refills.found
  cases removal with
  | jump value statement assignment name number leave =>
    obtain ⟨assigns, statementThere, assignmentThere, breaks⟩ := isFrom
    obtain ⟨left, right, text, double, sides, nameThere, numberThere, safe⟩ :=
      Removal.exists_sides assigns statementThere
    refine ⟨Removal.keyValue?_of_sides (back statementThere rfl) (back sides rfl)
      (back nameThere rfl) (back numberThere rfl) safe, back statementThere rfl,
      back assignmentThere rfl, ?_⟩
    obtain ⟨shape, found, isBreak⟩ := (Option.any_eq_true _ _).mp breaks
    refine (Option.any_eq_true _ _).mpr ⟨shape, back found ?_, isBreak⟩
    cases shape <;> first | rfl | cases isBreak
  | branch conditional thenBlock elseBlock =>
    obtain ⟨⟨test, there⟩, thenThere, elseThere⟩ := isFrom
    have old := back there rfl
    have bound := Store.lt_size_of_shape? old
    rcases moves.old_or_new (inside conditional List.mem_cons_self) with here | beyond
    · obtain ⟨tree, member, inTree⟩ := Tree.mem_namesAll.mp here
      have held := moves.before.holds tree member
      have below : ∀ child, some child ∈ [test, some thenBlock, some elseBlock] →
          child < store.nodes.size := fun child slot =>
        held.lt_size (held.slot_mem inTree old slot).1
      exact ⟨⟨test, old⟩, moves.refills.isBlock (below thenBlock (by simp)) thenThere,
        moves.refills.isBlock (below elseBlock (by simp)) elseThere⟩
    · exact absurd bound (Nat.not_lt_of_le beyond)

theorem trans (first : Moves key store middle trees moved removals)
    (second : Moves key middle later moved final more) :
    Moves key store later trees final (removals ++ more) := by
  refine ⟨first.rebuilds.trans second.rebuilds, List.Subset.trans second.needs first.needs,
    first.refills.trans second.refills, fun id bound => ?_, fun value => ?_, ?_⟩
  · have here := first.names id bound
    have there := second.names id (Nat.lt_of_lt_of_le bound first.refills.size)
    rw [Removal.namesAll_append, List.count_append]
    omega
  · have here := first.jumps value
    have there := second.jumps value
    rw [Removal.jumps_append]
    omega
  · intro removal member
    rcases List.mem_append.mp member with here | there
    · exact first.isFrom removal here
    · exact first.isFrom_before (second.isFrom removal there) fun id inside =>
        second.removed_mem there inside

/-- The order of the trees does not matter. -/
theorem congr {trees' moved' : List Tree} (moves : Moves key store later trees moved removals)
    (left : trees.Perm trees') (right : moved.Perm moved') :
    Moves key store later trees' moved' removals := by
  have whole := ((perm key (moves.before.perm left) left.symm).trans moves).trans (perm key moves.after right)
  rwa [List.nil_append, List.append_nil] at whole

/-- Other trees stay where they are. -/
theorem beside (moves : Moves key store later trees moved removals)
    (all : store.HoldsAll (trees ++ others)) :
    Moves key store later (trees ++ others) (moved ++ others) removals := by
  refine ⟨moves.rebuilds.beside all, ?_, moves.refills, fun id bound => ?_, fun value => ?_,
    moves.isFrom⟩
  · rw [Tree.unmetAll_append, Tree.unmetAll_append]
    exact List.append_subset.mpr ⟨List.Subset.trans moves.needs (List.subset_append_left _ _),
      List.subset_append_right _ _⟩
  · have same := moves.names id bound
    simp only [Tree.occurs_append]
    omega
  · have same := moves.jumps value
    simp only [Tree.jumps_append]
    omega

end Laws

/-! ## The kinds of moves -/

section Kinds
variable {key : String} {store later : Store} {trees others kept body filled : List Tree}
  {removals : List Removal} {id : NodeId} {shape : Shape}

/-- A jump is removed. -/
theorem dropJump {assignment leave : Tree} {value : Int}
    (all : store.HoldsAll (leave :: assignment :: trees))
    (assigns : store.keyValue? assignment.root key = some value)
    (breaks : store.isPlainBreak leave.root = true) :
    ∃ statement binary name number last, Moves key store store (leave :: assignment :: trees) trees
      [.jump value statement binary name number last] := by
  have assignmentHeld := all.holds assignment (by simp)
  have leaveHeld := all.holds leave (by simp)
  have assigned := assigns
  rw [assignmentHeld.keyValue?] at assigned
  obtain ⟨statement, binary, name, number, text, double, rfl⟩ :=
    assignmentHeld.exists_keyStatement assigned
  obtain ⟨last, rfl⟩ := Expansion.exists_plainBreak leaveHeld breaks
  have once := Store.Rebuilds.dropping all
  refine ⟨statement, binary, name, number, last, once.trans (.dropping once.all), ?_, .refl store,
    ?_, ?_, ?_⟩
  · rw [Tree.unmetAll_cons, Tree.unmetAll_cons, ← List.append_assoc]
    exact List.subset_append_right _ _
  · intro id _
    simp only [Expansion.plainBreak, Tree.occurs_cons, Tree.count_node, Tree.occurs_nil,
      Tree.count_nothing, Removal.namesAll, Removal.names, List.flatMap_cons, List.flatMap_nil,
      List.append_nil, List.count_cons, List.count_nil, beq_iff_eq]
    omega
  · intro other
    simp only [Expansion.plainBreak, Tree.jumps_cons, Tree.jumps_nil, Removal.jumps_jump,
      Tree.length_keyStatements_node key other _ statement, assigned, Option.some.injEq,
      Tree.length_keyStatements_other, ne_eq, reduceCtorEq, not_false_eq_true, implies_true,
      Tree.length_keyStatements_nothing]
    omega
  · intro removal member
    rw [List.mem_singleton.mp member]
    have binaryHeld := assignmentHeld.part List.mem_cons_self
    exact ⟨assigns, assignmentHeld.shape?, binaryHeld.shape?, breaks⟩

/-- An `if` is removed, and what stands in it is left. -/
theorem dissolve (key : String) {test : Tree} {first second : NodeId} {thenBody elseBody : List Tree}
    (all : store.HoldsAll (Tree.branch id test first second thenBody elseBody :: trees)) :
    Moves key store store (Tree.branch id test first second thenBody elseBody :: trees)
      (test :: thenBody ++ elseBody ++ trees) [.branch id first second] := by
  have whole := all.holds _ List.mem_cons_self
  obtain ⟨testHeld, thenHeld, elseHeld⟩ := whole.branch
  have opened := Store.Rebuilds.opening all rfl
  -- the blocks are opened one after the other
  have thenFirst := opened.perm (List.Perm.trans (.swap _ _ _) ((List.Perm.swap _ _ _).cons _))
  have thenOpened := thenFirst.trans (.opening thenFirst.all rfl)
  have elseFirst := thenOpened.perm List.perm_middle
  have elseOpened := elseFirst.trans (.opening elseFirst.all rfl)
  refine ⟨elseOpened.perm ?_, ?_, .refl store, ?_, ?_, ?_⟩
  · rw [← List.append_assoc]
    exact List.perm_middle.trans ((List.perm_append_comm.append_right trees).cons test)
  · have whole : (Tree.branch id test first second thenBody elseBody).unmet =
        Tree.unmetAll [test, .node first (.block (thenBody.map Tree.root)) thenBody,
          .node second (.block (elseBody.map Tree.root)) elseBody] := Tree.unmet_of_isClear rfl
    have block : ∀ (block : NodeId) (body : List Tree),
        (Tree.node block (.block (body.map Tree.root)) body).unmet = Tree.unmetAll body :=
      fun _ _ => Tree.unmet_of_isClear rfl
    simp only [whole, block, List.cons_append, Tree.unmetAll_cons, Tree.unmetAll_append,
      Tree.unmetAll_nil, List.append_nil, List.append_assoc]
    exact List.Subset.refl _
  · intro id _
    simp only [Tree.occurs_cons, Tree.occurs_append, Tree.count_node, Tree.occurs_nil,
      Removal.namesAll, Removal.names, List.flatMap_cons, List.flatMap_nil,
      List.append_nil, List.count_cons, List.count_nil, beq_iff_eq]
    omega
  · intro value
    simp only [Tree.jumps_cons, Tree.jumps_append, Tree.jumps_nil, Tree.length_keyStatements_other, ne_eq,
      reduceCtorEq, not_false_eq_true, implies_true, List.cons_append]
    exact (by omega : ∀ a b c d : Nat, a + (b + (c + 0)) + d = a + (b + c + d) + 0) _ _ _ _
  · intro removal member
    rw [List.mem_singleton.mp member]
    have block : ∀ tree, store.Holds tree → ∀ statements, tree.shape? = some (.block statements) →
        store.satisfies tree.root Shape.isBlock = true := by
      intro tree held statements shaped
      rw [Store.satisfies, held.shape?, shaped]
      rfl
    exact ⟨⟨test.root, whole.shape?.trans rfl⟩, block _ thenHeld _ rfl, block _ elseHeld _ rfl⟩

/-- Some trees become parts of a new node. -/
theorem make (key : String) (shape : Shape) (all : store.HoldsAll (trees ++ others)) (isMade : shape.isMade = true)
    (slots : shape.slots = trees.map Tree.root) (regular : shape.IsRegular)
    (answers : store.IsTidy → store.Admits shape) :
    Moves key store (store.make shape).1 (trees ++ others)
      (.node store.nodes.size shape trees :: others) [] := by
  refine ⟨.adding all slots regular answers, ?_, Store.refills_make isMade, ?_, ?_,
    fun _ impossible => by cases impossible⟩
  · rw [Tree.unmetAll_cons, Tree.unmetAll_append]
    exact List.append_subset.mpr ⟨List.subset_append_of_subset_left _ (Tree.unmet_isMade_subset isMade),
      List.subset_append_right _ _⟩
  · intro id bound
    have other : store.nodes.size ≠ id := Nat.ne_of_gt bound
    simp only [Tree.occurs_cons, Tree.occurs_append, Tree.count_node, if_neg other, Removal.namesAll,
      List.flatMap_nil, List.count_nil]
    omega
  · intro value
    have other : ∀ expression, shape ≠ .expressionStatement expression := by
      rintro expression rfl
      cases isMade
    rw [Tree.jumps_cons, Tree.length_keyStatements_other key value trees _ other, Tree.jumps_append]
    rfl

/-- What moves within a block and beside it: the block gets the statements that are left in it. -/
theorem refill (all : store.HoldsAll (.node id (.block (body.map Tree.root)) body :: others))
    (moves : Moves key store later (body ++ others) (filled ++ kept) removals) :
    Moves key store (later.setStatements (some id) (filled.map Tree.root)).1
        (.node id (.block (body.map Tree.root)) body :: others)
        (.node id (.block (filled.map Tree.root)) filled :: kept) removals ∧
      (later.setStatements (some id) (filled.map Tree.root)).1.parent (some id) =
        store.parent (some id) := by
  obtain ⟨_, outside⟩ := all.below
  have found := (all.holds _ List.mem_cons_self).shape?
  have bound := Store.lt_size_of_shape? found
  have there : later.shape? (some id) = some (.block (body.map Tree.root)) := by
    rw [moves.touches.shape id bound outside]
    exact found
  obtain ⟨filledStore, filledIn, reshapes⟩ := Store.setStatements_reshapes there rfl
    (rfl : (Shape.block (body.map Tree.root)).withStatements? (filled.map Tree.root) = _)
  have closes : Store.Rebuilds.Closes later id (.block (body.map Tree.root))
      (.block (filled.map Tree.root)) filled (body.map Tree.root) (filled.map Tree.root) := by
    refine ⟨rfl, rfl, .refl _, fun part member child rooted => .inl ?_, fun _ member => member,
      fun _ member => member, fun _ member => .inr member, fun _ => Store.admits_of_isContainer rfl⟩
    exact rooted ▸ List.mem_map_of_mem member
  have noLoop : ∀ prelude, store.IsFramed id prelude → filledStore.IsFramed id prelude := by
    rintro prelude ⟨_, ⟨_, _, _, _, looped⟩, -⟩
    cases found.symm.trans looped
  obtain ⟨rebuilds, link⟩ := Store.Rebuilds.reshaping all moves.rebuilds reshapes closes noLoop
  rw [filledIn]
  refine ⟨⟨rebuilds, ?_, ?_, ?_, ?_, moves.isFrom⟩, link⟩
  · have fewer := moves.needs
    rw [Tree.unmetAll_append, Tree.unmetAll_append] at fewer
    rwa [Tree.unmetAll_cons, Tree.unmetAll_cons, Tree.unmet_of_isClear rfl, Tree.unmet_of_isClear rfl]
  · have refills : Store.Refills _ (Store.setStatements _ (some _) (filled.map Tree.root)).1 :=
      Store.refills_setStatements there
    rw [filledIn] at refills
    exact moves.refills.trans refills
  · intro name old
    have same := moves.names name old
    simp only [Tree.occurs_append, Tree.occurs_cons, Tree.count_node] at same ⊢
    omega
  · intro value
    have same := moves.jumps value
    simp only [Tree.jumps_cons, Tree.jumps_append, Tree.length_keyStatements_other, ne_eq,
      reduceCtorEq, not_false_eq_true, implies_true] at same ⊢
    omega

/-- What moves in an arm of an `if` and beside it. -/
theorem within {front back : List Tree} {part changed : Tree} {test thenSlot elseSlot : Slot}
    (all : store.HoldsAll (.node id (.conditionalStatement test thenSlot elseSlot)
      (front ++ part :: back) :: others))
    (moves : Moves key store later (part :: others) (changed :: kept) removals)
    (root : changed.root = part.root) (link : later.parent part.root = store.parent part.root) :
    Moves key store later
      (.node id (.conditionalStatement test thenSlot elseSlot) (front ++ part :: back) :: others)
      (.node id (.conditionalStatement test thenSlot elseSlot) (front ++ changed :: back) :: kept)
      removals := by
  have found := (all.holds _ List.mem_cons_self).shape?
  have noLoop : ∀ prelude, store.IsFramed id prelude → later.IsFramed id prelude := by
    rintro prelude ⟨_, ⟨_, _, _, _, looped⟩, -⟩
    cases found.symm.trans looped
  obtain ⟨rebuilds, -⟩ := Store.Rebuilds.around all moves.rebuilds root link noLoop
  refine ⟨rebuilds, fun target needed => ?_, moves.refills, fun name old => ?_, fun value => ?_,
    moves.isFrom⟩
  · have fewer := @moves.needs target
    simp only [Tree.unmetAll_cons, List.mem_append] at fewer
    rw [Tree.unmetAll_cons, Tree.unmet_of_isClear rfl] at needed ⊢
    simp only [Tree.unmetAll_append, Tree.unmetAll_cons, List.mem_append] at needed ⊢
    tauto
  · have same := moves.names name old
    simp only [Tree.occurs_append, Tree.occurs_cons, Tree.count_node] at same ⊢
    omega
  · have same := moves.jumps value
    simp only [Tree.jumps_append, Tree.jumps_cons, Tree.length_keyStatements_other, ne_eq,
      reduceCtorEq, not_false_eq_true, implies_true] at same ⊢
    omega

/-- The last statements of an arm are put behind the `if`. -/
theorem takeOut (key : String) (front back : List Tree) {out : List Tree} {arm : NodeId} {test thenSlot elseSlot : Slot}
    (all : store.HoldsAll [.node id (.conditionalStatement test thenSlot elseSlot)
      (front ++ .node arm (.block ((body ++ out).map Tree.root)) (body ++ out) :: back)]) :
    Moves key store (store.setStatements (some arm) (body.map Tree.root)).1
      [.node id (.conditionalStatement test thenSlot elseSlot)
        (front ++ .node arm (.block ((body ++ out).map Tree.root)) (body ++ out) :: back)]
      (.node id (.conditionalStatement test thenSlot elseSlot)
        (front ++ .node arm (.block (body.map Tree.root)) body :: back) :: out) [] := by
  have armHeld : store.HoldsAll [.node arm (.block ((body ++ out).map Tree.root)) (body ++ out)] := by
    refine all.below.1.of_occurs ?_ fun id => ?_
    · intro tree member
      exact all.below.1.holds tree (by simp [List.mem_singleton.mp member])
    · simp only [Tree.occurs_append, Tree.occurs_cons, Tree.occurs_nil]
      omega
  have inside : store.HoldsAll (body ++ out ++ []) := armHeld.below.1
  have refilled := refill armHeld (perm key inside (.of_eq (List.append_nil _)))
  exact within all refilled.1 rfl refilled.2

/-- The jumps at the ends of both arms become one jump behind the `if`. -/
theorem shareJump {first second : NodeId} {test thenAssignment thenLeave elseAssignment elseLeave : Tree}
    {thenBody elseBody : List Tree} {value : Int}
    (all : store.HoldsAll (Tree.branch id test first second (thenBody ++ [thenAssignment, thenLeave])
      (elseBody ++ [elseAssignment, elseLeave]) :: others))
    (assigns : store.keyValue? elseAssignment.root key = some value)
    (breaks : store.isPlainBreak elseLeave.root = true) :
    ∃ statement binary name number last, Moves key store
      ((store.setStatements (some first) (thenBody.map Tree.root)).1.setStatements (some second)
        (elseBody.map Tree.root)).1
      (Tree.branch id test first second (thenBody ++ [thenAssignment, thenLeave])
        (elseBody ++ [elseAssignment, elseLeave]) :: others)
      (thenLeave :: thenAssignment :: Tree.branch id test first second thenBody elseBody :: others)
      [.jump value statement binary name number last] := by
  have alone : ∀ {store : Store} {tree : Tree} {others : List Tree},
      store.HoldsAll (tree :: others) → store.HoldsAll [tree] := by
    intro store tree others all
    rw [← List.singleton_append] at all
    exact (Store.holdsAll_append.mp all).1
  obtain ⟨_, _, elseHeld⟩ := (all.holds _ List.mem_cons_self).branch
  have assignmentHeld : store.Holds elseAssignment := elseHeld.part (by simp [Tree.parts])
  have leaveHeld : store.Holds elseLeave := elseHeld.part (by simp [Tree.parts])
  have thenOut := takeOut key [test] [.node second
    (.block ((elseBody ++ [elseAssignment, elseLeave]).map Tree.root))
    (elseBody ++ [elseAssignment, elseLeave])] (alone all)
  have elseOut := takeOut key [test, .node first (.block (thenBody.map Tree.root)) thenBody] []
    (alone thenOut.after)
  have bothOut : Moves key store ((store.setStatements (some first) (thenBody.map Tree.root)).1.setStatements
        (some second) (elseBody.map Tree.root)).1
      [Tree.branch id test first second (thenBody ++ [thenAssignment, thenLeave])
        (elseBody ++ [elseAssignment, elseLeave])]
      (Tree.branch id test first second thenBody elseBody ::
        [elseAssignment, elseLeave, thenAssignment, thenLeave]) [] :=
    thenOut.trans (elseOut.beside thenOut.after)
  generalize (store.setStatements (some first) (thenBody.map Tree.root)).1.setStatements
    (some second) (elseBody.map Tree.root) = both at bothOut ⊢
  have assignsThere : both.1.keyValue? elseAssignment.root key = some value := by
    rw [(bothOut.after.holds elseAssignment (by simp)).keyValue?, ← assigns,
      assignmentHeld.keyValue?]
  have breaksThere : both.1.isPlainBreak elseLeave.root = true := by
    rw [← breaks, Store.isPlainBreak, Store.isPlainBreak, Store.satisfies, Store.satisfies,
      (bothOut.after.holds elseLeave (by simp)).shape?,
      leaveHeld.shape?]
  have inOrder := bothOut.trans (regroup key bothOut.after [elseLeave, elseAssignment, thenLeave,
      thenAssignment, Tree.branch id test first second thenBody elseBody]
    (fun tree member => by
      simp only [List.mem_cons, List.not_mem_nil, or_false] at member ⊢
      tauto)
    (fun id => by
      simp only [Tree.occurs_cons]
      omega)
    fun value => by
      simp only [Tree.jumps_cons]
      omega)
  obtain ⟨statement, binary, name, number, last, dropped⟩ :=
    dropJump inOrder.after assignsThere breaksThere
  exact ⟨statement, binary, name, number, last, (inOrder.trans dropped).beside all⟩

/-- An `if` is removed together with the jump at the end of one of its arms. -/
theorem openBranch {first second : NodeId} {test assignment leave : Tree} {value : Int}
    {thenBody elseBody : List Tree}
    (all : store.HoldsAll (Tree.branch id test first second thenBody elseBody :: others))
    (arranged : (thenBody ++ elseBody).Perm (leave :: assignment :: (body ++ kept)))
    (assigns : store.keyValue? assignment.root key = some value)
    (breaks : store.isPlainBreak leave.root = true) :
    ∃ statement binary name number last, Moves key store store
      (Tree.branch id test first second thenBody elseBody :: others) (test :: body ++ (kept ++ others))
      [.branch id first second, .jump value statement binary name number last] := by
  have opened := dissolve key all
  have perm : (test :: thenBody ++ elseBody ++ others).Perm
      (leave :: assignment :: (test :: body ++ (kept ++ others))) := by
    have inner : (test :: (thenBody ++ elseBody ++ others)).Perm
        (test :: leave :: assignment :: (body ++ (kept ++ others))) := by
      rw [← List.append_assoc body]
      exact (arranged.append_right others).cons test
    exact inner.trans ((List.Perm.swap leave test _).trans
      ((List.Perm.swap assignment test _).cons leave))
  obtain ⟨statement, binary, name, number, last, dropped⟩ :=
    dropJump (opened.after.perm perm) assigns breaks
  exact ⟨statement, binary, name, number, last, (opened.congr (.refl _) perm).trans dropped⟩

/-- A loop is made of a test and statements. -/
theorem makeLoop (key : String) {test : Tree} (all : store.HoldsAll (test :: body ++ others)) :
    Moves key store (((store.makeBlock (body.map Tree.root)).1.makeWhile test.root
        (some store.nodes.size)).1) (test :: body ++ others)
      (.node (store.nodes.size + 1) (.loop .whileLoop none test.root none (some store.nodes.size))
        [.nothing, test, .nothing, .node store.nodes.size (.block (body.map Tree.root)) body] ::
          others) [] := by
  have bodyFirst := perm key all
    (List.perm_middle.symm : (test :: body ++ others).Perm (body ++ test :: others))
  have inBlock := bodyFirst.trans (make key (.block (body.map Tree.root)) bodyFirst.after rfl rfl
    (.refl _) fun _ => Store.admits_of_isContainer rfl)
  have spaced := inBlock.trans (regroup key inBlock.after ([.nothing, test, .nothing,
      .node store.nodes.size (.block (body.map Tree.root)) body] ++ others)
    (fun tree member => by
      simp only [List.cons_append, List.nil_append, List.mem_cons] at member ⊢
      tauto)
    (fun id => by
      simp only [List.cons_append, List.nil_append, Tree.occurs_cons, Tree.count_nothing]
      omega)
    fun value => by
      simp only [List.cons_append, List.nil_append, Tree.jumps_cons, Tree.length_keyStatements_nothing]
      omega)
  have block : (store.makeBlock (body.map Tree.root)).1.IsBodyAt (some store.nodes.size) :=
    Store.isBodyAt_of_shape? (Store.shape?_make_id store _) rfl
  have made := spaced.trans (make key (.loop .whileLoop none test.root none (some store.nodes.size))
    spaced.after rfl rfl (.refl _) fun _ => ⟨fun child quiet => by simp [Shape.quietSlots] at quiet,
      fun child body => block child (List.mem_singleton.mp body).symm, rfl, .refl _⟩)
  have size : (store.makeBlock (body.map Tree.root)).1.nodes.size = store.nodes.size + 1 :=
    Store.size_make store _
  rw [← size]
  exact made

end Kinds

/-! ## Removed branches -/

section Loops
variable {key : String} {store middle later : Store} {trees moved final : List Tree}
  {removals : List Removal} {removal : Removal} {nodes : List NodeId}

/-- A loop is not removed again. -/
theorem becomesLoop_after (moves : Moves key middle later moved final removals)
    (becomes : removal.BecomesLoop store middle (Tree.namesAll moved)) :
    removal.BecomesLoop store later (Tree.namesAll final) := by
  refine becomes.carry moves.refills fun loop shape looped isLoop inside => ?_
  have kept : loop ∉ Removal.namesAll removals := by
    intro removed
    obtain ⟨other, member, named⟩ := List.mem_flatMap.mp removed
    obtain ⟨shape', found, noLoop⟩ := (moves.isFrom other member).not_isLoop named
    rw [looped] at found
    cases found
    rw [isLoop] at noLoop
    cases noLoop
  have same := moves.names loop (Store.lt_size_of_shape? looped)
  rw [List.count_eq_zero.mpr kept, Nat.add_zero] at same
  rw [← Tree.occurs_pos, ← same, Tree.occurs_pos]
  exact inside

theorem becomesLoop_before (moves : Moves key store middle trees moved removals)
    (becomes : removal.BecomesLoop middle later nodes) : removal.BecomesLoop store later nodes := by
  cases removal with
  | jump => trivial
  | branch conditional thenBlock elseBlock =>
    obtain ⟨test, loop, condition, body, there, looped, tested, inside, new⟩ := becomes
    exact ⟨test, loop, condition, body, moves.refills.found there rfl, looped, tested, inside,
      Nat.le_trans moves.refills.size new⟩

end Loops

end Moves

end Unflatten
