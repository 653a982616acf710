import Unflatten.Proofs.Syntax.Copying
import Unflatten.Syntax.Facts

/-! # Updates of a key

A statement updates a key if it assigns a whole number or `undefined` to it and does
nothing else.  `Tree.keyStatements` lists the statements of a tree that give the key a
certain value. -/

set_option autoImplicit false

namespace Unflatten

namespace Tree

/-- The text of an identifier. -/
def name? : Tree → Option String
  | .node _ (.identifier text) _ => some text
  | _ => none

/-- The value of a number. -/
def number? : Tree → Option Float
  | .node _ (.literal .number _ value) _ => value
  | _ => none

/-- The sides of a statement that is a plain assignment. -/
def assignment? : Tree → Option (Tree × Tree)
  | .node _ (.expressionStatement _) [.node _ (.binary _ operator _) [left, right]] =>
    if operator = .equals then some (left, right) else none
  | _ => none

/-- The whole number that a statement assigns to a name. -/
def keyValue? (key : String) (tree : Tree) : Option Int :=
  tree.assignment?.bind fun (left, right) =>
    if left.name? = some key then right.number?.bind Number.safeInteger? else none

/-- Whether an expression is `undefined` or `void` before a number. -/
def isUndefined : Tree → Bool
  | .node _ (.identifier text) _ => text == "undefined"
  | .node _ (.unary false .voidKeyword _) [operand] => operand.number?.isSome
  | _ => false

/-- Whether a statement assigns `undefined` to a name. -/
def isKeyExit (key : String) (tree : Tree) : Bool :=
  tree.assignment?.any fun (left, right) => left.name? == some key && right.isUndefined

mutual

/-- The statements of a tree that give the key a value. -/
def keyStatements (key : String) (value : Int) : Tree → List NodeId
  | .nothing => []
  | .node id shape below =>
    (if keyValue? key (.node id shape below) = some value then [id] else []) ++
      keyStatementsAll key value below

/-- The statements of some trees that give the key a value. -/
def keyStatementsAll (key : String) (value : Int) : List Tree → List NodeId
  | [] => []
  | tree :: rest => tree.keyStatements key value ++ keyStatementsAll key value rest

end

section KeyStatements
variable (key : String) (value : Int)

theorem keyStatementsAll_eq (trees : List Tree) :
    keyStatementsAll key value trees = trees.flatMap (keyStatements key value) := by
  induction trees with
  | nil => rfl
  | cons tree rest ih => rw [keyStatementsAll, ih, List.flatMap_cons]

theorem keyStatementsAll_append (first second : List Tree) :
    keyStatementsAll key value (first ++ second) =
      keyStatementsAll key value first ++ keyStatementsAll key value second := by
  simp only [keyStatementsAll_eq, List.flatMap_append]

theorem sublist_of_each {trees : List Tree}
    (each : ∀ tree ∈ trees, (tree.keyStatements key value).Sublist tree.names) :
    (keyStatementsAll key value trees).Sublist (namesAll trees) := by
  induction trees with
  | nil => exact .slnil
  | cons first rest ih =>
    rw [keyStatementsAll, namesAll]
    exact (each first List.mem_cons_self).append
      (ih fun tree member => each tree (List.mem_cons_of_mem first member))

theorem keyStatements_sublist (tree : Tree) :
    (tree.keyStatements key value).Sublist tree.names := by
  induction tree with
  | nothing => exact .slnil
  | node id shape below ih =>
    have inner := sublist_of_each key value ih
    rw [keyStatements, names]
    split
    · exact inner.cons_cons id
    · exact inner.cons id

theorem keyStatementsAll_sublist (trees : List Tree) :
    (keyStatementsAll key value trees).Sublist (namesAll trees) :=
  sublist_of_each key value fun tree _ => keyStatements_sublist key value tree

theorem Within.keyStatements_subset {inner tree : Tree} (within : Within inner tree) :
    inner.keyStatements key value ⊆ tree.keyStatements key value := by
  induction within with
  | whole => exact fun _ member => member
  | deeper member _ ih =>
    intro id inside
    rw [keyStatements, keyStatementsAll_eq]
    exact List.mem_append_right _ (List.mem_flatMap.mpr ⟨_, member, ih inside⟩)

theorem name?_bare (tree : Tree) : tree.bare.name? = tree.name? := by
  cases tree with
  | nothing => rfl
  | node id shape below => cases shape <;> rfl

theorem number?_bare (tree : Tree) : tree.bare.number? = tree.number? := by
  cases tree with
  | nothing => rfl
  | node id shape below =>
    cases shape
    case literal kind _ _ => cases kind <;> rfl
    all_goals rfl

theorem assignment?_bare (tree : Tree) :
    tree.bare.assignment? = tree.assignment?.map fun (left, right) => (left.bare, right.bare) := by
  cases tree with
  | nothing => rfl
  | node id shape below =>
    cases shape
    case expressionStatement =>
      rcases below with _ | ⟨expression, _ | ⟨_, _⟩⟩
      case cons.nil =>
        cases expression with
        | nothing => rfl
        | node id shape below =>
          cases shape
          case binary left operator right =>
            rcases below with _ | ⟨left, _ | ⟨right, _ | ⟨_, _⟩⟩⟩
            case cons.cons.nil =>
              show (if operator = .equals then some (left.bare, right.bare) else none) =
                (if operator = .equals then some (left, right) else none).map _
              split <;> rfl
            all_goals rfl
          all_goals rfl
      all_goals simp [bare, bareAll, assignment?, Shape.withSlots]
    all_goals rfl

theorem keyValue?_bare (tree : Tree) : tree.bare.keyValue? key = tree.keyValue? key := by
  unfold keyValue?
  rw [assignment?_bare]
  cases tree.assignment? with
  | none => rfl
  | some sides =>
    obtain ⟨left, right⟩ := sides
    simp only [Option.map_some, Option.bind_some, name?_bare, number?_bare]

/-- The number of statements does not depend on the names of nodes. -/
theorem length_keyStatements_bare (tree : Tree) :
    (tree.bare.keyStatements key value).length = (tree.keyStatements key value).length := by
  induction tree with
  | nothing => rfl
  | node id shape below ih =>
    have inner : (keyStatementsAll key value (bareAll below)).length =
        (keyStatementsAll key value below).length := by
      rw [bareAll_eq, keyStatementsAll_eq, keyStatementsAll_eq]
      clear * - ih
      induction below with
      | nil => rfl
      | cons first rest later =>
        rw [List.map_cons, List.flatMap_cons, List.flatMap_cons, List.length_append,
          List.length_append, ih first List.mem_cons_self,
          later fun tree member => ih tree (List.mem_cons_of_mem first member)]
    have whole := keyValue?_bare key (.node id shape below)
    rw [bare] at whole ⊢
    rw [keyStatements, keyStatements, whole, List.length_append, List.length_append, inner]
    split <;> rfl

theorem length_keyStatements_of_bare {tree other : Tree} (same : tree.bare = other.bare) :
    (tree.keyStatements key value).length = (other.keyStatements key value).length := by
  rw [← length_keyStatements_bare, same, length_keyStatements_bare]

end KeyStatements

end Tree

namespace Store

section Holds
variable {store : Store} {tree : Tree} (key : String)

theorem Holds.identifier? (holds : store.Holds tree) :
    store.identifier? tree.root = tree.name? := by
  cases holds with
  | nothing => rfl
  | @node id shape below found =>
    rw [Tree.root_node, Store.identifier?, found]
    cases shape <;> rfl

theorem Holds.number? (holds : store.Holds tree) : store.number? tree.root = tree.number? := by
  cases holds with
  | nothing => rfl
  | @node id shape below found =>
    rw [Tree.root_node, Store.number?, found]
    cases shape with
    | literal kind text value => cases kind <;> rfl
    | _ => rfl

theorem Holds.isUndefined (holds : store.Holds tree) :
    store.isUndefined tree.root = tree.isUndefined := by
  cases holds with
  | nothing => rfl
  | @node id shape below found regular roots links inner =>
    rw [Tree.root_node, Store.isUndefined, found]
    cases shape
    case unary after operator operand =>
      obtain ⟨only, rfl, rfl⟩ := Tree.one_of_roots roots
      cases after <;> cases operator
      case false.voidKeyword =>
        exact congrArg Option.isSome (inner only List.mem_cons_self).number?
      all_goals rfl
    all_goals rfl

/-- The sides of an assignment are where the store has them. -/
theorem Holds.assignment? (holds : store.Holds tree) :
    store.assignment? tree.root =
        tree.assignment?.map (fun (left, right) => (left.root, right.root)) ∧
      ∀ left right, tree.assignment? = some (left, right) →
        store.Holds left ∧ store.Holds right := by
  have neither : ∀ {tree : Tree}, tree.assignment? = none → store.assignment? tree.root = none →
      store.assignment? tree.root =
          tree.assignment?.map (fun (left, right) => (left.root, right.root)) ∧
        ∀ left right, tree.assignment? = some (left, right) →
          store.Holds left ∧ store.Holds right := by
    intro tree no refused
    rw [no, refused]
    refine ⟨rfl, fun left right impossible => ?_⟩
    cases impossible
  cases holds with
  | nothing => exact neither rfl rfl
  | @node id shape below found regular roots links inner =>
    cases shape
    case expressionStatement expression =>
      obtain ⟨side, rfl, rfl⟩ := List.map_eq_singleton_iff.mp
        (show below.map Tree.root = [expression] from roots.symm)
      cases inner side List.mem_cons_self with
      | nothing =>
        refine neither rfl ?_
        rw [Tree.root_node, Store.assignment?, Store.expression?, found]
        rfl
      | @node name shape' sides there sideRegular sideRoots sideLinks sideHolds =>
        rw [Tree.root_node] at found
        cases shape'
        case binary left operator right =>
          have both : sides.map Tree.root = [left, right] := sideRoots.symm
          simp only [List.map_eq_cons_iff, List.map_eq_nil_iff] at both
          obtain ⟨first, _, rfl, rfl, second, _, rfl, rfl, rfl⟩ := both
          by_cases plain : operator = .equals
          · subst plain
            refine ⟨?_, fun left right sides => ?_⟩
            · rw [Tree.root_node, Store.assignment?, Store.expression?, found, Option.bind_some, there]
              rfl
            · cases sides
              exact ⟨sideHolds first (by simp), sideHolds second (by simp)⟩
          · refine neither (if_neg plain) ?_
            rw [Tree.root_node, Store.assignment?, Store.expression?, found, Option.bind_some, there]
            cases operator
            case equals => exact absurd rfl plain
            all_goals rfl
        all_goals
          refine neither rfl ?_
          rw [Tree.root_node, Store.assignment?, Store.expression?, found, Option.bind_some, there]
    all_goals
      refine neither rfl ?_
      rw [Tree.root_node, Store.assignment?, Store.expression?, found]
      rfl

theorem Holds.keyValue? (holds : store.Holds tree) :
    store.keyValue? tree.root key = tree.keyValue? key := by
  obtain ⟨same, inner⟩ := holds.assignment?
  rw [Store.keyValue?, Tree.keyValue?, same]
  cases sides : tree.assignment? with
  | none => rfl
  | some pair =>
    obtain ⟨left, right⟩ := pair
    obtain ⟨first, second⟩ := inner left right sides
    simp only [Option.map_some, Option.bind_some, isIdentifier, first.identifier?, second.number?,
      beq_iff_eq]

theorem Holds.isKeyExit (holds : store.Holds tree) :
    store.isKeyExit tree.root key = tree.isKeyExit key := by
  obtain ⟨same, inner⟩ := holds.assignment?
  rw [Store.isKeyExit, Tree.isKeyExit, same]
  cases sides : tree.assignment? with
  | none => rfl
  | some pair =>
    obtain ⟨left, right⟩ := pair
    obtain ⟨first, second⟩ := inner left right sides
    simp only [Option.map_some, Option.any_some, isIdentifier, first.identifier?,
      second.isUndefined]

end Holds

end Store

end Unflatten
