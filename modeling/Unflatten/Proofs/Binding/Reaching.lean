import Unflatten.Proofs.Binding.Occurring

/-! # What a tree reaches around it

A tree declares names in the scopes around it in two ways only: `var` and functions go to the nearest
function or file (`Reach.hoists`), `let` and `const` to the nearest scope (`Reach.leaks`).  The other
names that are declared in a tree belong to scopes that are opened there
(`Tree.Occurs.home_cases`). -/

set_option autoImplicit false

namespace Unflatten

namespace Shape

/-- An expression. -/
def isOperand : Shape → Bool
  | .function isExpression _ _ _ => isExpression
  | .omitted | .identifier _ | .literal _ _ _ | .token _ | .unary _ _ _ | .binary _ _ _
  | .conditional _ _ _ | .elements _ _ | .call _ _ _ | .access _ _ _ | .propertyAssignment _ _ => true
  | _ => false

/-- A statement that declares variables. -/
def isVariables : Shape → Bool
  | .declarationList true _ => true
  | _ => false

/-- No name, and all slots stand in the scopes inside the node and are for no names. -/
def isEven : Shape → Bool
  | .function _ _ _ _ | .declarationList _ _ | .declaration _ _ | .switch _ _ | .catchClause _ _
  | .identifier _ => false
  | _ => true

/-- What a child has to be, by the number of children before and behind it. -/
def natureAt : Shape → (before behind : Nat) → Option Nature
  | .declarationList _ _, _, _ => some .declarator
  | .declaration _ _, 0, _ | .function _ _ _ _, 0, _ | .catchClause _ _, 0, _ => some .name
  | .function _ _ _ _, _ + 1, 0 => some .block
  | .function _ _ _ _, _ + 1, _ + 1 | .access false _ _, _ + 1, _ => some .name
  | _, _, _ => none

end Shape

/-- What a tree has to do with what is around it. -/
structure Reach where
  natures : List Nature
  isOperand : Bool
  /-- A statement with `let` or `const`. -/
  isLexical : Bool
  /-- Declares names in the nearest scope around it with `let` or `const`. -/
  leaks : Bool
  /-- Declares names in the nearest function or file around it. -/
  hoists : Bool
  /-- A block, or a function with a body, that does not declare names itself. -/
  isIdle : Bool
  deriving DecidableEq

namespace Reach

/-- The reach of nothing. -/
def nothing : Reach := ⟨[.name, .declarator, .block], true, false, false, false, true⟩

/-- The reach of a node, by its marks, its shape and the reach of what is below. -/
def node (isBlockScoped : Bool) (shape : Shape) (parts : List Reach) : Reach where
  natures := shape.natures
  isOperand := shape.isOperand
  isLexical := isBlockScoped && shape.isVariables
  leaks := match shape with
    | .declarationList _ _ => isBlockScoped || parts.any leaks
    | .function _ _ _ _ | .block _ | .forIn _ _ _ | .switch _ _ | .loop .forLoop _ _ _ _
    | .catchClause _ _ => false
    | _ => parts.any leaks
  hoists := match shape with
    | .declarationList _ _ => !isBlockScoped || parts.any hoists
    | .function isExpression _ _ _ => !isExpression
    | _ => parts.any hoists
  isIdle := match shape with
    | .function _ _ _ _ => parts.all isIdle
    | .block _ => parts.all fun part => !part.leaks && !part.hoists
    | _ => true

end Reach

namespace Tree

mutual

/-- What a tree has to do with what is around it. -/
def reach (store : Store) : Tree → Reach
  | .nothing => .nothing
  | .node id shape below => .node (store.flags (some id)).isBlockScoped shape (reachAll store below)

/-- What some trees have to do with what is around them. -/
def reachAll (store : Store) : List Tree → List Reach
  | [] => []
  | tree :: rest => tree.reach store :: reachAll store rest

end

mutual

/-- All children of all nodes pass a test, which is told the node and how many children are before and
behind. -/
def every (test : Shape → (before behind : Nat) → Tree → Bool) : Tree → Bool
  | .nothing => true
  | .node _ shape below => everyFrom test shape 0 below

/-- The children of a node, of which some have been seen, and all below them pass a test. -/
def everyFrom (test : Shape → (before behind : Nat) → Tree → Bool) (shape : Shape) :
    (before : Nat) → List Tree → Bool
  | _, [] => true
  | before, tree :: rest => test shape before rest.length tree && tree.every test &&
      everyFrom test shape (before + 1) rest

end

section Reach
variable {store later : Store} {tree : Tree} {trees below : List Tree} {id : NodeId} {shape : Shape}
  {test : Shape → (before behind : Nat) → Tree → Bool} {before : Nat}

theorem reachAll_eq : reachAll store trees = trees.map (reach store) := by
  induction trees with
  | nil => rfl
  | cons tree rest ih => rw [reachAll, ih, List.map_cons]

theorem reach_node : (node id shape below).reach store =
    .node (store.flags (some id)).isBlockScoped shape (below.map (reach store)) := by
  rw [reach, reachAll_eq]

theorem reach_marked (same : ∀ id ∈ tree.names, later.flags (some id) = store.flags (some id)) :
    tree.reach later = tree.reach store := by
  induction tree with
  | nothing => rfl
  | node id shape below ih =>
    have inner : below.map (reach later) = below.map (reach store) :=
      List.map_congr_left fun child member => ih child member fun name inside =>
        same name (List.mem_cons_of_mem _ (mem_namesAll.mpr ⟨child, member, inside⟩))
    rw [reach_node, reach_node, inner, same id List.mem_cons_self]

theorem everyFrom_iff : everyFrom test shape before trees = true ↔ ∀ front child back,
    trees = front ++ child :: back → test shape (before + front.length) back.length child = true ∧
      child.every test = true := by
  induction trees generalizing before with
  | nil =>
    refine iff_of_true rfl fun front child back same => ?_
    cases front <;> cases same
  | cons tree rest ih =>
    rw [everyFrom, Bool.and_eq_true, Bool.and_eq_true, ih]
    constructor
    · rintro ⟨here, others⟩ front child back same
      cases front with
      | nil =>
        cases same
        exact here
      | cons first front =>
        cases same
        have later := others front child back rfl
        rwa [Nat.add_right_comm] at later
    · intro all
      refine ⟨all [] tree rest rfl, fun front child back same => ?_⟩
      have later := all (tree :: front) child back (by rw [same, List.cons_append])
      rwa [List.length_cons, Nat.add_comm front.length, ← Nat.add_assoc] at later

theorem every_node : (node id shape below).every test = true ↔ ∀ front child back,
    below = front ++ child :: back → test shape front.length back.length child = true ∧
      child.every test = true := by
  rw [every, everyFrom_iff]
  simp only [Nat.zero_add]

theorem every_of_within {inner : Tree} (within : Within inner tree) (every : tree.every test = true) :
    inner.every test = true := by
  induction within with
  | whole => exact every
  | deeper member _ ih =>
    obtain ⟨front, back, rfl⟩ := List.append_of_mem member
    exact ih (every_node.mp every front _ back rfl).2

/-- Expressions declare names in scopes of their own only. -/
theorem reach_of_operands (operands : ∀ shape before behind child, shape.isOperand = true →
      shape.isFunction = false → test shape before behind child = true → (child.reach store).isOperand = true)
    (every : tree.every test = true) (isOperand : (tree.reach store).isOperand = true) :
    (tree.reach store).leaks = false ∧ (tree.reach store).hoists = false := by
  induction tree with
  | nothing => exact ⟨rfl, rfl⟩
  | node id shape below ih =>
    rw [reach_node] at isOperand ⊢
    have parts (noFunction : shape.isFunction = false) : (below.map (reach store)).any Reach.leaks = false ∧
        (below.map (reach store)).any Reach.hoists = false := by
      have each : ∀ child ∈ below, (child.reach store).leaks = false ∧ (child.reach store).hoists = false := by
        intro child member
        obtain ⟨front, back, rfl⟩ := List.append_of_mem member
        obtain ⟨passes, inner⟩ := every_node.mp every front child back rfl
        exact ih child member inner (operands shape _ _ child isOperand noFunction passes)
      simp only [List.any_map, List.any_eq_false, Function.comp_apply, Bool.not_eq_true]
      exact ⟨fun child member => (each child member).1, fun child member => (each child member).2⟩
    cases shape
    case function isExpression _ _ _ =>
      cases isExpression with
      | true => exact ⟨rfl, rfl⟩
      | false => cases isOperand
    case omitted | identifier | literal | token | unary | binary | conditional | elements | call | access |
        propertyAssignment => exact parts rfl
    all_goals cases isOperand

end Reach

end Tree

/-! ## Where names are declared -/

/-- The scopes that are around a place or settled for it. -/
def Surroundings.ids (outer : Surroundings) : List NodeId :=
  outer.around.map Surrounding.opener ++ outer.place.settled?.toList

section Homes
variable {store : Store} {tree : Tree} {outer inner : Surroundings} {found : Occurrence} {home id : NodeId}
  {shape : Shape} {around : List Surrounding}

theorem mem_openers_of_nearestHome (near : nearestHome around = some home) :
    home ∈ around.map Surrounding.opener := by
  cases around with
  | nil => cases near
  | cons scope rest =>
    cases near
    exact List.mem_cons_self

theorem mem_openers_of_hoistingHome (near : hoistingHome around = some home) :
    home ∈ around.map Surrounding.opener := by
  unfold hoistingHome at near
  cases outermost : around.find? Surrounding.hoists with
  | some scope =>
    rw [outermost] at near
    cases near
    exact List.mem_map_of_mem (List.mem_of_find?_eq_some outermost)
  | none =>
    rw [outermost] at near
    exact mem_openers_of_nearestHome near

/-- A name goes past a scope that does not hoist, if there is one around it that does. -/
theorem hoistingHome_cons {scope : Surrounding} (low : scope.hoists = false)
    (any : around.any Surrounding.hoists = true) : hoistingHome (scope :: around) = hoistingHome around := by
  obtain ⟨outermost, found⟩ := Option.isSome_iff_exists.mp (List.find?_isSome.mpr (List.any_eq_true.mp any))
  rw [hoistingHome, hoistingHome, List.find?_cons_of_neg (by rw [low]; exact Bool.false_ne_true), found]
  rfl

theorem Surroundings.inside_ids : (outer.inside id shape).map Surrounding.opener ⊆ id :: outer.ids := by
  unfold inside
  split
  · exact List.cons_subset_cons _ (List.subset_append_left _ _)
  · exact fun _ member => List.mem_cons_of_mem _ (List.mem_append_left _ member)

theorem Surroundings.mem_ids_of_home? (named : outer.place.home? = some home) : home ∈ outer.ids := by
  refine List.mem_append_right _ (Option.mem_toList.mpr ?_)
  unfold Place.home? at named
  split at named
  · rename_i place
    rw [place]
    exact named
  · cases named

/-- The scope that is settled for a slot is the node, or is settled for the node, or the node reaches for
it. -/
theorem Surroundings.settled_cases (parts : List Reach) (member : inner ∈ outer.below store id shape)
    (settled : inner.place.settled? = some home) : home = id ∨ outer.place.settled? = some home ∨
      ((Reach.node (store.flags (some id)).isBlockScoped shape parts).hoists = true ∧
        hoistingHome outer.around = some home) ∨
      ((Reach.node (store.flags (some id)).isBlockScoped shape parts).leaks = true ∧
        nearestHome outer.around = some home) := by
  cases shape
  case function isExpression name parameters body =>
    simp only [below, List.mem_cons, List.mem_append, List.mem_map, List.not_mem_nil, or_false] at member
    rcases member with rfl | ⟨_, _, rfl⟩ | rfl
    · cases isExpression with
      | true =>
        cases settled
        exact .inl rfl
      | false => exact .inr (.inr (.inl ⟨rfl, settled⟩))
    · cases settled
      exact .inl rfl
    · cases settled
  case declarationList isStatement declarations =>
    obtain ⟨_, _, rfl⟩ := List.mem_map.mp member
    cases marked : (store.flags (some id)).isBlockScoped with
    | true =>
      simp only [marked, if_true] at settled
      exact .inr (.inr (.inr ⟨rfl, settled⟩))
    | false =>
      simp only [marked, Bool.false_eq_true, if_false] at settled
      exact .inr (.inr (.inl ⟨rfl, settled⟩))
  case declaration name initializer =>
    simp only [below, List.mem_cons, List.not_mem_nil, or_false] at member
    rcases member with rfl | rfl
    · obtain ⟨around, place⟩ := outer
      cases place
      case declarator => exact .inr (.inl settled)
      all_goals cases settled
    · cases settled
  case catchClause name body =>
    simp only [below, List.mem_cons, List.not_mem_nil, or_false] at member
    rcases member with rfl | rfl
    · cases settled
      exact .inl rfl
    · cases settled
  case switch discriminant clauses =>
    rcases List.mem_cons.mp member with rfl | listed
    · cases settled
    · obtain ⟨_, _, rfl⟩ := List.mem_map.mp listed
      cases settled
  all_goals
    obtain ⟨_, _, rfl⟩ := List.mem_map.mp member
    cases settled

/-- What is around a slot is the node or around the node. -/
theorem Surroundings.ids_below (member : inner ∈ outer.below store id shape) :
    inner.ids ⊆ id :: outer.ids := by
  have around : inner.around.map Surrounding.opener ⊆ id :: outer.ids := by
    rcases around_of_mem_below member with ⟨same, -⟩ | ⟨hoists, visible, -, same⟩
    · rw [same]
      exact fun _ listed => List.mem_cons_of_mem _ (List.mem_append_left _ listed)
    · rw [same]
      exact List.cons_subset_cons _ (List.subset_append_left _ _)
  refine List.append_subset.mpr ⟨around, fun home settled => ?_⟩
  rw [Option.mem_toList] at settled
  rcases settled_cases [] member settled with rfl | outside | ⟨-, near⟩ | ⟨-, near⟩
  · exact List.mem_cons_self
  · exact List.mem_cons_of_mem _ (List.mem_append_right _ (Option.mem_toList.mpr outside))
  · exact List.mem_cons_of_mem _ (List.mem_append_left _ (mem_openers_of_hoistingHome near))
  · exact List.mem_cons_of_mem _ (List.mem_append_left _ (mem_openers_of_nearestHome near))

/-- Only functions have bodies. -/
theorem Surroundings.isFunction_of_body (member : inner ∈ outer.below store id shape)
    (body : inner.place = .body) : shape.isFunction = true := by
  cases shape
  case function => rfl
  case declaration name initializer =>
    simp only [below, List.mem_cons, List.not_mem_nil, or_false] at member
    rcases member with rfl | rfl
    · obtain ⟨around, place⟩ := outer
      cases place <;> cases body
    · cases body
  case catchClause name handler =>
    simp only [below, List.mem_cons, List.not_mem_nil, or_false] at member
    rcases member with rfl | rfl <;> cases body
  case switch discriminant clauses =>
    rcases List.mem_cons.mp member with rfl | listed
    · cases body
    · obtain ⟨_, _, rfl⟩ := List.mem_map.mp listed
      cases body
  all_goals
    obtain ⟨_, _, rfl⟩ := List.mem_map.mp member
    cases body

/-- The nearest function or file around a slot is the node or, if it is no function, the nearest around
the node. -/
theorem Surroundings.hoistingHome_below (member : inner ∈ outer.below store id shape)
    (near : hoistingHome inner.around = some home) :
    home = id ∨ shape.isFunction = false ∧ hoistingHome outer.around = some home := by
  have noFunction (low : shape.opens outer.place ≠ some true) : shape.isFunction = false := by
    cases shape
    case function => exact absurd rfl low
    all_goals rfl
  rcases around_of_mem_below member with ⟨same, closed⟩ | ⟨isFunction, visible, opens, same⟩
  · rw [same] at near
    exact .inr ⟨noFunction (by rw [closed]; exact fun same => by cases same), near⟩
  · rw [same] at near
    cases isFunction with
    | true =>
      cases near
      exact .inl rfl
    | false =>
      cases any : outer.around.any Surrounding.hoists with
      | true =>
        rw [hoistingHome_cons rfl any] at near
        exact .inr ⟨noFunction (by rw [opens]; exact fun same => by cases same), near⟩
      | false =>
        have nobody : outer.around.find? Surrounding.hoists = none :=
          List.find?_eq_none.mpr (List.any_eq_false.mp any)
        rw [hoistingHome, List.find?_cons_of_neg Bool.false_ne_true, nobody] at near
        cases near
        exact .inl rfl

/-- Names are declared in scopes that are opened in the tree, or around it. -/
theorem Tree.Occurs.home_mem (occurs : tree.Occurs store outer found) (named : found.home? = some home) :
    home ∈ tree.names ∨ home ∈ outer.ids := by
  induction occurs with
  | here => exact .inr (Surroundings.mem_ids_of_home? named)
  | deeper paired _ ih =>
    obtain ⟨slot, listed⟩ := List.of_mem_zip paired
    rcases ih named with inside | around
    · exact .inl (List.mem_cons_of_mem _ (mem_namesAll.mpr ⟨_, listed, inside⟩))
    · rcases List.mem_cons.mp (Surroundings.ids_below slot around) with rfl | outside
      · exact .inl List.mem_cons_self
      · exact .inr outside

namespace Reach
variable {parts : List Reach} {part : Reach} {isBlockScoped : Bool}

theorem hoists_node (noFunction : shape.isFunction = false) (member : part ∈ parts)
    (hoists : part.hoists = true) : (node isBlockScoped shape parts).hoists = true := by
  have any : parts.any Reach.hoists = true := List.any_eq_true.mpr ⟨part, member, hoists⟩
  cases shape
  case function => cases noFunction
  case declarationList => exact (Bool.or_eq_true _ _).mpr (.inr any)
  all_goals exact any

theorem leaks_node {place : Place} (closed : shape.opens place = none) (member : part ∈ parts)
    (leaks : part.leaks = true) : (node isBlockScoped shape parts).leaks = true ∨ place = .body := by
  have any : parts.any Reach.leaks = true := List.any_eq_true.mpr ⟨part, member, leaks⟩
  cases shape
  case block =>
    refine .inr ?_
    unfold Shape.opens at closed
    split at closed <;> simp_all
  case declarationList => exact .inl ((Bool.or_eq_true _ _).mpr (.inr any))
  case loop kind _ _ _ _ =>
    cases kind
    case forLoop => cases closed
    all_goals exact .inl any
  case function | forIn | switch | catchClause => cases closed
  all_goals exact .inl any

end Reach

/-- The scope in which a name is declared is opened in the tree or settled for it, or the tree reaches for
the one around it. -/
theorem Tree.Occurs.home_cases (occurs : tree.Occurs store outer found) (named : found.home? = some home) :
    home ∈ tree.names ∨ outer.place.settled? = some home ∨
      ((tree.reach store).hoists = true ∧ hoistingHome outer.around = some home) ∨
      ((tree.reach store).leaks = true ∨ outer.place = .body) ∧ nearestHome outer.around = some home := by
  induction occurs with
  | @here outer id text below =>
    refine .inr (.inl ?_)
    change outer.place.home? = some home at named
    unfold Place.home? at named
    split at named
    · rename_i place
      rw [place]
      exact named
    · cases named
  | @deeper outer inner id shape below child found paired _ ih =>
    obtain ⟨slot, listed⟩ := List.of_mem_zip paired
    have part := List.mem_map_of_mem (f := reach store) listed
    rw [reach_node]
    rcases ih named with inside | settled | ⟨hoists, near⟩ | ⟨leaks, near⟩
    · exact .inl (List.mem_cons_of_mem _ (mem_namesAll.mpr ⟨_, listed, inside⟩))
    · rcases Surroundings.settled_cases (below.map (reach store)) slot settled with
        rfl | outside | hoisting | ⟨leaks, near⟩
      · exact .inl List.mem_cons_self
      · exact .inr (.inl outside)
      · exact .inr (.inr (.inl hoisting))
      · exact .inr (.inr (.inr ⟨.inl leaks, near⟩))
    · rcases Surroundings.hoistingHome_below slot near with rfl | ⟨noFunction, outside⟩
      · exact .inl List.mem_cons_self
      · exact .inr (.inr (.inl ⟨Reach.hoists_node noFunction part hoists, outside⟩))
    · rcases Surroundings.around_of_mem_below slot with ⟨same, closed⟩ | ⟨isFunction, visible, opens, same⟩
      · rw [same] at near
        refine .inr (.inr (.inr ⟨?_, near⟩))
        rcases leaks with leaks | body
        · exact Reach.leaks_node closed part leaks
        · have isFunction := Surroundings.isFunction_of_body slot body
          cases shape
          case function => cases closed
          all_goals cases isFunction
      · rw [same] at near
        cases near
        exact .inl List.mem_cons_self

end Homes

end Unflatten
