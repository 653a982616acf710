import Unflatten.Binding.Scope
import Unflatten.Proofs.Syntax.Standing

/-! # Where names belong and what can be seen

A walk through a tree from the root says which nodes open scopes, in which scope each identifier is
declared and which scopes lie around each identifier (`Tree.visit`).  What a slot of a node is asked
for depends on the node alone (`Surroundings.below`): this is where the scoping rules are stated.
A reference is to the declarations in the innermost scope around it that has any
(`Store.declarationsSeen`).

The scope of a `switch` is around its discriminant too, but its names cannot be seen from there. -/

set_option autoImplicit false

namespace Unflatten

/-- A scope around a place in a tree. -/
structure Surrounding where
  opener : NodeId
  /-- A scope to which `var` and function declarations belong. -/
  hoists : Bool
  /-- The names of the scope can be seen from the place. -/
  visible : Bool
  deriving DecidableEq, Repr

/-- What a slot is for.  A name is declared in a scope that is settled further up. -/
inductive Place where
  | plain
  | program
  | body
  | declarator (home : Option NodeId)
  | name (home : Option NodeId)
  deriving DecidableEq, Repr

/-- What is around a slot, from the inside outwards, and what the slot is for. -/
structure Surroundings where
  around : List Surrounding
  place : Place
  deriving DecidableEq, Repr

/-- What a walk through a tree finds. -/
inductive ScopeEntry where
  /-- A node opens the first of some scopes, which stands in the others. -/
  | opens (around : List Surrounding)
  | declares (id home : NodeId)
  /-- An identifier stands in some scopes. -/
  | sees (id : NodeId) (around : List Surrounding)
  deriving DecidableEq, Repr

/-- The scope to which `let` and `const` declarations belong. -/
def nearestHome (around : List Surrounding) : Option NodeId :=
  around.head?.map Surrounding.opener

/-- The scope to which `var` and function declarations belong. -/
def hoistingHome (around : List Surrounding) : Option NodeId :=
  ((around.find? Surrounding.hoists).or around.head?).map Surrounding.opener

namespace Shape

/-- Whether a node opens a scope, and if so, whether that belongs to a function or a file.  The body
of a function shares the scope of the function. -/
def opens (place : Place) : Shape → Option Bool
  | .file _ _ => if place = .program then some true else none
  | .function _ _ _ _ => some true
  | .block _ => if place = .body then none else some false
  | .forIn _ _ _ | .switch _ _ | .loop .forLoop _ _ _ _ | .catchClause _ _ => some false
  | _ => none

end Shape

namespace Surroundings

/-- The scopes around the slots of a node. -/
def inside (outer : Surroundings) (id : NodeId) (shape : Shape) : List Surrounding :=
  match shape.opens outer.place with
  | some hoists => ⟨id, hoists, true⟩ :: outer.around
  | none => outer.around

/-- What is around each slot of a node. -/
def below (store : Store) (outer : Surroundings) (id : NodeId) (shape : Shape) : List Surroundings :=
  let around := outer.inside id shape
  match shape with
  | .function isExpression _ parameters _ =>
    ⟨around, .name (if isExpression then some id else hoistingHome outer.around)⟩ ::
      ((parameters.map fun _ => ⟨around, .name (some id)⟩) ++ [⟨around, .body⟩])
  | .declarationList _ declarations =>
    let home :=
      if (store.flags (some id)).isBlockScoped then nearestHome around else hoistingHome around
    declarations.map fun _ => ⟨around, .declarator home⟩
  | .declaration _ _ =>
    let named : Place := match outer.place with
      | .declarator home => .name home
      | _ => .plain
    [⟨around, named⟩, ⟨around, .plain⟩]
  | .catchClause _ _ => [⟨around, .name (some id)⟩, ⟨around, .plain⟩]
  | .switch _ clauses =>
    ⟨⟨id, false, false⟩ :: outer.around, .plain⟩ :: clauses.map fun _ => ⟨around, .plain⟩
  | shape => shape.slots.map fun _ => ⟨around, .plain⟩

/-- What a node itself is to the scopes. -/
def entries (outer : Surroundings) (id : NodeId) (shape : Shape) : List ScopeEntry :=
  match shape with
  | .identifier _ =>
    .sees id outer.around :: (match outer.place with
      | .name (some home) => [.declares id home]
      | _ => [])
  | shape => (shape.opens outer.place).toList.map fun _ => .opens (outer.inside id shape)

end Surroundings

namespace Tree

mutual

/-- What a walk through a tree finds, with what is around it. -/
def visit (store : Store) (outer : Surroundings) : Tree → List ScopeEntry
  | .nothing => []
  | .node id shape below =>
    outer.entries id shape ++ visitAll store (outer.below store id shape) below

/-- What a walk through several trees finds, each with what is around it. -/
def visitAll (store : Store) : List Surroundings → List Tree → List ScopeEntry
  | outer :: others, tree :: rest => tree.visit store outer ++ visitAll store others rest
  | _, _ => []

end

end Tree

namespace Store

/-- What a walk through the tree of a program finds. -/
def scopeEntries (store : Store) (root : NodeId) : List ScopeEntry :=
  (store.treeAt store.depthBound (some root)).visit store ⟨[], .program⟩

/-- The declarations of a name in a scope. -/
def declaredIn (store : Store) (entries : List ScopeEntry) (name : String) (home : NodeId) :
    List NodeId :=
  entries.filterMap fun
    | .declares id place => if place = home ∧ store.identifier? (some id) = some name then some id else none
    | _ => none

/-- The declarations of a name in the innermost of some scopes that has any. -/
def declarationsSeen (store : Store) (entries : List ScopeEntry) (name : String) :
    List Surrounding → List NodeId
  | [] => []
  | scope :: rest =>
    match store.declaredIn entries name scope.opener with
    | [] => store.declarationsSeen entries name rest
    | declarations => declarations

end Store

namespace Bindings

/-- A reference is to a symbol with some declarations, or to none if there are no declarations. -/
def ResolvesTo (bindings : Bindings) (id : NodeId) (declarations : List NodeId) : Prop :=
  if declarations = [] then bindings.symbolId? id = none ∧ id ∈ bindings.unresolved
  else ∃ number symbol, bindings.symbolId? id = some number ∧
    bindings.symbols[number]? = some symbol ∧ id ∈ symbol.references ∧
      ∀ declaration, declaration ∈ symbol.declarations ↔ declaration ∈ declarations

end Bindings

/-! ## The walk -/

section Walk
variable {store : Store} {outer : Surroundings} {tree : Tree} {trees : List Tree}
  {others : List Surroundings} {entry : ScopeEntry} {id home : NodeId} {shape : Shape}
  {below : List Tree} {name : String} {entries : List ScopeEntry}

theorem mem_declaredIn : id ∈ store.declaredIn entries name home ↔
    .declares id home ∈ entries ∧ store.identifier? (some id) = some name := by
  simp only [Store.declaredIn, List.mem_filterMap]
  constructor
  · rintro ⟨entry, member, found⟩
    cases entry with
    | declares other place =>
      obtain ⟨⟨rfl, spelled⟩, same⟩ := Option.ite_none_right_eq_some.mp found
      cases same
      exact ⟨member, spelled⟩
    | opens | sees => cases found
  · rintro ⟨member, spelled⟩
    exact ⟨_, member, if_pos ⟨rfl, spelled⟩⟩

namespace Tree

theorem visit_node : (node id shape below).visit store outer =
    outer.entries id shape ++ visitAll store (outer.below store id shape) below := by
  rw [visit]

@[simp] theorem visitAll_nil : visitAll store others [] = [] := by
  cases others <;> rfl

@[simp] theorem visitAll_cons :
    visitAll store (outer :: others) (tree :: trees) = tree.visit store outer ++ visitAll store others trees := by
  rw [visitAll]

theorem mem_visitAll : entry ∈ visitAll store others trees ↔
    ∃ pair ∈ others.zip trees, entry ∈ pair.2.visit store pair.1 := by
  induction others generalizing trees with
  | nil => simp [visitAll]
  | cons outer others ih =>
    cases trees with
    | nil => simp [visitAll]
    | cons tree rest => simp [visitAll, ih]

theorem visitAll_map_const {α : Type} (items : List α) (same : items.length = trees.length) :
    visitAll store (items.map fun _ => outer) trees = trees.flatMap fun tree => tree.visit store outer := by
  induction trees generalizing items with
  | nil => cases items <;> rfl
  | cons tree rest ih =>
    cases items with
    | nil => cases same
    | cons item items =>
      rw [List.map_cons, visitAll, ih items (Nat.succ.inj same), List.flatMap_cons]

theorem visitAll_append {first : List Surroundings} {front : List Tree}
    (same : first.length = front.length) :
    visitAll store (first ++ others) (front ++ trees) =
      visitAll store first front ++ visitAll store others trees := by
  induction first generalizing front with
  | nil =>
    cases front with
    | nil => rfl
    | cons => cases same
  | cons outer first ih =>
    cases front with
    | nil => cases same
    | cons tree front =>
      rw [List.cons_append, List.cons_append, visitAll, visitAll, ih (Nat.succ.inj same),
        List.append_assoc]

end Tree

namespace Surroundings

theorem opens_mem_entries {around : List Surrounding} : .opens around ∈ outer.entries id shape ↔
    ∃ hoists, shape.opens outer.place = some hoists ∧ around = ⟨id, hoists, true⟩ :: outer.around := by
  constructor
  · intro member
    unfold entries at member
    split at member
    · rcases List.mem_cons.mp member with impossible | declares
      · cases impossible
      · split at declares
        · cases List.mem_singleton.mp declares
        · cases declares
    · obtain ⟨hoists, opened, same⟩ := List.mem_map.mp member
      rw [inside, Option.mem_toList.mp opened] at same
      cases same
      exact ⟨hoists, Option.mem_toList.mp opened, rfl⟩
  · rintro ⟨hoists, opened, rfl⟩
    cases shape with
    | identifier => cases opened
    | _ => simp [entries, inside, opened]

theorem sees_mem_entries {child : NodeId} {around : List Surrounding}
    (member : .sees child around ∈ outer.entries id shape) :
    child = id ∧ around = outer.around ∧ shape.opens outer.place = none := by
  unfold entries at member
  split at member
  · rcases List.mem_cons.mp member with same | declares
    · cases same
      exact ⟨rfl, rfl, rfl⟩
    · split at declares
      · cases List.mem_singleton.mp declares
      · cases declares
  · obtain ⟨_, _, impossible⟩ := List.mem_map.mp member
    cases impossible

theorem declares_mem_entries {child : NodeId} (member : .declares child home ∈ outer.entries id shape) :
    child = id ∧ outer.place = .name (some home) := by
  unfold entries at member
  split at member
  · rcases List.mem_cons.mp member with impossible | declares
    · cases impossible
    · split at declares
      · rename_i place
        cases List.mem_singleton.mp declares
        exact ⟨rfl, place⟩
      · cases declares
  · obtain ⟨_, _, impossible⟩ := List.mem_map.mp member
    cases impossible

theorem length_below : (outer.below store id shape).length = shape.slots.length := by
  cases shape <;> simp [below, Shape.slots]

/-- The slots of a node stand in the scope that it opens, if it opens one. -/
theorem around_of_mem_below {inner : Surroundings} (member : inner ∈ outer.below store id shape) :
    inner.around = outer.around ∧ shape.opens outer.place = none ∨
      ∃ hoists visible, shape.opens outer.place = some hoists ∧
        inner.around = ⟨id, hoists, visible⟩ :: outer.around := by
  have settled : inner.around = outer.inside id shape →
      inner.around = outer.around ∧ shape.opens outer.place = none ∨
        ∃ hoists visible, shape.opens outer.place = some hoists ∧
          inner.around = ⟨id, hoists, visible⟩ :: outer.around := by
    intro same
    rw [same, inside]
    split
    · rename_i hoists opened
      exact .inr ⟨hoists, true, opened, rfl⟩
    · rename_i closed
      exact .inl ⟨rfl, closed⟩
  cases shape with
  | switch discriminant clauses =>
    rcases List.mem_cons.mp member with rfl | listed
    · exact .inr ⟨false, false, rfl, rfl⟩
    · obtain ⟨_, _, rfl⟩ := List.mem_map.mp listed
      exact settled rfl
  | _ =>
    refine settled ?_
    simp only [below, List.mem_cons, List.mem_append, List.mem_map, List.not_mem_nil, or_false,
      Shape.slots, List.map_cons, List.map_nil] at member <;> grind

end Surroundings

namespace Tree

theorem mem_visit_node : entry ∈ (node id shape below).visit store outer ↔
    entry ∈ outer.entries id shape ∨
      ∃ pair ∈ (outer.below store id shape).zip below, entry ∈ pair.2.visit store pair.1 := by
  rw [visit_node, List.mem_append, mem_visitAll]

theorem opens_mem_names {around : List Surrounding}
    (member : .opens around ∈ tree.visit store outer) :
    ∃ first rest, around = first :: rest ∧ first.opener ∈ tree.names := by
  induction tree generalizing outer with
  | nothing => cases member
  | node id shape below ih =>
    rcases mem_visit_node.mp member with here | ⟨⟨inner, child⟩, paired, deeper⟩
    · obtain ⟨hoists, -, rfl⟩ := Surroundings.opens_mem_entries.mp here
      exact ⟨_, _, rfl, List.mem_cons_self⟩
    · obtain ⟨first, rest, same, inside⟩ := ih child (List.of_mem_zip paired).2 deeper
      exact ⟨first, rest, same, List.mem_cons_of_mem _ (mem_namesAll.mpr
        ⟨child, (List.of_mem_zip paired).2, inside⟩)⟩

theorem sees_mem_names {around : List Surrounding} (member : .sees id around ∈ tree.visit store outer) :
    id ∈ tree.names := by
  induction tree generalizing outer with
  | nothing => cases member
  | node top shape below ih =>
    rcases mem_visit_node.mp member with here | ⟨⟨inner, child⟩, paired, deeper⟩
    · obtain ⟨rfl, -, -⟩ := Surroundings.sees_mem_entries here
      exact List.mem_cons_self
    · exact List.mem_cons_of_mem _ (mem_namesAll.mpr ⟨child, (List.of_mem_zip paired).2,
        ih child (List.of_mem_zip paired).2 deeper⟩)

theorem exists_paired {child : Tree} (same : others.length = trees.length) (member : child ∈ trees) :
    ∃ inner, (inner, child) ∈ others.zip trees := by
  rw [← List.map_snd_zip (Nat.le_of_eq same.symm)] at member
  obtain ⟨⟨inner, tree⟩, paired, rfl⟩ := List.mem_map.mp member
  exact ⟨inner, paired⟩

end Tree

namespace Shape

/-- The slots of the names that a node declares. -/
def bindingSlots : Shape → List Slot
  | .declaration name _ => [name]
  | .function _ name parameters _ => name :: parameters
  | .catchClause name _ => [name]
  | _ => []

end Shape

namespace Store

theorem isDeclarationName_of_slot {parent : NodeId}
    (linked : store.parent (some id) = some parent) (found : store.shape? (some parent) = some shape)
    (listed : some id ∈ shape.bindingSlots) : store.isDeclarationName id = true := by
  unfold isDeclarationName
  rw [linked, found]
  cases shape with
  | declaration name initializer =>
    cases List.mem_singleton.mp listed
    exact beq_self_eq_true _
  | function isExpression name parameters body =>
    rcases List.mem_cons.mp listed with rfl | among
    · simp
    · simp [among]
  | catchClause name body =>
    cases List.mem_singleton.mp listed
    exact beq_self_eq_true _
  | _ => cases listed

end Store

theorem Surroundings.root_mem_bindingSlots {inner : Surroundings} {child : Tree} {place : Option NodeId}
    (roots : shape.slots = below.map Tree.root)
    (paired : (inner, child) ∈ (outer.below store id shape).zip below)
    (named : inner.place = .name place) : child.root ∈ shape.bindingSlots := by
  have plain : (∀ inner ∈ outer.below store id shape, inner.place = .plain) →
      child.root ∈ shape.bindingSlots := fun all => by
    rw [all inner (List.of_mem_zip paired).1] at named
    cases named
  cases shape with
  | function isExpression name parameters body =>
    obtain ⟨first, rest, rfl, rfl, others⟩ := List.map_eq_cons_iff.mp roots.symm
    obtain ⟨middle, last, rfl, rfl, single⟩ := List.map_eq_append_iff.mp others
    obtain ⟨last, rfl, rfl⟩ := Tree.one_of_roots single.symm
    rw [Surroundings.below, List.zip_cons_cons, List.zip_append (by simp)] at paired
    simp only [List.mem_cons, List.mem_append, List.zip_cons_cons, List.zip_nil_right,
      List.not_mem_nil, or_false, Prod.mk.injEq] at paired
    rcases paired with ⟨-, rfl⟩ | among | ⟨rfl, -⟩
    · exact List.mem_cons_self
    · exact List.mem_cons_of_mem _ (List.mem_map_of_mem (List.of_mem_zip among).2)
    · cases named
  | declaration name initializer =>
    obtain ⟨first, second, rfl, rfl, rfl⟩ := Tree.two_of_roots roots
    simp only [Surroundings.below, List.zip_cons_cons, List.zip_nil_right, List.mem_cons,
      List.not_mem_nil, or_false, Prod.mk.injEq] at paired
    rcases paired with ⟨-, rfl⟩ | ⟨rfl, -⟩
    · exact List.mem_cons_self
    · cases named
  | catchClause name body =>
    obtain ⟨first, second, rfl, rfl, rfl⟩ := Tree.two_of_roots roots
    simp only [Surroundings.below, List.zip_cons_cons, List.zip_nil_right, List.mem_cons,
      List.not_mem_nil, or_false, Prod.mk.injEq] at paired
    rcases paired with ⟨-, rfl⟩ | ⟨rfl, -⟩
    · exact List.mem_cons_self
    · cases named
  | declarationList isStatement declarations =>
    obtain ⟨_, _, rfl⟩ := List.mem_map.mp (List.of_mem_zip paired).1
    cases named
  | _ =>
    refine plain fun inner member => ?_
    simp only [Surroundings.below, List.mem_cons, List.mem_map] at member
    grind

namespace Store

/-- What is declared is a name of a declaration, a function or a `catch` clause. -/
theorem Holds.isDeclarationName_of_declares (holds : store.Holds tree)
    (named : ∀ place id, outer.place = .name place → tree.root = some id →
      store.isDeclarationName id = true)
    (member : .declares id home ∈ tree.visit store outer) : store.isDeclarationName id = true := by
  induction tree generalizing outer with
  | nothing => cases member
  | node top shape below ih =>
    cases holds with
    | node found regular roots links inner =>
      rcases Tree.mem_visit_node.mp member with here | ⟨⟨inner, child⟩, paired, deeper⟩
      · obtain ⟨rfl, place⟩ := Surroundings.declares_mem_entries here
        exact named _ _ place rfl
      · have listed := (List.of_mem_zip paired).2
        refine ih child listed (‹∀ tree ∈ below, _› child listed) (fun place id is rooted => ?_) deeper
        have slot := Surroundings.root_mem_bindingSlots roots paired is
        have linked := links child listed (by rw [rooted]; rfl)
        rw [rooted] at slot linked
        exact isDeclarationName_of_slot linked found slot

theorem Holds.exists_sees (holds : store.Holds tree) (inside : id ∈ tree.names)
    (spelled : store.identifier? (some id) = some name) :
    ∃ around, .sees id around ∈ tree.visit store outer := by
  induction tree generalizing outer with
  | nothing => cases inside
  | node top shape below ih =>
    cases holds with
    | node found regular roots links inner =>
      rcases List.mem_cons.mp inside with rfl | deeper
      · rw [Store.identifier?, found] at spelled
        cases shape with
        | identifier text =>
          exact ⟨outer.around, Tree.mem_visit_node.mpr (.inl List.mem_cons_self)⟩
        | _ => cases spelled
      · obtain ⟨child, member, within⟩ := Tree.mem_namesAll.mp deeper
        have same : (outer.below store top shape).length = below.length := by
          rw [Surroundings.length_below, roots, List.length_map]
        obtain ⟨surroundings, paired⟩ := Tree.exists_paired same member
        obtain ⟨around, seen⟩ := ih child member (inner child member) within
        exact ⟨around, Tree.mem_visit_node.mpr (.inr ⟨_, paired, seen⟩)⟩

end Store

end Walk

end Unflatten
