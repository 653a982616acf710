import Unflatten.Syntax.Store

/-! # What an identifier stands for

The place of an identifier tells whether it names a variable (`Store.isReference`),
whether the variable is written there (`Store.isWrite`), and whether the identifier
declares the variable (`Store.isDeclarationName`). -/

set_option autoImplicit false

namespace Unflatten.Store

/-- Whether an identifier names a variable and not a property or a label. -/
def isReference (store : Store) (id : NodeId) : Bool :=
  match store.shape? (store.parent (some id)) with
  | some (.access false _ property) => property != some id
  | some (.propertyAssignment name _) => name != some id
  | some (.labeled _ _) | some (.jump _ _) => false
  | _ => true

/-- Whether an identifier is assigned to: as the target of an assignment, by `++` or
`--`, or by a `for` loop over properties. -/
def isWrite (store : Store) (id : NodeId) : Bool :=
  match store.shape? (store.parent (some id)) with
  | some (.binary left operator _) => left == some id && operator.isAssignment
  | some (.unary _ operator _) => operator == .plusPlus || operator == .minusMinus
  | some (.forIn initializer _ _) => initializer == some id
  | _ => false

/-- Whether an identifier declares a name: in a declaration, as the name or a parameter
of a function, or in a `catch` clause. -/
def isDeclarationName (store : Store) (id : NodeId) : Bool :=
  match store.shape? (store.parent (some id)) with
  | some (.declaration name _) => name == some id
  | some (.function _ name parameters _) => name == some id || parameters.contains (some id)
  | some (.catchClause name _) => name == some id
  | _ => false

/-- The identifiers below a node that refer to a name without declaring it. -/
def references (store : Store) (root : Slot) (name : String) : List NodeId :=
  (store.descendants root).filter fun id =>
    store.isIdentifier (some id) name && store.isReference id && !store.isDeclarationName id

/-- Whether an identifier below a node names a variable of this name. -/
def mentions (store : Store) (root : Slot) (name : String) : Bool :=
  (store.descendants root).any fun id =>
    store.isIdentifier (some id) name && store.isReference id

end Unflatten.Store
