import Std.Data.TreeMap
import Unflatten.Binding.Position

/-! # Scopes and symbols

`Bindings.of` finds the scopes and the declared names of a tree and resolves every
identifier that names a variable.  A `var` or a function declaration belongs to the
nearest function or file, a parameter and the name of a function expression to the
function, and `let`, `const` and the variable of a `catch` clause to the nearest block,
loop head, `switch` or clause.  The body of a function shares the function's scope.

Scopes and symbols are numbered in the order in which they are made, so the parent of a
scope has a smaller number. -/

set_option autoImplicit false

namespace Unflatten

/-- The number of a scope. -/
abbrev ScopeId := Nat

/-- The number of a symbol. -/
abbrev SymbolId := Nat

/-- What opens a scope. -/
inductive ScopeKind where
  | file
  | function
  | block
  deriving DecidableEq, Repr, Inhabited

/-- The name of a kind of scope. -/
def ScopeKind.name : ScopeKind → String
  | .file => "SourceFile"
  | .function => "Function"
  | .block => "Block"

/-- A scope with the names declared in it. -/
structure Scope where
  parent : Option ScopeId
  kind : ScopeKind
  container : NodeId
  table : Std.TreeMap String SymbolId
  deriving Inhabited

/-- The ways to declare a name. -/
inductive DeclarationKind where
  | functionVariable
  | blockVariable
  | parameter
  | function
  | catchVariable
  deriving DecidableEq, Repr

/-- The mark of a way of declaring; a symbol has the marks of all its declarations. -/
def DeclarationKind.mark : DeclarationKind → Nat
  | .functionVariable => 1
  | .blockVariable => 2
  | .parameter => 4
  | .function => 8
  | .catchVariable => 16

/-- A declared name. -/
structure Symbol where
  name : String
  marks : Nat
  scope : ScopeId
  /-- The identifiers that declare the name. -/
  declarations : Array NodeId
  /-- The identifiers that refer to it, in the order of the tree. -/
  references : Array NodeId
  /-- The identifiers that write it after its declaration. -/
  violations : Array NodeId
  /-- Declared once and never written afterwards. -/
  isConstant : Bool
  deriving Inhabited

/-- The scopes and symbols of a tree. -/
structure Bindings where
  scopes : Array Scope
  symbols : Array Symbol
  /-- The scope that each node opens. -/
  scopeOf : Array (Option ScopeId)
  /-- The symbol that each identifier declares or refers to. -/
  symbolOf : Array (Option SymbolId)
  /-- References without a declaration. -/
  unresolved : Array NodeId
  current : Option ScopeId
  deriving Inhabited

namespace Bindings

/-- No bindings, for the nodes of a store. -/
def empty (store : Store) : Bindings where
  scopes := #[]
  symbols := #[]
  scopeOf := Array.replicate store.nodes.size none
  symbolOf := Array.replicate store.nodes.size none
  unresolved := #[]
  current := none

/-! ## Looking up -/

/-- The symbol of an identifier. -/
def symbolId? (bindings : Bindings) (id : NodeId) : Option SymbolId := bindings.symbolOf[id]?.join

/-- The symbol of an identifier. -/
def symbol? (bindings : Bindings) (id : NodeId) : Option Symbol :=
  (bindings.symbolId? id).bind fun symbol => bindings.symbols[symbol]?

/-- Whether the variable of an identifier is declared and never written afterwards. -/
def isConstant (bindings : Bindings) (slot : Slot) : Bool :=
  (slot.bind bindings.symbol?).any (·.isConstant)

/-- The innermost scope opened by a node or by one above it. -/
def enclosingScope? (bindings : Bindings) (store : Store) (slot : Slot) : Option ScopeId :=
  (store.climb (fun id => (bindings.scopeOf[id]?.join).isSome) store.depthBound slot).bind
    fun id => bindings.scopeOf[id]?.join

/-- The symbol of a name in a scope or in the scopes around it. -/
def lookup? (bindings : Bindings) (name : String) : (fuel : Nat) → Option ScopeId → Option SymbolId
  | 0, _ => none
  | _, none => none
  | fuel + 1, some id =>
    bindings.scopes[id]?.bind fun scope =>
      (scope.table[name]?).or (bindings.lookup? name fuel scope.parent)

/-- The symbol that a name would refer to at a node. -/
def lookupAt? (bindings : Bindings) (store : Store) (slot : Slot) (name : String) :
    Option SymbolId :=
  bindings.lookup? name (bindings.scopes.size + 1) (bindings.enclosingScope? store slot)

/-- The nearest scope to which a `var` belongs. -/
def hoistingScope? (bindings : Bindings) : (fuel : Nat) → Option ScopeId → Option ScopeId
  | 0, _ => none
  | _, none => none
  | fuel + 1, some id =>
    bindings.scopes[id]?.bind fun scope =>
      if scope.kind = .block then bindings.hoistingScope? fuel scope.parent else some id

/-! ## Declaring -/

/-- Opens a scope. -/
def enter (bindings : Bindings) (kind : ScopeKind) (container : NodeId) : Bindings :=
  let id := bindings.scopes.size
  { bindings with
    scopes := bindings.scopes.push ⟨bindings.current, kind, container, ∅⟩
    scopeOf := bindings.scopeOf.setIfInBounds container (some id)
    current := some id }

/-- Closes the current scope. -/
def leave (bindings : Bindings) : Bindings :=
  let parent := bindings.current.bind fun id => bindings.scopes[id]?.bind (·.parent)
  { bindings with current := parent }

/-- The scope of a `var` declared here. -/
def hoistingScope (bindings : Bindings) : Option ScopeId :=
  (bindings.hoistingScope? (bindings.scopes.size + 1) bindings.current).or bindings.current

/-- Declares a name in a scope.  A name that is declared again in its scope keeps its
symbol, which is no longer constant. -/
def declare (bindings : Bindings) (scope? : Option ScopeId) (name : String)
    (kind : DeclarationKind) (declaration : NodeId) : Bindings :=
  match scope? with
  | none => bindings
  | some scope =>
    match bindings.scopes[scope]?.bind fun found => found.table[name]? with
    | some id =>
      { bindings with
        symbols := bindings.symbols.modify id fun symbol =>
          { symbol with
            marks := symbol.marks ||| kind.mark
            isConstant := false
            declarations := symbol.declarations.push declaration }
        symbolOf := bindings.symbolOf.setIfInBounds declaration (some id) }
    | none =>
      let id := bindings.symbols.size
      { bindings with
        symbols := bindings.symbols.push
          ⟨name, kind.mark, scope, #[declaration], #[], #[], true⟩
        scopes := bindings.scopes.modify scope fun found =>
          { found with table := found.table.insert name id }
        symbolOf := bindings.symbolOf.setIfInBounds declaration (some id) }

/-- Declares the name that an identifier spells; nothing for any other node. -/
def declareIdentifier (bindings : Bindings) (store : Store) (scope? : Option ScopeId)
    (kind : DeclarationKind) (slot : Slot) : Bindings :=
  match slot, store.identifier? slot with
  | some id, some name => bindings.declare scope? name kind id
  | _, _ => bindings

/-- Notes that an identifier writes its variable. -/
def noteWrite (bindings : Bindings) (id : NodeId) : Bindings :=
  match bindings.symbolId? id with
  | none => bindings
  | some symbol =>
    { bindings with
      symbols := bindings.symbols.modify symbol fun found =>
        { found with isConstant := false, violations := found.violations.push id } }

/-- Declares the names below a node. -/
def bindNode (store : Store) : (depth : Nat) → Slot → Bindings → Bindings
  | 0, _, bindings => bindings
  | depth + 1, slot, bindings =>
    match slot, store.node? slot with
    | some id, some node =>
      let bindAll (slots : List Slot) (bindings : Bindings) : Bindings :=
        slots.foldl (fun bindings slot => bindNode store depth slot bindings) bindings
      match node.shape with
      | .function isExpression name parameters body =>
        let bindings :=
          if isExpression then bindings
          else bindings.declareIdentifier store bindings.hoistingScope .function name
        let bindings := bindings.enter .function id
        let scope := bindings.current
        let bindings :=
          if isExpression then bindings.declareIdentifier store scope .function name else bindings
        let bindings := parameters.foldl (fun bindings parameter =>
          bindings.declareIdentifier store scope .parameter parameter) bindings
        (bindAll ((store.statements? body).getD []) bindings).leave
      | .declarationList _ declarations =>
        let scope := if node.flags.isBlockScoped then bindings.current else bindings.hoistingScope
        let kind : DeclarationKind :=
          if node.flags.isBlockScoped then .blockVariable else .functionVariable
        let isLoopHead := store.kind? node.parent == some .forInStatement
        declarations.foldl (fun bindings declaration =>
          match store.shape? declaration with
          | some (.declaration name initializer) =>
            let bindings := bindings.declareIdentifier store scope kind name
            let bindings := match name, store.identifier? name with
              | some nameId, some _ => if isLoopHead then bindings.noteWrite nameId else bindings
              | _, _ => bindings
            bindNode store depth initializer bindings
          | _ => bindings) bindings
      | .block _ | .forIn _ _ _ | .switch _ _ | .loop .forLoop _ _ _ _ =>
        (bindAll (node.shape.children.map some) (bindings.enter .block id)).leave
      | .catchClause name body =>
        let bindings := bindings.enter .block id
        let bindings := bindings.declareIdentifier store bindings.current .catchVariable name
        (bindNode store depth body bindings).leave
      | shape => bindAll (shape.children.map some) bindings
    | _, _ => bindings

/-! ## Resolving -/

/-- Resolves an identifier, if it refers to a variable and declares none. -/
def resolve (store : Store) (bindings : Bindings) (id : NodeId) : Bindings :=
  match store.identifier? (some id) with
  | none => bindings
  | some name =>
    if (bindings.symbolId? id).isSome || !store.isReference id then bindings
    else
      match bindings.lookupAt? store (some id) name with
      | none => { bindings with unresolved := bindings.unresolved.push id }
      | some symbol =>
        let bindings :=
          { bindings with
            symbolOf := bindings.symbolOf.setIfInBounds id (some symbol)
            symbols := bindings.symbols.modify symbol fun found =>
              { found with references := found.references.push id } }
        if store.isWrite id then bindings.noteWrite id else bindings

/-- The bindings of a tree. -/
def of (store : Store) (root : NodeId) : Bindings :=
  let opened := (empty store).enter .file root
  let declared := ((store.statements? (some root)).getD []).foldl
    (fun bindings statement => bindNode store store.depthBound statement bindings) opened
  (store.descendants (some root)).foldl (resolve store) declared.leave

end Bindings

end Unflatten
