import Unflatten.Binding.Scope
import Unflatten.Dispatch.Key

/-! # Finding dispatch loops

A loop is taken for a dispatch loop in two forms.  In the masked form the body of
`for (var k = 0; ...)` declares a variable that is never written again as `7 & k`: it is
a dispatch variable with the values from 0 to 7, and `k` is the key.  In the direct form
the body is `switch (k) { ... }` alone, and `k` is declared with a whole number in the
head of the loop or in the statement before it. -/

set_option autoImplicit false

namespace Unflatten

namespace Store

/-- The name and the whole number of a declaration `name = number`. -/
def numericDeclaration? (store : Store) (slot : Slot) : Option (String × Int) :=
  match store.shape? slot with
  | some (.declaration name initializer) =>
    (store.identifier? name).bind fun text =>
      ((store.number? initializer).bind Number.safeInteger?).map fun value => (text, value)
  | _ => none

/-- The declarations in the head of a `for` loop. -/
def headDeclarations? (store : Store) (loop : NodeId) : Option (List Slot) :=
  match store.shape? (some loop) with
  | some (.loop _ initializer _ _ _) =>
    match store.shape? initializer with
    | some (.declarationList false declarations) => some declarations
    | _ => none
  | _ => none

/-- The nearest `for` loop around a node in the same function. -/
def enclosingFor? (store : Store) (node : Slot) : Slot :=
  let isBoundary (id : NodeId) : Bool := store.satisfies (some id) fun shape =>
    shape.isFunction || shape.kind == .forStatement
  let found := store.climb isBoundary store.depthBound (store.parent node)
  if store.kind? found == some .forStatement then found else none

/-- The first name referred to in an expression. -/
def firstReference? (store : Store) (expression : Slot) : Option String :=
  ((store.descendants expression).find? fun id =>
    (store.identifier? (some id)).isSome && store.isReference id).bind
    fun id => store.identifier? (some id)

/-- The mask and the masked expression of `mask & expression`. -/
def mask? (store : Store) (slot : Slot) : Option (Nat × Slot) :=
  match store.shape? slot with
  | some (.binary left .ampersand right) =>
    match (store.number? left).bind Number.safeInteger? with
    | some (.ofNat mask) => if mask < Number.wordCount then some (mask, right) else none
    | _ => none
  | _ => none

end Store

namespace Findings

/-- Adds a key with its remark, unless it is known. -/
def addKey (findings : Findings) (store : Store) (key : DispatchKey) : Findings :=
  if (findings.key? key.name).isSome then findings
  else
    let remark : Remark :=
      ⟨.dispatchKey, some key.declaration, [key.name, toString key.start]⟩
    { findings.note store remark with keys := findings.keys ++ [key] }

/-- A key of which nothing but its place is known. -/
def newKey (name : String) (start : Int) (loop declaration : NodeId) (prelude : Slot)
    (place : Nat) : DispatchKey where
  name := name
  start := start
  loop := loop
  prelude := prelude
  place := place
  declaration := declaration
  children := []
  histogram := ∅
  exits := []
  obstacle := none
  isVisited := false

/-! ## The masked form -/

/-- A dispatch variable and the key it is cut out of, with the statement around it. -/
structure Masked where
  part : DispatchVariable
  key : DispatchKey

/-- Reads a declaration as that of a dispatch variable. -/
def masked? (store : Store) (bindings : Bindings) (declaration : NodeId) : Option Masked :=
  match store.shape? (some declaration) with
  | some (.declaration nameSlot initializer) => do
    let name ← store.identifier? nameSlot
    let (mask, operand) ← store.mask? initializer
    let statement := store.parent (some declaration)
    let loop ← store.enclosingFor? statement
    let keyDeclaration ← (← (← store.headDeclarations? loop).head?)
    let (keyName, start) ← store.numericDeclaration? (some keyDeclaration)
    if bindings.isConstant nameSlot && store.kind? statement == some .variableStatement then
      some
        { part := ⟨name, mask + 1, keyName, store.firstReference? operand, declaration⟩
          key := newKey keyName start loop keyDeclaration statement 1 }
    else none
  | _ => none

/-- Takes a declaration of the masked form down. -/
def addMasked (findings : Findings) (store : Store) (masked : Masked) : Findings :=
  let new := masked.part
  if (findings.variableNamed? new.name).isSome then findings
  else
    let length := (store.loopBody masked.key.loop).length
    let journal :=
      if length = 2 then findings.journal
      else findings.journal.addOnce store
        ⟨.unexpectedLoopBody, some masked.key.loop, [new.rootKey, toString length]⟩
    let journal := journal.add store
      ⟨.dispatchVariable, some new.declaration,
        [new.name, "0.." ++ toString new.domainSize, new.rootKey, new.parent.getD "-"]⟩
    let findings := { findings with
      journal := journal
      parts := findings.parts ++ [new] }
    (findings.addKey store masked.key).updateKey new.rootKey fun key =>
      if key.children.contains new.name then key
      else { key with children := key.children ++ [new.name] }

/-! ## The direct form -/

/-- Where the key of a loop without a prelude gets its start value: in the head of the
loop, or if that is empty, in the statement before the loop. -/
def directDeclaration? (store : Store) (loop : NodeId) (name : String) :
    Option (Int × NodeId) :=
  let named (declaration : Slot) : Option (Int × NodeId) := do
    let id ← declaration
    let (found, start) ← store.numericDeclaration? declaration
    if found == name then some (start, id) else none
  match store.shape? (some loop) with
  | some (.loop _ (some _) _ _ _) =>
    (store.headDeclarations? loop).bind fun declarations => declarations.findSome? named
  | some (.loop _ none _ _ _) =>
    match store.position? (some loop) with
    | some (container, place + 1) =>
      match store.shape? (((store.statements? (some container)).getD [])[place]?).join with
      | some (.declarationList true [declaration]) => named declaration
      | _ => none
    | _ => none
  | _ => none

/-- Reads a `for` loop as a dispatch loop of the direct form. -/
def direct? (store : Store) (bindings : Bindings) (loop : NodeId) : Option DispatchKey :=
  match store.loopBody loop with
  | [dispatcher] => do
    let discriminant ← (← store.discriminant? dispatcher)
    let name ← store.identifier? (some discriminant)
    let (start, declaration) ← directDeclaration? store loop name
    let declared? : Slot := match store.shape? (some declaration) with
      | some (.declaration nameSlot _) => nameSlot
      | _ => none
    let symbol ← bindings.symbolId? discriminant
    if declared?.bind bindings.symbolId? == some symbol then
      some (newKey name start loop declaration none 0)
    else none
  | _ => none

/-! ## The whole tree -/

/-- Takes a node down if it is of one of the forms. -/
def classifyNode (store : Store) (bindings : Bindings) (findings : Findings) (id : NodeId) :
    Findings :=
  match store.kind? (some id) with
  | some .variableDeclaration =>
    (masked? store bindings id).elim findings (findings.addMasked store)
  | some .forStatement => (direct? store bindings id).elim findings (findings.addKey store)
  | _ => findings

/-- Finds the dispatch loops of a tree. -/
def classify (findings : Findings) (store : Store) (root : NodeId) : Findings :=
  (store.descendants (some root)).foldl (classifyNode store (Bindings.of store root)) findings

end Findings

end Unflatten
