import Unflatten.Number.Double
import Unflatten.Syntax.Store
import Unflatten.Text.Json

/-! # The outline of a tree

An outline has a line for each node, parents first: its depth, the slot it stands in,
its kind, its stretch of the source, its marks and what it holds besides children.  A
`NodeRef` names a node by its kind and its stretch. -/

set_option autoImplicit false

namespace Unflatten

namespace Number

/-- The bits of a double as sixteen hexadecimal digits; not a number has one name. -/
def bitsText (x : Float) : String :=
  if x.isNaN then "NaN" else String.ofList (Text.lowerHex 16 x.toBits.toNat)

end Number

namespace Shape

/-- Slots of a list under one name. -/
def numbered (name : String) (slots : List Slot) : List (String × Slot) :=
  slots.zipIdx.map fun (slot, place) => (name ++ "[" ++ toString place ++ "]", slot)

/-- The slots with their names, in the order of an outline. -/
def namedSlots : Shape → List (String × Slot)
  | .file _ statements | .block statements => numbered "statements" statements
  | .clause _ label statements => ("label", label) :: numbered "statements" statements
  | .declarationList _ declarations => numbered "declarations" declarations
  | .declaration name initializer => [("name", name), ("initializer", initializer)]
  | .function _ name parameters body =>
    ("name", name) :: (numbered "parameters" parameters ++ [("body", body)])
  | .expressionStatement expression => [("expression", expression)]
  | .conditionalStatement test thenBody elseBody =>
    [("test", test), ("then", thenBody), ("else", elseBody)]
  | .loop .doLoop _ condition _ body => [("body", body), ("condition", condition)]
  | .loop _ initializer condition incrementor body =>
    [("initializer", initializer), ("condition", condition), ("incrementor", incrementor),
      ("body", body)]
  | .forIn initializer expression body =>
    [("initializer", initializer), ("expression", expression), ("body", body)]
  | .switch discriminant clauses => ("discriminant", discriminant) :: numbered "clauses" clauses
  | .exit _ expression => [("expression", expression)]
  | .jump _ label => [("label", label)]
  | .labeled label statement => [("label", label), ("statement", statement)]
  | .tryStatement body handler finalizer =>
    [("block", body), ("catch", handler), ("finally", finalizer)]
  | .catchClause name body => [("variable", name), ("block", body)]
  | .unary _ _ operand => [("operand", operand)]
  | .binary left _ right => [("left", left), ("right", right)]
  | .conditional condition whenTrue whenFalse =>
    [("condition", condition), ("when_true", whenTrue), ("when_false", whenFalse)]
  | .elements _ items => numbered "elements" items
  | .call _ callee arguments => ("callee", callee) :: numbered "arguments" arguments
  | .access _ object property => [("object", object), ("property", property)]
  | .propertyAssignment name initializer => [("name", name), ("initializer", initializer)]
  | .emptyStatement | .debuggerStatement | .omitted => []
  | .identifier _ | .literal _ _ _ | .token _ => []

/-- What a node holds besides children. -/
def payload? : Shape → Option String
  | .identifier text => some (Text.jsonString text)
  | .literal _ text value =>
    some (Text.jsonString text ++ " " ++ (value.map Number.bitsText).getD "-")
  | .binary _ operator _ | .unary _ operator _ => some operator.name
  | .token kind =>
    match kind with
    | .thisKeyword | .trueKeyword | .falseKeyword | .nullKeyword => some kind.text
    | _ => none
  | _ => none

end Shape

/-- The names of the marks that are set. -/
def Flags.names (flags : Flags) : List String :=
  (if flags.isLet then ["LET"] else []) ++ (if flags.isConst then ["CONST"] else [])
    ++ (if flags.synthesized then ["SYNTHESIZED"] else [])
    ++ (if flags.multiLine then ["MULTI_LINE"] else [])

/-- A node by its kind and its stretch of the source. -/
def Node.ref (node : Node) : String :=
  node.shape.kind.name ++ "@" ++ toString node.start ++ "-" ++ toString node.stop

namespace Store

/-- The node of a slot by its kind and its stretch of the source. -/
def ref (store : Store) (slot : Slot) : String :=
  ((store.node? slot).map (·.ref)).getD "none"

/-- The line of a node. -/
def outlineLine (depth : Nat) (name : String) (node : Node) : String :=
  let marks := String.join (node.flags.names.map (" #" ++ ·))
  let payload := (node.shape.payload?.map (" " ++ ·)).getD ""
  toString depth ++ " " ++ name ++ " " ++ node.shape.kind.name ++ " " ++ toString node.start
    ++ "-" ++ toString node.stop ++ marks ++ payload

/-- The lines of a subtree in front of a tail. -/
def outlineOnto (store : Store) (depth : Nat) :
    (fuel : Nat) → String → Slot → List String → List String
  | 0, _, _, tail => tail
  | fuel + 1, name, slot, tail =>
    match store.node? slot with
    | none => tail
    | some node =>
      outlineLine depth name node ::
        node.shape.namedSlots.foldr
          (fun entry rest => store.outlineOnto (depth + 1) fuel entry.1 entry.2 rest) tail

/-- The outline of a tree. -/
def outline (store : Store) (root : Slot) : List String :=
  store.outlineOnto 0 store.depthBound "root" root []

end Store

end Unflatten
