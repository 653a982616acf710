import Std.Data.HashSet
import Unflatten.Binding.Scope
import Unflatten.Syntax.Edit

/-! # Giving every binding a name of its own

Functions, parameters and declared variables are visited in the order of the source and
named `_u1000f`, `_u1001p`, `_u1002v` and so on: one count for all, and a letter for the
part the name plays.  A name that some identifier of the tree has already gets a number
behind it.  All sites of a symbol receive its name, so two symbols never share one, and
names that are not declared in the tree stay. -/

set_option autoImplicit false

namespace Unflatten

/-- How many numbers are tried behind a name that is taken. -/
def maxRenameSuffix : Nat := 10000

/-- The names given out so far. -/
structure Naming where
  /-- The number of the next name. -/
  count : Nat
  /-- All names in the tree or given out. -/
  taken : Std.HashSet String
  /-- The new names of symbols. -/
  names : Std.TreeMap SymbolId String

namespace Naming

/-- The beginning of the naming of a tree: the names of its identifiers are taken. -/
def start (store : Store) (root : NodeId) : Naming where
  count := 1000
  taken := Std.HashSet.ofList
    ((store.descendants (some root)).filterMap fun id => store.identifier? (some id))
  names := ∅

/-- The first name that is free among a candidate and the base with a number from
`suffix` on; the last candidate if a number of tries find none. -/
def firstFree (taken : Std.HashSet String) (base : String) :
    (tries : Nat) → (suffix : Nat) → (candidate : String) → String
  | 0, _, candidate => candidate
  | tries + 1, suffix, candidate =>
    if taken.contains candidate then
      firstFree taken base tries (suffix + 1) (base ++ toString suffix)
    else candidate

/-- Gives out a name for a part. -/
def fresh (naming : Naming) (part : Char) : Naming × String :=
  let base := ("_u" ++ toString naming.count).push part
  let name := firstFree naming.taken base (maxRenameSuffix - 2) 2 base
  ({ naming with count := naming.count + 1, taken := naming.taken.insert name }, name)

/-- Names the symbol that an identifier declares, unless it has a new name. -/
def plan (bindings : Bindings) (naming : Naming) (part : Char) (identifier : Slot) : Naming :=
  match identifier.bind bindings.symbolId? with
  | none => naming
  | some symbol =>
    if naming.names.contains symbol then naming
    else
      let (naming, name) := naming.fresh part
      { naming with names := naming.names.insert symbol name }

/-- Names what a node declares. -/
def visit (store : Store) (bindings : Bindings) (naming : Naming) (id : NodeId) : Naming :=
  match store.shape? (some id) with
  | some (.function _ name parameters _) =>
    parameters.foldl (fun naming parameter => plan bindings naming 'p' parameter)
      (plan bindings naming 'f' name)
  | some (.declaration name _) => plan bindings naming 'v' name
  | _ => naming

/-- The naming of a whole tree. -/
def of (store : Store) (root : NodeId) (bindings : Bindings) : Naming :=
  (store.descendants (some root)).foldl (visit store bindings) (start store root)

end Naming

namespace Store

/-- Writes a text into several identifiers. -/
def setTexts (store : Store) (sites : List NodeId) (text : String) : Store :=
  sites.foldl (fun store site => (store.setText (some site) text).1) store

/-- Renames every binding of a tree and answers their number. -/
def rename (store : Store) (root : NodeId) : Store × Nat :=
  let bindings := Bindings.of store root
  let naming := Naming.of store root bindings
  let renamed := naming.names.toList.foldl (fun store (symbol, name) =>
    match bindings.symbols[symbol]? with
    | none => store
    | some found =>
      store.setTexts (found.declarations.toList ++ found.references.toList) name) store
  (renamed, naming.names.size)

end Store

end Unflatten
