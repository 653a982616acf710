import Std.Data.HashSet
import Unflatten.Diagnostic
import Unflatten.Syntax.Store

/-! # The journal

A pass that meets something worth telling makes a `Remark` about a node.  The journal
keeps the diagnostics of all remarks in the order in which they were made.  A rule that
visits a node again and again adds its remark once (`Journal.addOnce`). -/

set_option autoImplicit false

namespace Unflatten

/-- Something worth telling about a node. -/
structure Remark where
  notice : Notice
  node : Slot
  arguments : List String
  deriving DecidableEq, Repr

/-- The diagnostic of a remark, at the place of its node. -/
def Remark.diagnostic (remark : Remark) (store : Store) : Diagnostic :=
  let (start, length) := ((store.node? remark.node).map fun node =>
    (node.start, node.stop - node.start)).getD (0, 0)
  Diagnostic.of remark.notice start length remark.arguments

/-- Diagnostics in the order in which they were made. -/
structure Journal where
  entries : Array Diagnostic
  /-- The notices that are given once for a node, with their nodes. -/
  given : Std.HashSet (Nat × Slot)
  deriving Inhabited

namespace Journal

/-- The journal without entries. -/
def empty : Journal := ⟨#[], ∅⟩

/-- Adds a remark. -/
def add (journal : Journal) (store : Store) (remark : Remark) : Journal :=
  { journal with entries := journal.entries.push (remark.diagnostic store) }

/-- Adds several remarks. -/
def addAll (journal : Journal) (store : Store) (remarks : List Remark) : Journal :=
  remarks.foldl (fun journal remark => journal.add store remark) journal

/-- Adds a remark unless its notice was given for this node before. -/
def addOnce (journal : Journal) (store : Store) (remark : Remark) : Journal :=
  let mark := (remark.notice.code, remark.node)
  if journal.given.contains mark then journal
  else { journal.add store remark with given := journal.given.insert mark }

end Journal

end Unflatten
