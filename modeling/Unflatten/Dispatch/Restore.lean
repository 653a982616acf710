import Unflatten.Dispatch.Collapse
import Unflatten.Dispatch.Expansion
import Unflatten.Dispatch.Merging

/-! # Restoring the order of statements

The dispatcher of every tracked key is expanded into a case table, the cases are merged,
and the table is written back as a `switch`; a loop of which one case is left collapses.
All this happens on a copy of the dispatcher, so a dispatcher that cannot be expanded
stays as it was. -/

set_option autoImplicit false

namespace Unflatten

/-- The key on which the cases of a dispatcher are merged. -/
def DispatchKey.mergeKey (key : DispatchKey) : MergeKey := ⟨key.name, key.start, key.exits⟩

namespace Restore

/-- Notes the clauses that no value selects. -/
def noteDropped (findings : Findings) (store : Store) (key : DispatchKey) (work : Expansion) :
    Findings :=
  { findings with
    journal := findings.journal.addAll store (work.dropped.reverse.map fun (clause, label) =>
      ⟨.dropInKey, clause, [key.name, label]⟩) }

/-- Restores the dispatcher of a key that is in the tree. -/
def restoreDispatcher (store : Store) (root : NodeId) (findings : Findings) (key : DispatchKey)
    (dispatcher : Slot) : Store × Findings × Bool :=
  let (store, copy) := store.copy dispatcher
  match expand store key copy key.liveValues with
  | (work, some mismatch) =>
    let findings := noteDropped findings work.store key work
    let findings := findings.note work.store
      ⟨.keyCaseMismatch, dispatcher, [key.name, mismatch.message]⟩
    (work.store, findings.updateKey key.name fun key => { key with isVisited := true }, false)
  | (work, none) =>
    let findings := noteDropped findings work.store key work
    let table : CaseTable := ⟨key.histogram, work.cases⟩
    let (store, table, isSettled) := table.merge work.store key.mergeKey
    let (store, replacement) := table.emit store key.name
    let findings :=
      if isSettled then findings
      else findings.note store
        ⟨.mergeLimit, dispatcher, [key.name, toString maxMergeSweeps]⟩
    let (store, _) := store.replaceNode dispatcher (some replacement)
    let findings := findings.updateKey key.name fun key =>
      { key with histogram := table.histogram, isVisited := true }
    match store.collapse root key with
    | (store, true) =>
      (store, findings.note store ⟨.loopCollapsed, some key.loop, [key.name]⟩, true)
    | (store, false) => (store, findings, true)

/-- Restores the dispatcher of a key, if the key is tracked and has not been visited. -/
def restoreKey (root : NodeId) (state : Store × Findings × Nat) (name : String) :
    Store × Findings × Nat :=
  let (store, findings, count) := state
  match findings.key? name with
  | none => (store, findings, count)
  | some key =>
    let dispatcher := key.dispatcher? store
    if key.isVisited || key.obstacle.isSome || key.histogram.isEmpty
        || !store.isAttached root dispatcher then
      (store, findings, count)
    else
      let (store, findings, isRestored) := restoreDispatcher store root findings key dispatcher
      (store, findings, if isRestored then count + 1 else count)

end Restore

/-- Restores the dispatchers of all keys and answers the number of those rewritten. -/
def restoreDispatchers (store : Store) (root : NodeId) (findings : Findings) :
    Store × Findings × Nat :=
  (findings.keys.map (·.name)).foldl (Restore.restoreKey root) (store, findings, 0)

end Unflatten
