import Unflatten.Canonical.Block
import Unflatten.Canonical.Lowering

/-! # Bringing a program into canonical form

A rule walks over the tree again and again until a walk changes nothing, and all rules
are applied in rounds until a round changes nothing.  A walk lists its nodes beforehand
and skips those that the rule has cut off in the meantime. -/

set_option autoImplicit false

namespace Unflatten

/-- How many walks a rule, and how many rounds all rules together, may take. -/
def maxNormalizeIterations : Nat := 64

/-- Repeats a step until it reports no change, a number of times at most, and answers
whether anything changed. -/
def untilStable {α : Type} (step : α → α × Bool) : (limit : Nat) → α → α × Bool
  | 0, state => (state, false)
  | limit + 1, state =>
    let (next, changed) := step state
    if changed then ((untilStable step limit next).1, true) else (next, false)

namespace Rule

/-- Applies a rule to one node. -/
def rewrite : Rule → Store → NodeId → Store × Outcome
  | .removeVoid => Canonical.removeVoid
  | .conditionalAssign => Canonical.conditionalAssign
  | .conditionalIf => Canonical.conditionalIf
  | .logicalIf => Canonical.logicalIf
  | .ifBody => Canonical.ifBody
  | .ifTestSequence => Canonical.ifTestSequence
  | .ifTestBinary => Canonical.ifTestBinary
  | .switchCase => Canonical.switchCase
  | .returnSequence => Canonical.returnSequence
  | .sequence => Canonical.sequence
  | .inlineCall => Canonical.inlineCall
  | .flattenBlock => Canonical.flattenBlock

/-- The nodes below the root in the order in which the rule visits them. -/
def order (rule : Rule) (store : Store) (root : NodeId) : List NodeId :=
  if rule.isTopDown then store.descendants (some root) else store.postorder (some root)

/-- Applies a rule to a node, if it still belongs to the tree.  A refusal goes into the
journal once. -/
def visit (rule : Rule) (root : NodeId) (state : (Store × Journal) × Bool) (id : NodeId) :
    (Store × Journal) × Bool :=
  let ((store, journal), changed) := state
  if store.isAttached root (some id) then
    let (store, outcome) := rule.rewrite store id
    match outcome with
    | .unchanged => ((store, journal), changed)
    | .changed => ((store, journal), true)
    | .refused remark =>
      let journal := journal.addOnce store remark
      ((store, journal), changed)
  else ((store, journal), changed)

/-- One walk of a rule over the tree. -/
def walk (rule : Rule) (root : NodeId) (state : Store × Journal) : (Store × Journal) × Bool :=
  (rule.order state.1 root).foldl (rule.visit root) (state, false)

/-- Applies a rule until it changes nothing. -/
def run (rule : Rule) (root : NodeId) (state : Store × Journal) : (Store × Journal) × Bool :=
  untilStable (rule.walk root) maxNormalizeIterations state

end Rule

/-- One round of all rules. -/
def normalizeRound (root : NodeId) (state : Store × Journal) : (Store × Journal) × Bool :=
  Rule.all.foldl (fun (state, changed) rule =>
    let (state, again) := rule.run root state
    (state, changed || again)) (state, false)

/-- Brings a tree into canonical form and answers whether anything changed. -/
def normalize (root : NodeId) (state : Store × Journal) : (Store × Journal) × Bool :=
  untilStable (normalizeRound root) maxNormalizeIterations state

end Unflatten
