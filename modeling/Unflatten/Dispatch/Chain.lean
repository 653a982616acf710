import Std.Data.TreeMap
import Unflatten.Dispatch.Key
import Unflatten.Evaluation.Evaluator
import Unflatten.Syntax.Build
import Unflatten.Syntax.Facts

/-! # Chains of tests on a dispatch variable

A chain is an `if` whose test has a dispatch variable on its left, together with the
same kind of `if` alone in a branch.  The tests are evaluated for every value of the
variable's domain, which splits the domain among the branches at the ends of the chain.
A branch for one value becomes the case of that value, and the one branch for several
values the default (`Chain.plan`).  The chain then gives way to a `switch`. -/

set_option autoImplicit false

namespace Unflatten

/-- The largest domain that is split. -/
def maxDispatchDomain : Nat := 4096

namespace Chain

/-- The branches of a chain by the values that reach them. -/
structure Plan where
  cases : Std.TreeMap Int Slot
  default? : Option Slot
  /-- Every `if` of the chain. -/
  links : List NodeId
  /-- The branches that no value reaches, in the order in which they are met. -/
  unreachable : List Slot

/-- The plan before the first test. -/
def Plan.empty : Plan := ⟨∅, none, [], []⟩

/-- Why a chain cannot be planned. -/
inductive Failure where
  /-- Two branches are reached by several values each. -/
  | multipleDefault
  | undecidedTest (cause : EvalError)
  deriving DecidableEq, Repr

/-- The test and the branches of an `if`. -/
def parts? (store : Store) (link : NodeId) : Option (Slot × Slot × Slot) :=
  match store.shape? (some link) with
  | some (.conditionalStatement test thenBody elseBody) => some (test, thenBody, elseBody)
  | _ => none

/-- The name on the left of the test of an `if`. -/
def testedName? (store : Store) (slot : Slot) : Option String :=
  match store.shape? slot with
  | some (.conditionalStatement test _ _) =>
    match store.shape? test with
    | some (.binary left _ _) => store.identifier? left
    | _ => none
  | _ => none

/-- The `if` on the same name that a branch holds and nothing else. -/
def nextLink? (store : Store) (name : String) (branch : Slot) : Slot :=
  match store.blockStatements branch with
  | [only] => if testedName? store only == some name then only else none
  | _ => none

/-- Splits values by a test on a name, each half in order. -/
def split (store : Store) (name : String) (test : Slot) :
    List Int → Except EvalError (List Int × List Int)
  | [] => .ok ([], [])
  | value :: rest => do
    let holds ← evaluateCondition store (Environment.bind [] name (Value.ofInt value)) test
    let (taken, others) ← split store name test rest
    return if holds then (value :: taken, others) else (taken, value :: others)

/-- Gives a branch that is no link of the chain to the values that reach it. -/
def Plan.assign (plan : Plan) (branch : Slot) : List Int → Plan × Option Failure
  | [] => ({ plan with unreachable := plan.unreachable ++ [branch] }, none)
  | [value] => ({ plan with cases := plan.cases.insert value branch }, none)
  | _ =>
    match plan.default? with
    | some _ => (plan, some .multipleDefault)
    | none => ({ plan with default? := some branch }, none)

/-- Plans the part of a chain below a link for the values that reach it.  After a
failure the plan holds what was found before. -/
def planLink (store : Store) (name : String) :
    (depth : Nat) → NodeId → List Int → Plan → Plan × Option Failure
  | 0, _, _, plan => (plan, none)
  | depth + 1, link, values, plan =>
    let plan := { plan with links := plan.links ++ [link] }
    let planBranch (branch : Slot) (values : List Int) (plan : Plan) : Plan × Option Failure :=
      match nextLink? store name branch with
      | some next => planLink store name depth next values plan
      | none => plan.assign branch values
    match parts? store link with
    | none => (plan, none)
    | some (test, thenBody, elseBody) =>
      match split store name test values with
      | .error cause => (plan, some (.undecidedTest cause))
      | .ok (taken, others) =>
        match planBranch thenBody taken plan with
        | (plan, some failure) => (plan, some failure)
        | (plan, none) =>
          if elseBody.isSome then planBranch elseBody others plan else (plan, none)

/-- The plan of a chain on a name with a number of values from zero. -/
def plan (store : Store) (name : String) (domainSize : Nat) (link : NodeId) :
    Plan × Option Failure :=
  planLink store name store.depthBound link ((List.range domainSize).map Int.ofNat) Plan.empty

/-- The branches that some value reaches. -/
def Plan.branches (plan : Plan) : List Slot := plan.cases.values ++ plan.default?.toList

/-- The statement behind another in its list. -/
def statementBehind? (store : Store) (statement : Slot) : Slot :=
  (store.position? statement).bind fun (container, place) =>
    (((store.statements? (some container)).getD [])[place + 1]?).join

/-- Whether every `break` in the branches keeps its target: there is none that leaves
the branches, or the chain itself is followed by `break`. -/
def keepsBreaks (store : Store) (link : NodeId) (plan : Plan) : Bool :=
  let breaks := (store.escapingJumps plan.branches false).filter fun jump =>
    store.isPlainBreak (some jump)
  breaks.isEmpty || store.isPlainBreak (statementBehind? store (some link))

/-! ## Building the `switch` -/

/-- A clause that runs a branch and leaves the `switch`. -/
def makeBranchClause (store : Store) (label branch : Slot) : Store × NodeId :=
  let statements := store.blockStatements branch
  let isClosed := statements.getLast?.any store.isTerminator
  let (store, statements) : Store × List Slot :=
    if isClosed then (store, statements)
    else
      let (store, leave) := store.makeBreak
      (store, statements ++ [some leave])
  let (store, block) := store.makeBlock statements
  store.makeClause label [some block]

/-- The `switch` of a plan: the cases in ascending order, then the default. -/
def Plan.makeSwitch (plan : Plan) (store : Store) (name : String) : Store × NodeId :=
  let (store, clauses) := plan.cases.toList.foldl
    (fun (state : Store × Array Slot) (value, branch) =>
      let (store, label) := state.1.makeNumber (Float.ofInt value)
      let (store, clause) := makeBranchClause store (some label) branch
      (store, state.2.push (some clause))) (store, #[])
  let (store, clauses) : Store × Array Slot := match plan.default? with
    | some branch =>
      let (store, clause) := makeBranchClause store none branch
      (store, clauses.push (some clause))
    | none => (store, clauses)
  let (store, discriminant) := store.makeIdentifier name
  store.make (.switch (some discriminant) clauses.toList)

/-! ## Flattening -/

/-- The work on all chains of a tree. -/
structure Work where
  store : Store
  findings : Findings
  /-- The `if` statements of chains that failed. -/
  skipped : List NodeId
  count : Nat

/-- The dispatch variable that an `if` tests. -/
def testedVariable? (store : Store) (findings : Findings) (link : NodeId) : Option DispatchVariable :=
  (testedName? store (some link)).bind findings.variableNamed?

/-- The remarks with which a planned chain is refused; none if it can be replaced. -/
def refusal? (store : Store) (link : NodeId) (name : String) (plan : Plan) :
    Option Failure → Option (List Remark)
  | some .multipleDefault => some [⟨.multipleDefaultChoice, some link, [name]⟩]
  | some (.undecidedTest _) => some []
  | none =>
    if keepsBreaks store link plan then none else some [⟨.escapingBreak, some link, [name]⟩]

/-- Replaces a chain, if it has a plan and its breaks keep their targets.  Otherwise the
tree stays as it is, and the links of the chain are not tried again. -/
def flatten (work : Work) (link : NodeId) : Work × Bool :=
  match testedVariable? work.store work.findings link with
  | none => (work, false)
  | some tested =>
    if maxDispatchDomain < tested.domainSize then
      ({ work with skipped := link :: work.skipped }, false)
    else
      let name := tested.name
      let (plan, failure?) := plan work.store name tested.domainSize link
      let unreachable : List Remark :=
        plan.unreachable.map fun branch => ⟨.unreachableBranch, branch, [name]⟩
      match refusal? work.store link name plan failure? with
      | some remarks =>
        let journal := work.findings.journal.addAll work.store (unreachable ++ remarks)
        ({ work with
          findings := { work.findings with journal := journal }
          skipped := plan.links ++ work.skipped }, false)
      | none =>
        let journal := work.findings.journal.addAll work.store unreachable
        let (store, replacement) := plan.makeSwitch work.store name
        let (store, _) := store.replaceNode (some link) (some replacement)
        ({ work with
          store := store
          findings := { work.findings with journal := journal }
          count := work.count + 1 }, true)

/-- The `if` statements that test a dispatch variable, outermost first. -/
def candidates (work : Work) (root : NodeId) : List NodeId :=
  (work.store.descendants (some root)).filter fun id =>
    (testedVariable? work.store work.findings id).isSome && !work.skipped.contains id

/-- One walk over the chains of a tree, and whether one was replaced. -/
def sweep (root : NodeId) (work : Work) : Work × Bool :=
  (candidates work root).foldl (fun (state : Work × Bool) link =>
    let (work, progress) := state
    if work.skipped.contains link || !work.store.isAttached root (some link) then (work, progress)
    else
      let (work, applied) := flatten work link
      (work, progress || applied)) (work, false)

/-- Walks until no chain is replaced.  A replaced chain leaves the tree, so there are at
most as many walks as nodes. -/
def sweepAll (root : NodeId) : (limit : Nat) → Work → Work
  | 0, work => work
  | limit + 1, work =>
    let (work, progress) := sweep root work
    if progress then sweepAll root limit work else work

end Chain

/-- Replaces the chains of a tree by `switch` statements and answers their number. -/
def flattenChains (store : Store) (root : NodeId) (findings : Findings) :
    Store × Findings × Nat :=
  if findings.parts.isEmpty then (store, findings, 0)
  else
    let limit := store.depthBound
    let work := Chain.sweepAll root limit ⟨store, findings, [], 0⟩
    (work.store, work.findings, work.count)

end Unflatten
