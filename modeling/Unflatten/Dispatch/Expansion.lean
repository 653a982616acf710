import Unflatten.Dispatch.CaseTable
import Unflatten.Evaluation.Evaluator

/-! # Expanding a dispatcher

Each value of the key is run through the prelude and the discriminant of the dispatcher,
which tells the clause that it selects.  A clause selected by one value becomes the case
of that value; a clause selected by several values must hold a nested `switch`, which is
expanded for these values.  What a clause falls through into is copied behind its
statements.

An expansion that fails keeps what it did before, but all its edits are on a copy of the
dispatcher. -/

set_option autoImplicit false

namespace Unflatten

/-- How deeply expansion and merging may nest. -/
def maxMergeDepth : Nat := 512

/-- Why a dispatcher cannot be expanded. -/
inductive Mismatch where
  | tooDeep
  | noSwitch
  | labelNoKey (cause : EvalError)
  | defaultSelected (count : Nat)
  | clauseShared (count : Nat)
  /-- The clause that a value selects cannot be found out. -/
  | undecided (cause : EvalError)
  deriving DecidableEq, Repr

/-- The text of a mismatch. -/
def Mismatch.message : Mismatch → String
  | .tooDeep => "dispatcher nesting is too deep"
  | .noSwitch => "dispatcher is not a switch"
  | .labelNoKey cause => "case label is not a key value (" ++ cause.message ++ ")"
  | .defaultSelected count =>
    "default clause would take " ++ toString count ++ " selector values"
  | .clauseShared count =>
    toString count ++ " values share a case without a nested switch"
  | .undecided cause => cause.message

/-- The work on a dispatcher. -/
structure Expansion where
  store : Store
  cases : Std.TreeMap Int (List Slot)
  /-- Clauses that no value selects, with their labels, last ones first. -/
  dropped : List (Slot × String)

namespace Expansion

/-- The values of the key by what they select. -/
abbrev Buckets := Std.TreeMap Int (List Int)

/-- The key and the prelude of the dispatcher. -/
structure Origin where
  key : String
  prelude : Slot

/-- The bindings of the prelude for a value of the key, on top of those of the value
before it. -/
def Origin.environment (origin : Origin) (store : Store) (environment : Environment)
    (value : Int) : Except EvalError Environment :=
  let environment := environment.bind origin.key (Value.ofInt value)
  if origin.prelude.isNone then .ok environment
  else
    match evaluateDeclarations store environment origin.prelude with
    | (environment, none) => .ok environment
    | (_, some cause) => .error cause

/-- What each value of the key selects, in the order of the values. -/
def selectors (store : Store) (origin : Origin) (discriminant : Slot) :
    List Int → Environment → Except EvalError (List (Int × Int))
  | [], _ => .ok []
  | value :: rest, environment => do
    let environment ← origin.environment store environment value
    let selector ← evaluateKey store environment discriminant
    let others ← selectors store origin discriminant rest environment
    return (selector, value) :: others

/-- Gathers values by what they select. -/
def gather (pairs : List (Int × Int)) : Buckets :=
  pairs.foldr (fun (selector, value) buckets =>
    buckets.insert selector (value :: (buckets[selector]?).getD [])) ∅

/-- The `switch` that is all a clause holds, apart from a `break` behind it. -/
def nestedSwitch? (store : Store) (clause : Slot) : Slot :=
  let nested : Slot := match store.clauseStatements clause with
    | [only] => only
    | [first, last] => if store.isPlainBreak last then first else none
    | _ => none
  if store.isSwitch nested then nested else none

/-- Whether a value of the key alone decides what a `switch` selects. -/
def selectsByKey (store : Store) (origin : Origin) (switch : Slot) (value : Int) : Bool :=
  match store.discriminant? switch, origin.environment store [] value with
  | some discriminant, .ok environment => (evaluateKey store environment discriminant).toBool
  | _, _ => false

/-! ## The statements of a case -/

/-- Some statements followed by copies of the clauses they fall through into. -/
def followClauses (store : Store) (statements : List Slot) : List Slot → Store × List Slot
  | [] => (store, statements)
  | next :: rest =>
    if store.fallsThrough store.depthBound statements then
      let (store, copies) := store.copyAll (store.clauseStatements next)
      followClauses store (statements ++ copies) rest
    else (store, statements)

/-- Puts a `break` at the end of both arms of an `if`, and of the arms of an `if` that
stands last in an arm, unless they end their list already. -/
def terminateArms : (depth : Nat) → Store → Slot → Store
  | 0, store, _ => store
  | depth + 1, store, statement =>
    match store.arms? statement with
    | none => store
    | some arms =>
      let terminate (store : Store) (arm : Slot) : Store :=
        let statements := store.statementsOf arm
        let last : Slot := statements.getLast?.join
        if (store.arms? last).isSome then terminateArms depth store last
        else if store.isTerminator last then store
        else
          let (store, leave) := store.makeBreak
          (store.setStatements arm (statements ++ [some leave])).1
      terminate (terminate store arms.thenBlock) arms.elseBlock

/-- `if (t) { A } else { B } break;` at the end becomes
`if (t) { A; break; } else { B; break; }`. -/
def terminateLast (store : Store) (statements : List Slot) : Store × List Slot :=
  match statements.reverse with
  | last :: conditional :: before =>
    if store.isPlainBreak last && (store.arms? conditional).isSome then
      let depth := store.depthBound
      (terminateArms depth store conditional, (conditional :: before).reverse)
    else (store, statements)
  | _ => (store, statements)

/-- The statements that run when the first of some clauses is selected. -/
def clauseBody (store : Store) (clause : Slot) (behind : List Slot) : Store × List Slot :=
  let (store, statements) := followClauses store (store.clauseStatements clause) behind
  terminateLast store statements

/-! ## Clauses -/

/-- Makes the statements of a clause the case of a value. -/
def addCase (work : Expansion) (clause : Slot) (behind : List Slot) (value : Int) : Expansion :=
  let (store, statements) := clauseBody work.store clause behind
  { work with store := store, cases := work.cases.insert value statements }

/-- Takes a clause down that no value selects. -/
def drop (work : Expansion) (clause : Slot) (label : String) : Expansion :=
  { work with dropped := (clause, label) :: work.dropped }

/-- Expands a `switch` for some values. -/
abbrev Expand := Expansion → Slot → List Int → Expansion × Option Mismatch

/-- Gives a clause to the values that select it. -/
def takeClause (origin : Origin) (expand : Expand) (work : Expansion) (clause : Slot)
    (behind : List Slot) (values : List Int) : Expansion × Option Mismatch :=
  let nested := nestedSwitch? work.store clause
  match values with
  | [value] =>
    if nested.isSome && selectsByKey work.store origin nested value then
      expand work nested [value]
    else (work.addCase clause behind value, none)
  | _ =>
    if nested.isSome then expand work nested values
    else (work, some (.clauseShared values.length))

/-- Gives each clause to the values that select it.  Answers the values that select no
label and the default clause with those behind it; of several the last one counts. -/
def takeClauses (origin : Origin) (expand : Expand) :
    List Slot → Expansion → Buckets → Option (Slot × List Slot) →
      Expansion × Except Mismatch (Buckets × Option (Slot × List Slot))
  | [], work, buckets, default? => (work, .ok (buckets, default?))
  | clause :: behind, work, buckets, default? =>
    match work.store.shape? clause with
    | some (.clause true _ _) =>
      takeClauses origin expand behind work buckets (some (clause, behind))
    | shape? =>
      let label : Slot := match shape? with
        | some (.clause _ label _) => label
        | _ => none
      match evaluateKey work.store [] label with
      | .error cause => (work, .error (.labelNoKey cause))
      | .ok selector =>
        match buckets[selector]? with
        | none =>
          takeClauses origin expand behind (work.drop clause (toString selector)) buckets default?
        | some values =>
          match takeClause origin expand work clause behind values with
          | (work, some mismatch) => (work, .error mismatch)
          | (work, none) =>
            takeClauses origin expand behind work (buckets.erase selector) default?

/-- Gives the default clause to the values that select no label; they must all select
the same. -/
def takeDefault (origin : Origin) (expand : Expand) (work : Expansion) (buckets : Buckets) :
    Option (Slot × List Slot) → Expansion × Option Mismatch
  | none => (work, none)
  | some (clause, behind) =>
    match buckets.toList with
    | [] => (work.drop clause "default", none)
    | [(_, values)] => takeClause origin expand work clause behind values
    | several => (work, some (.defaultSelected several.length))

/-- Expands a `switch` that nests no deeper than a bound. -/
def expandWithin (origin : Origin) : (depth : Nat) → Expand
  | 0, work, _, _ => (work, some .tooDeep)
  | depth + 1, work, switch, values =>
    match work.store.shape? switch with
    | some (.switch discriminant clauses) =>
      match selectors work.store origin discriminant values [] with
      | .error cause => (work, some (.undecided cause))
      | .ok pairs =>
        match takeClauses origin (expandWithin origin depth) clauses work (gather pairs) none with
        | (work, .error mismatch) => (work, some mismatch)
        | (work, .ok (buckets, default?)) =>
          takeDefault origin (expandWithin origin depth) work buckets default?
    | _ => (work, some .noSwitch)

end Expansion

/-- Expands a dispatcher for some values of its key. -/
def expand (store : Store) (key : DispatchKey) (dispatcher : Slot) (values : List Int) :
    Expansion × Option Mismatch :=
  Expansion.expandWithin ⟨key.name, key.prelude⟩ (maxMergeDepth + 1) ⟨store, ∅, []⟩ dispatcher
    values

/-- The values of a key that select a clause. -/
def DispatchKey.liveValues (key : DispatchKey) : List Int :=
  key.histogram.keys.filter fun value => !key.exits.contains value

end Unflatten
