import Std.Data.HashSet
import Unflatten.Binding.Position
import Unflatten.Dispatch.CaseTable
import Unflatten.Dispatch.Expansion

/-! # Merging cases

From the start value on, a case that ends with `k = n; break;` takes in case `n`, if that
is the only place that leads there.  The arms of an `if` at the end of a case are treated
the same way.  Arms that lead to the same case share one jump behind the `if`, and an arm
that leads back to the case it stands in becomes the body of a `while` loop.  Sweeps over
the table are repeated until one changes nothing.

Merging happens at the end of a list of statements, so a list is taken apart from its
end: `Merging.settle` has the statements of a case last ones first. -/

set_option autoImplicit false

namespace Unflatten

/-- How many sweeps over a table are made. -/
def maxMergeSweeps : Nat := 1000

/-- The key on which cases are merged, and its values that leave the loop. -/
structure MergeKey where
  name : String
  start : Int
  exits : List Int

/-- The work on a table. -/
structure Merging where
  store : Store
  table : CaseTable
  /-- The cases visited in this sweep. -/
  visited : Std.HashSet Int
  /-- Whether this sweep changed anything. -/
  isUpdated : Bool

namespace Merging

/-- The number of places that lead to a case. -/
def count (work : Merging) (value : Int) : Nat := work.table.histogram.count value

/-- Notes a change and the new counts. -/
def updated (work : Merging) (histogram : Histogram) : Merging :=
  { work with table := { work.table with histogram := histogram }, isUpdated := true }

/-! ## Cases that go back to the dispatcher -/

/-- The statement before a jump: in the list itself, or in the block around the jump. -/
def statementBefore? (store : Store) (statements : List Slot) (jump : NodeId) : Slot :=
  match statements.findIdx? (· == some jump) with
  | some place => if place = 0 then none else (statements[place - 1]?).join
  | none =>
    match store.position? (some jump) with
    | some (container, place + 1) => ((store.statementsOf (some container))[place]?).join
    | _ => none

/-- Whether a jump stands right behind an assignment of a constant to the key. -/
def jumpsAfterUpdate (store : Store) (key : String) (statements : List Slot) (jump : NodeId) :
    Bool :=
  let before := statementBefore? store statements jump
  (store.isPlainBreak (some jump) || store.isPlainContinue (some jump))
    && ((store.keyValue? before key).isSome || store.isKeyExit before key)

/-- Whether some jump goes back to the dispatcher without an assignment to the key, so
that the case it was reached from would run again. -/
def reenters (store : Store) (key : String) (statements : List Slot) : Bool :=
  (store.escapingJumps statements true).any fun jump =>
    !jumpsAfterUpdate store key statements jump

/-! ## Arms -/

/-- Whether both arms end with a jump to a case that something leads to. -/
def sharesJump (work : Merging) (key : String) (arms : Arms) (target : Int) : Bool :=
  0 < work.count target
    && work.store.endsWithJump key (work.store.statementsOf arms.thenBlock) target
    && work.store.endsWithJump key (work.store.statementsOf arms.elseBlock) target

/-- Takes the jumps to a case out of both arms and answers one of them. -/
def shareJump (work : Merging) (arms : Arms) (target : Int) : Merging × List Slot :=
  let thenBody := work.store.statementsOf arms.thenBlock
  let elseBody := work.store.statementsOf arms.elseBlock
  let (store, _) := work.store.setStatements arms.thenBlock (thenBody.take (thenBody.length - 2))
  let (store, _) := store.setStatements arms.elseBlock (elseBody.take (elseBody.length - 2))
  let work := { work with store := store }
  (work.updated (work.table.histogram.decrement target), thenBody.drop (thenBody.length - 2))

/-- The body of the loop that an arm leading back to its own case makes: its statements
up to the jump.  The last of them must update a name that the test reads, and none may
jump out of the new loop. -/
def loopStatements? (store : Store) (key : String) (test arm : Slot) (value : Int) :
    Option (List Slot) :=
  let statements := store.statementsOf arm
  let body := statements.take (statements.length - 2)
  if !store.endsWithJump key statements value then none
  else
    match (body.getLast?.join).bind fun last => store.updatedName? (some last) with
    | none => none
    | some counter =>
      if counter != key && store.mentions test counter && (store.escapingJumps body true).isEmpty
      then some body
      else none

/-- The loop in the arms of an `if` that is the whole of case `value`, and whether the
arms are exchanged.  The targets are the cases that the arms lead to. -/
def recovery? (store : Store) (key : String) (arms : Arms) (thenTarget elseTarget : Option Int)
    (value : Int) : Option (Bool × List Slot) :=
  let statements? (target : Option Int) (arm : Slot) : Option (List Slot) :=
    if target = some value then loopStatements? store key arms.test arm value else none
  match statements? thenTarget arms.thenBlock with
  | some statements => some (false, statements)
  | none => (statements? elseTarget arms.elseBlock).map fun statements => (true, statements)

/-- `if (t) { A; i++; k = v; break; } else { B }` as the whole case `v` becomes
`while (t) { A; i++; } B`.  If the arms are exchanged, the test is negated. -/
def recoverLoop (work : Merging) (arms : Arms) (mirrored : Bool) (statements : List Slot)
    (value : Int) : Merging × List Slot :=
  let after := work.store.statementsOf (if mirrored then arms.thenBlock else arms.elseBlock)
  let (store, test) : Store × Slot :=
    if mirrored then
      let (store, negated) := work.store.make (.unary false .exclamation arms.test)
      (store, some negated)
    else (work.store, arms.test)
  let (store, body) := store.makeBlock statements
  let (store, loop) := store.makeWhile test (some body)
  let work := { work with store := store }
  (work.updated (work.table.histogram.decrement value), some loop :: after)

/-! ## One list of statements -/

/-- Merges at the end of a list, which is given last ones first.  `value` is the case the
list belongs to, and `atEntry` says that it is the whole case.  Answers the case that the
list leads to, if others lead there too. -/
abbrev Settle :=
  Merging → (value : Int) → (atEntry : Bool) → List Slot → Merging × List Slot × Option Int

/-- Merges within a case, unless it was visited in this sweep. -/
def visitCase (settle : Settle) (work : Merging) (value : Int) : Merging :=
  if work.visited.contains value then work
  else
    let work := { work with visited := work.visited.insert value }
    match work.table.cases[value]? with
    | none => work
    | some statements =>
      let work := { work with table := work.table.erase value }
      let (work, settled, _) := settle work value true statements.reverse
      { work with table := work.table.insert value settled.reverse }

/-- Merges within an arm of an `if`. -/
def visitArm (settle : Settle) (work : Merging) (value : Int) (arm : Slot) :
    Merging × Option Int :=
  let statements := work.store.statementsOf arm
  let (work, settled, target) := settle work value false statements.reverse
  ({ work with store := (work.store.setStatements arm settled.reverse).1 }, target)

/-- Merges at the end of a list as long as something can be merged.  Every round takes a
jump out, so there are at most as many rounds as nodes.  `inCase` and `inArm` merge in
other cases and in arms. -/
def settleWith (key : MergeKey) (inCase : Merging → Int → Merging)
    (inArm : Merging → Int → Slot → Merging × Option Int) : (rounds : Nat) → Settle
  | 0, work, _, _, body => (work, body, none)
  | _, work, _, _, [] => (work, [], none)
  | rounds + 1, work, value, atEntry, last :: before =>
    let stop (work : Merging) : Merging × List Slot × Option Int := (work, last :: before, none)
    if work.store.isExit last then stop work
    else
      match work.store.arms? last with
      | some arms =>
        let (work, thenTarget) := inArm work value arms.thenBlock
        let (work, elseTarget) := inArm work value arms.elseBlock
        let shared : Option Int := if thenTarget = elseTarget then thenTarget else none
        match shared.filter (work.sharesJump key.name arms) with
        | some target =>
          let (work, jump) := work.shareJump arms target
          settleWith key inCase inArm rounds work value atEntry (jump.reverse ++ last :: before)
        | none =>
          let isWhole := atEntry && before.isEmpty
          match recovery? work.store key.name arms thenTarget elseTarget value with
          | some (mirrored, statements) =>
            if isWhole then
              let (work, body) := work.recoverLoop arms mirrored statements value
              settleWith key inCase inArm rounds work value atEntry body.reverse
            else stop work
          | none => stop work
      | none =>
        match before with
        | [] => stop work
        | assignment :: rest =>
          if !work.store.isPlainBreak last then stop work
          else
            match work.store.keyValue? assignment key.name with
            | none => stop work
            | some next =>
              if key.exits.contains next then stop work
              else if 1 < work.count next then (inCase work next, last :: before, some next)
              else
                match work.table.cases[next]? with
                | none => stop work
                | some successor =>
                  if reenters work.store key.name successor then stop work
                  else
                    let histogram := work.table.histogram.insert next 0
                    let work := { work with table := work.table.erase next }.updated histogram
                    settleWith key inCase inArm rounds work value atEntry
                      (successor.reverse ++ rest)

/-- Merges at the end of a list, with a bound on how deeply arms and cases nest. -/
def settle (key : MergeKey) : (depth : Nat) → Settle
  | 0 => fun work => settleWith key (fun work _ => work) (fun work _ _ => (work, none))
    work.store.depthBound work
  | depth + 1 => fun work =>
    let inCase (work : Merging) (value : Int) : Merging :=
      if depth = 0 then work else visitCase (settle key depth) work value
    settleWith key inCase (visitArm (settle key depth)) work.store.depthBound work

/-! ## Sweeps -/

/-- One sweep from the start value, and whether it changed anything. -/
def sweep (key : MergeKey) (work : Merging) : Merging :=
  visitCase (settle key (maxMergeDepth + 1)) { work with visited := ∅, isUpdated := false }
    key.start

/-- Sweeps until nothing changes.  Answers false if the limit is reached before. -/
def sweepAll (key : MergeKey) : (limit : Nat) → Merging → Merging × Bool
  | 0, work => (work, false)
  | limit + 1, work =>
    let work := sweep key work
    if work.isUpdated then sweepAll key limit work else (work, true)

end Merging

/-- Merges the cases of a table and answers whether the sweeps came to an end. -/
def CaseTable.merge (table : CaseTable) (store : Store) (key : MergeKey) :
    Store × CaseTable × Bool :=
  let (work, isSettled) := Merging.sweepAll key maxMergeSweeps ⟨store, table, ∅, false⟩
  (work.store, work.table, isSettled)

end Unflatten
