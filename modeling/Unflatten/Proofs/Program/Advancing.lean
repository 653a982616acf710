import Unflatten.Proofs.Canonical.Assigning
import Unflatten.Proofs.Execution.Preceding
import Unflatten.Proofs.Program.Hoisting

/-! # Hoisted assignments mean the same

An assignment that goes before its statement was run in any case, and what was run before it neither
has an effect nor names the variable: the checks of `Hoist.candidate?` see to that.  They do not look
at the other direction.  The right side of the assignment may change what was read before, and then
the program means another thing (`Hoist.changed_object_hoisted`). -/

set_option autoImplicit false

namespace Unflatten

open Store Execution

namespace Hoist

section Checks
variable {store : Store} {root access statement : NodeId} {tree part later whole : Tree}
  {object : Slot} {name : String} {id : NodeId} {steps : Nat}

theorem isStrict_of_calm {shape : Shape} (quiet : shape.isQuiet = true)
    (noFunction : shape.isFunction = false) (filled : shape.slots ≠ [])
    (choice : ∀ condition yes no, shape ≠ .conditional condition yes no)
    (eager : ∀ left operator right, shape = .binary left operator right →
      operator.isLogical = false ∧ isLogicalAssignment operator = false) : shape.isStrict = true := by
  cases shape
  case binary left operator right =>
    obtain ⟨plain, also⟩ := eager left operator right rfl
    rw [Shape.isStrict, plain, also]
    rfl
  case conditional condition yes no => exact absurd rfl (choice condition yes no)
  case function => cases noFunction
  case identifier | literal | token | omitted => exact absurd rfl filled
  case clause isDefault _ _ => cases isDefault <;> cases quiet
  case loop kind _ _ _ _ => cases kind <;> cases quiet
  case exit kind _ => cases kind <;> cases quiet
  case jump kind _ => cases kind <;> cases quiet
  all_goals first | rfl | cases quiet

/-- If only nodes that run their parts in order stand around the parent of an expression, then so they
do around the expression, which runs its own parts in order too if it does not choose among them. -/
theorem strict_below {parent : NodeId} {shape : Shape} (stands : store.Stands root tree)
    (within : Tree.Within part tree) (among : parent ∈ part.names) (strict : part.IsStrictAround parent)
    (here : ∀ shape, store.shape? (some parent) = some shape → shape.slots ≠ [] → shape.isStrict = true)
    (inside : id ∈ tree.names) (linked : store.parent (some id) = some parent)
    (found : store.shape? (some id) = some shape) (noFunction : shape.isFunction = false)
    (choice : ∀ condition yes no, shape ≠ .conditional condition yes no)
    (eager : ∀ left operator right, shape = .binary left operator right →
      operator.isLogical = false ∧ isLogicalAssignment operator = false) :
    id ∈ part.names ∧ part.IsStrictAround id ∧ (shape.slots ≠ [] → shape.isStrict = true) := by
  obtain ⟨-, outer, shaped, listed⟩ := stands.parent_mem inside linked
  have outerStrict := here outer shaped (List.ne_nil_of_mem listed)
  have holds := stands.holds.within within
  refine ⟨(holds.slot_mem among shaped listed).1, ?_, fun filled => ?_⟩
  · refine Tree.IsStrictAround.downward strict holds linked fun other there => ?_
    rw [shaped] at there
    cases there
    exact outerStrict
  · have quiet := stands.tidy.quietAt shaped
      ((Shape.quietSlots_of_isStrict outerStrict).symm ▸ listed) id rfl
    rw [satisfies, found, Option.any_some] at quiet
    exact isStrict_of_calm quiet noFunction filled choice eager

/-- Between a node and the statement that evaluates it in any case stand nodes only that run their
parts in order. -/
theorem exists_strict (stands : store.Stands root tree) (inside : id ∈ tree.names)
    (above : statementAbove? store steps (some id) = some statement) :
    ∃ part, Tree.Within part tree ∧ part.root = some statement ∧ id ∈ part.names ∧
      part.IsStrictAround id ∧
      ∀ shape, store.shape? (some id) = some shape → shape.slots ≠ [] → shape.isStrict = true := by
  induction steps generalizing id with
  | zero => cases above
  | succ steps ih =>
    -- the search goes on from a node in whose parent expressions stand only
    have climb : ∀ shape, store.shape? (some id) = some shape → shape.isFunction = false →
        (∀ condition yes no, shape ≠ .conditional condition yes no) →
        (∀ left operator right, shape = .binary left operator right →
          operator.isLogical = false ∧ isLogicalAssignment operator = false) →
        statementAbove? store steps (store.parent (some id)) = some statement →
        ∃ part, Tree.Within part tree ∧ part.root = some statement ∧ id ∈ part.names ∧
          part.IsStrictAround id ∧
          ∀ shape, store.shape? (some id) = some shape → shape.slots ≠ [] → shape.isStrict = true := by
      intro shape found noFunction choice eager above
      cases linked : store.parent (some id) with
      | none =>
        rw [linked] at above
        cases steps <;> cases above
      | some parent =>
        rw [linked] at above
        obtain ⟨part, around, partRoot, among, strict, here⟩ :=
          ih (stands.parent_mem inside linked).1 above
        obtain ⟨below, still, itself⟩ :=
          strict_below stands around among strict here inside linked found noFunction choice eager
        refine ⟨part, around, partRoot, below, still, fun other there => ?_⟩
        rw [found] at there
        cases there
        exact itself
    rw [statementAbove?] at above
    split at above
    · cases above
    · rename_i expression found
      cases above
      obtain ⟨inner, within, rooted⟩ := Tree.exists_within inside
      refine ⟨inner, within, rooted, Tree.mem_names_root rooted, ?_, fun shape there _ => ?_⟩
      · exact Tree.isStrictAround_root (within.nodup stands.nodup) rooted
      · rw [found] at there
        cases there
        rfl
    · cases above
    · cases above
    · rename_i left operator right found
      split at above
      · cases above
      · rename_i plain
        simp only [Bool.or_eq_true, not_or, Bool.not_eq_true] at plain
        refine climb _ found rfl (fun _ _ _ => Shape.noConfusion) (fun _ _ _ same => ?_) above
        cases same
        exact plain
    · rename_i shape noExpression noChoice noFunction noBinary found
      split at above
      · cases above
      · refine climb shape found ?_ (fun _ _ _ same => noChoice _ _ _ same)
          (fun _ _ _ same => absurd same (noBinary _ _ _)) above
        cases shape
        case function => exact absurd rfl (noFunction _ _ _ _)
        all_goals rfl

/-- What precedes the member is silent. -/
theorem isSilent_of_precedes (stands : store.Stands root tree) (within : Tree.Within whole tree)
    (strict : whole.IsStrictAround access) (precedes : Tree.Precedes part later whole)
    (rooted : later.root = some access)
    (first : runsFirst store whole.root access object name = true) : store.IsSilent name part := by
  have holds := stands.holds.within within
  have nodup := within.nodup stands.nodup
  refine ⟨isQuietAt_of_precedes precedes holds stands.tidy strict rooted, fun id inside => ?_⟩
  obtain ⟨node, nodeWithin, nodeRoot⟩ := Tree.exists_within inside
  have around := precedes.within
  have among : access ∈ later.names := Tree.mem_names_root rooted
  -- the node is not above the member, so the check has looked at it
  have beside : store.isAncestorOrSelf (some id) (some access) = false := by
    rw [← Bool.not_eq_true, ← nodeRoot, stands.holds.isAncestorOrSelf_iff stands.nodup
      (by rw [stands.rooted, stands.top]) ((nodeWithin.trans around.1).trans within)
      (within.names_subset (around.2.names_subset among))]
    exact fun there => precedes.apart nodup (nodeWithin.names_subset there) among
  have met : id ∈ (store.descendants whole.root).takeWhile (· != access) := by
    have deep : whole.height ≤ store.depthBound := Nat.le_succ_of_le (holds.height_le nodup)
    have walked := mem_takeWhile_walkAll precedes holds nodup strict rooted deep inside
    cases whole with
    | nothing => cases walked
    | node => rwa [store.walkAll_singleton store.depthBound rfl] at walked
  simp only [runsFirst, Bool.and_eq_true, List.all_eq_true] at first
  have looked := first.1.2 id met
  rw [beside, Bool.false_or, Bool.not_eq_true'] at looked
  exact looked

/-- The object of the member is silent. -/
theorem isSilent_object (stands : store.Stands root tree) {index : Slot}
    (shaped : store.shape? (some access) = some (.access true part.root index))
    (within : Tree.Within part tree)
    (first : runsFirst store whole.root access part.root name = true) :
    store.IsSilent name part := by
  refine ⟨stands.tidy.quietAt shaped List.mem_cons_self, fun other there => ?_⟩
  have nodup : part.names.Nodup := within.nodup stands.nodup
  simp only [runsFirst, Bool.and_eq_true, List.all_eq_true] at first
  have looked := first.2 other
    (((stands.holds.within within).descendants_perm nodup).mem_iff.mpr there)
  rwa [Bool.not_eq_true'] at looked

end Checks

/-! ## The program with the assignment before the statement -/

section Meaning
variable {store : Store} {root access : NodeId} {tree : Tree} {m : Type → Type} {ν : Type} [Monad m]

theorem isAssignment_of_compound {operator : TokenKind} (compound : operator.compound?.isSome = true) :
    operator.isAssignment = true := by
  cases operator <;> first | rfl | cases compound

theorem node_of_isContainer {shape : Shape} (container : shape.isContainer = true)
    (machine : Machine m ν) (parts : List (Meaning m ν)) :
    machine.node shape parts = machine.other shape parts := by
  cases shape
  case file | block | clause => rfl
  all_goals cases container

/-- The assignment as a statement and the statement behind it do what the statement did before. -/
theorem meaning_inserted {machine : Machine m ν} (inOrder : machine.InOrder)
    {container before : NodeId} {shape changed : Shape} {lead front back : List Tree}
    {part remade assigned : Tree} (isContainer : shape.isContainer = true)
    (leading : shape.leading.length = lead.length)
    (kept : changed.withSlots [] = shape.withSlots []) (slot : Slot)
    (delays : machine.Delays (machine.meaning assigned).value (machine.meaning part)
      (machine.meaning remade)) :
    machine.meaning (.node container changed (lead ++ (front ++
        .node before (.expressionStatement slot) [assigned] :: remade :: back))) =
      machine.meaning (.node container shape (lead ++ (front ++ part :: back))) := by
  have bare : (shape.withSlots []).isContainer = true := by
    cases shape
    case file | block | clause => rfl
    all_goals cases isContainer
  have labels : (shape.withSlots []).leading.length ≤
      (lead.map machine.meaning ++ front.map machine.meaning).length := by
    have same : (shape.withSlots []).leading.length = shape.leading.length := by cases shape <;> rfl
    rw [same, leading, List.length_append, List.length_map]
    exact Nat.le_add_right _ _
  have statement : machine.meaning (.node before (.expressionStatement slot) [assigned]) =
      machine.other (.expressionStatement none) [machine.meaning assigned] := Machine.meaning_node _ _ _
  rw [Machine.meaning_node, Machine.meaning_node, kept, node_of_isContainer bare,
    node_of_isContainer bare, ← List.append_assoc, ← List.append_assoc]
  simp only [List.map_append, List.map_cons, statement]
  exact inOrder.statements _ _ _ _ _ _ bare labels delays

theorem meaning_name (machine : Machine m ν) {part : Tree} {name : String}
    (holds : store.Holds part) (named : store.identifier? part.root = some name) :
    machine.meaning part = ⟨machine.read (.name name), pure (.name name), some name⟩ := by
  cases part with
  | nothing => cases named
  | node id shape below =>
    rw [Tree.root_node, identifier?, holds.shape?_node] at named
    cases shape
    case identifier text =>
      cases named
      cases holds with
      | node _ _ roots =>
        cases List.map_eq_nil_iff.mp roots.symm
        rfl
    all_goals cases named

/-- Everything between the member and its statement runs its parts in order. -/
theorem isStrictAround_access (stands : store.Stands root tree) (among : access ∈ tree.names)
    {part : Tree} {steps : Nat} (within : Tree.Within part tree)
    (above : part.root = statementAbove? store steps (store.parent (some access))) :
    part.IsStrictAround access := by
  cases rooted : part.root with
  | none =>
    cases part with
    | nothing => exact fun _ _ _ impossible => nomatch impossible
    | node => cases rooted
  | some statement =>
  rw [rooted] at above
  cases linked : store.parent (some access) with
  | none =>
    rw [linked] at above
    cases steps <;> cases above
  | some parent =>
    rw [linked] at above
    obtain ⟨there, outer, outerShape, listed⟩ := stands.parent_mem among linked
    obtain ⟨other, otherWithin, otherRoot, -, strict, here⟩ := exists_strict stands there above.symm
    have same : other = part := (stands.holds.within otherWithin).unique (stands.holds.within within)
      (otherRoot.trans rooted.symm)
    subst same
    refine strict.downward (stands.holds.within within) linked fun found foundShape => ?_
    rw [outerShape] at foundShape
    cases foundShape
    exact here outer outerShape (List.ne_nil_of_mem listed)

variable [LawfulMonad m]

/-- The member finds its object before the index is run, and the assignment gives the variable the
value of the index. -/
theorem meaning_member {machine : Machine m ν} {name : String} {operator applied : TokenKind}
    (separates : machine.Separates name) (compound : operator.compound? = some applied)
    (eager : isLogicalAssignment operator = false) {place again : Shape} {objectSlot index : Slot}
    (shaped : place = .access true objectSlot index) (kept : again.withSlots [] = place.withSlots [])
    {object assigned : Tree} {right : m ν} {spelled : NodeId}
    (does : (machine.meaning assigned).value = machine.assign operator (pure (.name name)) right)
    (spares : machine.Spares (machine.meaning object) (machine.assign operator (pure (.name name)) right)) :
    machine.meaning (.node access place [object, assigned]) =
      (machine.meaning (.node access again [object, .node spelled (.identifier name) []])).behind
        (machine.assign operator (pure (.name name)) right) := by
  rw [Machine.meaning_node, Machine.meaning_node, kept, shaped]
  refine Machine.node_index spares.value ?_ none none
  rw [does]
  exact separates.assign_kept compound eager right

/-- What is silent and precedes the assignment swaps with it if it swaps with the new value. -/
theorem spares_assign {machine : Machine m ν} {name : String} {operator applied : TokenKind}
    {before : Tree} {right : m ν} (stands : store.Stands root tree)
    (within : Tree.Within before tree) (separates : machine.Separates name)
    (compound : operator.compound? = some applied) (eager : isLogicalAssignment operator = false)
    (silent : store.IsSilent name before)
    (renewing : ∀ old, machine.Spares (machine.meaning before) (machine.renew applied right old)) :
    machine.Spares (machine.meaning before) (machine.assign operator (pure (.name name)) right) :=
  .assign compound eager
    (separates.reading.meaning (stands.holds.within within) stands.tidy silent)
    (fun value => (separates.writing value).meaning (stands.holds.within within) stands.tidy silent)
    renewing

/-- The program means the same with the assignment before its statement, to every machine that runs
parts and statements in order and reaches a variable by its name only, if the new value of the
variable swaps with all that precedes the assignment in its statement. -/
theorem hoist_meaning (stands : store.Stands root tree)
    (inside : access ∈ store.descendants (some root))
    (aimed : ∀ id ∈ store.descendants (some root), store.isAimedAt id = true)
    (machine : Machine m ν) (inOrder : machine.InOrder) (separates : ∀ name, machine.Separates name)
    (spared : ∀ whole part name id operator applied target value, Tree.Within whole tree →
      candidate? store access = some (name, some id, whole.root) →
      Tree.Precedes part (.assigned id operator target value) whole → store.IsSilent name part →
      operator.compound? = some applied → ∀ old, machine.Spares (machine.meaning part)
        (machine.renew applied (machine.meaning value).value old)) :
    machine.meaningAt (hoist store access).1 (some root) = machine.meaningAt store (some root) := by
  have among := stands.mem_descendants.mp inside
  cases found : candidate? store access with
  | none => rw [hoist, found]
  | some candidate =>
  obtain ⟨name, assignment, statement⟩ := candidate
  obtain ⟨objectSlot, target, operator, value, shaped, assignedShape, above, -, compound, eager, named,
    first⟩ := candidate?_spec found
  obtain ⟨later, remade, container, shape, changed, lead, front, back, part, remadePart, object,
    assigned, place, spelled, again, before, result, remakes, assignedRoot, rfl, isContainer,
    leading, kept, same, within, placed, inner⟩ := hoist_placed stands among found
  obtain ⟨applied, applies⟩ := Option.isSome_iff_exists.mp compound
  have partHolds := stands.holds.within within
  have holds := partHolds.within inner.within
  -- the member and the assignment in its brackets
  have placeShape : place = .access true objectSlot assignment :=
    Option.some.inj (holds.shape?_node.symm.trans shaped)
  subst placeShape
  have assignedHolds : store.Holds assigned := holds.within (.deeper (by simp) .whole)
  cases assignment with
  | none => cases assignedShape
  | some id =>
  obtain ⟨below, rfl, roots⟩ := assignedHolds.eq_node assignedRoot assignedShape
  obtain ⟨left, right, rfl, rfl, rfl⟩ := Tree.two_of_roots roots
  have objectRoot : objectSlot = object.root := by
    cases holds with
    | node _ _ roots => exact (List.cons.inj roots).1
  subst objectRoot
  let action : m ν := machine.assign operator (pure (.name name)) (machine.meaning right).value
  have does : (machine.meaning (.assigned id operator left right)).value = action := by
    rw [machine.meaning_assigned (isAssignment_of_compound compound),
      meaning_name machine (assignedHolds.within (.deeper (by simp) .whole)) named]
  -- what precedes the assignment swaps with it
  have spares : ∀ before, Tree.Precedes before (.assigned id operator left right) part →
      store.IsSilent name before → machine.Spares (machine.meaning before) action :=
    fun before precedes silent => spares_assign stands (precedes.within.1.trans within)
      (separates name) applies eager silent
      (spared part before name id operator applied left right within found precedes silent applies)
  have objectSpares : machine.Spares (machine.meaning object) action :=
    spares object ((Tree.precedes_pair rfl).around inner.within)
      (isSilent_object stands shaped ((Tree.Within.deeper List.mem_cons_self .whole).trans
        (inner.within.trans within)) first)
  have strict := isStrictAround_access stands among within above
  have delays : machine.Delays action (machine.meaning part) (machine.meaning remadePart) := by
    refine (inOrder.placed inner partHolds rfl (fun shape there => ?_) strict
      (fun other there => aimed other (stands.mem_descendants.mpr (within.names_subset there)))
      (meaning_member (separates name) applies eager rfl same does objectSpares)
      fun before precedes => spares before
        (precedes.into (.deeper (List.mem_cons_of_mem _ List.mem_cons_self) .whole))
        (isSilent_of_precedes stands within strict precedes rfl first)).1
    rw [shaped] at there
    cases there
    exact List.cons_ne_nil _ _
  rw [result]
  refine placed.fold_treeAt _ _ stands remakes ?_
  exact meaning_inserted inOrder isContainer leading kept _ (does ▸ delays)

end Meaning

/-! ## A machine with a memory -/

section RunParts
variable {m : Type → Type} {ν : Type} [Monad m] {shape : Shape}

/-- Runs parts of a node one after the other.  The value of the last one is that of the node. -/
def runParts (shape : Shape) : (place : Nat) → List (Meaning m ν) → ν → m ν
  | _, [], last => pure last
  | place, part :: rest, last =>
    if shape.runsPart place then do
      let value ← part.value
      runParts shape (place + 1) rest value
    else runParts shape (place + 1) rest last

variable [LawfulMonad m]

theorem runParts_append (place : Nat) (front back : List (Meaning m ν)) (last : ν) :
    runParts shape place (front ++ back) last = (do
      let value ← runParts shape place front last
      runParts shape (place + front.length) back value) := by
  induction front generalizing place last with
  | nil => simp [runParts]
  | cons part rest ih =>
    have further : place + (part :: rest).length = place + 1 + rest.length := by
      rw [List.length_cons]
      omega
    rw [List.cons_append, runParts, runParts, further]
    split
    · rw [bind_assoc]
      exact bind_congr fun value => ih (place + 1) value
    · exact ih (place + 1) last

omit [LawfulMonad m] in
/-- Where all parts are run, it does not matter at which place the first of them stands. -/
theorem runParts_anywhere (all : ∀ place, shape.runsPart place = true) (parts : List (Meaning m ν))
    (place other : Nat) (last : ν) : runParts shape place parts last = runParts shape other parts last := by
  induction parts generalizing place other last with
  | nil => rfl
  | cons part rest ih =>
    rw [runParts, runParts, if_pos (all place), if_pos (all other)]
    exact bind_congr fun value => ih (place + 1) (other + 1) value

theorem swaps_runParts {α : Type} {action : m α} (parts : List (Meaning m ν)) (start : Nat)
    (each : ∀ place (inside : place < parts.length), shape.runsPart (start + place) = true →
      Swaps parts[place].value action) (last : ν) :
    Swaps (runParts shape start parts last) action := by
  induction parts generalizing start last with
  | nil => exact (swaps_pure action last).symm
  | cons part rest ih =>
    have others : ∀ last, Swaps (runParts shape (start + 1) rest last) action :=
      ih (start + 1) fun place inside runs => each (place + 1) (Nat.succ_lt_succ inside)
        (by rwa [Nat.add_right_comm] at runs)
    rw [runParts]
    split
    · rename_i runs
      exact (each 0 (Nat.zero_lt_succ _) runs).bind_left others
    · exact others last

end RunParts

/-- A machine whose memory holds numbers.  A function is a value, and any other node without a
meaning of its own has the value of its last part. -/
def ledger : Machine (StateM (Execution.Place Int → Int)) Int where
  read place := do
    let memory ← get
    pure (memory place)
  write place value := modify fun memory other => if other = place then value else memory other
  key _ := 0
  holds value := value != 0
  isNullish _ := false
  operate _ left right := pure (left + right)
  nowhere := pure (.member 0 0)
  other shape parts :=
    let value := match shape with
      | .literal _ text _ => pure (if text = "5" then 5 else 1)
      | .function _ _ _ _ => pure 0
      | shape => runParts shape 0 parts 0
    ⟨value, pure (.member 0 0), none⟩

theorem ledger_inOrder : ledger.InOrder where
  parts shape front back before after action strict runs spares delays _ := by
    have same : ∀ parts, ledger.other shape parts =
        ⟨runParts shape 0 parts 0, pure (.member 0 0), none⟩ := by
      intro parts
      cases shape <;> first | rfl | cases strict
    rw [same, same]
    refine ⟨?_, .inr ⟨rfl, rfl⟩, rfl⟩
    have first := swaps_runParts front 0
      (fun place inside run => (spares place inside (by rwa [Nat.zero_add] at run)).value) (0 : Int)
    simp only [Meaning.behind, runParts_append, runParts, Nat.zero_add, runs, if_true, delays.value,
      bind_assoc]
    exact first.eq fun _ _ => after.value >>= fun value => runParts shape (front.length + 1) back value
  statements shape front back expression before after isContainer labels delays := by
    have same : ∀ parts, ledger.other shape parts =
        ⟨runParts shape 0 parts 0, pure (.member 0 0), none⟩ := by
      intro parts
      cases shape
      case file | block | clause => rfl
      all_goals cases isContainer
    have all : ∀ place, shape.runsPart place = true := by
      intro place
      cases shape
      case file | block | clause => rfl
      all_goals cases isContainer
    have statement : (ledger.other (.expressionStatement none) [expression]).value =
        expression.value := bind_pure _
    rw [same, same]
    refine congrArg (Meaning.mk · _ _) ?_
    simp only [runParts_append, runParts, all, if_true, statement, delays.value, Meaning.behind,
      bind_assoc]
    refine bind_congr fun _ => bind_congr fun _ => bind_congr fun value => ?_
    exact runParts_anywhere all back _ _ value

/-- All that the ledger does but reading and writing is done with values only. -/
theorem ledger_concerns {α : Type} {name : String} {action : StateM (Execution.Place Int → Int) α}
    (names : ∀ other, other ≠ name → Swaps (ledger.read (.name other)) action)
    (members : ∀ base key, Swaps (ledger.read (.member base key)) action) :
    ledger.Concerns name action where
  names := names
  members := members
  operators _ left right := (swaps_pure action (left + right)).symm
  nowhere := Machine.swaps_approach_pure (members 0 0)
  others shape parts _ _ each := by
    have run : shape.isFunction = false → Swaps (runParts shape 0 parts 0) action := fun plain =>
      swaps_runParts parts 0 (fun place inside _ => (each plain _ (List.getElem_mem inside)).value) 0
    refine ⟨?_, Machine.swaps_approach_pure (members 0 0)⟩
    cases shape
    case literal => exact (swaps_pure action _).symm
    case function => exact (swaps_pure action _).symm
    all_goals exact run rfl

theorem ledger_concerns_read (name : String) (place : Execution.Place Int) :
    ledger.Concerns name (ledger.read place) :=
  ledger_concerns (fun _ _ => funext fun _ => rfl) fun _ _ => funext fun _ => rfl

theorem ledger_separates (name : String) : ledger.Separates name where
  reading := ledger_concerns_read name (.name name)
  writing value := by
    refine ledger_concerns (fun other differs => funext fun memory => ?_) fun _ _ => funext fun _ => rfl
    have apart : (.name other : Execution.Place Int) ≠ .name name := fun same =>
      differs (by cases same; rfl)
    exact congrArg (fun seen => ((seen, ()), fun place => if place = .name name then value else memory place))
      (if_neg apart).symm
  kept value := by
    funext memory
    exact congrArg (fun seen => (seen, fun place => if place = .name name then value else memory place))
      (if_pos rfl)

/-- The right side reads another variable, and the object is read before it: that may be the other
way around. -/
theorem reading_index_hoisted :
    let program := parse "o[x += y] = 5;".toList
    (hoist program.store 4).2 = true ∧
      ledger.meaningAt (hoist program.store 4).1 (some program.root) =
        ledger.meaningAt program.store (some program.root) := by
  intro program
  obtain ⟨tree, stands⟩ := parse_stands "o[x += y] = 5;".toList
  refine ⟨by decide +kernel, hoist_meaning stands (by decide +kernel) (by decide +kernel) ledger
    ledger_inOrder ledger_separates ?_⟩
  intro whole part name id operator applied target value within found precedes silent _ old
  have moved : candidate? program.store 4 = some ("x", some 3, some 7) := by decide +kernel
  have parts : (program.store.shape? (some 3)).map Shape.slots = some [some 1, some 2] := by
    decide +kernel
  have assignedWithin := precedes.within.2.trans within
  have valueHolds : program.store.Holds value :=
    (stands.holds.within assignedWithin).within (.deeper (by simp) .whole)
  rw [moved] at found
  obtain ⟨rfl, rest⟩ := Prod.mk.inj (Option.some.inj found)
  obtain ⟨same, -⟩ := Prod.mk.inj rest
  cases same
  rw [(stands.holds.within assignedWithin).shape?_node] at parts
  have valueRoot : value.root = some 2 := (List.cons.inj (List.cons.inj (Option.some.inj parts)).2).1
  rw [meaning_name ledger valueHolds (valueRoot ▸ (by decide +kernel :
    program.store.identifier? (some 2) = some "y"))]
  refine Machine.Spares.bind ((ledger_concerns_read "x" (.name "y")).meaning
    (stands.holds.within (precedes.within.1.trans within)) stands.tidy silent) fun given => ?_
  unfold Machine.combine
  split <;> exact Machine.spares_pure _ _

/-- A right side that changes the variable of the object may not: then another object gets the
member. -/
theorem changed_object_hoisted :
    let program := parse "o[x += (o = p, 1)] = 5;".toList
    let memory : Execution.Place Int → Int := fun place =>
      if place = .name "o" then 7 else if place = .name "p" then 8 else 0
    let before := ((ledger.meaningAt program.store (some program.root)).value.run memory).run.2
    let after := ((ledger.meaningAt (hoist program.store 8).1 (some program.root)).value.run memory).run.2
    (hoist program.store 8).2 = true ∧ before (.member 7 1) = 5 ∧ before (.member 8 1) = 0 ∧
      after (.member 7 1) = 0 ∧ after (.member 8 1) = 5 := by
  decide +kernel

end Hoist

end Unflatten
