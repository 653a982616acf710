import Unflatten.Proofs.Dispatch.CaseBody
import Unflatten.Proofs.Dispatch.Selection

/-! # What expansion makes of a `switch`

`IsTable` says what holds of the case table at all times: its cases are made of different
nodes, those of the clauses that were taken and new ones, and they give the key no value
that the clauses do not give it.  `Expands` says what the expansion of a `switch` makes of the table and of
the `switch` itself, and `expandWithin_expands` that every expansion that succeeds does so. -/

set_option autoImplicit false

namespace Unflatten

open Execution

namespace Expansion

/-- The trees of the cases. -/
abbrev Table := Int → Option (List Tree)

/-- The case table holds some trees, of the nodes of some others and of new ones. -/
structure IsTable (size : Nat) (own : List Tree) (work : Expansion) (table : Table) : Prop where
  cases : ∀ value, work.cases[value]? = (table value).map (·.map Tree.root)
  holds : ∀ {value entry}, table value = some entry → ∀ tree ∈ entry, work.store.Holds tree
  nodup : ∀ {value entry}, table value = some entry → (Tree.namesAll entry).Nodup
  apart : ∀ {value other entry entry'}, value ≠ other → table value = some entry →
    table other = some entry' → (Tree.namesAll entry).Disjoint (Tree.namesAll entry')
  names : ∀ {value entry}, table value = some entry → ∀ id ∈ Tree.namesAll entry,
    id ∈ Tree.namesAll own ∨ size ≤ id
  source : ∀ {value entry}, table value = some entry → ∀ key given,
    ∀ id ∈ Tree.keyStatementsAll key given entry,
      id ∈ Tree.keyStatementsAll key given own ∨ size ≤ id

/-- The table with a case for a value. -/
def Table.set (table : Table) (value : Int) (entry : List Tree) : Table :=
  fun other => if other = value then some entry else table other

/-- The jumps in the cases need some targets and at most something to break from. -/
def Table.Needs (allowed : List Target) (table : Table) : Prop :=
  ∀ {value entry}, table value = some entry → Tree.unmetAll entry ⊆ .breaks :: allowed

theorem Table.Needs.set {allowed : List Target} {table : Table} {value : Int} {entry : List Tree}
    (needs : table.Needs allowed) (also : Tree.unmetAll entry ⊆ .breaks :: allowed) :
    (table.set value entry).Needs allowed := by
  intro other entry' found
  rw [Table.set] at found
  split at found
  · rw [← Option.some.inj found]
    exact also
  · exact needs found

/-- A tree stands beside some others and is older than what was made since. -/
structure Apart (size : Nat) (own : List Tree) (tree : Tree) : Prop where
  old : ∀ id ∈ tree.names, id < size
  beside : ∀ id ∈ tree.names, id ∉ Tree.namesAll own

section Tables
variable {size : Nat} {own more : List Tree} {work : Expansion} {table : Table} {clause reworked : Tree}
  {entry : List Tree} {later : Store} {value : Int}

theorem IsTable.widen (isTable : IsTable size own work table)
    (names : Tree.namesAll own ⊆ Tree.namesAll more)
    (keys : ∀ key given, Tree.keyStatementsAll key given own ⊆ Tree.keyStatementsAll key given more) :
    IsTable size more work table :=
  ⟨isTable.cases, isTable.holds, isTable.nodup, isTable.apart,
    fun found id inside => (isTable.names found id inside).imp_left fun here => names here,
    fun found key given id inside =>
      (isTable.source found key given id inside).imp_left fun here => keys key given here⟩

theorem IsTable.cons (isTable : IsTable size own work table) (tree : Tree) :
    IsTable size (tree :: own) work table := by
  refine isTable.widen (List.subset_append_right _ _) fun key given => ?_
  exact List.subset_append_right _ _

/-- The clause that is reworked has no node in the table. -/
theorem IsTable.outside (isTable : IsTable size own work table) (apart : Apart size own clause)
    (found : table value = some entry) : ∀ id ∈ Tree.namesAll entry, id ∉ clause.names := by
  intro id inside there
  rcases isTable.names found id inside with old | new
  · exact apart.beside id there old
  · exact absurd (apart.old id there) (Nat.not_lt_of_le new)

/-- A clause that makes a case adds it to the table. -/
theorem IsTable.add (isTable : IsTable size own work table)
    (base : size ≤ work.store.nodes.size) (apart : Apart size own clause)
    (makes : MakesCase work.store later clause reworked entry) :
    IsTable size (clause :: own)
      { work with store := later, cases := work.cases.insert value (entry.map Tree.root) }
      (table.set value entry) := by
  have old : ∀ {other entry'}, other ≠ value → table.set value entry other = some entry' →
      table other = some entry' := by
    intro other entry' differs found
    rwa [Table.set, if_neg differs] at found
  have new : ∀ {entry'}, table.set value entry value = some entry' → entry' = entry := by
    intro entry' found
    rw [Table.set, if_pos rfl] at found
    exact (Option.some.inj found).symm
  have disjoint : ∀ {other entry'}, other ≠ value → table.set value entry other = some entry' →
      (Tree.namesAll entry').Disjoint (Tree.namesAll entry) := by
    intro other entry' differs found id here there
    have before := old differs found
    rcases makes.names id there with own_ | fresh
    · exact isTable.outside apart before id here own_
    · obtain ⟨tree, member, inside⟩ := Tree.mem_namesAll.mp here
      exact absurd ((isTable.holds before tree member).lt_size inside) (Nat.not_lt_of_le fresh)
  refine ⟨fun other => ?_, ?_, ?_, ?_, ?_, ?_⟩
  · rw [Std.TreeMap.getElem?_insert, Table.set]
    by_cases same : other = value
    · rw [if_pos (compare_eq_iff_eq.mpr same.symm), if_pos same]
      rfl
    · rw [if_neg fun equal => same (compare_eq_iff_eq.mp equal).symm, if_neg same]
      exact isTable.cases other
  · intro other entry' found tree member
    by_cases same : other = value
    · subst same
      rw [new found] at member
      exact makes.holds tree member
    · have before := old same found
      refine makes.reworks.touches.holds (isTable.holds before tree member) fun id inside => ?_
      exact isTable.outside apart before id (Tree.mem_namesAll.mpr ⟨tree, member, inside⟩)
  · intro other entry' found
    by_cases same : other = value
    · subst same
      rw [new found]
      exact makes.nodup
    · exact isTable.nodup (old same found)
  · intro first second entry' entry'' differs found found'
    by_cases same : first = value
    · subst same
      rw [new found]
      exact (disjoint (Ne.symm differs) found').symm
    · by_cases same' : second = value
      · subst same'
        rw [new found']
        exact disjoint same found
      · exact isTable.apart differs (old same found) (old same' found')
  · intro other entry' found id inside
    by_cases same : other = value
    · subst same
      rw [new found] at inside
      exact (makes.names id inside).imp (fun here => List.mem_append_left _ here)
        fun fresh => Nat.le_trans base fresh
    · exact (isTable.names (old same found) id inside).imp_left
        fun here => List.mem_append_right _ here
  · intro other entry' found key given id inside
    by_cases same : other = value
    · subst same
      rw [new found] at inside
      exact (makes.source key given id inside).imp (fun here => List.mem_append_left _ here)
        fun fresh => Nat.le_trans base fresh
    · exact (isTable.source (old same found) key given id inside).imp_left
        fun here => List.mem_append_right _ here

end Tables

/-! ## What stands behind a nested `switch` -/

/-- A `switch`. -/
def IsSwitch (tree : Tree) : Prop := ∃ discriminant clauses,
  tree.shape? = some (.switch discriminant clauses)

/-- A `break` without a label. -/
def IsBreak (tree : Tree) : Prop := tree.shape? = some (.jump .breaks none)

/-- The clauses behind the nested `switch` statements on a way down through clauses that hold
nothing else, innermost first.  A `break` behind a nested `switch` keeps its clause apart from
those behind. -/
inductive Spills : Tree → List (List Tree) → Prop
  | none (tree : Tree) : Spills tree []
  | openEnd {id slot slots discriminant before name isDefault slot' slots' label body behind inner left} :
      Tree.unwrapped body = [inner] → IsSwitch inner → Spills inner left →
      Spills (.node id (.switch slot slots) (discriminant :: (before ++
        .node name (.clause isDefault slot' slots') (label :: body) :: behind))) (left ++ [behind])
  | closed {id slot slots discriminant before name isDefault slot' slots' label body behind inner leave
      left} :
      Tree.unwrapped body = [inner, leave] → IsSwitch inner → IsBreak leave → Spills inner left →
      Spills (.node id (.switch slot slots) (discriminant :: (before ++
        .node name (.clause isDefault slot' slots') (label :: body) :: behind))) left

/-- What is spilled from a clause with some statements and some clauses behind it. -/
def SpillsFrom (body behind : List Tree) (left : List (List Tree)) : Prop :=
  left = [] ∨ ∃ inner within, IsSwitch inner ∧ Spills inner within ∧
    (Tree.unwrapped body = [inner] ∧ left = within ++ [behind] ∨
      ∃ leave, Tree.unwrapped body = [inner, leave] ∧ IsBreak leave ∧ left = within)

/-- Runs what is spilled. -/
def spill (world : World) (limit : Nat) (left : List (List Tree)) : Behaviour :=
  left.foldl (fun before behind => inSwitch (seq before (runFrom world limit behind 0)))
    (done .normal)

section Spill
variable {world : World} {limit : Nat} {left : List (List Tree)} {body behind : List Tree}

theorem spill_concat (left : List (List Tree)) (behind : List Tree) :
    spill world limit (left ++ [behind]) =
      inSwitch (seq (spill world limit left) (runFrom world limit behind 0)) := by
  rw [spill, List.foldl_append]
  rfl

theorem inSwitch_spill (left : List (List Tree)) :
    inSwitch (spill world limit left) = spill world limit left := by
  rcases List.eq_nil_or_concat left with rfl | ⟨others, behind, rfl⟩
  · rfl
  · rw [List.concat_eq_append, spill_concat, inSwitch_inSwitch]

theorem SpillsFrom.at {id : NodeId} {slot slot' : Slot} {slots slots' : List Slot} {name : NodeId}
    {isDefault : Bool} {discriminant label : Tree} {before : List Tree}
    (spills : SpillsFrom body behind left) :
    Spills (.node id (.switch slot slots) (discriminant :: (before ++
      .node name (.clause isDefault slot' slots') (label :: body) :: behind))) left := by
  rcases spills with rfl | ⟨inner, within, isSwitch, deeper, ⟨only, rfl⟩ | ⟨leave, both, leaves, rfl⟩⟩
  · exact .none _
  · exact .openEnd only isSwitch deeper
  · exact .closed both isSwitch leaves deeper

/-- Clauses that do the same may stand behind. -/
theorem SpillsFrom.replace {behind' : List Tree} (spills : SpillsFrom body behind left)
    (same : ∀ world limit, runFrom world limit behind 0 = runFrom world limit behind' 0) :
    ∃ left', SpillsFrom body behind' left' ∧
      ∀ world limit, spill world limit left' = spill world limit left := by
  rcases spills with rfl | ⟨inner, within, isSwitch, deeper, ⟨only, rfl⟩ | ⟨leave, both, leaves, rfl⟩⟩
  · exact ⟨[], .inl rfl, fun _ _ => rfl⟩
  · refine ⟨within ++ [behind'], .inr ⟨inner, within, isSwitch, deeper, .inl ⟨only, rfl⟩⟩, ?_⟩
    intro world limit
    rw [spill_concat, spill_concat, same]
  · exact ⟨left, .inr ⟨inner, left, isSwitch, deeper, .inr ⟨leave, both, leaves, rfl⟩⟩,
      fun _ _ => rfl⟩

end Spill

/-! ## What the expansion of a `switch` makes -/

/-- A tree is ready to be expanded for some values. -/
structure Ready (prelude : Tree) (size : Nat) (own : List Tree) (values : List Int)
    (work : Expansion) (table : Table) (tree : Tree) : Prop where
  base : size ≤ work.store.nodes.size
  held : work.store.Holds prelude
  aside : ∀ id ∈ tree.names, id ∉ prelude.names
  holds : work.store.Holds tree
  nodup : tree.names.Nodup
  apart : Apart size own tree
  isTable : IsTable size own work table
  distinct : values.Nodup
  unset : ∀ value ∈ values, table value = none

/-- The expansion of a `switch` reworks it in place to a `switch` that does the same.  The
cases of the values do what the `switch` does for them, up to what is spilled. -/
structure Expands (key : String) (prelude : Tree) (size : Nat) (own : List Tree) (values : List Int)
    (work after : Expansion) (table table' : Table) (tree expanded : Tree) : Prop where
  reworks : Store.Reworks work.store after.store tree expanded
  keys : ∀ key given, expanded.keyStatements key given = tree.keyStatements key given
  same : ∀ world limit labels, run world limit expanded labels = run world limit tree labels
  isTable : IsTable size (tree :: own) after table'
  frame : ∀ value, value ∉ values → table' value = table value
  runs : ∀ value ∈ values, ∃ left, Spills tree left ∧ ∀ world limit state,
    Knows world state.log key prelude values value tree →
      run world limit tree [] state =
        seq (inSwitch (runAll world limit ((table' value).getD []))) (spill world limit left) state
  needs : Tree.AddsBreaks [tree] [expanded]
  fills : ∀ {allowed}, tree.unmet ⊆ .breaks :: allowed → table.Needs allowed →
    table'.Needs allowed

/-- An expansion that succeeds makes what it should. -/
def Correct (key : String) (prelude : Tree) (size : Nat) (expand : Expand) : Prop :=
  ∀ {work after : Expansion} {own : List Tree} {values : List Int} {table : Table} {tree : Tree},
    expand work tree.root values = (after, none) →
    Ready prelude size own values work table tree →
    ∃ table' expanded,
      Expands key prelude size own values work after table table' tree expanded

section Ready
variable {prelude : Tree} {size : Nat} {own : List Tree} {values : List Int} {work : Expansion}
  {table : Table} {tree part : Tree}

theorem Ready.within (ready : Ready prelude size own values work table tree)
    (within : Tree.Within part tree) : Ready prelude size own values work table part :=
  ⟨ready.base, ready.held, fun id inside => ready.aside id (within.names_subset inside),
    ready.holds.within within, within.nodup ready.nodup,
    ⟨fun id inside => ready.apart.old id (within.names_subset inside),
      fun id inside => ready.apart.beside id (within.names_subset inside)⟩,
    ready.isTable, ready.distinct, ready.unset⟩

end Ready

/-! ## One clause -/

/-- A clause that is taken is reworked, and the cases of the values do what the `switch` does
from the clause on, up to what is spilled. -/
structure Takes (key : String) (prelude : Tree) (size : Nat) (own : List Tree) (values : List Int)
    (work after : Expansion) (table table' : Table) (clause taken : Tree) (behind : List Tree) :
    Prop where
  reworks : Store.Reworks work.store after.store clause taken
  keys : ∀ key given, taken.keyStatements key given = clause.keyStatements key given
  isTable : IsTable size (clause :: own) after table'
  frame : ∀ value, value ∉ values → table' value = table value
  same : (∀ other ∈ behind, other.IsClause) → ∀ world limit,
    runFrom world limit (taken :: behind) 0 = runFrom world limit (clause :: behind) 0
  runs : (∀ other ∈ behind, other.IsClause) → ∀ value ∈ values,
    ∃ left, SpillsFrom (Execution.clauseBody clause) behind left ∧ ∀ world limit state,
      Knows world state.log key prelude values value clause →
        inSwitch (runFrom world limit (clause :: behind) 0) state =
          seq (inSwitch (runAll world limit ((table' value).getD []))) (spill world limit left) state
  needs : Tree.AddsBreaks [clause] [taken]
  fills : ∀ {allowed}, Tree.unmetAll (clause :: behind) ⊆ .breaks :: allowed →
    table.Needs allowed → table'.Needs allowed

section TakeClause
variable {key : String} {prelude label : Tree} {size : Nat} {own body behind : List Tree}
  {values : List Int} {work after : Expansion} {table : Table} {expand : Expand} {id : NodeId}
  {isDefault : Bool} {slot : Slot} {slots : List Slot}

theorem isSwitch_root {store : Store} {tree : Tree} (holds : store.Holds tree)
    (found : store.isSwitch tree.root = true) : IsSwitch tree := by
  unfold Store.isSwitch Store.discriminant? at found
  rw [holds.shape?] at found
  cases tree with
  | nothing => cases found
  | node id shape below =>
    cases shape
    case switch discriminant clauses => exact ⟨discriminant, clauses, rfl⟩
    all_goals cases found

theorem isBreak_root {store : Store} {tree : Tree} (holds : store.Holds tree)
    (found : store.isPlainBreak tree.root = true) : IsBreak tree := by
  rw [Store.isPlainBreak, Store.satisfies, holds.shape?] at found
  cases tree with
  | nothing => cases found
  | node id shape below =>
    cases shape
    case jump kind label =>
      cases kind
      case continues => cases found
      case breaks =>
        cases label with
        | some label => cases found
        | none => rfl
    all_goals cases found

/-- The nested `switch` of a clause is all that the clause holds, apart from a `break`. -/
theorem nestedSwitch?_spec {store : Store}
    (holds : store.Holds (.node id (.clause isDefault slot slots) (label :: body)))
    (found : (nestedSwitch? store (some id)).isSome = true) :
    ∃ inner, nestedSwitch? store (some id) = inner.root ∧ IsSwitch inner ∧
      (Tree.unwrapped body = [inner] ∨
        ∃ leave, Tree.unwrapped body = [inner, leave] ∧ IsBreak leave) := by
  have listed : store.clauseStatements (some id) = (Tree.unwrapped body).map Tree.root :=
    holds.clauseStatements
  have held : ∀ tree ∈ Tree.unwrapped body, store.Holds tree :=
    fun tree member => holds_unwrapped holds member
  unfold nestedSwitch? at found ⊢
  rw [listed] at found ⊢
  match split : Tree.unwrapped body with
  | [] =>
    rw [split] at found
    cases found
  | [inner] =>
    rw [split] at found held
    simp only [List.map_cons, List.map_nil] at found ⊢
    cases nested : store.isSwitch inner.root with
    | false =>
      rw [nested, if_neg Bool.false_ne_true] at found
      cases found
    | true =>
      exact ⟨inner, if_pos rfl, isSwitch_root (held inner List.mem_cons_self) nested, .inl rfl⟩
  | [inner, leave] =>
    rw [split] at found held
    simp only [List.map_cons, List.map_nil] at found ⊢
    cases plain : store.isPlainBreak leave.root with
    | false =>
      simp only [plain, Bool.false_eq_true, if_false] at found
      cases empty : store.isSwitch none <;> rw [empty] at found <;> cases found
    | true =>
      simp only [plain, if_true] at found ⊢
      cases nested : store.isSwitch inner.root with
      | false =>
        rw [nested, if_neg Bool.false_ne_true] at found
        cases found
      | true =>
        exact ⟨inner, if_pos rfl, isSwitch_root (held inner List.mem_cons_self) nested,
          .inr ⟨leave, rfl, isBreak_root (held leave (by simp)) plain⟩⟩
  | first :: second :: third :: rest =>
    rw [split] at found
    simp only [List.map_cons] at found
    cases empty : store.isSwitch none <;> rw [empty] at found <;> cases found

theorem within_unwrapped {inner : Tree} (member : inner ∈ Tree.unwrapped body) :
    Tree.Within inner (.node id (.clause isDefault slot slots) (label :: body)) := by
  rcases unwrapped_cases body with ⟨block, inside, wrapped⟩ | plain
  · have there : Tree.node block (.block inside) (Tree.unwrapped body) ∈ body := by
      rw [wrapped]
      exact List.mem_cons_self
    exact .deeper (List.mem_cons_of_mem label there) (.deeper member .whole)
  · rw [plain] at member
    exact .deeper (List.mem_cons_of_mem label member) .whole

/-- A `switch` that is all of a clause is expanded in its place. -/
theorem takes_nested {inner : Tree}
    (correct : Correct key prelude size expand)
    (ready : Ready prelude size own values work table
      (.node id (.clause isDefault slot slots) (label :: body)))
    (isSwitch : IsSwitch inner)
    (split : Tree.unwrapped body = [inner] ∨
      ∃ leave, Tree.unwrapped body = [inner, leave] ∧ IsBreak leave)
    (expanded : expand work inner.root values = (after, none)) :
    ∃ table' taken, Takes key prelude size own values work after table table'
      (.node id (.clause isDefault slot slots) (label :: body))
      (.node id (.clause isDefault slot slots) (label :: taken)) behind := by
  obtain ⟨back, listed⟩ : ∃ back, Tree.unwrapped body = [] ++ inner :: back := by
    rcases split with only | ⟨leave, both, _⟩
    · exact ⟨[], only⟩
    · exact ⟨[leave], both⟩
  have within : Tree.Within inner (.node id (.clause isDefault slot slots) (label :: body)) :=
    within_unwrapped (by rw [listed]; exact List.mem_cons_self)
  obtain ⟨table', inner', expands⟩ := correct expanded (ready.within within)
  obtain ⟨taken, reworks, same, keys, adds⟩ :=
    clause_reworks ready.holds ready.nodup listed expands.reworks expands.keys expands.needs
  have innerNeeds : inner.unmet ⊆ Tree.unmetAll body := by
    rw [← unmetAll_unwrapped body, listed]
    exact List.subset_append_left _ _
  have alike : ∀ world limit, runAll world limit taken = runAll world limit body := by
    intro world limit
    rw [same, ← runAll_unwrapped body, listed, List.nil_append, List.nil_append, runAll, runAll,
      expands.same]
  refine ⟨table', taken, reworks, fun key given => ?_, ?_, expands.frame, fun _ world limit => ?_,
    fun _ value member => ?_, ((Tree.AddsBreaks.refl [label]).append adds).clear rfl rfl,
    fun allows => expands.fills fun target needed => ?_⟩
  · rw [Tree.keyStatements, Tree.keyStatements, Tree.keyStatementsAll, Tree.keyStatementsAll, keys]
    rfl
  · refine expands.isTable.widen ?_ fun key given => ?_
    · exact List.append_subset.mpr ⟨fun name inside =>
        List.mem_append_left _ (within.names_subset inside), List.subset_append_right _ _⟩
    · exact List.append_subset.mpr ⟨fun name inside =>
        List.mem_append_left _ (within.keyStatements_subset key given inside),
        List.subset_append_right _ _⟩
  · rw [runFrom_zero, runFrom_zero]
    exact congrArg (fun first => seq first _) (alike world limit)
  · obtain ⟨left, spills, runs⟩ := expands.runs value member
    rcases split with only | ⟨leave, both, leaves⟩
    · refine ⟨left ++ [behind], .inr ⟨inner, left, isSwitch, spills, .inl ⟨only, rfl⟩⟩,
        fun world limit state knows => ?_⟩
      have whole : runAll world limit body = run world limit inner [] := by
        rw [← runAll_unwrapped, only, runAll_singleton]
      rw [runFrom_zero, spill_concat]
      show inSwitch (seq (runAll world limit body) _) state = _
      rw [whole]
      refine (inSwitch_congr (seq_congr (runs world limit state (knows.within within)) _)).trans ?_
      rw [Execution.seq_assoc, inSwitch_seq_inSwitch]
    · refine ⟨left, .inr ⟨inner, left, isSwitch, spills, .inr ⟨leave, both, leaves, rfl⟩⟩,
        fun world limit state knows => ?_⟩
      have heldLeave : work.store.Holds leave := holds_unwrapped ready.holds
        (show leave ∈ Tree.unwrapped body by rw [both]; simp)
      have plain : work.store.isPlainBreak leave.root = true := by
        rw [Store.isPlainBreak, Store.satisfies, heldLeave.shape?, leaves]
        rfl
      have whole : runAll world limit body =
          seq (run world limit inner []) (done (.breaks none)) := by
        rw [← runAll_unwrapped, both, runAll, runAll_singleton, run_plainBreak heldLeave plain]
      rw [runFrom_zero]
      show inSwitch (seq (runAll world limit body) _) state = _
      rw [whole, seq_of_leaves (leaves_seq leaves_break)]
      refine (inSwitch_congr (seq_congr (runs world limit state (knows.within within)) _)).trans ?_
      rw [Execution.seq_assoc, inSwitch_seq_inSwitch, ← inSwitch_spill left, inSwitch_seq_break]
  · refine allows (List.mem_append_left _ ?_)
    rw [Tree.unmet_of_isClear rfl]
    exact List.mem_append_right _ (innerNeeds needed)

/-- A clause becomes the case of one value. -/
theorem takes_case {value : Int}
    (ready : Ready prelude size own [value] work table
      (.node id (.clause isDefault slot slots) (label :: body)))
    (held : ∀ clause ∈ behind, work.store.Holds clause)
    (nodup : ∀ clause ∈ behind, clause.names.Nodup) :
    ∃ table' taken, Takes key prelude size own [value] work
      (work.addCase (some id) (behind.map Tree.root) value) table table'
      (.node id (.clause isDefault slot slots) (label :: body))
      (.node id (.clause isDefault slot slots) (label :: taken)) behind := by
  obtain ⟨later, entry, taken, made, makes, adds, runs⟩ :=
    clauseBody_makesCase ready.holds ready.nodup held nodup
  have added : work.addCase (some id) (behind.map Tree.root) value =
      { work with store := later, cases := work.cases.insert value (entry.map Tree.root) } := by
    unfold addCase
    rw [made]
  rw [added]
  refine ⟨table.set value entry, taken, makes.reworks, makes.keys,
    ready.isTable.add ready.base ready.apart makes, fun other outside => ?_,
    fun clauses world limit => ?_, fun clauses other member => ?_, makes.needs,
    fun allows needs => needs.set fun target needed => ?_⟩
  · rw [Table.set, if_neg fun same => outside (List.mem_singleton.mpr same)]
  · rw [runFrom_zero, runFrom_zero]
    exact (runs clauses world limit).2
  · refine ⟨[], .inl rfl, fun world limit state _ => ?_⟩
    rw [runFrom_zero, List.mem_singleton.mp member, Table.set, if_pos rfl, Option.getD_some,
      (runs clauses world limit).1]
    exact (congrFun (seq_done_right _) state).symm
  · refine (List.mem_cons.mp (adds needed)).elim (fun same => same ▸ List.mem_cons_self)
      fun there => allows ?_
    rw [Tree.unmetAll_cons, Tree.unmet_of_isClear rfl, Tree.unmetAll_cons, List.append_assoc,
      ← Tree.unmetAll_append]
    exact List.mem_append_right _ there

/-- A clause that is taken successfully is taken as it should. -/
theorem takeClause_takes (correct : Correct key prelude size expand)
    (ready : Ready prelude size own values work table
      (.node id (.clause isDefault slot slots) (label :: body)))
    (held : ∀ clause ∈ behind, work.store.Holds clause)
    (nodup : ∀ clause ∈ behind, clause.names.Nodup)
    (taken : takeClause ⟨key, prelude.root⟩ expand work (some id) (behind.map Tree.root) values =
      (after, none)) :
    ∃ table' taken, Takes key prelude size own values work after table table'
      (.node id (.clause isDefault slot slots) (label :: body))
      (.node id (.clause isDefault slot slots) (label :: taken)) behind := by
  have nested : ∀ {values : List Int} {after : Expansion},
      Ready prelude size own values work table
        (.node id (.clause isDefault slot slots) (label :: body)) →
      (nestedSwitch? work.store (some id)).isSome = true →
      expand work (nestedSwitch? work.store (some id)) values = (after, none) →
      ∃ table' taken, Takes key prelude size own values work after table table'
        (.node id (.clause isDefault slot slots) (label :: body))
        (.node id (.clause isDefault slot slots) (label :: taken)) behind := by
    intro values after ready found expanded
    obtain ⟨inner, same, isSwitch, split⟩ := nestedSwitch?_spec ready.holds found
    rw [same] at expanded
    exact takes_nested correct ready isSwitch split expanded
  match values with
  | [value] =>
    rw [takeClause] at taken
    split at taken
    · rename_i both
      rw [Bool.and_eq_true] at both
      exact nested ready both.1 taken
    · cases taken
      exact takes_case ready held nodup
  | [] =>
    rw [takeClause] at taken
    · split at taken
      · rename_i found
        exact nested ready found taken
      · cases taken
    · exact fun _ impossible => nomatch impossible
  | first :: second :: rest =>
    rw [takeClause] at taken
    · split at taken
      · rename_i found
        exact nested ready found taken
      · cases taken
    · exact fun _ impossible => nomatch impossible

end TakeClause

/-! ## All clauses -/

/-- Whether a tree is a clause with a label. -/
def isLabelled : Tree → Bool
  | .node _ (.clause false _ _) _ => true
  | _ => false

/-- The clauses with labels. -/
def labelled (clauses : List Tree) : List Tree := clauses.filter isLabelled

/-- A clause and the same clause with other statements, which only a label allows. -/
inductive Alike : Tree → Tree → Prop
  | labelled {id slot slots label body body'} : Alike
      (.node id (.clause false slot slots) (label :: body))
      (.node id (.clause false slot slots) (label :: body'))
  | default {id slot slots label body} : Alike
      (.node id (.clause true slot slots) (label :: body))
      (.node id (.clause true slot slots) (label :: body))

/-- Some clauses are ready to be taken for the values in some buckets. -/
structure ClausesReady (prelude : Tree) (size : Nat) (own : List Tree) (buckets : Buckets)
    (work : Expansion) (table : Table) (clauses : List Tree) : Prop where
  base : size ≤ work.store.nodes.size
  held : work.store.Holds prelude
  aside : ∀ id ∈ Tree.namesAll clauses, id ∉ prelude.names
  holds : ∀ clause ∈ clauses, work.store.Holds clause
  nodup : (Tree.namesAll clauses).Nodup
  old : ∀ id ∈ Tree.namesAll clauses, id < size
  beside : ∀ id ∈ Tree.namesAll clauses, id ∉ Tree.namesAll own
  isTable : IsTable size own work table
  distinct : ∀ {selector : Int} {values : List Int}, buckets[selector]? = some values → values.Nodup
  unique : ∀ {selector selector' : Int} {values values' : List Int} {value : Int},
    buckets[selector]? = some values →
    buckets[selector']? = some values' → value ∈ values → value ∈ values' → selector = selector'
  unset : ∀ {selector : Int} {values : List Int}, buckets[selector]? = some values →
    ∀ value ∈ values, table value = none

/-- Every clause is taken for the values in the bucket of its label, and what no label
matches is left in the buckets. -/
structure ClausesTaken (key : String) (prelude : Tree) (size : Nat) (own : List Tree)
    (buckets left : Buckets) (work after : Expansion) (table table' : Table)
    (clauses taken : List Tree) : Prop where
  touches : Store.Touches work.store after.store (Tree.namesAll (labelled clauses))
  alike : List.Forall₂ Alike clauses taken
  keys : ∀ key given, Tree.keyStatementsAll key given taken =
    Tree.keyStatementsAll key given clauses
  same : ∀ world limit place, runFrom world limit taken place = runFrom world limit clauses place
  isTable : IsTable size (labelled clauses ++ own) after table'
  decided : ∀ clause ∈ clauses, IsDefaultClause clause ∨ ∃ selector, Matches selector clause
  kept : ∀ {selector : Int}, (∀ clause ∈ clauses, ¬ Matches selector clause) →
    left[selector]? = buckets[selector]?
  gone : ∀ {selector : Int}, (∃ clause ∈ clauses, Matches selector clause) → left[selector]? = none
  frame : ∀ {value : Int}, (∀ {selector : Int} {values : List Int},
    buckets[selector]? = some values → value ∈ values →
    ∀ clause ∈ clauses, ¬ Matches selector clause) → table' value = table value
  runs : ∀ {selector : Int} {values : List Int}, buckets[selector]? = some values →
    ∀ value ∈ values, ∀ {before clause behind}, clauses = before ++ clause :: behind →
    (∀ other ∈ before, ¬ Matches selector other) → Matches selector clause →
    ∃ left, SpillsFrom (Execution.clauseBody clause) behind left ∧ ∀ world limit state,
      Knows world state.log key prelude values value clause →
        inSwitch (runFrom world limit (clause :: behind) 0) state =
          seq (inSwitch (runAll world limit ((table' value).getD []))) (spill world limit left) state
  needs : Tree.AddsBreaks clauses taken
  fills : ∀ {allowed}, Tree.unmetAll clauses ⊆ .breaks :: allowed → table.Needs allowed →
    table'.Needs allowed

section Clauses
variable {key : String} {prelude clause reworked : Tree} {size : Nat} {own clauses taken : List Tree}
  {buckets left : Buckets} {work middle after : Expansion} {table table' table'' : Table}
  {selector : Int} {values : List Int}

theorem isLabelled_of_matches (matched : Matches selector clause) : isLabelled clause = true := by
  obtain ⟨id, slot, slots, label, body, rfl, _⟩ := matched
  rfl

theorem not_isLabelled_default (isDefault : IsDefaultClause clause) : isLabelled clause = false := by
  obtain ⟨id, slot, slots, label, body, rfl⟩ := isDefault
  rfl

theorem labelled_sublist (clauses : List Tree) :
    (Tree.namesAll (labelled clauses)).Sublist (Tree.namesAll clauses) :=
  Tree.namesAll_sublist List.filter_sublist

theorem ClausesReady.tail (ready : ClausesReady prelude size own buckets work table (clause :: clauses)) :
    ClausesReady prelude size own buckets work table clauses := by
  have behind : Tree.namesAll clauses ⊆ Tree.namesAll (clause :: clauses) :=
    List.subset_append_right _ _
  exact ⟨ready.base, ready.held, fun id inside => ready.aside id (behind inside),
    fun other member => ready.holds other (List.mem_cons_of_mem clause member),
    (List.nodup_append.mp ready.nodup).2.1, fun id inside => ready.old id (behind inside),
    fun id inside => ready.beside id (behind inside), ready.isTable, ready.distinct, ready.unique,
    ready.unset⟩

theorem ClausesReady.head (ready : ClausesReady prelude size own buckets work table (clause :: clauses))
    (found : buckets[selector]? = some values) :
    Ready prelude size own values work table clause := by
  have here : clause.names ⊆ Tree.namesAll (clause :: clauses) := List.subset_append_left _ _
  exact ⟨ready.base, ready.held, fun id inside => ready.aside id (here inside),
    ready.holds clause List.mem_cons_self, (List.nodup_append.mp ready.nodup).1,
    ⟨fun id inside => ready.old id (here inside), fun id inside => ready.beside id (here inside)⟩,
    ready.isTable, ready.distinct found, ready.unset found⟩

theorem ClausesReady.apart (ready : ClausesReady prelude size own buckets work table (clause :: clauses)) :
    ∀ id ∈ Tree.namesAll clauses, id ∉ clause.names :=
  fun _ inside here => (List.nodup_append'.mp ready.nodup).2.2 here inside

/-- The clauses behind a clause that was taken are still ready. -/
theorem ClausesReady.next
    (ready : ClausesReady prelude size own buckets work table (clause :: clauses))
    (found : buckets[selector]? = some values)
    (takes : Takes key prelude size own values work middle table table' clause reworked clauses) :
    ClausesReady prelude size (clause :: own) (buckets.erase selector) middle table' clauses := by
  have rest := ready.tail
  have kept : ∀ {other values'}, (buckets.erase selector)[other]? = some values' →
      other ≠ selector ∧ buckets[other]? = some values' := by
    intro other values' there
    rw [Std.TreeMap.getElem?_erase] at there
    split at there
    · cases there
    · rename_i differs
      exact ⟨fun same => differs (compare_eq_iff_eq.mpr same.symm), there⟩
  refine ⟨Nat.le_trans rest.base takes.reworks.touches.size, ?_, rest.aside, ?_, rest.nodup,
    rest.old, ?_, takes.isTable, fun there => rest.distinct (kept there).2,
    fun there also => rest.unique (kept there).2 (kept also).2, ?_⟩
  · refine takes.reworks.touches.holds rest.held fun id inside here => ?_
    exact ready.aside id (List.mem_append_left _ here) inside
  · intro other member
    refine takes.reworks.touches.holds (rest.holds other member) fun id inside => ?_
    exact ready.apart id (Tree.mem_namesAll.mpr ⟨other, member, inside⟩)
  · intro id inside here
    rcases List.mem_append.mp here with first | old
    · exact ready.apart id inside first
    · exact rest.beside id inside old
  · intro other values' there value member
    obtain ⟨differs, before⟩ := kept there
    rw [takes.frame value fun inside => differs (ready.unique before found member inside),
      rest.unset before value member]

/-- A default clause is left for later. -/
theorem ClausesTaken.skip (isDefault : IsDefaultClause clause)
    (takes : ClausesTaken key prelude size own buckets left work after table table' clauses taken) :
    ClausesTaken key prelude size own buckets left work after table table' (clause :: clauses)
      (clause :: taken) := by
  have filtered : labelled (clause :: clauses) = labelled clauses := by
    rw [labelled, List.filter_cons, not_isLabelled_default isDefault]
    rfl
  have unmatched : ∀ {selector}, ¬ Matches selector clause :=
    fun matched => matched.not_default isDefault
  refine ⟨by rw [filtered]; exact takes.touches, .cons ?_ takes.alike, fun key given => ?_,
    fun world limit place => ?_, by rw [filtered]; exact takes.isTable, ?_, ?_, ?_, ?_, ?_,
    (Tree.AddsBreaks.refl [clause]).append takes.needs, fun allows => takes.fills ?_⟩
  · obtain ⟨id, slot, slots, label, body, rfl⟩ := isDefault
    exact .default
  · rw [Tree.keyStatementsAll, Tree.keyStatementsAll, takes.keys]
  · cases place with
    | zero => rw [runFrom_zero, runFrom_zero, takes.same]
    | succ place => rw [runFrom_succ, runFrom_succ, takes.same]
  · intro other member
    rcases List.mem_cons.mp member with rfl | later
    · exact .inl isDefault
    · exact takes.decided other later
  · exact fun none_ => takes.kept fun other member => none_ other (List.mem_cons_of_mem clause member)
  · rintro selector ⟨other, member, matched⟩
    rcases List.mem_cons.mp member with rfl | later
    · exact absurd matched unmatched
    · exact takes.gone ⟨other, later, matched⟩
  · exact fun outside => takes.frame fun found inside other member =>
      outside found inside other (List.mem_cons_of_mem clause member)
  · intro selector values found value member before other behind split nowhere matched
    cases before with
    | nil =>
      cases split
      exact absurd matched unmatched
    | cons first before =>
      cases split
      exact takes.runs found value member rfl
        (fun another there => nowhere another (List.mem_cons_of_mem _ there)) matched
  · exact fun target needed => allows (List.mem_append_right _ needed)

/-- A clause whose label no value selects stays as it is. -/
theorem ClausesTaken.dropped (matched : Matches selector clause)
    (unselected : buckets[selector]? = none)
    (takes : ClausesTaken key prelude size own buckets left work after table table' clauses taken) :
    ClausesTaken key prelude size own buckets left work after table table' (clause :: clauses)
      (clause :: taken) := by
  have filtered : labelled (clause :: clauses) = clause :: labelled clauses := by
    rw [labelled, List.filter_cons, isLabelled_of_matches matched]
    rfl
  refine ⟨?_, .cons ?_ takes.alike, fun key given => ?_, fun world limit place => ?_, ?_, ?_, ?_,
    ?_, ?_, ?_, (Tree.AddsBreaks.refl [clause]).append takes.needs, fun allows => takes.fills ?_⟩
  · rw [filtered]
    exact takes.touches.mono (List.subset_append_right _ _)
  · obtain ⟨id, slot, slots, label, body, rfl, _⟩ := matched
    exact .labelled
  · rw [Tree.keyStatementsAll, Tree.keyStatementsAll, takes.keys]
  · cases place with
    | zero => rw [runFrom_zero, runFrom_zero, takes.same]
    | succ place => rw [runFrom_succ, runFrom_succ, takes.same]
  · rw [filtered]
    exact takes.isTable.cons clause
  · intro other member
    rcases List.mem_cons.mp member with rfl | later
    · exact .inr ⟨selector, matched⟩
    · exact takes.decided other later
  · exact fun none_ => takes.kept fun other member => none_ other (List.mem_cons_of_mem clause member)
  · rintro selector' ⟨other, member, also⟩
    by_cases later : ∃ clause ∈ clauses, Matches selector' clause
    · exact takes.gone later
    · rcases List.mem_cons.mp member with rfl | inside
      · rw [takes.kept fun clause there matched => later ⟨clause, there, matched⟩,
          also.unique matched, unselected]
      · exact absurd ⟨other, inside, also⟩ later
  · exact fun outside => takes.frame fun found inside other member =>
      outside found inside other (List.mem_cons_of_mem clause member)
  · intro selector' values found value member before other behind split nowhere also
    cases before with
    | nil =>
      cases split
      rw [also.unique matched, unselected] at found
      cases found
    | cons first before =>
      cases split
      exact takes.runs found value member rfl
        (fun another there => nowhere another (List.mem_cons_of_mem _ there)) also
  · exact fun target needed => allows (List.mem_append_right _ needed)

/-- A clause is taken before those behind it. -/
theorem ClausesTaken.cons
    (ready : ClausesReady prelude size own buckets work table (clause :: clauses))
    (matched : Matches selector clause) (found : buckets[selector]? = some values)
    (alike : Alike clause reworked)
    (takes : Takes key prelude size own values work middle table table' clause reworked clauses)
    (others : ClausesTaken key prelude size (clause :: own) (buckets.erase selector) left middle after
      table' table'' clauses taken) :
    ClausesTaken key prelude size own buckets left work after table table'' (clause :: clauses)
      (reworked :: taken) := by
  have filtered : labelled (clause :: clauses) = clause :: labelled clauses := by
    rw [labelled, List.filter_cons, isLabelled_of_matches matched]
    rfl
  have areClauses : ∀ other ∈ clauses, other.IsClause := by
    intro other member
    rcases others.decided other member with isDefault | ⟨_, also⟩
    · exact isDefault.isClause
    · exact also.isClause
  have erased : ∀ {other}, other ≠ selector → (buckets.erase selector)[other]? = buckets[other]? := by
    intro other differs
    rw [Std.TreeMap.getElem?_erase, if_neg fun equal => differs (compare_eq_iff_eq.mp equal).symm]
  have removed : (buckets.erase selector)[selector]? = none := by
    rw [Std.TreeMap.getElem?_erase, if_pos (compare_eq_iff_eq.mpr rfl)]
  -- what the clauses behind are taken for has another selector
  have untouched : ∀ value ∈ values, table'' value = table' value := by
    intro value member
    refine others.frame fun {other _} there inside => ?_
    by_cases same : other = selector
    · rw [same, removed] at there
      cases there
    · rw [erased same] at there
      exact absurd (ready.unique there found inside member) same
  refine ⟨?_, .cons alike others.alike, fun key given => ?_, fun world limit place => ?_, ?_, ?_,
    ?_, ?_, ?_, ?_, takes.needs.append others.needs,
    fun allows needs => others.fills ?_ (takes.fills allows needs)⟩
  · rw [filtered]
    refine (takes.reworks.touches.mono (List.subset_append_left _ _)).trans others.touches ?_
    exact fun id inside => .inl (List.mem_append_right _ inside)
  · rw [Tree.keyStatementsAll, Tree.keyStatementsAll, others.keys, takes.keys]
  · cases place with
    | zero =>
      rw [runFrom_zero, others.same, ← runFrom_zero]
      exact takes.same areClauses world limit
    | succ place => rw [runFrom_succ, runFrom_succ, others.same]
  · rw [filtered]
    refine others.isTable.widen ?_ fun key given => ?_
    · intro id inside
      rw [Tree.namesAll_append, Tree.namesAll] at inside
      rw [List.cons_append, Tree.namesAll, Tree.namesAll_append]
      simp only [List.mem_append] at inside ⊢
      exact inside.elim (fun first => .inr (.inl first)) (Or.imp_right Or.inr)
    · intro id inside
      rw [Tree.keyStatementsAll_append, Tree.keyStatementsAll] at inside
      rw [List.cons_append, Tree.keyStatementsAll, Tree.keyStatementsAll_append]
      simp only [List.mem_append] at inside ⊢
      exact inside.elim (fun first => .inr (.inl first)) (Or.imp_right Or.inr)
  · intro other member
    rcases List.mem_cons.mp member with rfl | later
    · exact .inr ⟨selector, matched⟩
    · exact others.decided other later
  · intro other nowhere
    have differs : other ≠ selector := by
      rintro rfl
      exact nowhere clause List.mem_cons_self matched
    rw [others.kept fun another member => nowhere another (List.mem_cons_of_mem clause member),
      erased differs]
  · rintro other ⟨another, member, also⟩
    by_cases same : other = selector
    · rw [same]
      by_cases later : ∃ clause ∈ clauses, Matches selector clause
      · exact others.gone later
      · rw [others.kept fun clause there matched => later ⟨clause, there, matched⟩, removed]
    · rcases List.mem_cons.mp member with rfl | inside
      · exact absurd (also.unique matched) same
      · exact others.gone ⟨another, inside, also⟩
  · intro value outside
    have apart : value ∉ values :=
      fun inside => outside found inside clause List.mem_cons_self matched
    rw [others.frame, takes.frame value apart]
    intro other values' there inside another member
    by_cases same : other = selector
    · rw [same, removed] at there
      cases there
    · rw [erased same] at there
      exact outside there inside another (List.mem_cons_of_mem clause member)
  · intro other values' there value member before another behind split nowhere also
    cases before with
    | nil =>
      cases split
      have same := also.unique matched
      subst same
      cases found.symm.trans there
      obtain ⟨spilled, spills, runs⟩ := takes.runs areClauses value member
      rw [untouched value member]
      exact ⟨spilled, spills, runs⟩
    | cons first before =>
      cases split
      have differs : other ≠ selector := by
        rintro rfl
        exact nowhere _ List.mem_cons_self matched
      rw [← erased differs] at there
      exact others.runs there value member rfl
        (fun another inside => nowhere another (List.mem_cons_of_mem _ inside)) also
  · exact fun target needed => allows (List.mem_append_right _ needed)

/-- The last default clause, with the clauses behind it. -/
def lastDefault? : List Tree → Option (Tree × List Tree)
  | [] => none
  | clause :: behind => (lastDefault? behind).or
    (match clause with
    | .node _ (.clause true _ _) _ => some (clause, behind)
    | _ => none)

/-- The root of a clause with those of the clauses behind it. -/
def rootsOf (pair : Tree × List Tree) : Slot × List Slot := (pair.1.root, pair.2.map Tree.root)

theorem lastDefault?_default (isDefault : IsDefaultClause clause) :
    lastDefault? (clause :: clauses) = (lastDefault? clauses).or (some (clause, clauses)) := by
  obtain ⟨id, slot, slots, label, body, rfl⟩ := isDefault
  rfl

theorem lastDefault?_matches (matched : Matches selector clause) :
    lastDefault? (clause :: clauses) = lastDefault? clauses := by
  obtain ⟨id, slot, slots, label, body, rfl, _⟩ := matched
  exact Option.or_none

/-- A default clause is noted. -/
theorem takeClauses_default {origin : Origin} {expand : Expand} {rest : List Slot}
    {default? : Option (Slot × List Slot)} (holds : work.store.Holds clause)
    (isDefault : IsDefaultClause clause) :
    takeClauses origin expand (clause.root :: rest) work buckets default? =
      takeClauses origin expand rest work buckets (some (clause.root, rest)) := by
  obtain ⟨id, slot, slots, label, body, rfl⟩ := isDefault
  rw [takeClauses, holds.shape?]
  rfl

/-- A clause that is not a default clause has a label with a value, or there is an error. -/
theorem takeClauses_label {origin : Origin} {expand : Expand} {rest : List Slot}
    {default? : Option (Slot × List Slot)} {found : Buckets × Option (Slot × List Slot)}
    (holds : work.store.Holds clause) (other : ¬ IsDefaultClause clause)
    (result : takeClauses origin expand (clause.root :: rest) work buckets default? =
      (after, .ok found)) :
    ∃ selector, Matches selector clause ∧
      (buckets[selector]? = none ∧
          takeClauses origin expand rest (work.drop clause.root (toString selector)) buckets default? =
            (after, .ok found) ∨
        ∃ values middle, buckets[selector]? = some values ∧
          takeClause origin expand work clause.root rest values = (middle, none) ∧
          takeClauses origin expand rest middle (buckets.erase selector) default? =
            (after, .ok found)) := by
  have nothing : ∃ cause, evaluateKey work.store [] none = .error cause :=
    ⟨.unsupported "missing expression", by
      simp [evaluateKey, evaluate, maxEvaluationDepth, evaluateWithin, Except.bind]⟩
  rw [takeClauses, holds.shape?] at result
  cases clause with
  | nothing =>
    obtain ⟨cause, refused⟩ := nothing
    simp only [Tree.shape?, refused] at result
    cases result
  | node id shape below =>
    have slots := holds.slots rfl
    cases shape
    case clause isDefault label statements =>
      obtain ⟨first, body, rfl, rfl, -⟩ := List.map_eq_cons_iff.mp
        (show below.map Tree.root = label :: statements from slots.symm)
      cases isDefault with
      | true => exact absurd ⟨id, _, _, first, body, rfl⟩ other
      | false =>
        simp only [Tree.shape?] at result
        cases evaluated : evaluateKey work.store [] first.root with
        | error cause =>
          rw [evaluated] at result
          cases result
        | ok selector =>
          rw [evaluated] at result
          refine ⟨selector, ⟨id, _, _, first, body, rfl, work.store,
            holds.part (by simp [Tree.parts]), evaluated⟩, ?_⟩
          cases bucket : buckets[selector]? with
          | none =>
            simp only [bucket] at result
            exact .inl ⟨rfl, result⟩
          | some values =>
            simp only [bucket] at result
            split at result
            · cases result
            · rename_i middle taken
              exact .inr ⟨values, middle, rfl, taken, result⟩
    all_goals
      obtain ⟨cause, refused⟩ := nothing
      simp only [Tree.shape?, refused] at result
      cases result

/-- Clauses that are taken successfully are taken as they should, and the `switch` is reworked
with them. -/
theorem takeClauses_taken {expand : Expand} {id : NodeId} {shape : Shape} {front : List Tree}
    {default? default'? : Option (Slot × List Slot)} (correct : Correct key prelude size expand)
    (ready : ClausesReady prelude size own buckets work table clauses)
    (whole : work.store.Holds (.node id shape (front ++ clauses)))
    (nodup : (Tree.node id shape (front ++ clauses)).names.Nodup)
    (result : takeClauses ⟨key, prelude.root⟩ expand (clauses.map Tree.root) work buckets default? =
      (after, .ok (left, default'?))) :
    ∃ table' taken,
      ClausesTaken key prelude size own buckets left work after table table' clauses taken ∧
      Store.Reworks work.store after.store (.node id shape (front ++ clauses))
        (.node id shape (front ++ taken)) ∧
      default'? = ((lastDefault? clauses).map rootsOf).or default? := by
  induction clauses generalizing own buckets work table front default? with
  | nil =>
    cases result
    refine ⟨table, [], ⟨.refl _ _, .nil, fun _ _ => rfl, fun _ _ _ => rfl, ready.isTable, ?_,
      fun _ => rfl, ?_, fun _ => rfl, ?_, .refl _, fun _ needs => needs⟩, .refl whole nodup, rfl⟩
    · exact fun _ impossible => nomatch impossible
    · rintro _ ⟨_, impossible, _⟩
      cases impossible
    · intro _ _ _ _ _ before _ _ impossible
      cases before <;> cases impossible
  | cons clause rest ih =>
    have held := ready.holds clause List.mem_cons_self
    have moved : ∀ front : List Tree, ∀ clauses : List Tree, ∀ clause : Tree,
        front ++ clause :: clauses = (front ++ [clause]) ++ clauses := by
      intro front clauses clause
      rw [List.append_assoc]
      rfl
    rw [List.map_cons] at result
    by_cases isDefault : IsDefaultClause clause
    · rw [takeClauses_default held isDefault] at result
      rw [moved] at whole nodup
      obtain ⟨table', taken, takes, reworks, defaults⟩ := ih ready.tail whole nodup result
      refine ⟨table', clause :: taken, takes.skip isDefault, ?_, ?_⟩
      · rw [moved, moved front taken]
        exact reworks
      · rw [defaults, lastDefault?_default isDefault]
        cases lastDefault? rest <;> rfl
    · obtain ⟨selector, matched, ⟨bucket, result⟩ | ⟨values, middle, bucket, step, result⟩⟩ :=
        takeClauses_label held isDefault result
      · rw [moved] at whole nodup
        have tail : ClausesReady prelude size own buckets
            (work.drop clause.root (toString selector)) table rest :=
          { ready.tail with isTable := { ready.isTable with } }
        obtain ⟨table', taken, takes, reworks, defaults⟩ := ih tail whole nodup result
        refine ⟨table', clause :: taken, ClausesTaken.dropped matched bucket { takes with }, ?_, ?_⟩
        · rw [moved, moved front taken]
          exact reworks
        · rw [defaults, lastDefault?_matches matched]
      · obtain ⟨table', reworked, alike, takes⟩ : ∃ table' reworked, Alike clause reworked ∧
            Takes key prelude size own values work middle table table' clause reworked rest := by
          have first := ready.head bucket
          obtain ⟨name, slot, slots, label, body, rfl, _⟩ := matched
          obtain ⟨table', reworked, takes⟩ := takeClause_takes correct first ready.tail.holds
            (fun other member => Tree.nodup_of_mem_namesAll ready.tail.nodup member) step
          exact ⟨table', _, .labelled, takes⟩
        have whole' := takes.reworks.below whole nodup
        rw [moved front rest reworked] at whole'
        obtain ⟨table'', taken, others, reworks, defaults⟩ :=
          ih (ready.next bucket takes) whole'.holds whole'.nodup result
        refine ⟨table'', reworked :: taken,
          ClausesTaken.cons ready matched bucket alike takes others, ?_, ?_⟩
        · rw [moved front taken]
          exact whole'.trans reworks
        · rw [defaults, lastDefault?_matches matched]

end Clauses

/-! ## The default clause -/

section Defaults
variable {key : String} {prelude clause : Tree} {size : Nat} {own clauses behind : List Tree}

theorem not_default_of_lastDefault? (last : lastDefault? clauses = none) :
    ∀ clause ∈ clauses, ¬ IsDefaultClause clause := by
  induction clauses with
  | nil => exact fun _ impossible => nomatch impossible
  | cons first rest ih =>
    intro clause member isDefault
    rcases List.mem_cons.mp member with rfl | later
    · rw [lastDefault?_default isDefault] at last
      cases (Option.or_eq_none_iff.mp last).2
    · exact ih (Option.or_eq_none_iff.mp last).1 clause later isDefault

theorem lastDefault?_none (decided : ∀ clause ∈ clauses,
      IsDefaultClause clause ∨ ∃ selector, Matches selector clause)
    (last : lastDefault? clauses = none) : ∀ clause ∈ clauses, ∃ selector, Matches selector clause :=
  fun clause member => (decided clause member).resolve_left
    (not_default_of_lastDefault? last clause member)

/-- The last default clause is behind some others and before clauses with labels. -/
theorem lastDefault?_some (decided : ∀ clause ∈ clauses,
      IsDefaultClause clause ∨ ∃ selector, Matches selector clause)
    (last : lastDefault? clauses = some (clause, behind)) :
    IsDefaultClause clause ∧ (∃ before, clauses = before ++ clause :: behind) ∧
      ∀ other ∈ behind, ∃ selector, Matches selector other := by
  induction clauses with
  | nil => cases last
  | cons first rest ih =>
    have others := fun clause member => decided clause (List.mem_cons_of_mem first member)
    have later : lastDefault? rest = some (clause, behind) →
        IsDefaultClause clause ∧ (∃ before, first :: rest = before ++ clause :: behind) ∧
          ∀ other ∈ behind, ∃ selector, Matches selector other := by
      intro found
      obtain ⟨isDefault, ⟨before, split⟩, labels⟩ := ih others found
      exact ⟨isDefault, ⟨first :: before, by rw [split]; rfl⟩, labels⟩
    rcases decided first List.mem_cons_self with isDefault | ⟨selector, matched⟩
    · rw [lastDefault?_default isDefault] at last
      cases found : lastDefault? rest with
      | some pair =>
        rw [found] at last
        exact later (found.trans last)
      | none =>
        rw [found] at last
        cases last
        exact ⟨isDefault, ⟨[], rfl⟩, lastDefault?_none others found⟩
    · rw [lastDefault?_matches matched] at last
      exact later last

/-- A clause and a clause with the same label. -/
def SameHead (clause other : Tree) : Prop :=
  ∃ id isDefault slot slots label body body',
    clause = .node id (.clause isDefault slot slots) (label :: body) ∧
    other = .node id (.clause isDefault slot slots) (label :: body')

theorem Alike.sameHead {other : Tree} (alike : Alike clause other) : SameHead clause other := by
  cases alike with
  | labelled => exact ⟨_, _, _, _, _, _, _, rfl, rfl⟩
  | default => exact ⟨_, _, _, _, _, _, _, rfl, rfl⟩

theorem Alike.eq_of_default {other : Tree} (alike : Alike clause other)
    (isDefault : IsDefaultClause clause) : other = clause := by
  obtain ⟨id, slot, slots, label, body, rfl⟩ := isDefault
  cases alike
  rfl

theorem exists_middle {related : Tree → Tree → Prop} {before taken : List Tree}
    (all : List.Forall₂ related (before ++ clause :: behind) taken) :
    ∃ before' clause' behind', taken = before' ++ clause' :: behind' ∧
      List.Forall₂ related before before' ∧ related clause clause' ∧
      List.Forall₂ related behind behind' := by
  induction before generalizing taken with
  | nil =>
    cases all with
    | cons first rest => exact ⟨[], _, _, rfl, .nil, first, rest⟩
  | cons head before ih =>
    cases all with
    | cons first rest =>
      obtain ⟨before', clause', behind', split, heads, middle, tail⟩ := ih rest
      exact ⟨_ :: before', clause', behind', by rw [split]; rfl, .cons first heads, middle, tail⟩

theorem roots_of_sameHead {taken : List Tree} (all : List.Forall₂ SameHead clauses taken) :
    taken.map Tree.root = clauses.map Tree.root := by
  induction all with
  | nil => rfl
  | cons first _ ih =>
    obtain ⟨id, isDefault, slot, slots, label, body, body', rfl, rfl⟩ := first
    rw [List.map_cons, List.map_cons, ih]
    rfl

/-- A `switch` goes on from the same clause if the labels are the same. -/
theorem select_of_sameHead {world : World} {discriminant : Tree} {taken : List Tree}
    (all : List.Forall₂ SameHead clauses taken) (next : Nat → Behaviour) :
    select world discriminant taken next = select world discriminant clauses next := by
  have found : ∀ subject place (next : Option Nat → Behaviour),
      findLabel world subject taken place next = findLabel world subject clauses place next := by
    intro subject place next
    induction all generalizing place with
    | nil => rfl
    | cons first _ ih =>
      obtain ⟨id, isDefault, slot, slots, label, body, body', rfl, rfl⟩ := first
      cases isDefault with
      | true => exact ih (place + 1)
      | false =>
        rw [findLabel, findLabel]
        congr 1
        funext holds
        rw [ih]
  have placed : ∀ place, defaultPlace? taken place = defaultPlace? clauses place := by
    intro place
    clear found
    induction all generalizing place with
    | nil => rfl
    | cons first _ ih =>
      obtain ⟨id, isDefault, slot, slots, label, body, body', rfl, rfl⟩ := first
      cases isDefault with
      | true => exact congrArg (fun found => Option.or found (some place)) (ih (place + 1))
      | false => exact ih (place + 1)
  have started : startAt taken next = startAt clauses next := by
    funext place?
    simp only [startAt, placed]
  have selected : ∀ subject, selectWith world discriminant taken next subject =
      selectWith world discriminant clauses next subject := by
    intro subject
    cases subject <;> simp only [selectWith, found, started]
  unfold select
  simp only [selected]

theorem runFrom_middle {world : World} {limit : Nat} {before behind' : List Tree} {clause' : Tree}
    (same : runFrom world limit (clause' :: behind') 0 = runFrom world limit (clause :: behind) 0)
    (tails : ∀ place, runFrom world limit behind' place = runFrom world limit behind place)
    (place : Nat) : runFrom world limit (before ++ clause' :: behind') place =
      runFrom world limit (before ++ clause :: behind) place := by
  induction before generalizing place with
  | nil =>
    cases place with
    | zero => exact same
    | succ place =>
      rw [List.nil_append, List.nil_append, runFrom_succ, runFrom_succ]
      exact tails place
  | cons first before ih =>
    cases place with
    | zero => rw [List.cons_append, List.cons_append, runFrom_zero, runFrom_zero, ih]
    | succ place => rw [List.cons_append, List.cons_append, runFrom_succ, runFrom_succ, ih]

end Defaults

/-! ## The `switch` as a whole -/

section Switch
variable {key : String} {prelude discriminant clause : Tree} {size : Nat}
  {own clauses behind before : List Tree} {values : List Int} {value selector : Int} {id : NodeId}
  {slot : Slot} {slots : List Slot} {world : World} {limit : Nat} {state : State}

theorem run_switch (labels : List String) :
    run world limit (.node id (.switch slot slots) (discriminant :: clauses)) labels =
      inSwitch (select world discriminant clauses (runFrom world limit clauses)) := rfl

/-- The labels of a `switch` are decided. -/
theorem known_labels
    (knows : Knows world state.log key prelude values value
      (.node id (.switch slot slots) (discriminant :: clauses)))
    (decided : ∀ clause ∈ clauses, IsDefaultClause clause ∨ ∃ selector, Matches selector clause)
    (within : before ⊆ clauses) (nowhere : ∀ other ∈ before, ¬ Matches selector other)
    {name : NodeId} {slot' : Slot} {slots' : List Slot} {label : Tree} {body : List Tree}
    (member : .node name (.clause false slot' slots') (label :: body) ∈ before) :
    ∃ other, Denotes [] label other ∧ other ≠ selector ∧
      world.known? state.log label.bare = some other := by
  rcases decided _ (within member) with ⟨_, _, _, _, _, impossible⟩ | ⟨other, matched⟩
  · cases impossible
  · have differs : other ≠ selector := by
      rintro rfl
      exact nowhere _ member matched
    obtain ⟨_, _, _, _, _, same, denotes⟩ := matched
    cases same
    exact ⟨other, denotes, differs, knows.labels .whole (within member) denotes⟩

/-- A `switch` goes on from the first clause whose label the value selects. -/
theorem run_switch_match
    (knows : Knows world state.log key prelude values value
      (.node id (.switch slot slots) (discriminant :: (before ++ clause :: behind))))
    (decided : ∀ other ∈ before ++ clause :: behind,
      IsDefaultClause other ∨ ∃ selector, Matches selector other)
    (selects : Selects key prelude discriminant values value selector)
    (nowhere : ∀ other ∈ before, ¬ Matches selector other) (matched : Matches selector clause) :
    run world limit (.node id (.switch slot slots) (discriminant :: (before ++ clause :: behind)))
        [] state =
      inSwitch (runFrom world limit (clause :: behind) 0) state := by
  have subject := knows.discriminants .whole selects
  have whole : clause ∈ before ++ clause :: behind := by simp
  rw [run_switch]
  refine inSwitch_congr ?_
  rw [select, subject, selectWith, findLabel_split fun member => known_labels knows decided
      (List.subset_append_left _ _) nowhere member,
    findLabel_match matched fun {_ _ _ _ _} same {_} denotes => by
      subst same
      exact knows.labels .whole whole denotes]
  rw [startAt, Option.some_or, Nat.zero_add]
  exact congrFun (runFrom_append before (clause :: behind)) state

/-- Without such a clause it goes on from the last default clause. -/
theorem run_switch_default
    (knows : Knows world state.log key prelude values value
      (.node id (.switch slot slots) (discriminant :: (before ++ clause :: behind))))
    (decided : ∀ other ∈ before ++ clause :: behind,
      IsDefaultClause other ∨ ∃ selector, Matches selector other)
    (selects : Selects key prelude discriminant values value selector)
    (nowhere : ∀ other ∈ before ++ clause :: behind, ¬ Matches selector other)
    (isDefault : IsDefaultClause clause)
    (labels : ∀ other ∈ behind, ∃ selector, Matches selector other) :
    run world limit (.node id (.switch slot slots) (discriminant :: (before ++ clause :: behind)))
        [] state =
      inSwitch (runFrom world limit (clause :: behind) 0) state := by
  have subject := knows.discriminants .whole selects
  have place : defaultPlace? (before ++ clause :: behind) 0 = some before.length := by
    obtain ⟨name, slot', slots', label, body, rfl⟩ := isDefault
    rw [defaultPlace?_append, defaultPlace?, defaultPlace?_none labels, Nat.zero_add]
    rfl
  rw [run_switch]
  refine inSwitch_congr ?_
  rw [select, subject, selectWith]
  have searched := @findLabel_split world selector state (before ++ clause :: behind) []
    (startAt (before ++ clause :: behind) (runFrom world limit (before ++ clause :: behind))) 0
    (fun member => known_labels knows decided (List.Subset.refl _) nowhere member)
  rw [List.append_nil] at searched
  rw [searched, findLabel, startAt, place]
  exact congrFun (runFrom_append before (clause :: behind)) state

/-- Without a default clause it does nothing. -/
theorem run_switch_nothing
    (knows : Knows world state.log key prelude values value
      (.node id (.switch slot slots) (discriminant :: clauses)))
    (selects : Selects key prelude discriminant values value selector)
    (nowhere : ∀ other ∈ clauses, ¬ Matches selector other)
    (labels : ∀ other ∈ clauses, ∃ selector, Matches selector other) :
    run world limit (.node id (.switch slot slots) (discriminant :: clauses)) [] state =
      (.normal, state) := by
  have subject := knows.discriminants .whole selects
  rw [run_switch]
  refine (inSwitch_congr ?_).trans (congrFun inSwitch_done_normal state)
  rw [select, subject, selectWith]
  have searched := @findLabel_split world selector state clauses []
    (startAt clauses (runFrom world limit clauses)) 0
    (fun member => known_labels knows (fun clause member => .inr (labels clause member))
      (List.Subset.refl _) nowhere member)
  rw [List.append_nil] at searched
  rw [searched, findLabel, startAt, defaultPlace?_none labels]
  rfl

/-- There is a first clause that a value selects, or none. -/
theorem first_match (selector : Int) (clauses : List Tree) :
    (∃ before clause behind, clauses = before ++ clause :: behind ∧
      (∀ other ∈ before, ¬ Matches selector other) ∧ Matches selector clause) ∨
    ∀ clause ∈ clauses, ¬ Matches selector clause := by
  induction clauses with
  | nil => exact .inr fun _ impossible => nomatch impossible
  | cons first rest ih =>
    by_cases matched : Matches selector first
    · exact .inl ⟨[], first, rest, rfl, (fun _ impossible => nomatch impossible), matched⟩
    · rcases ih with ⟨before, clause, behind, split, nowhere, found⟩ | nowhere
      · refine .inl ⟨first :: before, clause, behind, by rw [split]; rfl, fun other member => ?_, found⟩
        rcases List.mem_cons.mp member with rfl | later
        · exact matched
        · exact nowhere other later
      · refine .inr fun clause member => ?_
        rcases List.mem_cons.mp member with rfl | later
        · exact matched
        · exact nowhere clause later

end Switch

section Expand
variable {key : String} {prelude discriminant : Tree} {size : Nat} {own clauses taken : List Tree}
  {values : List Int} {work middle after : Expansion} {table table' : Table} {id : NodeId}
  {slot : Slot} {slots : List Slot} {buckets left : Buckets} {expand : Expand}

/-- The default clause takes one bucket, or there is nothing to take. -/
theorem takeDefault_cases {origin : Origin} {default? : Option (Tree × List Tree)}
    (taken : takeDefault origin expand middle left (default?.map rootsOf) = (after, none)) :
    (after.store = middle.store ∧ after.cases = middle.cases ∧
        (default? = none ∨ ∀ selector : Int, left[selector]? = none)) ∨
      ∃ clause behind, ∃ selector : Int, ∃ values, default? = some (clause, behind) ∧
        (∀ (other : Int) (values' : List Int), left[other]? = some values' → other = selector ∧ values' = values) ∧
        left[selector]? = some values ∧
        takeClause origin expand middle clause.root (behind.map Tree.root) values = (after, none) := by
  cases default? with
  | none =>
    cases taken
    exact .inl ⟨rfl, rfl, .inl rfl⟩
  | some pair =>
    obtain ⟨clause, behind⟩ := pair
    rw [Option.map_some, takeDefault] at taken
    simp only [rootsOf] at taken
    match listed : left.toList with
    | [] =>
      rw [listed] at taken
      cases taken
      refine .inl ⟨rfl, rfl, .inr fun selector => ?_⟩
      cases found : left[selector]? with
      | none => rfl
      | some values =>
        have member := Std.TreeMap.mem_toList_iff_getElem?_eq_some.mpr found
        rw [listed] at member
        cases member
    | [(selector, values)] =>
      rw [listed] at taken
      refine .inr ⟨clause, behind, selector, values, rfl, fun other values' found => ?_, ?_, taken⟩
      · have member := Std.TreeMap.mem_toList_iff_getElem?_eq_some.mpr found
        rw [listed] at member
        cases List.mem_singleton.mp member
        exact ⟨rfl, rfl⟩
      · refine Std.TreeMap.mem_toList_iff_getElem?_eq_some.mp ?_
        rw [listed]
        exact List.mem_singleton_self _
    | _ :: _ :: _ =>
      rw [listed] at taken
      cases taken

/-- The cases of all clauses are those of the `switch`. -/
theorem isTable_switch {more : List Tree}
    (isTable : IsTable size (more ++ own) after table') (within : more ⊆ clauses) :
    IsTable size (.node id (.switch slot slots) (discriminant :: clauses) :: own) after table' := by
  have part : ∀ tree ∈ more, Tree.Within tree (.node id (.switch slot slots) (discriminant :: clauses)) :=
    fun tree member => .deeper (List.mem_cons_of_mem _ (within member)) .whole
  refine isTable.widen ?_ fun key given => ?_
  · intro name inside
    rw [Tree.namesAll_append] at inside
    refine List.mem_append.mpr ((List.mem_append.mp inside).imp_left fun here => ?_)
    obtain ⟨tree, member, deeper⟩ := Tree.mem_namesAll.mp here
    exact (part tree member).names_subset deeper
  · intro name inside
    rw [Tree.keyStatementsAll_append] at inside
    refine List.mem_append.mpr ((List.mem_append.mp inside).imp_left fun here => ?_)
    rw [Tree.keyStatementsAll_eq] at here
    obtain ⟨tree, member, deeper⟩ := List.mem_flatMap.mp here
    exact (part tree member).keyStatements_subset key given deeper

/-- The buckets hold the values. -/
theorem gather_subset {pairs : List (Int × Int)} {selector : Int} {bucket : List Int}
    (listed : pairs.map Prod.snd = values) (found : (gather pairs)[selector]? = some bucket) :
    bucket ⊆ values := by
  intro value inside
  rw [← listed]
  exact List.mem_map.mpr ⟨_, (mem_gather found).mp inside, rfl⟩

theorem exists_bucket {pairs : List (Int × Int)} {value : Int}
    (listed : pairs.map Prod.snd = values) (member : value ∈ values) :
    ∃ selector bucket, (selector, value) ∈ pairs ∧ (gather pairs)[selector]? = some bucket ∧
      value ∈ bucket := by
  rw [← listed] at member
  obtain ⟨⟨selector, _⟩, there, rfl⟩ := List.mem_map.mp member
  obtain ⟨bucket, found, inside⟩ := exists_gather there
  exact ⟨selector, bucket, there, found, inside⟩

/-- The clauses of a `switch` are ready for the buckets of the values. -/
theorem Ready.inner {pairs : List (Int × Int)}
    (ready : Ready prelude size own values work table
      (.node id (.switch slot slots) (discriminant :: clauses)))
    (listed : pairs.map Prod.snd = values) :
    ClausesReady prelude size own (gather pairs) work table clauses := by
  have inside : Tree.namesAll clauses ⊆
      (Tree.node id (.switch slot slots) (discriminant :: clauses)).names :=
    fun name member => List.mem_cons_of_mem _ (List.mem_append_right _ member)
  have distinct : (pairs.map Prod.snd).Nodup := by
    rw [listed]
    exact ready.distinct
  refine ⟨ready.base, ready.held, fun id member => ready.aside id (inside member),
    fun clause member => ready.holds.part (List.mem_cons_of_mem _ member), ?_,
    fun id member => ready.apart.old id (inside member),
    fun id member => ready.apart.beside id (inside member), ready.isTable,
    fun found => nodup_gather distinct found,
    fun found found' here there => gather_unique distinct found found' here there, ?_⟩
  · exact (List.nodup_append.mp (List.nodup_cons.mp ready.nodup).2).2.1
  · intro selector values' found value member
    exact ready.unset value (gather_subset listed found member)

/-- The default clause is ready once the other clauses were taken. -/
theorem ClausesTaken.ready {clause : Tree} {behind before : List Tree} {selector : Int}
    {values' : List Int} (ready : ClausesReady prelude size own buckets work table clauses)
    (takes : ClausesTaken key prelude size own buckets left work middle table table' clauses taken)
    (split : clauses = before ++ clause :: behind) (isDefault : IsDefaultClause clause)
    (holds : middle.store.Holds clause) (found : left[selector]? = some values') :
    Ready prelude size (labelled clauses ++ own) values' middle table' clause := by
  have member : clause ∈ clauses := by
    rw [split]
    simp
  have inside : clause.names ⊆ Tree.namesAll clauses :=
    fun id here => Tree.mem_namesAll.mpr ⟨clause, member, here⟩
  have nowhere : ∀ other ∈ clauses, ¬ Matches selector other := by
    intro other there matched
    rw [takes.gone ⟨other, there, matched⟩] at found
    cases found
  have same := takes.kept nowhere
  rw [found] at same
  have outside : ∀ id ∈ clause.names, id ∉ Tree.namesAll (labelled clauses) := by
    intro id here there
    obtain ⟨other, labelled_, deeper⟩ := Tree.mem_namesAll.mp there
    obtain ⟨listed, isLabelled⟩ := List.mem_filter.mp labelled_
    have differs : clause ≠ other := by
      rintro rfl
      rw [not_isLabelled_default isDefault] at isLabelled
      cases isLabelled
    have symm : Std.Symm fun first second : Tree => first.names.Disjoint second.names :=
      ⟨fun _ _ apart => apart.symm⟩
    exact (Tree.nodup_namesAll_iff.mp ready.nodup).2.forall member listed differs here deeper
  refine ⟨Nat.le_trans ready.base takes.touches.size, ?_, fun id here => ready.aside id (inside here),
    holds, Tree.nodup_of_mem_namesAll ready.nodup member,
    ⟨fun id here => ready.old id (inside here), fun id here there => ?_⟩, takes.isTable,
    ready.distinct same.symm, ?_⟩
  · refine takes.touches.holds ready.held fun id inPrelude there => ?_
    exact ready.aside id ((labelled_sublist clauses).subset there) inPrelude
  · rw [Tree.namesAll_append] at there
    rcases List.mem_append.mp there with labelled_ | old
    · exact outside id here labelled_
    · exact ready.beside id (inside here) old
  · intro value inBucket
    rw [takes.frame fun {other _} there also clause listed matched => ?_,
      ready.unset same.symm value inBucket]
    rw [ready.unique there same.symm also inBucket] at matched
    exact nowhere clause listed matched

/-- The clauses of a `switch` need what it needs and something to break from. -/
theorem needs_clauses {allowed : List Target}
    (allows : (Tree.node id (.switch slot slots) (discriminant :: clauses)).unmet ⊆
      .breaks :: allowed) : Tree.unmetAll clauses ⊆ .breaks :: allowed := by
  intro target needed
  by_cases breaks : target = .breaks
  · rw [breaks]
    exact List.mem_cons_self
  · exact allows (Tree.mem_unmet_switch.mpr ⟨List.mem_append_right _ needed, breaks⟩)

/-- The case of a value that selects a clause does what the `switch` does. -/
theorem ClausesTaken.runs_switch {pairs : List (Int × Int)} {before behind : List Tree} {clause : Tree}
    {value selector : Int} {bucket : List Int} (listed : pairs.map Prod.snd = values)
    (selected : Selects key prelude discriminant values value selector)
    (takes : ClausesTaken key prelude size own (gather pairs) left work middle table table' clauses
      taken)
    (found : (gather pairs)[selector]? = some bucket) (inside : value ∈ bucket)
    (split : clauses = before ++ clause :: behind) (nowhere : ∀ other ∈ before, ¬ Matches selector other)
    (matched : Matches selector clause) :
    ∃ spilled, Spills (.node id (.switch slot slots) (discriminant :: clauses)) spilled ∧
      ∀ world limit state, Knows world state.log key prelude values value
          (.node id (.switch slot slots) (discriminant :: clauses)) →
        run world limit (.node id (.switch slot slots) (discriminant :: clauses)) [] state =
          seq (inSwitch (runAll world limit ((table' value).getD []))) (spill world limit spilled)
            state := by
  obtain ⟨spilled, spills, runs⟩ := takes.runs found value inside split nowhere matched
  subst split
  refine ⟨spilled, ?_, fun world limit state knows => ?_⟩
  · obtain ⟨_, _, _, _, _, rfl, _⟩ := matched
    exact spills.at
  · rw [run_switch_match knows takes.decided selected nowhere matched]
    exact runs world limit state
      ((knows.within (.deeper (by simp) .whole)).mono (gather_subset listed found))

/-- Nothing is left for a default clause. -/
theorem expands_without_default {pairs : List (Int × Int)}
    (ready : Ready prelude size own values work table
      (.node id (.switch slot slots) (discriminant :: clauses)))
    (listed : pairs.map Prod.snd = values)
    (selects : ∀ pair ∈ pairs, Selects key prelude discriminant values pair.2 pair.1)
    (takes : ClausesTaken key prelude size own (gather pairs) left work middle table table' clauses
      taken)
    (reworks : Store.Reworks work.store middle.store
      (.node id (.switch slot slots) (discriminant :: clauses))
      (.node id (.switch slot slots) (discriminant :: taken)))
    (same : after.store = middle.store ∧ after.cases = middle.cases)
    (nothing : lastDefault? clauses = none ∨ ∀ selector : Int, left[selector]? = none) :
    Expands key prelude size own values work after table table'
      (.node id (.switch slot slots) (discriminant :: clauses))
      (.node id (.switch slot slots) (discriminant :: taken)) := by
  have heads : List.Forall₂ SameHead clauses taken := takes.alike.imp fun _ _ alike => alike.sameHead
  have isTable : IsTable size (labelled clauses ++ own) after table' := by
    refine ⟨?_, ?_, takes.isTable.nodup, takes.isTable.apart, takes.isTable.names,
      takes.isTable.source⟩
    · rw [same.2]
      exact takes.isTable.cases
    · rw [same.1]
      exact takes.isTable.holds
  refine ⟨same.1 ▸ reworks, fun key given => ?_, fun world limit labels => ?_,
    isTable_switch isTable (List.filter_subset_self _), fun value outside => ?_,
    fun value member => ?_, takes.needs.switches discriminant,
    fun allows => takes.fills (needs_clauses allows)⟩
  · rw [Tree.keyStatements, Tree.keyStatements, Tree.keyStatementsAll, Tree.keyStatementsAll,
      takes.keys]
    rfl
  · rw [run_switch, run_switch, select_of_sameHead heads, funext (takes.same world limit)]
  · exact takes.frame fun found inside => absurd (gather_subset listed found inside) outside
  · obtain ⟨selector, bucket, paired, found, inside⟩ := exists_bucket listed member
    have selected := selects _ paired
    rcases first_match selector clauses with ⟨before, clause, behind, split, nowhere, matched⟩ | nowhere
    · exact takes.runs_switch listed selected found inside split nowhere matched
    · have unset : table' value = none := by
        rw [takes.frame fun {other _} there also clause isMember matched => ?_,
          ready.unset value member]
        have distinct : (pairs.map Prod.snd).Nodup := by
          rw [listed]
          exact ready.distinct
        rw [gather_unique distinct there found also inside] at matched
        exact nowhere clause isMember matched
      have labels : ∀ other ∈ clauses, ∃ selector, Matches selector other := by
        rcases nothing with none_ | empty
        · exact lastDefault?_none takes.decided none_
        · have kept := takes.kept nowhere
          rw [empty, found] at kept
          cases kept
      refine ⟨[], .none _, fun world limit state knows => ?_⟩
      rw [run_switch_nothing knows selected nowhere labels, unset]
      rfl

/-- The default clause takes what is left. -/
theorem expands_with_default {pairs : List (Int × Int)} {clause reworked : Tree}
    {before before' behind behind' : List Tree} {table'' : Table} {selector : Int}
    {bucket : List Int}
    (ready : Ready prelude size own values work table
      (.node id (.switch slot slots) (discriminant :: (before ++ clause :: behind))))
    (listed : pairs.map Prod.snd = values)
    (selects : ∀ pair ∈ pairs, Selects key prelude discriminant values pair.2 pair.1)
    (takes : ClausesTaken key prelude size own (gather pairs) left work middle table table'
      (before ++ clause :: behind) (before' ++ clause :: behind'))
    (heads : List.Forall₂ SameHead (before ++ clause :: behind) (before' ++ reworked :: behind'))
    (tails : ∀ world limit place,
      runFrom world limit behind' place = runFrom world limit behind place)
    (isDefault : IsDefaultClause clause)
    (labels : ∀ other ∈ behind, ∃ selector, Matches selector other)
    (labels' : ∀ other ∈ behind', other.IsClause)
    (reworks : Store.Reworks work.store after.store
      (.node id (.switch slot slots) (discriminant :: (before ++ clause :: behind)))
      (.node id (.switch slot slots) (discriminant :: (before' ++ reworked :: behind'))))
    (found : left[selector]? = some bucket)
    (only : ∀ (other : Int) (values' : List Int), left[other]? = some values' →
      other = selector ∧ values' = bucket)
    (last : Takes key prelude size (labelled (before ++ clause :: behind) ++ own) bucket middle after
      table' table'' clause reworked behind') :
    Expands key prelude size own values work after table table''
      (.node id (.switch slot slots) (discriminant :: (before ++ clause :: behind)))
      (.node id (.switch slot slots) (discriminant :: (before' ++ reworked :: behind'))) := by
  have isMember : clause ∈ before ++ clause :: behind := by simp
  have distinct : (pairs.map Prod.snd).Nodup := by
    rw [listed]
    exact ready.distinct
  have nowhereLeft : ∀ other ∈ before ++ clause :: behind, ¬ Matches selector other := by
    intro other there matched
    rw [takes.gone ⟨other, there, matched⟩] at found
    cases found
  have gathered : (gather pairs)[selector]? = some bucket := by
    rw [← takes.kept nowhereLeft, found]
  have oneLast : ∀ world limit, runFrom world limit (reworked :: behind') 0 =
      runFrom world limit (clause :: behind) 0 := by
    intro world limit
    rw [last.same labels', runFrom_zero, runFrom_zero, tails]
  have keys : ∀ key given, Tree.keyStatementsAll key given (before' ++ reworked :: behind') =
      Tree.keyStatementsAll key given (before ++ clause :: behind) := by
    intro key given
    rw [← takes.keys, keyStatementsAll_middle, keyStatementsAll_middle, last.keys]
  have places : ∀ world limit place, runFrom world limit (before' ++ reworked :: behind') place =
      runFrom world limit (before ++ clause :: behind) place := by
    intro world limit place
    have oneLast' : runFrom world limit (reworked :: behind') 0 =
        runFrom world limit (clause :: behind') 0 := last.same labels' world limit
    rw [← takes.same world limit place]
    exact runFrom_middle oneLast' (fun _ => rfl) place
  have needsReworked : Tree.AddsBreaks (before ++ clause :: behind) (before' ++ reworked :: behind') :=
    takes.needs.trans ((Tree.AddsBreaks.refl before').append (last.needs.beside behind'))
  refine ⟨reworks, fun key given => ?_, fun world limit labels => ?_, ?_, fun value outside => ?_,
    fun value member => ?_, needsReworked.switches discriminant, fun allows needs => ?_⟩
  · rw [Tree.keyStatements, Tree.keyStatements, Tree.keyStatementsAll, Tree.keyStatementsAll, keys]
    rfl
  · rw [run_switch, run_switch, select_of_sameHead heads, funext (places world limit)]
  · have inside : clause :: labelled (before ++ clause :: behind) ⊆ before ++ clause :: behind :=
      List.cons_subset.mpr ⟨isMember, List.filter_subset_self _⟩
    exact isTable_switch last.isTable inside
  · rw [last.frame value fun inside => outside (gather_subset listed gathered inside)]
    exact takes.frame fun there inside => absurd (gather_subset listed there inside) outside
  · obtain ⟨selector', bucket', paired, found', inside⟩ := exists_bucket listed member
    have selected := selects _ paired
    rcases first_match selector' (before ++ clause :: behind) with
      ⟨before₁, clause₁, behind₁, split, nowhere, matched⟩ | nowhere
    · have apart : value ∉ bucket := by
        intro also
        rw [gather_unique distinct found' gathered inside also] at matched
        refine nowhereLeft clause₁ ?_ matched
        rw [split]
        simp
      rw [last.frame value apart]
      exact takes.runs_switch listed selected found' inside split nowhere matched
    · have kept := takes.kept nowhere
      rw [found'] at kept
      obtain ⟨rfl, rfl⟩ := only selector' bucket' kept
      obtain ⟨spilled, spills, runs⟩ := last.runs labels' value inside
      obtain ⟨spilled', spills', same⟩ := spills.replace fun world limit => tails world limit 0
      refine ⟨spilled', ?_, fun world limit state knows => ?_⟩
      · obtain ⟨_, _, _, _, _, rfl⟩ := isDefault
        exact spills'.at
      · rw [run_switch_default knows takes.decided selected nowhere isDefault labels, same,
          ← runs world limit state ((knows.within (.deeper (by simp) .whole)).mono
            (gather_subset listed found')),
          runFrom_zero, runFrom_zero, tails]
  · refine last.fills (fun target needed => ?_) (takes.fills (needs_clauses allows) needs)
    have among : target ∈ Tree.unmetAll (before' ++ clause :: behind') := by
      rw [Tree.unmetAll_append]
      exact List.mem_append_right _ needed
    exact (List.mem_cons.mp (takes.needs among)).elim (fun same => same ▸ List.mem_cons_self)
      fun there => needs_clauses allows there

/-- Every expansion that succeeds makes what it should. -/
theorem expandWithin_expands (depth : Nat) :
    Correct key prelude size (expandWithin ⟨key, prelude.root⟩ depth) := by
  induction depth with
  | zero =>
    intro work after own values table tree impossible
    cases impossible
  | succ depth ih =>
    intro work after own values table tree expanded ready
    rw [expandWithin, ready.holds.shape?] at expanded
    cases tree with
    | nothing => cases expanded
    | node id shape below =>
      have roots := ready.holds.slots rfl
      cases shape
      case switch slot slots =>
        match below, roots with
        | discriminant :: clauses, roots =>
          obtain ⟨rfl, rfl⟩ : slot = discriminant.root ∧ slots = clauses.map Tree.root :=
            List.cons.inj roots
          simp only [Tree.shape?] at expanded
          cases selected : selectors work.store ⟨key, prelude.root⟩ discriminant.root values [] with
          | error cause =>
            rw [selected] at expanded
            cases expanded
          | ok pairs =>
            obtain ⟨listed, selects⟩ := selectors_spec
              (ready.holds.part (by simp [Tree.parts])) ready.held (List.Subset.refl _) .start selected
            rw [selected] at expanded
            simp only at expanded
            split at expanded
            · cases expanded
            · rename_i middle left default? clausesResult
              have inner := ready.inner listed
              obtain ⟨table', taken, takes, reworks, defaults⟩ := @takeClauses_taken key prelude size
                own clauses (gather pairs) left work middle table _ id _ [discriminant] none default? ih
                inner ready.holds ready.nodup clausesResult
              rw [Option.or_none] at defaults
              subst defaults
              rcases takeDefault_cases expanded with ⟨store, cases_, nothing⟩ |
                ⟨clause, behind, selector, bucket, last, only, found, step⟩
              · exact ⟨table', _, expands_without_default ready listed selects takes reworks
                  ⟨store, cases_⟩ nothing⟩
              · obtain ⟨isDefault, ⟨before, rfl⟩, labels⟩ := lastDefault?_some takes.decided last
                obtain ⟨before', clause', behind', rfl, heads, alike, tails⟩ := exists_middle takes.alike
                have same := alike.eq_of_default isDefault
                subst same
                have headRoots : List.Forall₂ SameHead behind behind' :=
                  tails.imp fun _ _ alike => alike.sameHead
                rw [← roots_of_sameHead headRoots] at step
                have holds : ∀ tree ∈ before' ++ clause' :: behind', middle.store.Holds tree :=
                  fun tree member => reworks.holds.part (List.mem_cons_of_mem _ member)
                have nodup : (Tree.namesAll (before' ++ clause' :: behind')).Nodup :=
                  (List.nodup_append.mp (List.nodup_cons.mp reworks.nodup).2).2.1
                have readyLast := takes.ready inner rfl isDefault (holds clause' (by simp)) found
                have lengths : before'.length = before.length := heads.length_eq.symm
                have places : ∀ world limit place,
                    runFrom world limit behind' place = runFrom world limit behind place := by
                  intro world limit place
                  have whole := takes.same world limit (before.length + (place + 1))
                  rw [runFrom_shift, ← lengths, runFrom_shift, runFrom_succ, runFrom_succ] at whole
                  exact whole
                have labels' : ∀ other ∈ behind', other.IsClause := by
                  intro other member
                  obtain ⟨_, _, _, isDefault', _, _, _, _, _, _, rfl⟩ :=
                    exists_of_mem_forall₂ headRoots member
                  exact ⟨isDefault', _, _, rfl⟩
                obtain ⟨table'', reworked, sameHead, final⟩ : ∃ table'' reworked,
                    SameHead clause' reworked ∧ Takes key prelude size
                      (labelled (before ++ clause' :: behind) ++ own) bucket middle after table' table''
                      clause' reworked behind' := by
                  have member : clause' ∈ before' ++ clause' :: behind' := by simp
                  obtain ⟨name, slot', slots', label, body, rfl⟩ := isDefault
                  obtain ⟨table'', reworked, final⟩ := takeClause_takes ih readyLast
                    (fun other there => holds other (by simp [there]))
                    (fun other there => Tree.nodup_of_mem_namesAll nodup (by simp [there])) step
                  exact ⟨table'', _, ⟨_, _, _, _, _, _, _, rfl, rfl⟩, final⟩
                have again := @Store.Reworks.below _ _ (discriminant :: before') behind' _ _ _ _
                  final.reworks reworks.holds reworks.nodup
                refine ⟨table'', _, expands_with_default ready listed selects takes ?_ places isDefault
                  labels labels' (reworks.trans again) found only final⟩
                exact List.rel_append (heads.imp fun _ _ alike => alike.sameHead)
                  (.cons sameHead headRoots)
      all_goals cases expanded

end Expand

/-- The expansion of a dispatcher fills an empty table. -/
theorem expand_expands {store : Store} {key : DispatchKey} {tree prelude : Tree} {work : Expansion}
    (holds : store.Holds tree) (nodup : tree.names.Nodup) (held : store.Holds prelude)
    (same : prelude.root = key.prelude) (aside : ∀ id ∈ tree.names, id ∉ prelude.names)
    {values : List Int} (distinct : values.Nodup) (expanded : expand store key tree.root values = (work, none)) :
    ∃ table expanded, Expands key.name prelude store.nodes.size [] values ⟨store, ∅, []⟩ work
      (fun _ => none) table tree expanded := by
  rw [expand, ← same] at expanded
  refine expandWithin_expands _ expanded ⟨Nat.le_refl _, held, aside, holds, nodup,
    ⟨fun id inside => holds.lt_size inside, fun _ _ => List.not_mem_nil⟩, ?_, distinct,
    fun _ _ => rfl⟩
  exact ⟨(fun _ => Std.TreeMap.getElem?_emptyc), (fun impossible => nomatch impossible),
    (fun impossible => nomatch impossible), (fun _ impossible => nomatch impossible),
    (fun impossible => nomatch impossible), (fun impossible => nomatch impossible)⟩

end Expansion

end Unflatten
