import Unflatten.Proofs.Dispatch.Arms

/-! # The statements of a case

The statements of a selected clause are followed by copies of the clauses that they fall
through into, and a `break` at the end is moved into the arms of the `if` before it.  The
list does what the `switch` does from that clause on; the clause itself is reworked so that
the same still holds of it. -/

set_option autoImplicit false

namespace Unflatten

open Execution

namespace Expansion

/-! ## Copies of the clauses behind -/

section Follow
variable {store : Store} {trees behind : List Tree}

theorem clauseBody_eq {clause : Tree} (isClause : clause.IsClause) :
    Execution.clauseBody clause = clause.statements := by
  obtain ⟨isDefault, label, statements, found⟩ := isClause
  cases clause with
  | nothing => cases found
  | node id shape below =>
    cases found
    cases below <;> rfl

theorem holds_unwrapped {clause part : Tree} (holds : store.Holds clause)
    (member : part ∈ Tree.unwrapped clause.statements) : store.Holds part := by
  match listed : clause.statements with
  | [] =>
    rw [listed] at member
    cases member
  | [only] =>
    have held : store.Holds only := holds.statements (by rw [listed]; exact List.mem_cons_self)
    rw [listed] at member
    cases only with
    | nothing =>
      rw [List.mem_singleton.mp member]
      exact held
    | node id shape below =>
      cases shape
      case block => exact held.part member
      all_goals
        rw [List.mem_singleton.mp member]
        exact held
  | first :: second :: rest =>
    rw [listed] at member
    refine holds.statements ?_
    rw [listed]
    cases first with
    | nothing => exact member
    | node id shape below => cases shape <;> exact member

theorem sublist_unwrapped (trees : List Tree) :
    (Tree.namesAll (Tree.unwrapped trees)).Sublist (Tree.namesAll trees) := by
  match trees with
  | [] => exact .refl _
  | [only] =>
    cases only with
    | nothing => exact .refl _
    | node id shape below =>
      cases shape
      case block =>
        show (Tree.namesAll below).Sublist (id :: Tree.namesAll below ++ [])
        rw [List.append_nil]
        exact List.sublist_cons_self _ _
      all_goals exact .refl _
  | first :: second :: rest =>
    cases first with
    | nothing => exact .refl _
    | node id shape below => cases shape <;> exact .refl _

theorem unmetAll_unwrapped (trees : List Tree) :
    Tree.unmetAll (Tree.unwrapped trees) = Tree.unmetAll trees := by
  match trees with
  | [] => rfl
  | [only] =>
    cases only with
    | nothing => rfl
    | node id shape below =>
      cases shape
      case block =>
        rw [Tree.unmetAll_cons, Tree.unmet_of_isClear rfl, Tree.unmetAll_nil, List.append_nil]
        rfl
      all_goals rfl
  | first :: second :: rest =>
    cases first with
    | nothing => rfl
    | node id shape below => cases shape <;> rfl

theorem unmetAll_statements_subset (tree : Tree) : Tree.unmetAll tree.statements ⊆ tree.unmet := by
  cases tree with
  | nothing => exact List.nil_subset _
  | node id shape below =>
    have among : Tree.unmetAll (Tree.node id shape below).statements ⊆ Tree.unmetAll below :=
      Tree.unmetAll_subset_of_subset (Tree.statements_sublist (.node id shape below)).subset
    cases shape
    case file | block | clause =>
      rw [Tree.unmet_of_isClear rfl]
      exact among
    all_goals exact List.nil_subset _

theorem unmetAll_of_copies {store later : Store} {origins copies : List Tree}
    (holds : ∀ tree ∈ origins, store.Holds tree)
    (each : List.Forall₂ (Store.IsCopy store later) origins copies) :
    Tree.unmetAll copies = Tree.unmetAll origins := by
  induction each with
  | nil => rfl
  | cons first _ ih =>
    have needs := Tree.unmet_of_bare (holds _ List.mem_cons_self) first.holds first.bare
    rw [Tree.unmetAll_cons, Tree.unmetAll_cons, needs.1,
      ih fun tree member => holds tree (List.mem_cons_of_mem _ member)]

theorem map_bare_of_copies {store later : Store} {origins copies : List Tree}
    (each : List.Forall₂ (Store.IsCopy store later) origins copies) :
    copies.map Tree.bare = origins.map Tree.bare := by
  induction each with
  | nil => rfl
  | cons first _ ih => rw [List.map_cons, List.map_cons, first.bare, ih]

/-- The statements and the copies behind them do what they do and then what the clauses
behind do. -/
theorem followClauses_copies (holds : ∀ tree ∈ trees, store.Holds tree)
    (held : ∀ clause ∈ behind, store.Holds clause)
    (nodup : ∀ clause ∈ behind, clause.names.Nodup) :
    ∃ later copies, followClauses store (trees.map Tree.root) (behind.map Tree.root) =
        (later, (trees ++ copies).map Tree.root) ∧
      Store.Grown store later ∧ (∀ tree ∈ copies, later.Holds tree) ∧
      (Tree.namesAll copies).Nodup ∧ (∀ id ∈ Tree.namesAll copies, store.nodes.size ≤ id) ∧
      Tree.unmetAll copies ⊆ Tree.unmetAll behind ∧
      ((∀ clause ∈ behind, clause.IsClause) → ∀ world limit,
        runAll world limit (trees ++ copies) =
          seq (runAll world limit trees) (runFrom world limit behind 0)) := by
  induction behind generalizing store trees with
  | nil =>
    refine ⟨store, [], ?_, .refl store, by simp, .nil, (fun _ inside => nomatch inside),
      List.nil_subset _, fun _ world limit => ?_⟩
    · rw [List.append_nil]
      rfl
    · rw [List.append_nil]
      exact (seq_done_right _).symm
  | cons next rest ih =>
    rw [List.map_cons, followClauses]
    have restClauses : (∀ clause ∈ next :: rest, clause.IsClause) →
        ∀ clause ∈ rest, clause.IsClause :=
      fun all clause member => all clause (List.mem_cons_of_mem next member)
    cases falls : store.fallsThrough store.depthBound (trees.map Tree.root) with
    | false =>
      refine ⟨store, [], ?_, .refl store, by simp, .nil, (fun _ inside => nomatch inside),
        List.nil_subset _, fun _ world limit => ?_⟩
      · rw [if_neg Bool.false_ne_true, List.append_nil]
      · rw [List.append_nil]
        exact (seq_of_leaves (leaves_of_not_fallsThrough holds falls) _).symm
    | true =>
      rw [if_pos rfl]
      have heldNext := held next List.mem_cons_self
      have nodupNext : (Tree.namesAll (Tree.unwrapped next.statements)).Nodup :=
        ((sublist_unwrapped _).trans (Tree.namesAll_sublist next.statements_sublist)).nodup
          (Tree.nodup_namesAll_parts (nodup next List.mem_cons_self))
      obtain ⟨copies, grown, same, each, distinct⟩ := Store.copyAll_copies
        (fun part member => holds_unwrapped heldNext member)
        (fun part member => Tree.nodup_of_mem_namesAll nodupNext member)
      rw [heldNext.clauseStatements]
      have needs : Tree.unmetAll copies ⊆ next.unmet := by
        rw [unmetAll_of_copies (fun part member => holds_unwrapped heldNext member) each,
          unmetAll_unwrapped]
        exact unmetAll_statements_subset next
      have made : ∀ copy ∈ copies, (store.copyAll
          ((Tree.unwrapped next.statements).map Tree.root)).1.Holds copy ∧
          ∀ id ∈ copy.names, store.nodes.size ≤ id := by
        intro copy member
        obtain ⟨origin, _, isCopy⟩ := exists_of_mem_forall₂ each member
        exact ⟨isCopy.holds, isCopy.fresh⟩
      generalize store.copyAll ((Tree.unwrapped next.statements).map Tree.root) = state
        at grown same each made
      obtain ⟨middle, slots⟩ := state
      change slots = copies.map Tree.root at same
      subst same
      simp only
      rw [← List.map_append]
      obtain ⟨later, more, result, grown', held', distinct', fresh', needs', runs⟩ :=
        @ih middle (trees ++ copies)
          (fun tree member => (List.mem_append.mp member).elim
            (fun old => grown.holds (holds tree old)) fun new => (made tree new).1)
          (fun clause member => grown.holds (held clause (List.mem_cons_of_mem next member)))
          (fun clause member => nodup clause (List.mem_cons_of_mem next member))
      refine ⟨later, copies ++ more, ?_, grown.trans grown', ?_, ?_, ?_, ?_,
        fun clauses world limit => ?_⟩
      · rw [result, List.append_assoc]
      · intro tree member
        rcases List.mem_append.mp member with old | new
        · exact grown'.holds (made tree old).1
        · exact held' tree new
      · rw [Tree.namesAll_append, List.nodup_append']
        refine ⟨distinct, distinct', fun id here there => ?_⟩
        obtain ⟨copy, member, inside⟩ := Tree.mem_namesAll.mp here
        exact absurd ((made copy member).1.lt_size inside) (Nat.not_lt_of_le (fresh' id there))
      · intro id member
        rw [Tree.namesAll_append] at member
        rcases List.mem_append.mp member with old | new
        · obtain ⟨copy, there, inside⟩ := Tree.mem_namesAll.mp old
          exact (made copy there).2 id inside
        · exact Nat.le_trans grown.size (fresh' id new)
      · rw [Tree.unmetAll_append, Tree.unmetAll_cons]
        exact List.append_subset.mpr ⟨List.subset_append_of_subset_left _ needs,
          List.subset_append_of_subset_right _ needs'⟩
      · rw [← List.append_assoc, runs (restClauses clauses), runAll_append, runFrom_zero,
          clauseBody_eq (clauses next List.mem_cons_self), Execution.seq_assoc,
          runAll_eq_of_bare (map_bare_of_copies each), runAll_unwrapped]

end Follow

/-! ## The `break` at the end -/

section Last
variable {store : Store} {trees : List Tree}

theorem run_plainBreak {tree : Tree} (holds : store.Holds tree)
    (plain : store.isPlainBreak tree.root = true) (world : World) (limit : Nat)
    (labels : List String) : run world limit tree labels = done (.breaks none) := by
  obtain ⟨id, rfl⟩ := exists_plainBreak holds plain
  rfl

/-- Either nothing happens, or the list ends with an `if` and a `break`, of which an `if` that
breaks is left. -/
theorem terminateLast_reworks (holds : ∀ tree ∈ trees, store.Holds tree)
    (nodup : ∀ tree ∈ trees, tree.names.Nodup) :
    terminateLast store (trees.map Tree.root) = (store, trees.map Tree.root) ∨
      ∃ before conditional leave later ended, trees = before ++ [conditional, leave] ∧
        terminateLast store (trees.map Tree.root) =
          (later, (before ++ [ended]).map Tree.root) ∧
        Store.Reworks store later conditional ended ∧ BreaksAfter conditional ended ∧
        ∀ world limit labels, run world limit leave labels = done (.breaks none) := by
  match reversed : trees.reverse with
  | [] =>
    rw [List.reverse_eq_nil_iff.mp reversed]
    exact .inl rfl
  | [only] =>
    rw [← List.reverse_reverse trees, reversed]
    exact .inl rfl
  | leave :: conditional :: others =>
    have listed : trees = others.reverse ++ [conditional, leave] := by
      rw [← List.reverse_reverse trees, reversed]
      simp
    have slots : (trees.map Tree.root).reverse =
        leave.root :: conditional.root :: others.map Tree.root := by
      rw [← List.map_reverse, reversed]
      rfl
    unfold terminateLast
    rw [slots]
    simp only
    split
    · rename_i both
      rw [Bool.and_eq_true] at both
      have held := holds conditional (by rw [listed]; simp)
      have distinct := nodup conditional (by rw [listed]; simp)
      obtain ⟨ended, reworks, breaks⟩ := terminateArms_reworks held distinct
        (Nat.le_succ_of_le (held.height_le distinct)) both.2
      refine .inr ⟨others.reverse, conditional, leave, _, ended, listed, ?_, reworks, breaks,
        run_plainBreak (holds leave (by rw [listed]; simp)) both.1⟩
      rw [List.reverse_cons, List.map_append, List.map_reverse, List.map_cons, List.map_nil,
        reworks.root]
      rfl
    · exact .inl rfl

end Last

/-! ## A clause and its case -/

section Clause
variable {store later : Store} {id : NodeId} {isDefault : Bool} {labelSlot : Slot}
  {slots : List Slot} {label : Tree} {body front back : List Tree} {conditional ended : Tree}

theorem unwrapped_cases (body : List Tree) :
    (∃ block slots, body = [.node block (.block slots) (Tree.unwrapped body)]) ∨
      Tree.unwrapped body = body := by
  match body with
  | [] => exact .inr rfl
  | [only] =>
    cases only with
    | nothing => exact .inr rfl
    | node id shape below =>
      cases shape
      case block slots => exact .inl ⟨id, slots, rfl⟩
      all_goals exact .inr rfl
  | first :: second :: rest =>
    cases first with
    | nothing => exact .inr rfl
    | node id shape below => cases shape <;> exact .inr rfl

theorem keyStatementsAll_middle (key : String) (value : Int) (front back : List Tree) (part : Tree) :
    Tree.keyStatementsAll key value (front ++ part :: back) =
      Tree.keyStatementsAll key value front ++
        (part.keyStatements key value ++ Tree.keyStatementsAll key value back) := by
  rw [Tree.keyStatementsAll_append, Tree.keyStatementsAll]

/-- A clause is reworked with one of its statements. -/
theorem clause_reworks
    (holds : store.Holds (.node id (.clause isDefault labelSlot slots) (label :: body)))
    (nodup : (Tree.node id (.clause isDefault labelSlot slots) (label :: body)).names.Nodup)
    (listed : Tree.unwrapped body = front ++ conditional :: back)
    (reworks : Store.Reworks store later conditional ended)
    (same : ∀ key value, ended.keyStatements key value = conditional.keyStatements key value)
    (adds : Tree.AddsBreaks [conditional] [ended]) :
    ∃ reworked, Store.Reworks store later
        (.node id (.clause isDefault labelSlot slots) (label :: body))
        (.node id (.clause isDefault labelSlot slots) (label :: reworked)) ∧
      (∀ world limit, runAll world limit reworked = runAll world limit (front ++ ended :: back)) ∧
      (∀ key value, Tree.keyStatementsAll key value reworked =
        Tree.keyStatementsAll key value body) ∧ Tree.AddsBreaks body reworked := by
  have addsAll : Tree.AddsBreaks (front ++ conditional :: back) (front ++ ended :: back) :=
    (Tree.AddsBreaks.refl front).append (adds.beside back)
  rcases unwrapped_cases body with ⟨block, inner, wrapped⟩ | plain
  · rw [listed] at wrapped
    subst wrapped
    have heldBlock : store.Holds (.node block (.block inner) (front ++ conditional :: back)) :=
      holds.part (by simp [Tree.parts])
    have nodupBlock := Tree.nodup_of_mem_namesAll (List.nodup_cons.mp nodup).2
      (List.mem_cons_of_mem label List.mem_cons_self)
    refine ⟨[.node block (.block inner) (front ++ ended :: back)], ?_, fun world limit => ?_,
      fun key value => ?_, addsAll.clear rfl rfl⟩
    · exact @Store.Reworks.below _ _ [label] [] _ _ _ _ (reworks.below heldBlock nodupBlock) holds nodup
    · exact runAll_singleton world limit _
    · have whole : ∀ trees : List Tree, Tree.keyStatementsAll key value
          [.node block (.block inner) trees] = Tree.keyStatementsAll key value trees :=
        fun trees => List.append_nil _
      rw [whole, whole, keyStatementsAll_middle, keyStatementsAll_middle, same]
  · rw [plain] at listed
    subst listed
    refine ⟨front ++ ended :: back, ?_, fun _ _ => rfl, fun key value => ?_, addsAll⟩
    · exact @Store.Reworks.below _ _ (label :: front) back _ _ _ _ reworks holds nodup
    · rw [keyStatementsAll_middle, keyStatementsAll_middle, same]

/-- A clause is reworked, and some statements become a case. -/
structure MakesCase (store later : Store) (clause reworked : Tree) (entry : List Tree) : Prop where
  reworks : Store.Reworks store later clause reworked
  keys : ∀ key value, reworked.keyStatements key value = clause.keyStatements key value
  holds : ∀ tree ∈ entry, later.Holds tree
  nodup : (Tree.namesAll entry).Nodup
  names : ∀ id ∈ Tree.namesAll entry, id ∈ clause.names ∨ store.nodes.size ≤ id
  source : ∀ key value, ∀ id ∈ Tree.keyStatementsAll key value entry,
    id ∈ clause.keyStatements key value ∨ store.nodes.size ≤ id
  needs : Tree.AddsBreaks [clause] [reworked]

theorem keyStatementsAll_unwrapped (key : String) (value : Int) (body : List Tree) :
    Tree.keyStatementsAll key value (Tree.unwrapped body) =
      Tree.keyStatementsAll key value body := by
  rcases unwrapped_cases body with ⟨block, inner, wrapped⟩ | plain
  · have whole : Tree.keyStatementsAll key value
        [.node block (.block inner) (Tree.unwrapped body)] =
          Tree.keyStatementsAll key value (Tree.unwrapped body) := List.append_nil _
    rw [← whole, ← wrapped]
  · rw [plain]

/-- The statements of a clause are followed by copies of those behind it, and do what the `switch`
does from the clause on. -/
structure Gathers (store middle : Store) (clause : Tree) (body behind copies : List Tree) : Prop where
  grown : Store.Grown store middle
  fresh : ∀ id ∈ Tree.namesAll copies, store.nodes.size ≤ id
  holds : ∀ tree ∈ Tree.unwrapped body ++ copies, middle.Holds tree
  nodup : (Tree.namesAll (Tree.unwrapped body ++ copies)).Nodup
  names : ∀ id ∈ Tree.namesAll (Tree.unwrapped body ++ copies),
    id ∈ clause.names ∨ store.nodes.size ≤ id
  source : ∀ key value, ∀ id ∈ Tree.keyStatementsAll key value (Tree.unwrapped body ++ copies),
    id ∈ clause.keyStatements key value ∨ store.nodes.size ≤ id
  needs : Tree.AddsBreaks (body ++ behind) (Tree.unwrapped body ++ copies)
  runs : (∀ clause ∈ behind, clause.IsClause) → ∀ world limit,
    runAll world limit (Tree.unwrapped body ++ copies) =
      seq (runAll world limit body) (runFrom world limit behind 0)

theorem followClauses_gathers {behind : List Tree}
    (holds : store.Holds (.node id (.clause isDefault labelSlot slots) (label :: body)))
    (nodup : (Tree.node id (.clause isDefault labelSlot slots) (label :: body)).names.Nodup)
    (held : ∀ clause ∈ behind, store.Holds clause)
    (nodupBehind : ∀ clause ∈ behind, clause.names.Nodup) :
    ∃ middle copies, followClauses store ((Tree.unwrapped body).map Tree.root)
        (behind.map Tree.root) = (middle, (Tree.unwrapped body ++ copies).map Tree.root) ∧
      Gathers store middle (.node id (.clause isDefault labelSlot slots) (label :: body)) body
        behind copies := by
  have own : ∀ tree ∈ Tree.unwrapped body, store.Holds tree :=
    fun tree member => holds_unwrapped holds member
  have nodupBody : (Tree.namesAll body).Nodup :=
    (List.nodup_append.mp (List.nodup_cons.mp nodup).2).2.1
  obtain ⟨middle, copies, followed, grown, heldCopies, nodupCopies, fresh, needsCopies, runs⟩ :=
    followClauses_copies own held nodupBehind
  refine ⟨middle, copies, followed, grown, fresh, fun tree member => ?_, ?_, fun name inside => ?_,
    fun key value name inside => ?_, .of_subset ?_, fun clauses world limit => ?_⟩
  · exact (List.mem_append.mp member).elim (fun old => grown.holds (own tree old)) (heldCopies tree)
  · rw [Tree.namesAll_append, List.nodup_append']
    refine ⟨(sublist_unwrapped body).nodup nodupBody, nodupCopies, fun name here there => ?_⟩
    obtain ⟨tree, member, inside⟩ := Tree.mem_namesAll.mp here
    exact absurd ((own tree member).lt_size inside) (Nat.not_lt_of_le (fresh name there))
  · rw [Tree.namesAll_append] at inside
    refine (List.mem_append.mp inside).imp (fun old => ?_) (fresh name)
    exact List.mem_cons_of_mem _ (List.mem_append_right _ ((sublist_unwrapped body).subset old))
  · rw [Tree.keyStatementsAll_append, keyStatementsAll_unwrapped] at inside
    refine (List.mem_append.mp inside).imp (fun old => ?_) fun copied => ?_
    · exact List.mem_append_right _ (List.mem_append_right _ old)
    · exact fresh name ((Tree.keyStatementsAll_sublist key value copies).subset copied)
  · rw [Tree.unmetAll_append, Tree.unmetAll_append, unmetAll_unwrapped]
    exact List.append_subset.mpr ⟨List.subset_append_left _ _,
      List.subset_append_of_subset_right _ needsCopies⟩
  · rw [runs clauses, runAll_unwrapped]

/-- The last but one of two lists is in the first or in the second. -/
theorem split_or_mem {copies before : List Tree} {leave : Tree}
    (ends : front ++ copies = before ++ [conditional, leave]) :
    (∃ back, front = before ++ conditional :: back) ∨ conditional ∈ copies := by
  rcases List.append_eq_append_iff.mp ends with ⟨between, -, rfl⟩ | ⟨between, rfl, listed⟩
  · exact .inr (List.mem_append_right _ List.mem_cons_self)
  · cases between with
    | nil =>
      rw [List.nil_append] at listed
      rw [← listed]
      exact .inr List.mem_cons_self
    | cons first back =>
      obtain rfl := (List.cons.inj listed).1
      exact .inl ⟨back, rfl⟩

section Ended
variable {middle : Store} {behind copies before : List Tree} {clause leave : Tree}

/-- The `if` that breaks stands for the `if` and the `break`. -/
theorem runAll_ended (breaks : BreaksAfter conditional ended)
    (leaves : ∀ world limit labels, run world limit leave labels = done (.breaks none))
    (world : World) (limit : Nat) : runAll world limit (before ++ [ended]) =
      runAll world limit (before ++ [conditional, leave]) := by
  rw [runAll_append, runAll_append, runAll_singleton, breaks.run]
  congr 1
  show _ = seq (run world limit conditional []) (seq (run world limit leave []) (done .normal))
  rw [leaves, seq_of_leaves leaves_break]

theorem leaves_ended (breaks : BreaksAfter conditional ended) (world : World) (limit : Nat) :
    Leaves (runAll world limit (before ++ [ended])) := by
  rw [runAll_append, runAll_singleton, breaks.run]
  exact leaves_seq (leaves_seq leaves_break)

/-- The gathered statements make a case with the `if` that breaks at their end. -/
theorem Gathers.makesCase {reworked : Tree} (gathers : Gathers store middle clause body behind copies)
    (ends : Tree.unwrapped body ++ copies = before ++ [conditional, leave])
    (reworks : Store.Reworks middle later conditional ended) (breaks : BreaksAfter conditional ended)
    (whole : Store.Reworks store later clause reworked)
    (keys : ∀ key value, reworked.keyStatements key value = clause.keyStatements key value)
    (adds : Tree.AddsBreaks [clause] [reworked]) :
    MakesCase store later clause reworked (before ++ [ended]) := by
  obtain ⟨grown, -, holds, nodup, names, source, -, -⟩ := gathers
  rw [ends] at holds nodup names source
  have shorter : (before ++ [ended]).Sublist (before ++ ended :: [leave]) :=
    List.Sublist.append_left (List.Sublist.cons_cons ended (List.nil_sublist _)) before
  refine ⟨whole, keys, fun tree member => ?_, ?_, fun name inside => ?_,
    fun key value name inside => ?_, adds⟩
  · exact reworks.holds_middle holds nodup tree (shorter.subset member)
  · exact (Tree.namesAll_sublist shorter).nodup (reworks.nodup_middle holds nodup)
  · rcases reworks.names_middle ((Tree.namesAll_sublist shorter).subset inside) with old | new
    · exact names name old
    · exact .inr (Nat.le_trans grown.size new)
  · refine source key value name ?_
    rw [keyStatementsAll_middle, ← breaks.keys]
    rw [keyStatementsAll_middle] at inside
    simp only [List.mem_append] at inside ⊢
    rcases inside with before | here | none
    · exact .inl before
    · exact .inr (.inl here)
    · cases none

theorem Gathers.addsBreaks (gathers : Gathers store middle clause body behind copies)
    (ends : Tree.unwrapped body ++ copies = before ++ [conditional, leave])
    (breaks : BreaksAfter conditional ended) : Tree.AddsBreaks (body ++ behind) (before ++ [ended]) := by
  have replaced : Tree.AddsBreaks (before ++ [conditional, leave]) (before ++ [ended]) := by
    refine ((Tree.AddsBreaks.refl before).append breaks.needs).after_subset ?_
    exact List.Sublist.append_left (List.sublist_append_left [conditional] [leave]) before
  exact (ends ▸ gathers.needs).trans replaced

end Ended

/-- A clause with some clauses behind it makes a case that does what the `switch` does from
the clause on. -/
theorem clauseBody_makesCase {behind : List Tree}
    (holds : store.Holds (.node id (.clause isDefault labelSlot slots) (label :: body)))
    (nodup : (Tree.node id (.clause isDefault labelSlot slots) (label :: body)).names.Nodup)
    (held : ∀ clause ∈ behind, store.Holds clause)
    (nodupBehind : ∀ clause ∈ behind, clause.names.Nodup) :
    ∃ later entry reworked,
      clauseBody store (some id) (behind.map Tree.root) = (later, entry.map Tree.root) ∧
      MakesCase store later (.node id (.clause isDefault labelSlot slots) (label :: body))
        (.node id (.clause isDefault labelSlot slots) (label :: reworked)) entry ∧
      Tree.AddsBreaks (body ++ behind) entry ∧
      ((∀ clause ∈ behind, clause.IsClause) → ∀ world limit,
        runAll world limit entry = seq (runAll world limit body) (runFrom world limit behind 0) ∧
        seq (runAll world limit reworked) (runFrom world limit behind 0) =
          seq (runAll world limit body) (runFrom world limit behind 0)) := by
  have listed : store.clauseStatements (some id) = (Tree.unwrapped body).map Tree.root :=
    holds.clauseStatements
  obtain ⟨middle, copies, followed, gathers⟩ := followClauses_gathers holds nodup held nodupBehind
  unfold clauseBody
  rw [listed, followed]
  simp only
  have grown := Store.Reworks.grown gathers.grown holds nodup
  rcases terminateLast_reworks gathers.holds
      (fun tree member => Tree.nodup_of_mem_namesAll gathers.nodup member) with
    same | ⟨before, conditional, leave, later, ended, ends, result, reworks, breaks, leaves⟩
  · rw [same]
    exact ⟨middle, _, body, rfl, ⟨grown, fun _ _ => rfl, gathers.holds, gathers.nodup,
      gathers.names, gathers.source, .refl _⟩, gathers.needs, fun clauses world limit =>
        ⟨gathers.runs clauses world limit, rfl⟩⟩
  rw [result]
  have moved : (∀ clause ∈ behind, clause.IsClause) → ∀ world limit,
      runAll world limit (before ++ [ended]) =
        seq (runAll world limit body) (runFrom world limit behind 0) := by
    intro clauses world limit
    rw [runAll_ended breaks leaves, ← ends, gathers.runs clauses]
  rcases split_or_mem ends with ⟨back, split⟩ | copied
  · -- the `if` is one of the statements of the clause
    obtain ⟨reworked, whole, same, keys, adds⟩ :=
      clause_reworks grown.holds nodup split reworks breaks.keys breaks.needs
    refine ⟨later, _, reworked, rfl, gathers.makesCase ends reworks breaks (grown.trans whole)
      (fun key value => ?_) (((Tree.AddsBreaks.refl [label]).append adds).clear rfl rfl),
      gathers.addsBreaks ends breaks, fun clauses world limit => ⟨moved clauses world limit, ?_⟩⟩
    · rw [Tree.keyStatements, Tree.keyStatements, Tree.keyStatementsAll, Tree.keyStatementsAll, keys]
      rfl
    · have through : runAll world limit reworked = runAll world limit (before ++ [ended]) := by
        have both : before ++ ended :: back = (before ++ [ended]) ++ back := by simp
        rw [same, both, runAll_append, seq_of_leaves (leaves_ended breaks world limit)]
      rw [through, seq_of_leaves (leaves_ended breaks world limit), moved clauses]
  · -- the `if` is a copy
    have beside : Store.Touches store later [] :=
      (gathers.grown.touches []).trans reworks.touches fun name inside =>
        .inr (gathers.fresh name (Tree.mem_namesAll.mpr ⟨conditional, copied, inside⟩))
    exact ⟨later, _, body, rfl, gathers.makesCase ends reworks breaks
      (.beside beside holds nodup (fun _ _ => List.not_mem_nil)
        (beside.mono (List.nil_subset _))) (fun _ _ => rfl) (.refl _), gathers.addsBreaks ends breaks,
      fun clauses world limit => ⟨moved clauses world limit, rfl⟩⟩

end Clause

end Expansion

end Unflatten
