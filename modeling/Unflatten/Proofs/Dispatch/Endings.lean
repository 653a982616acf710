import Unflatten.Dispatch.CaseTable
import Unflatten.Proofs.Execution.Leaving

/-! # How statements end

The questions that expansion asks about the end of a list are answered for the trees that
the slots of the list stand for.  A list that does not fall through leaves. -/

set_option autoImplicit false

namespace Unflatten

open Execution

namespace Tree

/-- The shape of the root. -/
def shape? : Tree → Option Shape
  | .nothing => none
  | .node _ shape _ => some shape

/-- The trees below the root. -/
def parts : Tree → List Tree
  | .nothing => []
  | .node _ _ below => below

/-- The statements of a file, a block or a clause. -/
def statements : Tree → List Tree
  | .node _ (.file _ _) statements => statements
  | .node _ (.block _) statements => statements
  | .node _ (.clause _ _ _) (_ :: statements) => statements
  | _ => []

/-- The statements of a block, or the statement itself. -/
def blockStatements : Tree → List Tree
  | .nothing => []
  | .node _ (.block _) statements => statements
  | tree => [tree]

/-- The statements of the block that is the only one of some statements, or these. -/
def unwrapped : List Tree → List Tree
  | [.node _ (.block _) statements] => statements
  | statements => statements

/-- Whether a tree is a clause of a `switch`. -/
def IsClause (tree : Tree) : Prop := ∃ isDefault label statements,
  tree.shape? = some (.clause isDefault label statements)

theorem names_part {tree part : Tree} (member : part ∈ tree.parts) : part.names ⊆ tree.names := by
  cases tree with
  | nothing => cases member
  | node => exact fun id inside => List.mem_cons_of_mem _ (mem_namesAll.mpr ⟨part, member, inside⟩)

theorem nodup_namesAll_parts {tree : Tree} (nodup : tree.names.Nodup) :
    (namesAll tree.parts).Nodup := by
  cases tree with
  | nothing => exact .nil
  | node => exact (List.nodup_cons.mp nodup).2

theorem statements_sublist (tree : Tree) : tree.statements.Sublist tree.parts := by
  cases tree with
  | nothing => exact .refl _
  | node id shape below =>
    cases shape
    case file => exact .refl _
    case block => exact .refl _
    case clause =>
      cases below with
      | nil => exact .refl _
      | cons label statements => exact List.sublist_cons_self _ _
    all_goals exact List.nil_sublist _

theorem namesAll_sublist {trees others : List Tree} (within : trees.Sublist others) :
    (namesAll trees).Sublist (namesAll others) := by
  rw [namesAll_eq, namesAll_eq]
  exact within.flatMap Tree.names

end Tree

namespace Store

section Holds
variable {store : Store} {tree : Tree}

theorem Holds.shape? (holds : store.Holds tree) : store.shape? tree.root = tree.shape? := by
  cases holds with
  | nothing => rfl
  | node found => exact found

theorem Holds.part (holds : store.Holds tree) {part : Tree} (member : part ∈ tree.parts) :
    store.Holds part := by
  cases holds with
  | nothing => cases member
  | node _ _ _ _ inner => exact inner part member

theorem Holds.slots (holds : store.Holds tree) {shape : Shape} (found : tree.shape? = some shape) :
    shape.slots = tree.parts.map Tree.root := by
  cases holds with
  | nothing => cases found
  | node _ _ roots _ _ =>
    cases found
    exact roots

theorem Holds.statementsOf (holds : store.Holds tree) :
    store.statementsOf tree.root = tree.statements.map Tree.root := by
  unfold Store.statementsOf statements?
  rw [holds.shape?]
  cases tree with
  | nothing => rfl
  | node id shape below =>
    have slots := holds.slots rfl
    cases shape
    case file => exact slots
    case block => exact slots
    case clause =>
      cases below with
      | nil => cases slots
      | cons label statements => exact (List.cons.inj slots).2
    all_goals rfl

theorem Holds.statements (holds : store.Holds tree) {part : Tree} (member : part ∈ tree.statements) :
    store.Holds part := holds.part (tree.statements_sublist.subset member)

theorem Holds.blockStatements (holds : store.Holds tree) :
    store.blockStatements tree.root = tree.blockStatements.map Tree.root := by
  unfold Store.blockStatements
  rw [holds.shape?]
  cases tree with
  | nothing => rfl
  | node id shape below =>
    have slots := holds.slots rfl
    cases shape
    case block => exact slots
    all_goals rfl

theorem Holds.of_blockStatements (holds : store.Holds tree) {part : Tree}
    (member : part ∈ tree.blockStatements) : store.Holds part := by
  cases tree with
  | nothing => cases member
  | node id shape below =>
    cases shape
    case block => exact holds.part member
    all_goals
      rw [List.mem_singleton.mp member]
      exact holds

theorem Holds.clauseStatements (holds : store.Holds tree) :
    store.clauseStatements tree.root = (Tree.unwrapped tree.statements).map Tree.root := by
  unfold Store.clauseStatements
  rw [holds.statementsOf]
  match listed : tree.statements with
  | [] => rfl
  | [only] =>
    have held : store.Holds only := holds.statements (by rw [listed]; exact List.mem_cons_self)
    rw [List.map_cons, List.map_nil]
    simp only [held.shape?]
    cases only with
    | nothing => rfl
    | node id shape below =>
      have slots := held.slots rfl
      cases shape
      case block => exact slots
      all_goals rfl
  | first :: second :: rest =>
    cases first with
    | nothing => rfl
    | node id shape below => cases shape <;> rfl

end Holds

end Store

/-! ## Falling through -/

section Falls
variable {store : Store} {world : World} {limit : Nat} {tree : Tree}

theorem runAll_blockStatements (tree : Tree) :
    runAll world limit tree.blockStatements = run world limit tree [] := by
  cases tree with
  | nothing => rfl
  | node id shape below =>
    cases shape
    case block => rfl
    all_goals exact runAll_singleton world limit _

theorem runAll_unwrapped (trees : List Tree) :
    runAll world limit (Tree.unwrapped trees) = runAll world limit trees := by
  match trees with
  | [] => rfl
  | [only] =>
    rw [runAll_singleton]
    cases only with
    | nothing => rfl
    | node id shape below =>
      cases shape
      case block => rfl
      all_goals exact runAll_singleton world limit _
  | first :: second :: rest =>
    cases first with
    | nothing => rfl
    | node id shape below => cases shape <;> rfl

theorem leaves_terminator (holds : store.Holds tree) (ends : store.isTerminator tree.root = true)
    (labels : List String) : Leaves (run world limit tree labels) := by
  rw [Store.isTerminator, Store.satisfies, holds.shape?] at ends
  cases tree with
  | nothing => cases ends
  | node id shape below =>
    have slots := holds.slots rfl
    cases shape
    case exit kind expression =>
      refine leaves_seq (leaves_done ?_)
      cases kind <;> exact fun impossible => nomatch impossible
    case jump kind label =>
      match below, slots with
      | [_], _ =>
        refine leaves_done ?_
        cases kind <;> exact fun impossible => nomatch impossible
    all_goals cases ends

/-- Nothing behind a list that does not fall through is run. -/
theorem leaves_of_not_fallsThrough {depth : Nat} {trees : List Tree}
    (holds : ∀ tree ∈ trees, store.Holds tree)
    (stays : store.fallsThrough depth (trees.map Tree.root) = false) :
    Leaves (runAll world limit trees) := by
  induction depth generalizing trees with
  | zero => cases stays
  | succ depth ih =>
    rcases List.eq_nil_or_concat trees with rfl | ⟨before, last, rfl⟩
    · cases stays
    · rw [List.concat_eq_append] at holds stays ⊢
      have held := holds last (by simp)
      rw [Store.fallsThrough] at stays
      simp only [List.map_append, List.map_cons, List.map_nil, List.getLast?_append,
        List.getLast?_singleton, Option.some_or] at stays
      rw [runAll_append, runAll_singleton]
      refine leaves_seq ?_
      cases ends : store.isTerminator last.root with
      | true => exact leaves_terminator held ends []
      | false =>
        simp only [ends, Bool.false_eq_true, if_false, held.shape?] at stays
        cases last with
        | nothing => cases stays
        | node id shape below =>
          have slots := held.slots rfl
          cases shape
          case conditionalStatement condition thenBody elseBody =>
            match below, slots with
            | [test, first, second], slots =>
              obtain ⟨rfl, rfl, rfl⟩ : condition = test.root ∧ thenBody = first.root ∧
                  elseBody = second.root := by simpa [Shape.slots, Tree.parts] using slots
              have first_ : store.Holds first := held.part (by simp [Tree.parts])
              have second_ : store.Holds second := held.part (by simp [Tree.parts])
              simp only [Tree.shape?, Bool.or_eq_false_iff, first_.blockStatements,
                second_.blockStatements] at stays
              refine leaves_test test fun holds => ?_
              cases holds with
              | true =>
                have leaves := ih (fun part member => first_.of_blockStatements member) stays.1.2
                rwa [runAll_blockStatements] at leaves
              | false =>
                have leaves := ih (fun part member => second_.of_blockStatements member) stays.2
                rwa [runAll_blockStatements] at leaves
          all_goals cases stays

end Falls

end Unflatten
