import Unflatten.Proofs.Canonical.Expressions
import Unflatten.Proofs.Execution.Meaning
import Unflatten.Proofs.Parser.Grammar

/-! # Assignments in the branches of a conditional

An assignment of a conditional finds its place first, and a compound one reads what is there, before
the test is run; in the conditional of assignments the test comes first.  The program means the same
where the test cannot tell (`Machine.Unseen`): always for a plain assignment to a name, and not for
`x += (x = 5) ? 1 : 2`. -/

set_option autoImplicit false

namespace Unflatten

namespace Store

section Holds
variable {store : Store} {id above : NodeId} {shape outer : Shape} {below others : List Tree} {first : Tree}

theorem Holds.parent_second
    (holds : store.Holds (.node above outer (first :: .node id shape below :: others))) :
    store.parent (some id) = some above := by
  cases holds with
  | node _ _ _ links => exact links (.node id shape below) (by simp) rfl

end Holds

end Store

namespace Execution.Machine

section Meaning
variable {m : Type → Type} {ν : Type} [Monad m] (machine : Machine m ν) {id : NodeId}
  {operator : TokenKind}

theorem meaning_of_bare {tree copied : Tree} (same : copied.bare = tree.bare) :
    machine.meaning copied = machine.meaning tree := by
  unfold meaning
  rw [← Tree.fold_bare, same, Tree.fold_bare]

theorem meaning_assigned (assigns : operator.isAssignment = true) (target value : Tree) :
    machine.meaning (.assigned id operator target value) =
      ⟨machine.assign operator (machine.meaning target).place (machine.meaning value).value,
        machine.nowhere, none⟩ := by
  rw [meaning, Tree.assigned, Tree.fold_node]
  change Meaning.mk (if operator.isAssignment then _ else _) _ _ = _
  rw [if_pos assigns]
  rfl

theorem meaning_chosen (test yes no : Tree) :
    machine.meaning (.chosen id test yes no) =
      ⟨do if ← machine.test (machine.meaning test).value then (machine.meaning yes).value
          else (machine.meaning no).value, machine.nowhere, none⟩ := by
  rw [meaning, Tree.chosen, Tree.fold_node]
  rfl

/-- What stands in a slot means. -/
def meaningAt (machine : Machine m ν) (store : Store) (slot : Slot) : Meaning m ν :=
  machine.meaning (store.treeAt store.depthBound slot)

theorem meaningAt_root {store : Store} {tree : Tree} (holds : store.Holds tree)
    (nodup : tree.names.Nodup) : machine.meaningAt store tree.root = machine.meaning tree := by
  rw [meaningAt, holds.treeAt_root nodup]

theorem meaningAt_name {store : Store} {slot : Slot} {text : String}
    (named : store.identifier? slot = some text) :
    machine.meaningAt store slot = ⟨machine.read (.name text), pure (.name text), some text⟩ := by
  rw [Store.identifier?] at named
  split at named
  swap
  · cases named
  rename_i found
  cases named
  cases slot with
  | none => cases found
  | some id =>
    rw [meaningAt, Store.depthBound, Store.treeAt, found]
    rfl

end Meaning

end Execution.Machine

namespace Canonical

open Execution Store

section Assigning
variable {store : Store} {root id : NodeId} {tree : Tree} {m : Type → Type} {ν : Type} [Monad m]
  [LawfulMonad m]

/-- The program means the same after the rewrite to every machine on which the test cannot tell
whether the target was found, and for a compound assignment read, before it.  A plain assignment to
a name asks for nothing. -/
theorem conditionalAssign_meaning (stands : store.Stands root tree)
    (inside : id ∈ store.descendants (some root)) (machine : Machine m ν)
    (unseen : ∀ target operator condition whenTrue whenFalse,
      store.shape? (some id) = some (.conditional condition whenTrue whenFalse) →
      store.shape? (store.parent (some id)) = some (.binary target operator (some id)) →
        (operator = .equals ∧ (store.identifier? target).isSome) ∨
          machine.Unseen operator (machine.meaningAt store target).place
            (machine.test (machine.meaningAt store condition).value)) :
    machine.meaningAt (conditionalAssign store id).1 (some root) =
      machine.meaningAt store (some root) := by
  have among := stands.mem_descendants.mp inside
  rcases conditionalAssign_placed stands among with
    same | ⟨later, remade, assignment, operator, target, copied, test, yes, no, first, second, whole,
      result, remakes, assigns, -, copy, -, within, placed⟩
  · rw [same]
  · have holds := stands.holds.within within
    have nodup := within.nodup stands.nodup
    have moved : machine.Unseen operator (machine.meaning target).place
        (machine.test (machine.meaning test).value) := by
      have part : Tree.Within target (.assigned assignment operator target (.chosen id test yes no)) :=
        .deeper List.mem_cons_self .whole
      have value : Tree.Within (.chosen id test yes no)
          (.assigned assignment operator target (.chosen id test yes no)) :=
        .deeper (List.mem_cons_of_mem _ List.mem_cons_self) .whole
      have condition : Tree.Within test
          (.assigned assignment operator target (.chosen id test yes no)) :=
        (Tree.Within.deeper List.mem_cons_self .whole).trans value
      -- the slots that the assumption speaks of hold the parts of the assignment
      have known := unseen target.root operator test.root yes.root no.root
        (holds.within value).shape?_node (holds.parent_second ▸ holds.shape?_node)
      rw [← machine.meaningAt_root (holds.within part) (part.nodup nodup),
        ← machine.meaningAt_root (holds.within condition) (condition.nodup nodup)]
      rcases known with ⟨rfl, named⟩ | moved
      · obtain ⟨text, named⟩ := Option.isSome_iff_exists.mp named
        rw [machine.meaningAt_name named]
        exact machine.unseen_name text _
      · exact moved
    rw [result]
    refine placed.fold_treeAt _ _ stands remakes ?_
    change machine.meaning _ = machine.meaning _
    rw [machine.meaning_chosen, machine.meaning_assigned assigns, machine.meaning_assigned assigns,
      machine.meaning_assigned assigns, machine.meaning_chosen, machine.meaning_of_bare copy,
      moved.assign_eq]

end Assigning

/-! ## A machine that adds -/

/-- A machine with one variable, which holds a number.  A node without a meaning of its own has that
of its last part. -/
def adder : Machine (StateM Nat) Nat where
  read _ := get
  write _ value := set value
  key _ := 0
  holds value := value != 0
  isNullish _ := false
  operate _ left right := pure (left + right)
  nowhere := pure (.name "x")
  other shape parts :=
    let number : Nat := match shape with
      | .literal _ "5" _ => 5
      | .literal _ "2" _ => 2
      | _ => 1
    parts.getLast?.getD ⟨pure number, pure (.name "x"), none⟩

/-- A test that only reads the variable may come first. -/
theorem read_test_first :
    let program := parse "x += x ? 1 : 2;".toList
    (conditionalAssign program.store 4).2 = .changed ∧
      adder.meaningAt (conditionalAssign program.store 4).1 (some program.root) =
        adder.meaningAt program.store (some program.root) := by
  intro program
  obtain ⟨tree, stands⟩ := parse_stands "x += x ? 1 : 2;".toList
  refine ⟨by decide +kernel, conditionalAssign_meaning stands (by decide +kernel) adder ?_⟩
  intro target operator condition whenTrue whenFalse found assigned
  have parts : (program.store.shape? (some 4)).map Shape.slots = some [some 1, some 2, some 3] := by
    decide +kernel
  have sides : binary? program.store (program.store.parent (some 4)) =
      some (some 0, .plusEquals, some 4) := by decide +kernel
  rw [found] at parts
  cases parts
  rw [binary?, assigned] at sides
  cases sides
  rw [adder.meaningAt_name (by decide +kernel : program.store.identifier? (some 0) = some "x"),
    adder.meaningAt_name (by decide +kernel : program.store.identifier? (some 1) = some "x")]
  exact .inr rfl

/-- A test that changes the variable may not: the compound assignment then reads what it has left. -/
theorem changing_test_first :
    let program := parse "x += (x = 5) ? 1 : 2;".toList
    (conditionalAssign program.store 6).2 = .changed ∧
      ((adder.meaningAt program.store (some program.root)).value.run 0).run = (1, 1) ∧
      ((adder.meaningAt (conditionalAssign program.store 6).1 (some program.root)).value.run 0).run =
        (6, 6) := by
  decide +kernel

end Canonical

end Unflatten
