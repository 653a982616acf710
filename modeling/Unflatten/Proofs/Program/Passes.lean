import Unflatten.Deobfuscation
import Unflatten.Proofs.Canonical.Normalizing
import Unflatten.Proofs.Dispatch.Flattening
import Unflatten.Proofs.Dispatch.RestoredKeys
import Unflatten.Proofs.Program.Hoisting
import Unflatten.Proofs.Program.Renaming
import Unflatten.Proofs.Program.Spelling
import Unflatten.Proofs.Syntax.Landing

/-! # All passes in any order

Whatever passes a program runs through, in whatever order and however often, its nodes are a tree
and the links say so (`passes_keep_tree`), and its jumps still have targets (`passes_keep_targets`).
Both rest on one invariant: the program stands, and what the findings say of the keys is true. -/

set_option autoImplicit false

namespace Unflatten

/-! ## Trees as they are reached -/

namespace Store

/-- The children of a node in their slots. -/
def slotsOf (store : Store) (id : NodeId) : List Slot :=
  ((store.shape? (some id)).map Shape.slots).getD []

/-- What is reached from a node through slots. -/
inductive Reaches (store : Store) (root : NodeId) : NodeId → Prop
  | root : Reaches store root root
  | child {id child : NodeId} :
      Reaches store root id → some child ∈ store.slotsOf id → Reaches store root child

/-- What is reached from the root is a tree, and the parent links say so. -/
structure IsLinkedTree (store : Store) (root : NodeId) : Prop where
  /-- The root stands nowhere. -/
  top : store.parent (some root) = none ∧ ∀ id, store.Reaches root id → some root ∉ store.slotsOf id
  /-- Every other node stands in one slot of one node, its parent. -/
  child : ∀ id, store.Reaches root id → id ≠ root → ∃ parent, store.Reaches root parent ∧
    store.parent (some id) = some parent ∧ (store.slotsOf parent).count (some id) = 1 ∧
    ∀ other, store.Reaches root other → some id ∈ store.slotsOf other → other = parent
  /-- The walk up finds the root from what is reached, and from nothing else. -/
  attached : ∀ id, store.isAttached root (some id) = true ↔ store.Reaches root id

section Reaching
variable {store : Store} {root id : NodeId} {tree : Tree}

theorem mem_slotsOf {child : NodeId} : some child ∈ store.slotsOf id ↔
    ∃ shape, store.shape? (some id) = some shape ∧ some child ∈ shape.slots := by
  unfold slotsOf
  cases store.shape? (some id) with
  | none => simp
  | some shape => simp

theorem Holds.reaches (holds : store.Holds tree)
    (top : ∀ above, tree.root = some above → store.Reaches root above) :
    ∀ id ∈ tree.names, store.Reaches root id := by
  induction holds with
  | nothing => exact List.forall_mem_nil _
  | @node above shape below found regular roots links inner ih =>
    intro id inside
    rcases List.mem_cons.mp inside with rfl | deeper
    · exact top id rfl
    · obtain ⟨tree, member, among⟩ := Tree.mem_namesAll.mp deeper
      refine ih tree member (fun child rooted => .child (top above rfl) (mem_slotsOf.mpr
        ⟨shape, found, ?_⟩)) id among
      rw [roots, ← rooted]
      exact List.mem_map_of_mem member

theorem Stands.reaches_iff (stands : store.Stands root tree) :
    store.Reaches root id ↔ id ∈ tree.names := by
  constructor
  · intro reaches
    induction reaches with
    | root => exact Tree.mem_names_root stands.rooted
    | child _ listed ih =>
      obtain ⟨shape, found, member⟩ := mem_slotsOf.mp listed
      exact (stands.holds.slot_mem ih found member).1
  · refine stands.holds.reaches (fun above rooted => ?_) id
    rw [stands.rooted] at rooted
    cases rooted
    exact .root

/-- What a node of a program has in its slots, it has there once. -/
theorem Stands.count_slotsOf (stands : store.Stands root tree) {parent : NodeId}
    (inside : parent ∈ tree.names) (listed : some id ∈ store.slotsOf parent) :
    (store.slotsOf parent).count (some id) = 1 := by
  obtain ⟨shape, found, member⟩ := mem_slotsOf.mp listed
  obtain ⟨below, -, -, nodup, slots⟩ := stands.opened inside found
  have once := List.nodup_iff_count_le_one.mp (List.nodup_cons.mp nodup).2 id
  rw [slotsOf, found, Option.map_some, Option.getD_some]
  refine Nat.le_antisymm ?_ (List.count_pos_iff.mpr member)
  rw [slots]
  exact Nat.le_trans (Tree.count_roots_le below id) once

/-- A program that stands is a tree, and its links say so. -/
theorem Stands.isLinkedTree (stands : store.Stands root tree) : store.IsLinkedTree root := by
  have linked : ∀ {id parent}, store.Reaches root parent → some id ∈ store.slotsOf parent →
      store.parent (some id) = some parent := by
    intro id parent reaches listed
    obtain ⟨shape, found, member⟩ := mem_slotsOf.mp listed
    exact (stands.holds.slot_mem (stands.reaches_iff.mp reaches) found member).2
  refine ⟨⟨stands.top, fun id reaches listed => ?_⟩, fun id reaches other => ?_, fun id => ?_⟩
  · have above := linked reaches listed
    rw [stands.top] at above
    cases above
  · cases reaches with
    | root => exact absurd rfl other
    | @child parent _ above listed =>
      refine ⟨parent, above, linked above listed,
        stands.count_slotsOf (stands.reaches_iff.mp above) listed, fun also there listedThere => ?_⟩
      have same := (linked there listedThere).symm.trans (linked above listed)
      exact Option.some_inj.mp same
  · rw [stands.isArena.isAttached_iff, stands.reaches_iff, ← stands.rooted,
      (stands.holds.descendants_perm stands.nodup).mem_iff]

end Reaching

end Store

/-! ## Passes -/

/-- Something that a program is run through. -/
inductive Pass where
  | rename
  | rule (rule : Rule)
  | normalize
  | classify
  | flattenChains
  | trackKeys
  | restoreDispatchers
  | hoistAssignments
  deriving DecidableEq

/-- Runs a program through a pass. -/
def Pass.run (work : Workpiece) : Pass → Workpiece
  | .rename => work.rename.1
  | .rule which => (work.applyRule which).1
  | .normalize => work.normalize.1
  | .classify => work.classify
  | .flattenChains => work.flattenChains.1
  | .trackKeys => work.trackKeys
  | .restoreDispatchers => work.restoreDispatchers.1
  | .hoistAssignments => work.hoistAssignments.1

namespace Workpiece

/-- The program stands, and what is known of its keys is true. -/
structure Stands (work : Workpiece) (tree : Tree) : Prop where
  program : work.store.Stands work.root tree
  findings : work.findings.Hold work.store tree

/-- A pass leaves the program standing, and if asked, the jumps need no more than before. -/
structure Survives (work later : Workpiece) (tree remade : Tree) (quietly : Prop) : Prop where
  root : later.root = work.root
  stands : later.Stands remade
  needs : quietly → tree.NeedsNoMore remade

section Runs
variable {work later : Workpiece} {tree remade : Tree}

/-- A pass that only edits the program. -/
theorem Stands.edited (stands : work.Stands tree) (later : Workpiece) (root : later.root = work.root)
    (keys : later.findings.keys = work.findings.keys) (remade : work.store.Remade later.store tree)
    (quietly : Prop) : ∃ remade, Survives work later tree remade quietly := by
  obtain ⟨remade, remakes⟩ := remade
  have proceeds := stands.program.proceeds remakes
  have program := proceeds.stands
  rw [← root] at program
  exact ⟨remade, root, ⟨program, (stands.findings.proceeds proceeds).of_keys keys⟩,
    fun _ => proceeds.needs⟩

/-- A pass that edits the program and writes to the journal. -/
theorem Stands.rewritten (stands : work.Stands tree)
    {rewrite : NodeId → Store × Journal → (Store × Journal) × Bool}
    (remade : ∀ state : Store × Journal, state.1.Stands work.root tree →
      state.1.Remade (rewrite work.root state).1.1 tree) (quietly : Prop) :
    ∃ remade, Survives work (work.rewriting rewrite).1 tree remade quietly := by
  obtain ⟨store, root, ⟨parts, keys, journal⟩⟩ := work
  have edited := remade (store, journal) stands.program
  unfold rewriting
  simp only at edited ⊢
  generalize rewrite root (store, journal) = outcome at edited ⊢
  exact stands.edited ⟨outcome.1.1, root, parts, keys, outcome.1.2⟩ rfl rfl edited quietly

end Runs

end Workpiece

namespace Chain

theorem flatten_keys (work : Work) (link : NodeId) :
    (flatten work link).1.findings.keys = work.findings.keys := by
  unfold flatten
  split
  · rfl
  · split
    · rfl
    · simp only
      split <;> rfl

theorem sweep_keys (root : NodeId) (work : Work) :
    (sweep root work).1.findings.keys = work.findings.keys := by
  have each : ∀ (links : List NodeId) (state : Work × Bool),
      (links.foldl (fun (state : Work × Bool) link =>
        if state.1.skipped.contains link || !state.1.store.isAttached root (some link) then state
        else ((flatten state.1 link).1, state.2 || (flatten state.1 link).2)) state).1.findings.keys =
        state.1.findings.keys := by
    intro links
    induction links with
    | nil => exact fun _ => rfl
    | cons link rest ih =>
      intro state
      rw [List.foldl_cons, ih]
      split
      · rfl
      · exact flatten_keys state.1 link
  exact each _ _

theorem sweepAll_keys (root : NodeId) (limit : Nat) (work : Work) :
    (sweepAll root limit work).findings.keys = work.findings.keys := by
  induction limit generalizing work with
  | zero => rfl
  | succ limit ih =>
    rw [sweepAll]
    simp only
    split
    · exact (ih _).trans (sweep_keys root work)
    · exact sweep_keys root work

end Chain

/-- Chains are flattened without a change to the keys. -/
theorem flattenChains_keys (store : Store) (root : NodeId) (findings : Findings) :
    (flattenChains store root findings).2.1.keys = findings.keys := by
  unfold flattenChains
  split
  · rfl
  · exact Chain.sweepAll_keys root _ _

/-- Every pass leaves the program standing. -/
theorem Pass.run_survives (pass : Pass) {work : Workpiece} {tree : Tree} (stands : work.Stands tree) :
    ∃ remade, Workpiece.Survives work (pass.run work) tree remade (pass ≠ .rename) := by
  have program := stands.program
  have findings := stands.findings
  cases pass with
  | rename =>
    refine ⟨tree.spell (work.store.renamedText work.root), rfl, ⟨?_, ?_⟩,
      fun other => absurd rfl other⟩
    · change (work.store.rename work.root).1.Stands work.root _
      rw [rename_eq program]
      exact program.respell _
    · change Findings.Hold _ (work.store.rename work.root).1 _
      rw [rename_eq program]
      exact ⟨findings.names, fun key member => (findings.known key member).respell _⟩
  | rule rule => exact stands.rewritten (fun state program => rule.run_remade state tree program) _
  | normalize => exact stands.rewritten (fun state program => (normalize_turned state tree program).remade) _
  | classify =>
    exact ⟨tree, rfl, ⟨program, Findings.classify_hold program findings⟩, fun _ => .refl tree⟩
  | flattenChains =>
    exact stands.edited work.flattenChains.1 rfl (flattenChains_keys work.store work.root work.findings)
      (flattenChains_remade work.findings program) _
  | trackKeys =>
    exact ⟨tree, rfl, ⟨program, Findings.trackKeys_hold program findings⟩, fun _ => .refl tree⟩
  | restoreDispatchers =>
    obtain ⟨remade, proceeds, held⟩ := restoreDispatchers_proceeds program findings
    exact ⟨remade, rfl, ⟨proceeds.stands, held⟩, fun _ => proceeds.needs⟩
  | hoistAssignments => exact stands.edited work.hoistAssignments.1 rfl rfl (hoistAssignments_remade program) _

/-- So does a run of passes. -/
theorem runs_survive (passes : List Pass) {work : Workpiece} {tree : Tree} (stands : work.Stands tree) :
    ∃ remade, Workpiece.Survives work (passes.foldl Pass.run work) tree remade (.rename ∉ passes) := by
  induction passes generalizing work tree with
  | nil => exact ⟨tree, rfl, stands, fun _ => .refl tree⟩
  | cons pass rest ih =>
    obtain ⟨middle, first⟩ := pass.run_survives stands
    obtain ⟨remade, others⟩ := ih first.stands
    refine ⟨remade, others.root.trans first.root, others.stands, fun quietly => ?_⟩
    rw [List.mem_cons, not_or] at quietly
    exact (first.needs fun same => quietly.1 same.symm).trans (others.needs quietly.2)

theorem Workpiece.stands_ofProgram (text : List Char) :
    ∃ tree, (Workpiece.ofProgram (parse text)).Stands tree := by
  obtain ⟨tree, stands⟩ := parse_stands text
  exact ⟨tree, stands, .empty⟩

/-! ## What holds of every run -/

/-- After any passes, what is reached from the root is a tree whose links are right, and a node is
attached to the root if and only if it is reached. -/
theorem passes_keep_tree (text : List Char) (passes : List Pass) :
    let work := passes.foldl Pass.run (Workpiece.ofProgram (parse text))
    work.store.IsLinkedTree work.root := by
  obtain ⟨tree, stands⟩ := Workpiece.stands_ofProgram text
  obtain ⟨remade, survives⟩ := runs_survive passes stands
  exact survives.stands.program.isLinkedTree

/-- After any passes but renaming, every jump has a target if every jump had one. -/
theorem passes_keep_targets (text : List Char) (passes : List Pass) (kept : .rename ∉ passes)
    (land : (parse text).store.JumpsLand (parse text).root) :
    let work := passes.foldl Pass.run (Workpiece.ofProgram (parse text))
    work.store.JumpsLand work.root := by
  obtain ⟨tree, stands⟩ := Workpiece.stands_ofProgram text
  obtain ⟨remade, survives⟩ := runs_survive passes stands
  have met := stands.program.jumpsLand_iff.mp land
  exact survives.stands.program.jumpsLand_iff.mpr ((survives.needs kept).unmet_eq_nil met)

/-- The jumps in a labeled loop with a `switch`, before and after the passes. -/
theorem labeled_loop_keeps_targets :
    let program := parse
      "outer: while (a) { switch (b) { case 0: continue outer; default: break; } }".toList
    let work := [.normalize, .classify, .flattenChains, .trackKeys, .restoreDispatchers,
      .hoistAssignments].foldl Pass.run (Workpiece.ofProgram program)
    program.store.JumpsLand program.root ∧ work.store.JumpsLand work.root :=
  have land := Tree.unmet_eq_nil_iff.mp (by decide +kernel)
  ⟨land, passes_keep_targets _ _ (by decide) land⟩

end Unflatten
