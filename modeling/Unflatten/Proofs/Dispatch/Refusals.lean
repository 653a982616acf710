import Unflatten.Dispatch.Chain
import Unflatten.Dispatch.Restore
import Unflatten.Proofs.Dispatch.Sparing
import Unflatten.Proofs.Syntax.Climbing

/-! # Dispatchers and chains that are refused

A chain is planned before the first node is made, so a chain without a plan costs nothing.  A
dispatcher is expanded on a copy: the copy may be left half expanded, but nothing that was there
before has changed. -/

set_option autoImplicit false

namespace Unflatten

open Store

namespace Chain

variable {work : Work} {link : NodeId}

/-- What a refused chain leaves behind: remarks, and the links not to be tried again. -/
theorem flatten_refused (refused : (flatten work link).2 = false) :
    ∃ journal links, (flatten work link).1 =
      { work with
        findings := { work.findings with journal := journal }
        skipped := links ++ work.skipped } := by
  unfold flatten at refused ⊢
  split
  · exact ⟨work.findings.journal, [], rfl⟩
  · rename_i tested found
    rw [found] at refused
    simp only at refused ⊢
    split
    · exact ⟨work.findings.journal, [link], rfl⟩
    · rename_i small
      rw [if_neg small] at refused
      split
      · rename_i remarks refusal
        exact ⟨_, (plan work.store tested.name tested.domainSize link).1.links, rfl⟩
      · rename_i accepted
        rw [accepted] at refused
        cases refused

end Chain

namespace Expansion

/-- The part of a store that a copied tree and all later nodes make up. -/
theorem guarded_copy {store : Store} {copied : Tree} (holds : store.Holds copied) :
    Guarded [] (fun id => id ∈ copied.names ∨ store.nodes.size ≤ id) store := by
  refine ⟨fun _ beyond => .inr beyond, fun id shape child own found member => ?_⟩
  rcases own with inside | beyond
  · obtain ⟨there, _⟩ := holds.slot_mem inside found member
    exact ⟨.inl there, holds.lt_size there, fun ⟨_, impossible, _⟩ => nomatch impossible⟩
  · exact absurd (lt_size_of_shape? found) (Nat.not_lt_of_le beyond)

/-- Whatever comes of the expansion of a copied dispatcher, the nodes from before are the same. -/
theorem expand_copy_sustains {store : Store} {tree : Tree} (holds : store.Holds tree)
    (nodup : tree.names.Nodup) (key : DispatchKey) (values : List Int) :
    Sustains store
      (expand (store.copy tree.root).1 key (store.copy tree.root).2 values).1.store := by
  obtain ⟨copied, _, isCopy, rooted⟩ := copy_copies holds rfl nodup
  have spared := copy_sustains store tree.root
  have guards : Guards [] (fun id => id ∈ copied.names ∨ (store.copy tree.root).1.nodes.size ≤ id)
      ⟨(store.copy tree.root).1, ∅, []⟩ := by
    refine ⟨guarded_copy isCopy.holds, fun found => ?_⟩
    simp at found
  have expands : ExpandSpares [] (fun id => id ∈ copied.names ∨
      (store.copy tree.root).1.nodes.size ≤ id)
      (expandWithin ⟨key.name, key.prelude⟩ (maxMergeDepth + 1)) := expandWithin_spares _
  have expanded : Spares _ (store.copy tree.root).1
      (expand (store.copy tree.root).1 key (store.copy tree.root).2 values).1.store :=
    expands rfl guards fun id same => .inl (Tree.mem_names_root (by rw [← rooted, same]))
  refine Spares.trans spared fun id old => expanded id ?_
  rintro (copy | beyond)
  · exact old (isCopy.fresh id copy)
  · exact old (Nat.le_trans spared.size beyond)

end Expansion

namespace Restore

variable {store later : Store} {root : NodeId} {findings : Findings} {count : Nat} {name : String}
  {key : DispatchKey} {mismatch : Mismatch}

/-- The findings but for the journal, once a key has been taken on. -/
def visited (findings : Findings) (name : String) (journal : Journal) : Findings :=
  { findings with
    keys := findings.keys.map fun key => if key.name == name then { key with isVisited := true } else key
    journal := journal }

theorem restoreKey_refused (found : findings.key? name = some key)
    (open_ : (key.isVisited || key.obstacle.isSome || key.histogram.isEmpty) = false)
    (attached : store.isAttached root (key.dispatcher? store) = true)
    (refused : (expand (store.copy (key.dispatcher? store)).1 key
      (store.copy (key.dispatcher? store)).2 key.liveValues).2 = some mismatch) :
    ∃ journal, restoreKey root (store, findings, count) name =
      ((expand (store.copy (key.dispatcher? store)).1 key
        (store.copy (key.dispatcher? store)).2 key.liveValues).1.store,
        visited findings name journal, count) := by
  have named : key.name = name :=
    eq_of_beq (List.find?_some (p := fun key : DispatchKey => key.name == name) found)
  have goes : (key.isVisited || key.obstacle.isSome || key.histogram.isEmpty
      || !store.isAttached root (key.dispatcher? store)) = false := by
    rw [open_, attached]
    rfl
  cases expanded : expand (store.copy (key.dispatcher? store)).1 key
      (store.copy (key.dispatcher? store)).2 key.liveValues with
  | mk work result =>
    rw [expanded] at refused
    cases refused
    simp only [restoreKey, found, goes, Bool.false_eq_true, if_false, restoreDispatcher, expanded]
    refine ⟨((noteDropped findings work.store key work).note work.store
      ⟨.keyCaseMismatch, key.dispatcher? store, [key.name, mismatch.message]⟩).journal, ?_⟩
    rw [Findings.updateKey, visited, named]
    rfl

/-- A tree that is not written to is walked as before. -/
theorem mem_descendants_of_sustains (isTree : store.IsTree root) (sustains : Sustains store later)
    (id : NodeId) :
    id ∈ later.descendants (some root) ↔ id ∈ store.descendants (some root) := by
  obtain ⟨tree, holds, rooted, nodup⟩ := isTree
  have same : ∀ id ∈ tree.names, later.node? (some id) = store.node? (some id) :=
    fun id inside => sustains id (Nat.not_le_of_lt (holds.lt_size inside))
  have still : later.Holds tree := by
    refine holds.transfer (fun id inside => ?_) fun id inside => ?_
    · rw [Store.shape?, Store.shape?, same id inside]
    · rw [Store.parent, Store.parent, same id (tree.inner_subset inside)]
  rw [← rooted, (still.descendants_perm nodup).mem_iff, (holds.descendants_perm nodup).mem_iff]

/-- A chain that is not replaced, and a dispatcher that cannot be expanded, leave every node as it
was.  What they change is the journal, the links not to be tried again, and that the key has been
taken on. -/
theorem refused_rewrites_spare_nodes :
    (∀ (work : Chain.Work) (link : NodeId), (Chain.flatten work link).2 = false →
      ∃ journal links, (Chain.flatten work link).1 =
        { work with
          findings := { work.findings with journal := journal }
          skipped := links ++ work.skipped }) ∧
    ∀ (store : Store) (root : NodeId) (findings : Findings) (count : Nat) (name : String)
      (key : DispatchKey) (mismatch : Mismatch), store.IsArena root →
      findings.key? name = some key →
      (key.isVisited || key.obstacle.isSome || key.histogram.isEmpty) = false →
      store.isAttached root (key.dispatcher? store) = true →
      (expand (store.copy (key.dispatcher? store)).1 key (store.copy (key.dispatcher? store)).2
        key.liveValues).2 = some mismatch →
      ∃ later journal,
        restoreKey root (store, findings, count) name =
          (later, visited findings name journal, count) ∧
        (∀ id < store.nodes.size, later.nodes[id]? = store.nodes[id]?) ∧
        ∀ id, id ∈ later.descendants (some root) ↔ id ∈ store.descendants (some root) := by
  refine ⟨fun work link refused => Chain.flatten_refused refused, ?_⟩
  intro store root findings count name key mismatch arena found open_ attached refused
  obtain ⟨tree, holds, rooted, nodup, _⟩ := arena.exists_tree
  obtain ⟨dispatcher, inside, same⟩ := arena.mem_of_isAttached holds rooted attached
  obtain ⟨part, within, top⟩ := Tree.exists_within inside
  obtain ⟨journal, restored⟩ := restoreKey_refused found open_ attached refused
  have sustains := Expansion.expand_copy_sustains (holds.within within) (within.nodup nodup) key
    key.liveValues
  rw [top, ← same] at sustains
  exact ⟨_, journal, restored, fun id old => sustains id (Nat.not_le_of_lt old),
    mem_descendants_of_sustains arena.tree sustains⟩

/-! ## A default clause for two values -/

/-- `for (;;) { switch (s) { case 2: if (t) {} else {} break; default: break; } }`. -/
def sharedDefault : Store := ⟨#[
  ⟨.file default [some 1], .none, 0, 0, none⟩,
  ⟨.loop .forLoop none none none (some 2), .none, 0, 0, some 0⟩,
  ⟨.block [some 3], .none, 0, 0, some 1⟩,
  ⟨.switch (some 4) [some 5, some 12], .none, 0, 0, some 2⟩,
  ⟨.identifier "s", .none, 0, 0, some 3⟩,
  ⟨.clause false (some 6) [some 7, some 11], .none, 0, 0, some 3⟩,
  ⟨.literal .number "2" (some 2.0), .none, 0, 0, some 5⟩,
  ⟨.conditionalStatement (some 8) (some 9) (some 10), .none, 0, 0, some 5⟩,
  ⟨.identifier "t", .none, 0, 0, some 7⟩,
  ⟨.block [], .none, 0, 0, some 7⟩,
  ⟨.block [], .none, 0, 0, some 7⟩,
  ⟨.jump .breaks none, .none, 0, 0, some 5⟩,
  ⟨.clause true none [some 13], .none, 0, 0, some 3⟩,
  ⟨.jump .breaks none, .none, 0, 0, some 12⟩]⟩

/-- Its key with three values. -/
def sharedDefaultKey : DispatchKey :=
  ⟨"s", 0, 1, none, 0, 0, [], ((Std.TreeMap.empty.insert 0 1).insert 1 1).insert 2 1, [], none, false⟩

/-- The first clause gets its breaks before the default clause is refused. -/
theorem shared_default_spared :
    (Chain.flatten ⟨sharedDefault, Findings.empty, [], 0⟩ 7).2 = false ∧
      (∃ journal links, (Chain.flatten ⟨sharedDefault, Findings.empty, [], 0⟩ 7).1 =
        ⟨sharedDefault, ⟨[], [], journal⟩, links ++ [], 0⟩) ∧
      (expand (sharedDefault.copy (some 3)).1 sharedDefaultKey (sharedDefault.copy (some 3)).2
        sharedDefaultKey.liveValues).2 = some (.defaultSelected 2) ∧
      ∃ later journal,
        restoreKey 0 (sharedDefault, ⟨[], [sharedDefaultKey], Journal.empty⟩, 0) "s" =
          (later, visited ⟨[], [sharedDefaultKey], Journal.empty⟩ "s" journal, 0) ∧
        (∀ id < 14, later.nodes[id]? = sharedDefault.nodes[id]?) ∧
        ∀ id, id ∈ later.descendants (some 0) ↔ id ∈ sharedDefault.descendants (some 0) := by
  have isTree : sharedDefault.IsTree 0 := @Store.isTree_of_isGrown _ 8 0 (by decide) (by decide)
  have links : sharedDefault.HasTrueLinks := hasTrueLinks_of_linksHold (by decide)
  have unchained : (Chain.flatten ⟨sharedDefault, Findings.empty, [], 0⟩ 7).2 = false := rfl
  have refused : (expand (sharedDefault.copy (some 3)).1 sharedDefaultKey
      (sharedDefault.copy (some 3)).2 sharedDefaultKey.liveValues).2 = some (.defaultSelected 2) := by
    decide +kernel
  exact ⟨unchained, refused_rewrites_spare_nodes.1 _ _ unchained, refused,
    refused_rewrites_spare_nodes.2 sharedDefault 0 ⟨[], [sharedDefaultKey], Journal.empty⟩ 0 "s"
      sharedDefaultKey _ ⟨isTree, rfl, links⟩ rfl rfl (by decide +kernel) refused⟩

end Restore

end Unflatten
