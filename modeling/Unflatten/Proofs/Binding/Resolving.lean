import Unflatten.Proofs.Binding.Laying
import Unflatten.Proofs.Binding.Matching
import Unflatten.Proofs.Parser.Nesting
import Unflatten.Proofs.Syntax.Landing

/-! # Names resolve by scoping

The way up from an identifier leads to the node that opens the innermost scope around it
(`Store.Holds.exists_way`), and a lookup from there goes through the scopes around the identifier.  So
each reference is to the declarations of its name in the innermost scope that has any
(`Bindings.ResolvesByScope`).  The scope of a `switch` counts for its discriminant as well, although
its names should not be seen there. -/

set_option autoImplicit false

namespace Unflatten

namespace Store
variable {store : Store} {tree : Tree} {outer : Surroundings} {around : List Surrounding} {id : NodeId}

theorem Stands.scopeEntries_eq {root : NodeId} (stands : store.Stands root tree) :
    store.scopeEntries root = tree.visit store ⟨[], .program⟩ := by
  rw [scopeEntries, stands.treeAt_eq]

theorem Stands.exists_file {root : NodeId} (stands : store.Stands root tree) :
    ∃ source statements, store.shape? (some root) = some (.file source statements) := by
  obtain ⟨shape, found, kind⟩ := Option.map_eq_some_iff.mp stands.file
  fun_cases Shape.kind shape <;> simp_all [Shape.kind]

/-- The way up from a place in a tree to the first node that opens a scope, which is the innermost
around the place, or out of the tree. -/
structure IsWay (store : Store) (test : NodeId → Bool) (outer : Surroundings) (tree : Tree)
    (id : NodeId) (around : List Surrounding) (path : List NodeId) : Prop where
  short : path.length ≤ tree.height
  climb : ∀ steps, path.length ≤ steps → store.climb test steps (some id) =
    (path.find? test).or (store.climb test (steps - path.length) (store.parent tree.root))
  ends : path.find? test = none ∧ around = outer.around ∨
    ∃ first rest, path.find? test = some first.opener ∧ around = first :: rest ∧
      .opens (⟨first.opener, first.hoists, true⟩ :: rest) ∈ tree.visit store outer

/-- A node opens the scope that a walk finds there. -/
def IsOpener (entries : List ScopeEntry) (id : NodeId) : Prop :=
  ∃ first rest, .opens (first :: rest) ∈ entries ∧ first.opener = id

theorem isOpener_slot {top : NodeId} {shape : Shape} {below : List Tree}
    (nodup : (Tree.node top shape below).names.Nodup) {inner : Surroundings} {child : Tree}
    (paired : (inner, child) ∈ (outer.below store top shape).zip below)
    (roots : shape.slots = below.map Tree.root) (inside : id ∈ child.names) :
    IsOpener ((Tree.node top shape below).visit store outer) id ↔ IsOpener (child.visit store inner) id := by
  obtain ⟨outside, others⟩ := List.nodup_cons.mp nodup
  have listed := (List.of_mem_zip paired).2
  constructor
  · rintro ⟨first, rest, member, rfl⟩
    rcases Tree.mem_visit_node.mp member with here | ⟨⟨inner', child'⟩, paired', deeper⟩
    · obtain ⟨hoists, -, same⟩ := Surroundings.opens_mem_entries.mp here
      cases same
      exact absurd (Tree.mem_namesAll.mpr ⟨child, listed, inside⟩) outside
    · -- the other slots hold trees of their own
      have full : (outer.below store top shape).length = below.length := by
        rw [Surroundings.length_below, roots, List.length_map]
      obtain ⟨front, back, split⟩ := List.append_of_mem paired
      have trees : below = front.map Prod.snd ++ child :: back.map Prod.snd := by
        rw [← List.map_snd_zip (Nat.le_of_eq full.symm), split, List.map_append, List.map_cons]
      obtain ⟨scopes, others', same, there⟩ := Tree.opens_mem_names deeper
      cases same
      rw [trees, Tree.namesAll_append, Tree.namesAll] at others
      rw [split] at paired'
      obtain ⟨-, second, apart⟩ := List.nodup_append.mp others
      rcases List.mem_append.mp paired' with before | after
      · refine absurd rfl (apart first.opener ?_ first.opener (List.mem_append_left _ inside))
        exact Tree.mem_namesAll.mpr ⟨child', List.mem_map_of_mem before, there⟩
      · rcases List.mem_cons.mp after with same | behind
        · cases same
          exact ⟨first, rest, deeper, rfl⟩
        · refine absurd rfl ((List.nodup_append.mp second).2.2 first.opener inside first.opener ?_)
          exact Tree.mem_namesAll.mpr ⟨child', List.mem_map_of_mem behind, there⟩
  · rintro ⟨first, rest, member, same⟩
    exact ⟨first, rest, Tree.mem_visit_node.mpr (.inr ⟨_, paired, member⟩), same⟩

theorem isOpener_node {top : NodeId} {shape : Shape} {below : List Tree}
    (outside : top ∉ Tree.namesAll below) :
    IsOpener ((Tree.node top shape below).visit store outer) top ↔
      (shape.opens outer.place).isSome = true := by
  constructor
  · rintro ⟨first, rest, member, same⟩
    rcases Tree.mem_visit_node.mp member with here | ⟨⟨inner, child⟩, paired, deeper⟩
    · obtain ⟨hoists, opened, -⟩ := Surroundings.opens_mem_entries.mp here
      rw [opened]
      rfl
    · obtain ⟨scopes, others, equal, there⟩ := Tree.opens_mem_names deeper
      cases equal
      exact absurd (Tree.mem_namesAll.mpr ⟨child, (List.of_mem_zip paired).2, same ▸ there⟩) outside
  · intro some
    obtain ⟨hoists, opened⟩ := Option.isSome_iff_exists.mp some
    exact ⟨⟨top, hoists, true⟩, outer.around, Tree.mem_visit_node.mpr (.inl
      (Surroundings.opens_mem_entries.mpr ⟨hoists, opened, rfl⟩)), rfl⟩

theorem Holds.exists_way (holds : store.Holds tree) (nodup : tree.names.Nodup) {test : NodeId → Bool}
    (opened : ∀ id ∈ tree.names, test id = true ↔ IsOpener (tree.visit store outer) id)
    (member : .sees id around ∈ tree.visit store outer) :
    ∃ path, IsWay store test outer tree id around path := by
  -- the way up from a slot goes on to the node of the slot, which may open the scope itself
  induction holds generalizing outer with
  | nothing => cases member
  | @node top shape below found regular roots links inner ih =>
    obtain ⟨outside, others⟩ := List.nodup_cons.mp nodup
    have here := (opened top List.mem_cons_self).trans (isOpener_node outside)
    rcases Tree.mem_visit_node.mp member with own | ⟨⟨slot, child⟩, paired, deeper⟩
    · obtain ⟨rfl, rfl, none⟩ := Surroundings.sees_mem_entries own
      have closed : test id = false := by
        rw [← Bool.not_eq_true, here, none]
        exact Bool.noConfusion
      refine ⟨[id], Nat.succ_le_succ (Nat.zero_le _), fun steps enough => ?_, .inl ⟨?_, rfl⟩⟩
      · obtain ⟨steps, rfl⟩ := Nat.exists_eq_add_one_of_ne_zero (Nat.ne_zero_of_lt enough)
        rw [Store.climb, closed, List.find?_singleton, closed]
        rfl
      · rw [List.find?_singleton, closed]
        rfl
    · have listed := (List.of_mem_zip paired).2
      obtain ⟨path, isWay⟩ := ih child listed (Tree.nodup_of_mem_namesAll others listed)
        (fun id inside => (opened id (List.mem_cons_of_mem _ (Tree.mem_namesAll.mpr
          ⟨child, listed, inside⟩))).trans (isOpener_slot nodup paired roots inside)) deeper
      have present : child.root.isSome := by
        cases child with
        | nothing => cases deeper
        | node => rfl
      refine ⟨path ++ [top], ?_, fun steps enough => ?_, ?_⟩
      · rw [List.length_append]
        exact Nat.succ_le_succ (Nat.le_trans isWay.short (Tree.height_le_heightAll listed))
      · rw [List.length_append, List.length_singleton] at enough
        rw [isWay.climb steps (Nat.le_of_succ_le enough), links child listed present,
          List.find?_append, Option.or_assoc, List.length_append, List.length_singleton]
        obtain ⟨rest, left⟩ : ∃ rest, steps - path.length = rest + 1 :=
          ⟨steps - path.length - 1, by omega⟩
        have fewer : steps - (path.length + 1) = rest := by omega
        rw [left, fewer, Store.climb, List.find?_singleton]
        cases test top <;> rfl
      · rcases isWay.ends with ⟨nowhere, same⟩ | ⟨first, rest, somewhere, same, opens⟩
        · rw [List.find?_append, nowhere, Option.none_or, List.find?_singleton]
          rcases Surroundings.around_of_mem_below (List.of_mem_zip paired).1 with
            ⟨equal, closed⟩ | ⟨hoists, visible, opens, equal⟩
          · refine .inl ⟨?_, same.trans equal⟩
            rw [closed] at here
            rw [if_neg fun yes => Bool.noConfusion (here.mp yes)]
          · refine .inr ⟨⟨top, hoists, visible⟩, outer.around, ?_, same.trans equal,
              Tree.mem_visit_node.mpr (.inl (Surroundings.opens_mem_entries.mpr ⟨hoists, opens, rfl⟩))⟩
            rw [opens] at here
            rw [if_pos (here.mpr rfl)]
        · refine .inr ⟨first, rest, ?_, same, Tree.mem_visit_node.mpr (.inr ⟨_, paired, opens⟩)⟩
          rw [List.find?_append, somewhere, Option.some_or]

end Store

namespace Bindings

/-! ## All names are declared -/

/-- The bindings of a tree once all its names are declared, before any is resolved. -/
def allDeclared (store : Store) (root : NodeId) : Bindings :=
  (performAll store (empty store, []) (fileScript store root)).1

section Declared
variable {store : Store} {root : NodeId} {tree : Tree}

theorem allDeclared_eq (store : Store) (root : NodeId) :
    allDeclared store root = (((store.statements? (some root)).getD []).foldl
      (fun bindings statement => bindNode store store.depthBound statement bindings)
      ((empty store).enter .file root)).leave := by
  rw [allDeclared, fileScript, performAll_cons, performAll_append, perform,
    performAll_flatMap fun slot bindings chosen => performAll_script store.depthBound slot bindings chosen]
  rfl

theorem scopeOf_empty (store : Store) (id : NodeId) : (empty store).scopeOf[id]?.join = none := by
  simp only [empty, Array.getElem?_replicate]
  split <;> rfl

theorem empty_records (store : Store) : Records store [] (empty store) := by
  refine ⟨Array.size_replicate, isNested_empty store, fun around member => ?_, fun id place opened => ?_,
    fun place scope found => ?_, fun place scope name number found => ?_, fun number symbol found => ?_,
    fun id home name member => ?_⟩
  · cases member
  · rw [scopeOf_empty] at opened
    cases opened
  · cases found
  · cases found
  · cases found
  · cases member

/-- All that a walk through the tree of a program finds is recorded. -/
theorem allDeclared_records (proper : store.IsProperIn tree) (stands : store.Stands root tree) :
    Records store (store.scopeEntries root) (allDeclared store root) := by
  obtain ⟨source, statements, found⟩ := stands.exists_file
  obtain ⟨below, rfl, roots⟩ := stands.holds.eq_node stands.rooted found
  obtain ⟨outside, others⟩ := List.nodup_cons.mp stands.nodup
  have short : ∀ tree ∈ below, tree.height ≤ store.depthBound := fun tree member =>
    Nat.le_trans (Nat.le_of_lt (Tree.height_lt_node member))
      (Nat.le_succ_of_le (stands.holds.height_le stands.nodup))
  have listed : (store.statements? (some root)).getD [] = below.map Tree.root := by
    rw [Store.statements?, found]
    exact roots
  have fresh : IsFresh ([] ++ [.opens [⟨root, true, true⟩]]) (Tree.namesAll below) :=
    IsFresh.open (fun _ _ member => by cases member) outside
  have lays := scope_lays (fun opened => (below.map Tree.root).foldl
    (fun bindings slot => bindNode store store.depthBound slot bindings) opened) (empty_records store)
    .nil (scopeOf_empty store root) (Store.lt_size_of_shape? found)
    (iff_of_false (fun kind : ScopeKind.file = .block => by cases kind)
      fun hoists : true = false => by cases hoists)
    fun opened recorded here => bindTrees_lay (fun tree member => bindNode_lays
      (stands.holds.within (.deeper member .whole)) (proper.within (.deeper member .whole)) (Tree.nodup_of_mem_namesAll others member)
      (short tree member)) recorded here fresh others
  have visited : store.scopeEntries root = .opens [⟨root, true, true⟩] ::
      below.flatMap fun tree => tree.visit store ⟨[⟨root, true, true⟩], .plain⟩ := by
    rw [stands.scopeEntries_eq, Tree.visit_node]
    refine congrArg (List.cons _) ?_
    exact Tree.visitAll_map_const statements (by rw [show statements = _ from roots, List.length_map])
  rw [visited, allDeclared_eq, listed]
  exact lays.records

end Declared

/-! ## Looking up -/

section Lookup
variable {store : Store} {entries : List ScopeEntry} {bindings later : Bindings} {name : String}
  {id : NodeId} {around : List Surrounding} {start : Option ScopeId}

/-- A lookup finds the symbol of the innermost scope around a place that has the name, if any has. -/
theorem Records.lookup? (records : Records store entries bindings)
    (declares : bindings.All fun symbol => symbol.declarations ≠ #[])
    (chains : bindings.Chains start around) :
    store.declarationsSeen entries name around = [] ∧
        bindings.lookup? name (bindings.scopes.size + 1) start = none ∨
      store.declarationsSeen entries name around ≠ [] ∧ ∃ number symbol,
        bindings.lookup? name (bindings.scopes.size + 1) start = some number ∧
          bindings.symbols[number]? = some symbol ∧
          ∀ id, id ∈ symbol.declarations ↔ id ∈ store.declarationsSeen entries name around := by
  induction chains with
  | nil => exact .inl ⟨rfl, rfl⟩
  | @cons place scope first rest found container kind opened outer ih =>
    rw [records.nested.lookup?_eq, found, Option.bind_some, Store.declarationsSeen, ← container]
    cases listed : scope.table[name]? with
    | some number =>
      obtain ⟨symbol, there, -, each⟩ := records.symbol_of_table found listed
      refine .inr ?_
      split
      · rename_i empty
        refine absurd (Array.eq_empty_iff_forall_not_mem.mpr fun id member => ?_) (declares number symbol there)
        rw [each, empty] at member
        cases member
      · rename_i nonempty
        exact ⟨nonempty, number, symbol, rfl, there, each⟩
    | none =>
      have empty : store.declaredIn entries name scope.container = [] :=
        List.eq_nil_iff_forall_not_mem.mpr fun id => records.not_declared found listed
      rw [empty]
      exact ih

theorem lookup?_of_scopes (scopes : later.scopes = bindings.scopes) (fuel : Nat) (start : Option ScopeId) :
    later.lookup? name fuel start = bindings.lookup? name fuel start := by
  induction fuel generalizing start with
  | zero => rfl
  | succ fuel ih =>
    cases start with
    | none => rfl
    | some place =>
      rw [Bindings.lookup?, Bindings.lookup?, scopes]
      exact congrArg _ (funext fun scope => congrArg _ (ih scope.parent))

theorem lookupAt?_of_scopes (scopes : later.scopes = bindings.scopes)
    (scopeOf : later.scopeOf = bindings.scopeOf) (slot : Slot) :
    later.lookupAt? store slot name = bindings.lookupAt? store slot name := by
  rw [lookupAt?, lookupAt?, enclosingScope?, enclosingScope?, scopeOf, scopes]
  exact lookup?_of_scopes scopes _ _

theorem scopes_noteWrite (id : NodeId) :
    (bindings.noteWrite id).scopes = bindings.scopes ∧ (bindings.noteWrite id).scopeOf = bindings.scopeOf := by
  unfold Bindings.noteWrite
  split <;> exact ⟨rfl, rfl⟩

theorem scopes_resolve (id : NodeId) : (resolve store bindings id).scopes = bindings.scopes ∧
    (resolve store bindings id).scopeOf = bindings.scopeOf := by
  unfold resolve
  split
  · exact ⟨rfl, rfl⟩
  split
  · exact ⟨rfl, rfl⟩
  split
  · exact ⟨rfl, rfl⟩
  split
  · exact scopes_noteWrite id
  · exact ⟨rfl, rfl⟩

theorem scopes_foldl_resolve (ids : List NodeId) :
    (ids.foldl (resolve store) bindings).scopes = bindings.scopes ∧
      (ids.foldl (resolve store) bindings).scopeOf = bindings.scopeOf := by
  induction ids generalizing bindings with
  | nil => exact ⟨rfl, rfl⟩
  | cons id rest ih =>
    have first : (resolve store bindings id).scopes = bindings.scopes ∧
        (resolve store bindings id).scopeOf = bindings.scopeOf := scopes_resolve id
    exact ⟨ih.1.trans first.1, ih.2.trans first.2⟩

/-- Resolving changes what symbols refer to, but not where they are declared. -/
theorem Records.resolve (records : Records store entries bindings) (id : NodeId) :
    Records store entries (Bindings.resolve store bindings id) := by
  have nested : (Bindings.resolve store bindings id).IsNested := records.nested.resolve id
  unfold Bindings.resolve at nested ⊢
  split
  · exact records
  split
  · exact records
  split
  · exact records.of_alike (records.nested.of_same rfl rfl) rfl rfl fun _ => rfl
  · rename_i number _
    have referred : Records store entries { bindings with
        symbolOf := bindings.symbolOf.setIfInBounds id (some number)
        symbols := bindings.symbols.modify number fun found =>
          { found with references := found.references.push id } } := by
      refine records.of_alike (records.nested.of_same rfl rfl) rfl rfl fun place => ?_
      simp only [Array.getElem?_modify]
      split
      · cases bindings.symbols[place]? <;> rfl
      · rfl
    split
    · exact referred.noteWrite id
    · exact referred

theorem Records.foldl_resolve (records : Records store entries bindings) (ids : List NodeId) :
    Records store entries (ids.foldl (Bindings.resolve store) bindings) := by
  induction ids generalizing bindings with
  | nil => exact records
  | cons id rest ih => exact ih (records.resolve id)

/-- A reference that is resolved has the symbol that is looked up for it, if there is one. -/
theorem symbolId?_resolve_lookup (spelled : store.identifier? (some id) = some name)
    (named : store.isReference id = true) (free : bindings.symbolId? id = none)
    (sized : bindings.symbolOf.size = store.nodes.size) :
    (resolve store bindings id).symbolId? id = bindings.lookupAt? store (some id) name := by
  have unsettled : ((bindings.symbolId? id).isSome || !store.isReference id) = false := by
    rw [free, named]
    rfl
  cases found : bindings.lookupAt? store (some id) name with
  | some number => exact symbolId?_resolve_self sized spelled unsettled found
  | none =>
    simp only [resolve, spelled, unsettled, found, Bool.false_eq_true, if_false]
    exact free

theorem symbolId?_foldl_resolve_of_notMem {ids : List NodeId} (outside : id ∉ ids) :
    (ids.foldl (resolve store) bindings).symbolId? id = bindings.symbolId? id := by
  induction ids generalizing bindings with
  | nil => rfl
  | cons first rest ih =>
    rw [List.foldl_cons, ih (List.not_mem_of_not_mem_cons outside),
      symbolId?_resolve (Ne.symm (List.ne_of_not_mem_cons outside))]

theorem symbolId?_foldl_resolve {ids : List NodeId} (nodup : ids.Nodup) (member : id ∈ ids)
    (spelled : store.identifier? (some id) = some name) (named : store.isReference id = true)
    (free : bindings.symbolId? id = none) {within : List NodeId}
    (sound : bindings.IsSound store within) (inside : ids ⊆ within) :
    (ids.foldl (resolve store) bindings).symbolId? id = bindings.lookupAt? store (some id) name := by
  obtain ⟨front, back, rfl⟩ := List.append_of_mem member
  obtain ⟨-, second, apart⟩ := List.nodup_append.mp nodup
  have before : id ∉ front := fun there => apart id there id List.mem_cons_self rfl
  have kept : (front.foldl (resolve store) bindings).scopes = bindings.scopes ∧
      (front.foldl (resolve store) bindings).scopeOf = bindings.scopeOf := scopes_foldl_resolve front
  have stays := (foldl_resolve_sound sound (List.append_subset.mp inside).1).1
  rw [List.foldl_append, List.foldl_cons, symbolId?_foldl_resolve_of_notMem (List.nodup_cons.mp second).1,
    symbolId?_resolve_lookup spelled named ?_ stays.sized, lookupAt?_of_scopes kept.1 kept.2]
  rw [symbolId?_foldl_resolve_of_notMem before, free]

end Lookup

/-! ## References -/

/-- Names belong to the scopes of their declarations, and references are to the innermost scope around
them that has the name.  If no scope that cannot be seen has it, this is the innermost one that can. -/
structure ResolvesByScope (store : Store) (root : NodeId) (bindings : Bindings) : Prop where
  found : ∀ id ∈ store.descendants (some root), (store.identifier? (some id)).isSome = true →
    ∃ around, .sees id around ∈ store.scopeEntries root
  declared : ∀ (id home : NodeId) (name : String), .declares id home ∈ store.scopeEntries root →
    store.identifier? (some id) = some name → ∃ number symbol, bindings.symbolId? id = some number ∧
      bindings.symbols[number]? = some symbol ∧ ∀ other, other ∈ symbol.declarations ↔
        other ∈ store.declaredIn (store.scopeEntries root) name home
  resolved : ∀ (id : NodeId) (around : List Surrounding) (name : String),
    .sees id around ∈ store.scopeEntries root → store.identifier? (some id) = some name →
      store.isReference id = true → store.isDeclarationName id = false →
        bindings.ResolvesTo id (store.declarationsSeen (store.scopeEntries root) name around)
  visible : ∀ (id : NodeId) (around : List Surrounding) (name : String),
    .sees id around ∈ store.scopeEntries root → store.identifier? (some id) = some name →
      store.isReference id = true → store.isDeclarationName id = false →
      (∀ scope ∈ around, scope.visible = false →
        store.declaredIn (store.scopeEntries root) name scope.opener = []) →
        bindings.ResolvesTo id (store.declarationsSeen (store.scopeEntries root) name
          (around.filter Surrounding.visible))

section Whole
variable {store : Store} {root : NodeId} {tree : Tree} {entries : List ScopeEntry} {bindings : Bindings}
  {id : NodeId} {around : List Surrounding} {name : String}

theorem declarationsSeen_filter (hidden : ∀ scope ∈ around, scope.visible = false →
    store.declaredIn entries name scope.opener = []) :
    store.declarationsSeen entries name (around.filter Surrounding.visible) =
      store.declarationsSeen entries name around := by
  induction around with
  | nil => rfl
  | cons scope rest ih =>
    have later := ih fun other member => hidden other (List.mem_cons_of_mem _ member)
    rw [List.filter_cons]
    split
    · rw [Store.declarationsSeen, Store.declarationsSeen, later]
    · rename_i unseen
      rw [Store.declarationsSeen, hidden scope List.mem_cons_self (Bool.eq_false_iff.mpr unseen), later]

theorem Records.isOpener_iff (records : Records store entries bindings) (id : NodeId) :
    (bindings.scopeOf[id]?.join).isSome = true ↔ Store.IsOpener entries id := by
  rw [Option.isSome_iff_exists]
  constructor
  · rintro ⟨place, opened⟩
    exact records.opener id place opened
  · rintro ⟨first, rest, member, rfl⟩
    obtain ⟨place, chains⟩ := records.opened _ member
    cases chains with
    | cons _ _ _ opened _ => exact ⟨_, opened⟩

/-- The scope that is found on the way up from an identifier is the innermost around it. -/
theorem Records.chains_enclosingScope (records : Records store (store.scopeEntries root) bindings)
    (stands : store.Stands root tree) (member : .sees id around ∈ store.scopeEntries root) :
    bindings.Chains (bindings.enclosingScope? store (some id)) around := by
  have entries := stands.scopeEntries_eq
  rw [entries] at member
  obtain ⟨path, isWay⟩ := stands.holds.exists_way stands.nodup
    (fun id _ => entries ▸ records.isOpener_iff id) member
  have enough : path.length ≤ store.depthBound :=
    Nat.le_trans isWay.short (Nat.le_succ_of_le (stands.holds.height_le stands.nodup))
  have outside : ∀ test steps, store.climb test steps none = none := by
    intro test steps
    cases steps <;> rfl
  rw [enclosingScope?, isWay.climb _ enough, stands.rooted, stands.top, outside, Option.or_none]
  rcases isWay.ends with ⟨nowhere, rfl⟩ | ⟨first, rest, somewhere, rfl, opens⟩
  · rw [nowhere]
    exact .nil
  · rw [← entries] at opens
    obtain ⟨place, chains⟩ := records.opened _ opens
    have here := chains.hide first.visible
    rw [somewhere, Option.bind_some]
    cases chains with
    | cons _ _ _ opened _ =>
      rw [opened]
      exact here

theorem Records.isDeclarationName (records : Records store (store.scopeEntries root) bindings)
    (stands : store.Stands root tree) {number : SymbolId} {symbol : Symbol}
    (found : bindings.symbols[number]? = some symbol) (member : id ∈ symbol.declarations) :
    store.isDeclarationName id = true := by
  obtain ⟨scope, -, -, each⟩ := records.symbols number symbol found
  obtain ⟨declares, -⟩ := mem_declaredIn.mp ((each id).mp member)
  rw [stands.scopeEntries_eq] at declares
  exact stands.holds.isDeclarationName_of_declares (fun _ _ place => by cases place) declares

/-- Names that are no declarations have no symbol before they are resolved. -/
theorem allDeclared_free (proper : store.IsProperIn tree) (stands : store.Stands root tree)
    (plain : store.isDeclarationName id = false) : (allDeclared store root).symbolId? id = none := by
  have nothing : ∀ property : Symbol → Prop, (empty store).All property := by
    intro property number symbol found
    cases found
  have sound := (performAll_sound [] (empty_sound store _) (awaits_fileScript stands)).1
  have unread := (performAll_tallied (empty store, []) (writesLoopNames_fileScript stands)
    (empty_sound store _) (awaits_fileScript stands) (nothing _) (nothing _)).2
  cases known : (allDeclared store root).symbolId? id with
  | none => rfl
  | some number =>
    obtain ⟨symbol, found, site⟩ := sound.known id number known
    have declares : id ∈ symbol.declarations := (Symbol.mem_sites.mp site).resolve_right fun refers => by
      rw [unread number symbol found] at refers
      exact absurd refers (Array.not_mem_empty _)
    rw [(allDeclared_records proper stands).isDeclarationName stands found declares] at plain
    cases plain

theorem of_records (proper : store.IsProperIn tree) (stands : store.Stands root tree) :
    Records store (store.scopeEntries root) (of store root) := by
  rw [of_eq]
  exact (allDeclared_records proper stands).foldl_resolve _

/-- A reference is to the innermost scope around it that has its name. -/
theorem of_resolvesTo (proper : store.IsProperIn tree) (stands : store.Stands root tree)
    (member : .sees id around ∈ store.scopeEntries root)
    (spelled : store.identifier? (some id) = some name) (named : store.isReference id = true)
    (plain : store.isDeclarationName id = false) :
    (of store root).ResolvesTo id (store.declarationsSeen (store.scopeEntries root) name around) := by
  have records := of_records proper stands
  have resolved := of_resolved stands
  have inside : id ∈ store.descendants (some root) := by
    rw [stands.scopeEntries_eq] at member
    exact stands.mem_descendants.mpr (Tree.sees_mem_names member)
  have nodup : (store.descendants (some root)).Nodup := by
    rw [← stands.rooted]
    exact (stands.holds.descendants_perm stands.nodup).nodup_iff.mpr stands.nodup
  -- the lookup for the identifier itself saw the scopes of the end, which resolving leaves alone
  have same : (of store root).symbolId? id = (of store root).lookupAt? store (some id) name := by
    have sound := (performAll_sound [] (empty_sound store _) (awaits_fileScript stands)).1
    have last : of store root =
        (store.descendants (some root)).foldl (resolve store) (allDeclared store root) := of_eq store root
    have kept : (of store root).scopes = (allDeclared store root).scopes ∧
        (of store root).scopeOf = (allDeclared store root).scopeOf := by
      rw [last]
      exact scopes_foldl_resolve _
    rw [lookupAt?_of_scopes kept.1 kept.2, last]
    exact symbolId?_foldl_resolve nodup inside spelled named (allDeclared_free proper stands plain) sound
      fun _ there => there
  have declares : (of store root).All fun symbol => symbol.declarations ≠ #[] :=
    fun number symbol found => (resolved.tallied number symbol found).declared
  have chains := records.chains_enclosingScope stands member
  rcases records.lookup? declares chains with
    ⟨empty, missing⟩ | ⟨nonempty, number, symbol, found, there, each⟩
  · rw [ResolvesTo, if_pos empty]
    have free := same.trans missing
    refine ⟨free, (resolved.settled id inside (spelled ▸ rfl) named).resolve_left fun some => ?_⟩
    rw [free] at some
    cases some
  · rw [ResolvesTo, if_neg nonempty]
    refine ⟨number, symbol, same.trans found, there, ?_, each⟩
    obtain ⟨also, stays, site⟩ := (of_sound stands).known id number (same.trans found)
    cases there.symm.trans stays
    refine (Symbol.mem_sites.mp site).resolve_left fun declared => ?_
    rw [records.isDeclarationName stands there declared] at plain
    cases plain

theorem of_resolvesByScope (proper : store.IsProperIn tree) (stands : store.Stands root tree) :
    (of store root).ResolvesByScope store root := by
  have records := of_records proper stands
  refine ⟨fun id member some => ?_, fun id home name declares spelled => ?_,
    fun id around name member spelled named plain => of_resolvesTo proper stands member spelled named plain,
    fun id around name member spelled named plain hidden => ?_⟩
  · obtain ⟨name, spelled⟩ := Option.isSome_iff_exists.mp some
    rw [stands.scopeEntries_eq]
    exact stands.holds.exists_sees (stands.mem_descendants.mp member) spelled
  · have listed := mem_declaredIn.mpr ⟨declares, spelled⟩
    obtain ⟨place, scope, number, owned, found, has⟩ := records.declared id home name listed
    obtain ⟨symbol, there, -, each⟩ := records.symbol_of_table found has
    obtain ⟨also, stays, container⟩ := records.exists_scope owned
    cases found.symm.trans stays
    rw [container] at each
    refine ⟨number, symbol, ?_, there, each⟩
    exact ((of_sound stands).sites number symbol there id
      (Symbol.mem_sites.mpr (.inl ((each id).mpr listed)))).1
  · rw [declarationsSeen_filter hidden]
    exact of_resolvesTo proper stands member spelled named plain

end Whole

end Bindings

/-- The names of a program resolve by scoping, whatever its text is. -/
theorem parse_resolvesByScope (text : List Char) :
    (Bindings.of (parse text).store (parse text).root).ResolvesByScope (parse text).store
      (parse text).root := by
  obtain ⟨tree, stands⟩ := parse_stands text
  exact Bindings.of_resolvesByScope ((parse_isProper text).isProperIn tree) stands

/-- A reference in the discriminant of a `switch` is to a name that only the body declares, although
it stands outside the body. -/
theorem discriminant_takes_body_name :
    let program := parse "let x; switch (x) { case 0: let x; }".toList
    ¬∀ (id : NodeId) (around : List Surrounding) (name : String),
      .sees id around ∈ program.store.scopeEntries program.root →
        program.store.identifier? (some id) = some name → program.store.isReference id = true →
          program.store.isDeclarationName id = false →
            (Bindings.of program.store program.root).ResolvesTo id
              (program.store.declarationsSeen (program.store.scopeEntries program.root) name
                (around.filter Surrounding.visible)) := by
  intro program all
  have resolves := all 3 [⟨9, false, false⟩, ⟨10, true, true⟩] "x" (by decide +kernel)
    (by decide +kernel) (by decide +kernel) (by decide +kernel)
  have seen : program.store.declarationsSeen (program.store.scopeEntries program.root) "x"
      ([⟨9, false, false⟩, ⟨10, true, true⟩].filter Surrounding.visible) = [0] := by decide +kernel
  rw [seen, Bindings.ResolvesTo, if_neg (List.cons_ne_nil _ _)] at resolves
  obtain ⟨number, symbol, resolved, found, -, each⟩ := resolves
  -- the symbol is that of the body, which the first declaration of the text does not declare
  have inner : (Bindings.of program.store program.root).symbolId? 3 = some 1 := by decide +kernel
  have declares : (Bindings.of program.store program.root).symbols[1]?.map Symbol.declarations =
      some #[5] := by decide +kernel
  cases resolved.symm.trans inner
  rw [found] at declares
  have outer : 0 ∈ symbol.declarations := (each 0).mpr List.mem_cons_self
  rw [Option.some.inj declares] at outer
  exact absurd (Array.mem_singleton.mp outer) (by decide)

end Unflatten
