import Unflatten.Proofs.Binding.Recording
import Unflatten.Proofs.Parser.Building

/-! # The scopes that binding lays out

Declaring the names below a node records what a walk finds in its tree, and ends in the scope in
which it began (`Bindings.bindNode_lays`).  The names, the declarations and the body of a function
have slots of their own, so each of them has a lemma; every other node goes through its children. -/

set_option autoImplicit false

namespace Unflatten

namespace Store
variable {store : Store} {tree : Tree}

/-- All slots in a tree that ask for nodes of one nature hold such nodes. -/
def IsProperIn (store : Store) (tree : Tree) : Prop :=
  ∀ id ∈ tree.names, ∀ shape, store.shape? (some id) = some shape →
    ∀ demand ∈ shape.demands, store.HasNature demand.1 demand.2

theorem IsProper.isProperIn (proper : store.IsProper) (tree : Tree) : store.IsProperIn tree :=
  fun id _ => proper id

theorem IsProperIn.within {inner : Tree} (proper : store.IsProperIn tree) (within : Tree.Within inner tree) :
    store.IsProperIn inner :=
  fun id inside => proper id (within.names_subset inside)

theorem Holds.exists_of_hasNature (holds : store.Holds tree) {nature : Nature}
    (has : store.HasNature tree.root nature) : tree = .nothing ∨
      ∃ id shape below, tree = .node id shape below ∧ nature ∈ shape.natures ∧
        store.shape? (some id) = some shape ∧ shape.slots = below.map Tree.root := by
  cases holds with
  | nothing => exact .inl rfl
  | @node id shape below found regular roots links inner =>
    obtain ⟨other, there, member⟩ := has id rfl
    cases found.symm.trans there
    exact .inr ⟨id, shape, below, rfl, member, found, roots⟩

theorem Holds.eq_name (holds : store.Holds tree) (named : store.HasNature tree.root .name) :
    tree = .nothing ∨ ∃ id text, tree = .node id (.identifier text) [] ∧
      store.identifier? (some id) = some text := by
  refine (holds.exists_of_hasNature named).imp_right ?_
  rintro ⟨id, shape, below, rfl, member, found, roots⟩
  cases shape with
  | identifier text =>
    cases List.map_eq_nil_iff.mp roots.symm
    exact ⟨id, text, rfl, by rw [Store.identifier?, found]⟩
  | _ => simp [Shape.natures] at member

theorem Holds.eq_declarator (holds : store.Holds tree)
    (declares : store.HasNature tree.root .declarator) : tree = .nothing ∨
      ∃ id name initializer, tree = .node id (.declaration name.root initializer.root) [name, initializer] ∧
        store.shape? (some id) = some (.declaration name.root initializer.root) := by
  refine (holds.exists_of_hasNature declares).imp_right ?_
  rintro ⟨id, shape, below, rfl, member, found, roots⟩
  cases shape with
  | declaration name initializer =>
    obtain ⟨first, second, rfl, rfl, rfl⟩ := Tree.two_of_roots roots
    exact ⟨id, first, second, rfl, found⟩
  | _ => simp [Shape.natures] at member

theorem Holds.eq_block (holds : store.Holds tree) (is : store.HasNature tree.root .block) :
    tree = .nothing ∨ ∃ id below, tree = .node id (.block (below.map Tree.root)) below ∧
      store.shape? (some id) = some (.block (below.map Tree.root)) := by
  refine (holds.exists_of_hasNature is).imp_right ?_
  rintro ⟨id, shape, below, rfl, member, found, roots⟩
  cases shape with
  | block statements =>
    cases roots
    exact ⟨id, below, rfl, found⟩
  | _ => simp [Shape.natures] at member

end Store

namespace Bindings

/-- Binding adds what a walk finds, and ends in the scope in which it began. -/
structure Lays (store : Store) (before new : List ScopeEntry) (bindings later : Bindings) : Prop where
  records : Records store (before ++ new) later
  grows : bindings.Extends later
  current : later.current = bindings.current

/-- No node of a tree opens a scope as yet. -/
def IsFresh (before : List ScopeEntry) (ids : List NodeId) : Prop :=
  ∀ first rest, .opens (first :: rest) ∈ before → first.opener ∉ ids

section Laying
variable {store : Store} {before new more : List ScopeEntry} {bindings middle later : Bindings}
  {tree : Tree} {trees : List Tree} {outer : Surroundings} {around : List Surrounding}
  {scope? : Option ScopeId} {home : Option NodeId} {depth : Nat}

theorem Lays.refl (records : Records store before bindings) : Lays store before [] bindings bindings :=
  ⟨by rwa [List.append_nil], .refl bindings, rfl⟩

theorem Lays.trans (first : Lays store before new bindings middle)
    (second : Lays store (before ++ new) more middle later) :
    Lays store before (new ++ more) bindings later :=
  ⟨by rw [← List.append_assoc]; exact second.records, first.grows.trans second.grows,
    second.current.trans first.current⟩

theorem Lays.congr (lays : Lays store before new bindings later)
    (same : ∀ entry, (∀ id around, entry ≠ .sees id around) → (entry ∈ new ↔ entry ∈ more)) :
    Lays store before more bindings later :=
  ⟨lays.records.congr fun entry other => by
    rw [List.mem_append, List.mem_append, same entry other], lays.grows, lays.current⟩

theorem IsFresh.mono {ids fewer : List NodeId} (fresh : IsFresh before ids) (subset : fewer ⊆ ids) :
    IsFresh before fewer := fun first rest member inside => fresh first rest member (subset inside)

/-- What is found in one tree leaves the others fresh. -/
theorem IsFresh.append {ids : List NodeId} (fresh : IsFresh before ids)
    (apart : ∀ id ∈ tree.names, id ∉ ids) : IsFresh (before ++ tree.visit store outer) ids := by
  intro first rest member
  rcases List.mem_append.mp member with old | found
  · exact fresh first rest old
  · obtain ⟨opener, others, same, inside⟩ := Tree.opens_mem_names found
    cases same
    exact apart _ inside

theorem Records.fresh (records : Records store before bindings) {id : NodeId} {ids : List NodeId}
    (fresh : IsFresh before ids) (inside : id ∈ ids) : bindings.scopeOf[id]?.join = none := by
  cases opened : bindings.scopeOf[id]?.join with
  | none => rfl
  | some place =>
    obtain ⟨first, rest, member, rfl⟩ := records.opener id place opened
    exact absurd inside (fresh first rest member)

/-- A name is declared in a scope that has been settled. -/
theorem Records.name_lays (records : Records store before bindings) (holds : store.Holds tree)
    (named : store.HasNature tree.root .name) (isHome : bindings.IsHome scope? home)
    (kind : DeclarationKind) (around : List Surrounding) :
    Lays store before (tree.visit store ⟨around, .name home⟩) bindings
      (bindings.declareIdentifier store scope? kind tree.root) := by
  rcases holds.eq_name named with rfl | ⟨id, text, rfl, spelled⟩
  · exact .refl records
  have declares : bindings.declareIdentifier store scope? kind (some id) =
      bindings.declare scope? text kind id := by
    simp only [declareIdentifier, spelled]
  rw [Tree.visit_node, Tree.root_node, declares]
  cases home with
  | none =>
    rw [show scope? = none from isHome]
    refine Lays.congr (.refl records) fun entry other => ?_
    simp only [Surroundings.entries, Surroundings.below, Shape.slots, List.map_nil, Tree.visitAll,
      List.append_nil, List.not_mem_nil, List.mem_singleton, false_iff]
    exact other _ _
  | some opener =>
    obtain ⟨place, rfl, opened⟩ := isHome
    refine Lays.congr ⟨records.declare opened spelled kind, extends_declare _ kind,
      current_declare _ kind⟩ fun entry other => ?_
    simp only [Surroundings.entries, Surroundings.below, Shape.slots, List.map_nil, Tree.visitAll,
      List.append_nil, List.mem_cons, List.not_mem_nil, or_false]
    exact (or_iff_right (other _ _)).symm

theorem Records.names_lay (records : Records store before bindings)
    (holds : ∀ tree ∈ trees, store.Holds tree)
    (named : ∀ tree ∈ trees, store.HasNature tree.root .name) (isHome : bindings.IsHome scope? home)
    (kind : DeclarationKind) (around : List Surrounding) :
    Lays store before (trees.flatMap fun tree => tree.visit store ⟨around, .name home⟩) bindings
      ((trees.map Tree.root).foldl (fun bindings slot =>
        bindings.declareIdentifier store scope? kind slot) bindings) := by
  induction trees generalizing before bindings with
  | nil => exact .refl records
  | cons tree rest ih =>
    have first := records.name_lays (holds tree List.mem_cons_self) (named tree List.mem_cons_self)
      isHome kind around
    rw [List.flatMap_cons, List.map_cons, List.foldl_cons]
    exact first.trans (ih first.records (fun other member => holds other (List.mem_cons_of_mem _ member))
      (fun other member => named other (List.mem_cons_of_mem _ member)) (isHome.carry first.grows))

/-- Binding below a node adds what is found in its tree. -/
def BindsTree (store : Store) (depth : Nat) (tree : Tree) : Prop :=
  ∀ (before : List ScopeEntry) (bindings : Bindings) (around : List Surrounding),
    Records store before bindings → bindings.Chains bindings.current around →
      IsFresh before tree.names → Lays store before (tree.visit store ⟨around, .plain⟩) bindings
        (bindNode store depth tree.root bindings)

theorem bindAll_lays {pairs : List (List Surrounding × Tree)}
    (each : ∀ pair ∈ pairs, BindsTree store depth pair.2) (records : Records store before bindings)
    (chains : ∀ pair ∈ pairs, bindings.Chains bindings.current pair.1)
    (fresh : IsFresh before (Tree.namesAll (pairs.map Prod.snd)))
    (nodup : (Tree.namesAll (pairs.map Prod.snd)).Nodup) :
    Lays store before (pairs.flatMap fun pair => pair.2.visit store ⟨pair.1, .plain⟩) bindings
      ((pairs.map fun pair => pair.2.root).foldl
        (fun bindings slot => bindNode store depth slot bindings) bindings) := by
  induction pairs generalizing before bindings with
  | nil => exact .refl records
  | cons pair rest ih =>
    rw [List.map_cons, Tree.namesAll] at fresh nodup
    obtain ⟨-, others, apart⟩ := List.nodup_append.mp nodup
    have first := each pair List.mem_cons_self before bindings pair.1 records
      (chains pair List.mem_cons_self) (fresh.mono (List.subset_append_left _ _))
    rw [List.flatMap_cons, List.map_cons, List.foldl_cons]
    refine first.trans (ih (fun other member => each other (List.mem_cons_of_mem _ member))
      first.records (fun other member => ?_) ?_ others)
    · rw [first.current]
      exact (chains other (List.mem_cons_of_mem _ member)).carry first.grows
    · exact (fresh.mono (List.subset_append_right _ _)).append fun id here there =>
        apart id here id there rfl

theorem visitAll_pairs (pairs : List (List Surrounding × Tree)) :
    Tree.visitAll store (pairs.map fun pair => ⟨pair.1, .plain⟩) (pairs.map Prod.snd) =
      pairs.flatMap fun pair => pair.2.visit store ⟨pair.1, .plain⟩ := by
  induction pairs with
  | nil => rfl
  | cons pair rest ih => rw [List.map_cons, List.map_cons, Tree.visitAll, ih, List.flatMap_cons]

theorem map_snd_pairs (scopes : List Surrounding) (trees : List Tree) :
    (trees.map (Prod.mk scopes)).map Prod.snd = trees := by
  rw [List.map_map]
  exact List.map_id _

theorem bindTrees_lay (each : ∀ tree ∈ trees, BindsTree store depth tree)
    (records : Records store before bindings) (chains : bindings.Chains bindings.current around)
    (fresh : IsFresh before (Tree.namesAll trees)) (nodup : (Tree.namesAll trees).Nodup) :
    Lays store before (trees.flatMap fun tree => tree.visit store ⟨around, .plain⟩) bindings
      ((trees.map Tree.root).foldl (fun bindings slot => bindNode store depth slot bindings)
        bindings) := by
  have back := map_snd_pairs around trees
  have all : ∀ pair ∈ trees.map (Prod.mk around), BindsTree store depth pair.2 :=
    List.forall_mem_map.mpr each
  have placed : ∀ pair ∈ trees.map (Prod.mk around), bindings.Chains bindings.current pair.1 :=
    List.forall_mem_map.mpr fun _ _ => chains
  have lays := bindAll_lays all records placed (by rw [back]; exact fresh) (by rw [back]; exact nodup)
  rwa [List.map_map, List.flatMap_map] at lays

/-- Binding below the children of a node, which may come in another order than its slots. -/
theorem children_lay {shape : Shape} (pairs : List (List Surrounding × Tree))
    (each : ∀ pair ∈ pairs, BindsTree store depth pair.2) (regular : shape.IsRegular)
    (roots : shape.slots = (pairs.map Prod.snd).map Tree.root) (records : Records store before bindings)
    (chains : ∀ pair ∈ pairs, bindings.Chains bindings.current pair.1)
    (fresh : IsFresh before (Tree.namesAll (pairs.map Prod.snd)))
    (nodup : (Tree.namesAll (pairs.map Prod.snd)).Nodup) :
    Lays store before (Tree.visitAll store (pairs.map fun pair => ⟨pair.1, .plain⟩) (pairs.map Prod.snd))
      bindings ((shape.children.map some).foldl
        (fun bindings slot => bindNode store depth slot bindings) bindings) := by
  have present : ∀ slots : List Slot, (slots.filterMap id).map some = slots.filter Option.isSome := by
    intro slots
    induction slots with
    | nil => rfl
    | cons slot rest ih => cases slot <;> simp_all
  have listed : ((pairs.filter fun pair => pair.2.root.isSome).map fun pair => pair.2.root).Perm
      (shape.children.map some) := by
    refine List.Perm.trans ?_ (regular.symm.map some)
    rw [present, roots, List.map_map, List.filter_map]
    exact .refl _
  obtain ⟨ordered, perm, same⟩ := exists_perm_map_eq listed
  have members : ∀ pair, pair ∈ ordered ↔ pair ∈ pairs ∧ pair.2.root.isSome = true := fun pair =>
    perm.mem_iff.symm.trans List.mem_filter
  have fewer : (Tree.namesAll ((pairs.filter fun pair => pair.2.root.isSome).map Prod.snd)).Sublist
      (Tree.namesAll (pairs.map Prod.snd)) := by
    rw [Tree.namesAll_eq, Tree.namesAll_eq]
    exact (List.filter_sublist.map Prod.snd).flatMap _
  have permuted : (Tree.namesAll ((pairs.filter fun pair => pair.2.root.isSome).map Prod.snd)).Perm
      (Tree.namesAll (ordered.map Prod.snd)) := by
    rw [Tree.namesAll_eq, Tree.namesAll_eq]
    exact (perm.map Prod.snd).flatMap_right _
  rw [← same, visitAll_pairs]
  refine (bindAll_lays (fun pair member => each pair ((members pair).mp member).1) records
    (fun pair member => chains pair ((members pair).mp member).1) (fresh.mono fun id listed =>
      fewer.subset (permuted.mem_iff.mpr listed))
    (permuted.nodup_iff.mp (nodup.sublist fewer))).congr fun entry _ => ?_
  simp only [List.mem_flatMap, members]
  refine exists_congr fun pair => ⟨fun found => ⟨found.1.1, found.2⟩, fun found => ⟨⟨found.1, ?_⟩, found.2⟩⟩
  obtain ⟨scopes, tree⟩ := pair
  cases tree with
  | nothing => cases found.2
  | node => rfl

theorem scope_lays {id : NodeId} {kind : ScopeKind} {hoists : Bool} (body : Bindings → Bindings)
    (records : Records store before bindings) (chains : bindings.Chains bindings.current around)
    (fresh : bindings.scopeOf[id]?.join = none) (bound : id < store.nodes.size)
    (same : kind = .block ↔ hoists = false)
    (inside : ∀ opened : Bindings,
      Records store (before ++ [.opens (⟨id, hoists, true⟩ :: around)]) opened →
      opened.Chains opened.current (⟨id, hoists, true⟩ :: around) →
        Lays store (before ++ [.opens (⟨id, hoists, true⟩ :: around)]) new opened (body opened)) :
    Lays store before (.opens (⟨id, hoists, true⟩ :: around) :: new) bindings
      (body (bindings.enter kind id)).leave := by
  have grows := extends_enter records.sized bound fresh kind
  obtain ⟨recorded, further, current⟩ := inside _ (records.enter chains bound fresh same)
    (chains.enter records.sized bound fresh same)
  obtain ⟨scope, there, -, -, parent⟩ := further.scopes _ _ ((scopes_enter kind id _).trans (if_pos rfl))
  refine ⟨?_, (grows.trans further).trans (.of_same rfl rfl), ?_⟩
  · rw [List.append_assoc] at recorded
    exact recorded.of_alike recorded.nested.leave rfl rfl fun _ => rfl
  · have opened : (body (bindings.enter kind id)).current = some bindings.scopes.size := current
    rw [Bindings.leave, opened, Option.bind_some, there, Option.bind_some, parent]

theorem declarator_lays {tree : Tree}
    (each : ∀ tree, store.Holds tree → store.IsProperIn tree → tree.names.Nodup → tree.height ≤ depth →
      BindsTree store depth tree)
    (holds : store.Holds tree) (declares : store.HasNature tree.root .declarator)
    (proper : store.IsProperIn tree) (short : tree.height ≤ depth)
    (records : Records store before bindings) (chains : bindings.Chains bindings.current around)
    (fresh : IsFresh before tree.names) (nodup : tree.names.Nodup)
    (isHome : bindings.IsHome scope? home) (kind : DeclarationKind) (isLoopHead : Bool) :
    Lays store before (tree.visit store ⟨around, .declarator home⟩) bindings
      (match store.shape? tree.root with
        | some (.declaration name initializer) =>
          let bindings := bindings.declareIdentifier store scope? kind name
          let bindings := match name, store.identifier? name with
            | some nameId, some _ => if isLoopHead then bindings.noteWrite nameId else bindings
            | _, _ => bindings
          bindNode store depth initializer bindings
        | _ => bindings) := by
  rcases holds.eq_declarator declares with rfl | ⟨id, name, initializer, rfl, found⟩
  · exact .refl records
  rw [Tree.root_node, found]
  have named := proper id List.mem_cons_self _ found (name.root, .name) (by simp [Shape.demands])
  have declared := records.name_lays (holds.within (.deeper (by simp) .whole)) named isHome kind around
  -- a name in the head of a loop is written at once
  have written : Lays store before (name.visit store ⟨around, .name home⟩) bindings
      (match name.root, store.identifier? name.root with
        | some nameId, some _ =>
          if isLoopHead then (bindings.declareIdentifier store scope? kind name.root).noteWrite nameId
          else bindings.declareIdentifier store scope? kind name.root
        | _, _ => bindings.declareIdentifier store scope? kind name.root) := by
    split
    · split
      · exact ⟨declared.records.noteWrite _, declared.grows.trans (extends_noteWrite _),
          (current_noteWrite _).trans declared.current⟩
      · exact declared
    · exact declared
  have names : (name.names ++ initializer.names).Nodup := by
    simpa [Tree.names, Tree.namesAll] using (List.nodup_cons.mp nodup).2
  have below := each initializer (holds.within (.deeper (by simp) .whole))
    (proper.within (.deeper (by simp) .whole)) (List.nodup_append.mp names).2.1
    (Nat.le_trans (Nat.le_of_lt (Tree.height_lt_node (by simp))) short)
    _ _ around written.records (by rw [written.current]; exact chains.carry written.grows) ?_
  · refine (written.trans below).congr fun entry _ => ?_
    rw [Tree.visit_node, Surroundings.below, Tree.visitAll_cons, Tree.visitAll_cons, Tree.visitAll_nil,
      List.append_nil]
    rfl
  · refine IsFresh.append (fresh.mono fun child inside => ?_) fun child here there =>
      (List.nodup_append.mp names).2.2 child here child there rfl
    simp [Tree.names, Tree.namesAll, inside]

/-- Binding below a list of declarations: below one, and then below the others with what it has added. -/
theorem declarators_lay (each : ∀ tree, store.Holds tree → store.IsProperIn tree → tree.names.Nodup → tree.height ≤ depth →
      BindsTree store depth tree)
    (holds : ∀ tree ∈ trees, store.Holds tree)
    (declares : ∀ tree ∈ trees, store.HasNature tree.root .declarator)
    (proper : ∀ tree ∈ trees, store.IsProperIn tree) (short : ∀ tree ∈ trees, tree.height ≤ depth)
    (records : Records store before bindings) (chains : bindings.Chains bindings.current around)
    (fresh : IsFresh before (Tree.namesAll trees)) (nodup : (Tree.namesAll trees).Nodup)
    (isHome : bindings.IsHome scope? home) (kind : DeclarationKind) (isLoopHead : Bool) :
    Lays store before (trees.flatMap fun tree => tree.visit store ⟨around, .declarator home⟩) bindings
      ((trees.map Tree.root).foldl (fun bindings declaration =>
        match store.shape? declaration with
        | some (.declaration name initializer) =>
          let bindings := bindings.declareIdentifier store scope? kind name
          let bindings := match name, store.identifier? name with
            | some nameId, some _ => if isLoopHead then bindings.noteWrite nameId else bindings
            | _, _ => bindings
          bindNode store depth initializer bindings
        | _ => bindings) bindings) := by
  induction trees generalizing before bindings with
  | nil => exact .refl records
  | cons tree rest ih =>
    rw [Tree.namesAll] at fresh nodup
    obtain ⟨single, others, apart⟩ := List.nodup_append.mp nodup
    have first := declarator_lays each (holds tree List.mem_cons_self) (declares tree List.mem_cons_self)
      (proper tree List.mem_cons_self) (short tree List.mem_cons_self) records chains
      (fresh.mono (List.subset_append_left _ _)) single isHome kind isLoopHead
    rw [List.flatMap_cons, List.map_cons, List.foldl_cons]
    refine first.trans (ih (fun other member => holds other (List.mem_cons_of_mem _ member))
      (fun other member => declares other (List.mem_cons_of_mem _ member))
      (fun other member => proper other (List.mem_cons_of_mem _ member))
      (fun other member => short other (List.mem_cons_of_mem _ member)) first.records ?_ ?_ others
      (isHome.carry first.grows))
    · rw [first.current]
      exact chains.carry first.grows
    · exact (fresh.mono (List.subset_append_right _ _)).append fun id here there =>
        apart id here id there rfl

theorem IsFresh.open {id : NodeId} {ids : List NodeId} {hoists visible : Bool}
    (fresh : IsFresh before ids) (outside : id ∉ ids) :
    IsFresh (before ++ [.opens (⟨id, hoists, visible⟩ :: around)]) ids := by
  intro first rest member
  rcases List.mem_append.mp member with old | new
  · exact fresh first rest old
  · cases List.mem_singleton.mp new
    exact outside

theorem not_opens_of_name (holds : store.Holds tree) (named : store.HasNature tree.root .name)
    (scopes : List Surrounding) : .opens scopes ∉ tree.visit store outer := by
  intro opens
  rcases holds.eq_name named with rfl | ⟨id, text, rfl, -⟩
  · cases opens
  · rw [Tree.visit_node, Tree.visitAll_nil, List.append_nil, Surroundings.entries] at opens
    split at opens <;> simp at opens

theorem IsFresh.name {ids : List NodeId} (fresh : IsFresh before ids) (holds : store.Holds tree)
    (named : store.HasNature tree.root .name) : IsFresh (before ++ tree.visit store outer) ids :=
  fun first rest member => (List.mem_append.mp member).elim (fresh first rest)
    fun opens => absurd opens (not_opens_of_name holds named _)

theorem IsFresh.names {ids : List NodeId} (fresh : IsFresh before ids)
    (holds : ∀ tree ∈ trees, store.Holds tree)
    (named : ∀ tree ∈ trees, store.HasNature tree.root .name) :
    IsFresh (before ++ trees.flatMap fun tree => tree.visit store outer) ids := by
  intro first rest member
  rcases List.mem_append.mp member with old | found
  · exact fresh first rest old
  · obtain ⟨tree, listed, opens⟩ := List.mem_flatMap.mp found
    exact absurd opens (not_opens_of_name (holds tree listed) (named tree listed) _)

theorem body_lays (each : ∀ tree, store.Holds tree → store.IsProperIn tree → tree.names.Nodup → tree.height ≤ depth →
      BindsTree store depth tree)
    (holds : store.Holds tree) (is : store.HasNature tree.root .block) (proper : store.IsProperIn tree)
    (nodup : tree.names.Nodup) (short : tree.height ≤ depth) (records : Records store before bindings)
    (chains : bindings.Chains bindings.current around) (fresh : IsFresh before tree.names) :
    Lays store before (tree.visit store ⟨around, .body⟩) bindings
      (((store.statements? tree.root).getD []).foldl
        (fun bindings slot => bindNode store depth slot bindings) bindings) := by
  rcases holds.eq_block is with rfl | ⟨id, below, rfl, found⟩
  · exact .refl records
  have nodupBelow := (List.nodup_cons.mp nodup).2
  have statements : store.statements? (some id) = some (below.map Tree.root) := by
    rw [Store.statements?, found]
    rfl
  rw [Tree.root_node, statements, Option.getD_some, Tree.visit_node,
    show Surroundings.below store ⟨around, .body⟩ id (.block (below.map Tree.root)) =
      (below.map Tree.root).map fun _ => ⟨around, .plain⟩ from rfl,
    Tree.visitAll_map_const _ (by simp)]
  refine bindTrees_lay (fun tree listed => ?_) records chains (fresh.mono (List.subset_cons_self _ _))
    nodupBelow
  exact each tree (holds.within (.deeper listed .whole)) (proper.within (.deeper listed .whole))
    (Tree.nodup_of_mem_namesAll nodupBelow listed)
    (Nat.le_trans (Nat.le_of_lt (Tree.height_lt_node listed)) short)

end Laying

/-! ## Nodes -/

/-- Binding comes to a node: whatever is below it can be bound, what was found before is recorded, and
no node of its tree opens a scope as yet. -/
structure Meets (store : Store) (depth : Nat) (before : List ScopeEntry) (bindings : Bindings)
    (around : List Surrounding) (id : NodeId) (shape : Shape) (below : List Tree) : Prop where
  proper : store.IsProperIn (.node id shape below)
  holds : store.Holds (.node id shape below)
  nodup : (Tree.node id shape below).names.Nodup
  short : ∀ tree ∈ below, tree.height ≤ depth
  binds : ∀ tree, store.Holds tree → store.IsProperIn tree → tree.names.Nodup → tree.height ≤ depth →
    BindsTree store depth tree
  records : Records store before bindings
  chains : bindings.Chains bindings.current around
  fresh : IsFresh before (Tree.node id shape below).names

namespace Meets
variable {store : Store} {depth : Nat} {before seen : List ScopeEntry} {bindings opened : Bindings}
  {around : List Surrounding} {id : NodeId} {shape : Shape} {below parameters clauses : List Tree}
  {name body tree discriminant : Tree} {pairs : List (List Surrounding × Tree)} {isExpression : Bool}
  {scope? : Option ScopeId}

section Facts

theorem found (meets : Meets store depth before bindings around id shape below) :
    store.shape? (some id) = some shape := by
  exact meets.holds.shape?_node

theorem regular (meets : Meets store depth before bindings around id shape below) :
    shape.IsRegular := by
  cases meets.holds with
  | node _ regular => exact regular

theorem roots (meets : Meets store depth before bindings around id shape below) :
    shape.slots = below.map Tree.root := by
  cases meets.holds with
  | node _ _ roots => exact roots

theorem bound (meets : Meets store depth before bindings around id shape below) :
    id < store.nodes.size :=
  Store.lt_size_of_shape? meets.found

theorem inner (meets : Meets store depth before bindings around id shape below) :
    ∀ tree ∈ below, store.Holds tree :=
  fun _ member => meets.holds.within (.deeper member .whole)

theorem properBelow (meets : Meets store depth before bindings around id shape below) :
    ∀ tree ∈ below, store.IsProperIn tree :=
  fun _ member => meets.proper.within (.deeper member .whole)

theorem outside (meets : Meets store depth before bindings around id shape below) :
    id ∉ Tree.namesAll below :=
  (List.nodup_cons.mp meets.nodup).1

theorem others (meets : Meets store depth before bindings around id shape below) :
    (Tree.namesAll below).Nodup :=
  (List.nodup_cons.mp meets.nodup).2

theorem each (meets : Meets store depth before bindings around id shape below) :
    ∀ tree ∈ below, BindsTree store depth tree :=
  fun tree member => meets.binds tree (meets.inner tree member) (meets.properBelow tree member)
    (Tree.nodup_of_mem_namesAll meets.others member) (meets.short tree member)

theorem unopened (meets : Meets store depth before bindings around id shape below) :
    bindings.scopeOf[id]?.join = none :=
  meets.records.fresh meets.fresh List.mem_cons_self

theorem freshBelow (meets : Meets store depth before bindings around id shape below) :
    IsFresh before (Tree.namesAll below) :=
  meets.fresh.mono (List.subset_cons_self _ _)

theorem exists_node? (meets : Meets store depth before bindings around id shape below) :
    ∃ flags start stop parent, store.node? (some id) = some ⟨shape, flags, start, stop, parent⟩ := by
  obtain ⟨node, there, rfl⟩ := Option.map_eq_some_iff.mp meets.found
  exact ⟨_, _, _, _, there⟩

theorem hasNature (meets : Meets store depth before bindings around id shape below) {nature : Nature}
    (demanded : (tree.root, nature) ∈ shape.demands) : store.HasNature tree.root nature :=
  meets.proper id List.mem_cons_self shape meets.found _ demanded

end Facts

/-- A node that opens no scope and declares nothing leaves that to its children. -/
theorem plain_lays (meets : Meets store depth before bindings around id shape below)
    (same : Surroundings.below store ⟨around, .plain⟩ id shape =
      shape.slots.map fun _ => ⟨around, .plain⟩)
    (none : ∀ entry ∈ Surroundings.entries ⟨around, .plain⟩ id shape, ∃ id around,
      entry = .sees id around) :
    Lays store before ((Tree.node id shape below).visit store ⟨around, .plain⟩) bindings
      ((shape.children.map some).foldl
        (fun bindings slot => bindNode store depth slot bindings) bindings) := by
  have back := map_snd_pairs around below
  have all : ∀ pair ∈ below.map (Prod.mk around), BindsTree store depth pair.2 :=
    List.forall_mem_map.mpr meets.each
  have placed : ∀ pair ∈ below.map (Prod.mk around), bindings.Chains bindings.current pair.1 :=
    List.forall_mem_map.mpr fun _ _ => meets.chains
  refine (children_lay _ all meets.regular (by rw [back]; exact meets.roots) meets.records placed
    (by rw [back]; exact meets.freshBelow) (by rw [back]; exact meets.others)).congr fun entry other => ?_
  rw [Tree.visit_node, same, meets.roots, back, List.map_map, List.map_map, List.mem_append,
    or_iff_right]
  · rfl
  · intro here
    obtain ⟨id, scopes, equal⟩ := none entry here
    exact other id scopes equal

/-- A node that opens a block for its children, some of which cannot see what is in it. -/
theorem block_lays (meets : Meets store depth before bindings around id shape (pairs.map Prod.snd))
    (inside : ∀ pair ∈ pairs, ∃ visible, pair.1 = ⟨id, false, visible⟩ :: around)
    (same : Surroundings.below store ⟨around, .plain⟩ id shape =
      pairs.map fun pair => ⟨pair.1, .plain⟩)
    (entries : Surroundings.entries ⟨around, .plain⟩ id shape = [.opens (⟨id, false, true⟩ :: around)]) :
    Lays store before ((Tree.node id shape (pairs.map Prod.snd)).visit store ⟨around, .plain⟩) bindings
      ((shape.children.map some).foldl (fun bindings slot => bindNode store depth slot bindings)
        (bindings.enter .block id)).leave := by
  rw [Tree.visit_node, same, entries, List.singleton_append]
  refine scope_lays (fun opened => (shape.children.map some).foldl
      (fun bindings slot => bindNode store depth slot bindings) opened) meets.records meets.chains
    meets.unopened meets.bound (iff_of_true rfl rfl) fun opened recorded here => ?_
  refine children_lay pairs (fun pair member => meets.each _ (List.mem_map_of_mem member)) meets.regular
    meets.roots recorded (fun pair member => ?_) (meets.freshBelow.open meets.outside) meets.others
  obtain ⟨visible, around⟩ := inside pair member
  rw [around]
  exact here.hide visible

theorem openBlock_lays (meets : Meets store depth before bindings around id shape below)
    (same : Surroundings.below store ⟨around, .plain⟩ id shape =
      shape.slots.map fun _ => ⟨⟨id, false, true⟩ :: around, .plain⟩)
    (entries : Surroundings.entries ⟨around, .plain⟩ id shape = [.opens (⟨id, false, true⟩ :: around)]) :
    Lays store before ((Tree.node id shape below).visit store ⟨around, .plain⟩) bindings
      ((shape.children.map some).foldl (fun bindings slot => bindNode store depth slot bindings)
        (bindings.enter .block id)).leave := by
  have back := map_snd_pairs (⟨id, false, true⟩ :: around) below
  have roots := meets.roots
  rw [← back] at meets ⊢
  refine meets.block_lays (List.forall_mem_map.mpr fun _ _ => ⟨true, rfl⟩) ?_ entries
  rw [same, roots, List.map_map, List.map_map]
  rfl

/-- The discriminant of a `switch` stands in its block, but cannot see what is in it. -/
theorem switch_lays (meets : Meets store depth before bindings around id
      (.switch discriminant.root (clauses.map Tree.root)) (discriminant :: clauses)) :
    Lays store before ((Tree.node id (.switch discriminant.root (clauses.map Tree.root))
        (discriminant :: clauses)).visit store ⟨around, .plain⟩) bindings
      (bindNode store (depth + 1) (some id) bindings) := by
  obtain ⟨flags, start, stop, parent, there⟩ := meets.exists_node?
  have trees : ((⟨id, false, false⟩ :: around, discriminant) ::
      clauses.map (Prod.mk (⟨id, false, true⟩ :: around))).map Prod.snd = discriminant :: clauses := by
    rw [List.map_cons, map_snd_pairs]
  simp only [bindNode, there]
  rw [← trees] at meets ⊢
  refine meets.block_lays (List.forall_mem_cons.mpr
    ⟨⟨false, rfl⟩, List.forall_mem_map.mpr fun _ _ => ⟨true, rfl⟩⟩) ?_ rfl
  rw [List.map_cons, List.map_map]
  exact congrArg _ List.map_map

/-- The name of a `catch` clause is declared in the block of the clause. -/
theorem catchClause_lays (meets : Meets store depth before bindings around id
      (.catchClause name.root body.root) [name, body]) :
    Lays store before ((Tree.node id (.catchClause name.root body.root) [name, body]).visit store
        ⟨around, .plain⟩) bindings (bindNode store (depth + 1) (some id) bindings) := by
  obtain ⟨flags, start, stop, parent, there⟩ := meets.exists_node?
  have named : store.HasNature name.root .name := meets.hasNature (by simp [Shape.demands])
  have inBody : body.names ⊆ Tree.namesAll [name, body] := fun child inside => by
    simp [Tree.namesAll, inside]
  simp only [bindNode, there]
  rw [Tree.visit_node, Surroundings.below, Tree.visitAll_cons, Tree.visitAll_cons, Tree.visitAll_nil,
    List.append_nil]
  refine scope_lays (fun opened => bindNode store depth body.root
      (opened.declareIdentifier store opened.current .catchVariable name.root))
    meets.records meets.chains meets.unopened meets.bound (iff_of_true rfl rfl)
    fun opened recorded here => ?_
  have declared := recorded.name_lays (meets.inner name (by simp)) named here.isHome .catchVariable
    (⟨id, false, true⟩ :: around)
  refine declared.trans (meets.each body (by simp) _ _ _ declared.records ?_ ?_)
  · rw [declared.current]
    exact here.carry declared.grows
  · exact ((meets.freshBelow.mono inBody).open fun inside => meets.outside (inBody inside)).name
      (meets.inner name (by simp)) named

/-- Declarations belong to the scope that is open, or to the nearest function or file. -/
theorem declarationList_lays {isStatement : Bool} (meets : Meets store depth before bindings around id
      (.declarationList isStatement (below.map Tree.root)) below) :
    Lays store before ((Tree.node id (.declarationList isStatement (below.map Tree.root)) below).visit
        store ⟨around, .plain⟩) bindings (bindNode store (depth + 1) (some id) bindings) := by
  obtain ⟨flags, start, stop, parent, there⟩ := meets.exists_node?
  have marked : store.flags (some id) = flags := by
    rw [Store.flags, there]
    rfl
  have isHome : bindings.IsHome
      (if flags.isBlockScoped then bindings.current else bindings.hoistingScope)
      (if flags.isBlockScoped then nearestHome around else hoistingHome around) := by
    split
    · exact meets.chains.isHome
    · exact meets.chains.isHome_hoisting meets.records.nested
  simp only [bindNode, there]
  rw [Tree.visit_node, Surroundings.below, marked, Tree.visitAll_map_const _ (by simp)]
  exact declarators_lay meets.binds meets.inner (fun tree member => meets.hasNature
      (List.mem_map_of_mem (List.mem_map_of_mem member))) meets.properBelow meets.short meets.records
    meets.chains meets.freshBelow meets.others isHome _ _

/-! ### Functions -/

theorem visit_function : (Tree.node id (.function isExpression name.root (parameters.map Tree.root)
      body.root) (name :: (parameters ++ [body]))).visit store ⟨around, .plain⟩ =
    .opens (⟨id, true, true⟩ :: around) ::
      (name.visit store ⟨⟨id, true, true⟩ :: around,
          .name (if isExpression then some id else hoistingHome around)⟩ ++
        ((parameters.flatMap fun tree =>
            tree.visit store ⟨⟨id, true, true⟩ :: around, .name (some id)⟩) ++
          body.visit store ⟨⟨id, true, true⟩ :: around, .body⟩)) := by
  have below : Surroundings.below store ⟨around, .plain⟩ id
      (.function isExpression name.root (parameters.map Tree.root) body.root) =
        ⟨⟨id, true, true⟩ :: around, .name (if isExpression then some id else hoistingHome around)⟩ ::
          (((parameters.map Tree.root).map fun _ => ⟨⟨id, true, true⟩ :: around, .name (some id)⟩) ++
            [⟨⟨id, true, true⟩ :: around, .body⟩]) := rfl
  rw [Tree.visit_node, below, Tree.visitAll_cons, Tree.visitAll_append (by simp),
    Tree.visitAll_map_const _ (by simp), Tree.visitAll_cons, Tree.visitAll_nil, List.append_nil]
  rfl

section Functions
variable (meets : Meets store depth before bindings around id (.function isExpression name.root
  (parameters.map Tree.root) body.root) (name :: (parameters ++ [body])))

include meets

theorem named : ∀ tree ∈ name :: parameters, store.HasNature tree.root .name := by
  intro tree member
  refine meets.hasNature ?_
  rcases List.mem_cons.mp member with rfl | among
  · simp [Shape.demands]
  · simp only [Shape.demands, List.mem_cons, List.mem_map]
    exact .inr (.inr ⟨_, ⟨tree, among, rfl⟩, rfl⟩)

theorem freshBody : IsFresh before body.names ∧ id ∉ body.names := by
  have inBody : body.names ⊆ Tree.namesAll (name :: (parameters ++ [body])) := fun child inside =>
    Tree.mem_namesAll.mpr ⟨body, by simp, inside⟩
  exact ⟨meets.freshBelow.mono inBody, fun inside => meets.outside (inBody inside)⟩

/-- The parameters and the body of a function, in the scope of the function. -/
theorem passed_lays (recorded : Records store seen opened)
    (here : opened.Chains opened.current (⟨id, true, true⟩ :: around))
    (isHome : opened.IsHome scope? (some id)) (fresh : IsFresh seen body.names) :
    Lays store seen ((parameters.flatMap fun tree =>
          tree.visit store ⟨⟨id, true, true⟩ :: around, .name (some id)⟩) ++
        body.visit store ⟨⟨id, true, true⟩ :: around, .body⟩) opened
      (((store.statements? body.root).getD []).foldl
        (fun bindings slot => bindNode store depth slot bindings)
        ((parameters.map Tree.root).foldl (fun bindings slot =>
          bindings.declareIdentifier store scope? .parameter slot) opened)) := by
  have held : ∀ tree ∈ parameters, store.Holds tree := fun tree member =>
    meets.inner tree (by simp [member])
  have named : ∀ tree ∈ parameters, store.HasNature tree.root .name := fun tree member =>
    meets.named tree (List.mem_cons_of_mem _ member)
  have nodup : body.names.Nodup := Tree.nodup_of_mem_namesAll meets.others (by simp)
  have parameters := recorded.names_lay held named isHome .parameter (⟨id, true, true⟩ :: around)
  refine parameters.trans (body_lays meets.binds (meets.inner body (by simp))
    (meets.hasNature (by simp [Shape.demands])) (meets.properBelow body (by simp)) nodup (meets.short body (by simp)) parameters.records ?_
    (fresh.names held named))
  rw [parameters.current]
  exact here.carry parameters.grows

end Functions

/-- The name of a function expression is declared in the scope of the function. -/
theorem functionExpression_lays (meets : Meets store depth before bindings around id (.function true
      name.root (parameters.map Tree.root) body.root) (name :: (parameters ++ [body]))) :
    Lays store before ((Tree.node id (.function true name.root (parameters.map Tree.root) body.root)
        (name :: (parameters ++ [body]))).visit store ⟨around, .plain⟩) bindings
      (bindNode store (depth + 1) (some id) bindings) := by
  obtain ⟨flags, start, stop, parent, there⟩ := meets.exists_node?
  obtain ⟨fresh, outside⟩ := meets.freshBody
  have held := meets.inner name List.mem_cons_self
  have named := meets.named name List.mem_cons_self
  have hoists : ScopeKind.function = .block ↔ true = false := iff_of_false nofun nofun
  simp only [bindNode, there]
  rw [visit_function]
  refine scope_lays (fun opened => ((store.statements? body.root).getD []).foldl
      (fun bindings slot => bindNode store depth slot bindings)
      ((parameters.map Tree.root).foldl (fun bindings slot => bindings.declareIdentifier store
          opened.current .parameter slot)
        (opened.declareIdentifier store opened.current .function name.root)))
    meets.records meets.chains meets.unopened meets.bound hoists fun opened recorded here => ?_
  have declared := recorded.name_lays held named here.isHome .function (⟨id, true, true⟩ :: around)
  refine declared.trans (meets.passed_lays declared.records ?_ (here.isHome.carry declared.grows)
    ((fresh.open outside).name held named))
  rw [declared.current]
  exact here.carry declared.grows

/-- The name of a declared function is declared in the nearest function or file. -/
theorem functionDeclaration_lays (meets : Meets store depth before bindings around id (.function false
      name.root (parameters.map Tree.root) body.root) (name :: (parameters ++ [body]))) :
    Lays store before ((Tree.node id (.function false name.root (parameters.map Tree.root) body.root)
        (name :: (parameters ++ [body]))).visit store ⟨around, .plain⟩) bindings
      (bindNode store (depth + 1) (some id) bindings) := by
  obtain ⟨flags, start, stop, parent, there⟩ := meets.exists_node?
  obtain ⟨fresh, outside⟩ := meets.freshBody
  have held := meets.inner name List.mem_cons_self
  have named := meets.named name List.mem_cons_self
  have home := meets.chains.isHome_hoisting meets.records.nested
  have declared := meets.records.name_lays held named home .function (⟨id, true, true⟩ :: around)
  have hoists : ScopeKind.function = .block ↔ true = false := iff_of_false nofun nofun
  have function := scope_lays (fun opened => ((store.statements? body.root).getD []).foldl
      (fun bindings slot => bindNode store depth slot bindings)
      ((parameters.map Tree.root).foldl (fun bindings slot => bindings.declareIdentifier store
          opened.current .parameter slot) opened))
    declared.records (by rw [declared.current]; exact meets.chains.carry declared.grows)
    (declared.records.fresh (meets.fresh.name held named) List.mem_cons_self) meets.bound
    hoists fun opened recorded here =>
      meets.passed_lays recorded here here.isHome ((fresh.name held named).open outside)
  simp only [bindNode, there]
  rw [visit_function]
  refine (declared.trans function).congr fun entry _ => ?_
  simp only [List.mem_append, List.mem_cons]
  exact or_left_comm

end Meets

/-! ## Trees -/

theorem bindNode_lays {store : Store} {tree : Tree} {depth : Nat} (holds : store.Holds tree)
    (proper : store.IsProperIn tree) (nodup : tree.names.Nodup) (short : tree.height ≤ depth) :
    BindsTree store depth tree := by
  -- the induction is on the depth, since the children of a node come in an order of their own
  induction depth generalizing tree with
  | zero =>
    cases tree with
    | nothing => exact fun before bindings around records _ _ => .refl records
    | node => exact absurd short (Nat.not_succ_le_zero _)
  | succ depth ih =>
    intro before bindings around records chains fresh
    cases tree with
    | nothing => exact .refl records
    | node id shape below =>
      have meets : Meets store depth before bindings around id shape below :=
        ⟨proper, holds, nodup, fun tree member =>
          Nat.le_of_lt_succ (Nat.lt_of_lt_of_le (Tree.height_lt_node member) short),
          fun tree => ih, records, chains, fresh⟩
      obtain ⟨flags, start, stop, parent, there⟩ := meets.exists_node?
      have roots := meets.roots
      rw [Tree.root_node]
      cases shape
      case function isExpression name parameters body =>
        obtain ⟨first, rest, rfl, rfl, listed⟩ := List.map_eq_cons_iff.mp roots.symm
        obtain ⟨middle, last, rfl, rfl, single⟩ := List.map_eq_append_iff.mp listed
        obtain ⟨last, rfl, rfl⟩ := Tree.one_of_roots single.symm
        cases isExpression with
        | true => exact meets.functionExpression_lays
        | false => exact meets.functionDeclaration_lays
      case declarationList isStatement declarations =>
        cases roots
        exact meets.declarationList_lays
      case catchClause name body =>
        obtain ⟨first, second, rfl, rfl, rfl⟩ := Tree.two_of_roots roots
        exact meets.catchClause_lays
      case switch discriminant clauses =>
        obtain ⟨first, rest, rfl, rfl, rfl⟩ := List.map_eq_cons_iff.mp roots.symm
        exact meets.switch_lays
      case block =>
        simp only [bindNode, there]
        exact meets.openBlock_lays rfl rfl
      case forIn =>
        simp only [bindNode, there]
        exact meets.openBlock_lays rfl rfl
      case loop kind initializer condition incrementor body =>
        cases kind
        case forLoop =>
          simp only [bindNode, there]
          exact meets.openBlock_lays rfl rfl
        all_goals
          simp only [bindNode, there]
          exact meets.plain_lays rfl (fun entry member => by cases member)
      case identifier text =>
        simp only [bindNode, there]
        exact meets.plain_lays rfl fun entry member => ⟨id, around, List.mem_singleton.mp member⟩
      all_goals
        simp only [bindNode, there]
        exact meets.plain_lays rfl (fun entry member => by cases member)

end Bindings

end Unflatten
