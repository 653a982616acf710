import Unflatten.Proofs.Syntax.Restating

/-! # The tree of a program

A program stands in a store if its tree does, below a file that is nobody's child.  Every pass
leaves a program standing, since it remakes its tree. -/

set_option autoImplicit false

namespace Unflatten

/-- A root stands among the names of its tree. -/
theorem Tree.count_roots_le (trees : List Tree) (id : NodeId) :
    (trees.map Tree.root).count (some id) ≤ (Tree.namesAll trees).count id := by
  induction trees with
  | nil => exact Nat.le_refl 0
  | cons tree rest ih =>
    rw [List.map_cons, Tree.namesAll, List.count_append, List.count_cons]
    split
    · rename_i same
      have here := List.count_pos_iff.mpr (Tree.mem_names_root (eq_of_beq same))
      omega
    · omega

/-- Lists are the same up to order if they have everything equally often. -/
theorem Tree.perm_of_count {first second : List Tree}
    (same : ∀ [DecidableEq Tree] tree, first.count tree = second.count tree) :
    first.Perm second := by
  classical
  exact List.perm_iff_count.mpr same

/-- What is mapped to a permutation can be permuted so as to be mapped to it. -/
theorem exists_perm_map_eq {α β : Type} {f : α → β} {items : List α} {images : List β}
    (perm : (items.map f).Perm images) : ∃ others, items.Perm others ∧ others.map f = images := by
  induction images generalizing items with
  | nil => exact ⟨[], by rw [List.map_eq_nil_iff.mp perm.eq_nil], rfl⟩
  | cons image rest ih =>
    obtain ⟨item, member, rfl⟩ := List.mem_map.mp (perm.mem_iff.mpr List.mem_cons_self)
    obtain ⟨front, back, rfl⟩ := List.append_of_mem member
    have moved : (front ++ item :: back).Perm (item :: (front ++ back)) := List.perm_middle
    obtain ⟨others, permuted, same⟩ :=
      ih (List.Perm.cons_inv ((moved.map f).symm.trans perm))
    exact ⟨item :: others, moved.trans (permuted.cons item), by rw [List.map_cons, same]⟩

namespace Shape

/-- A clear shape without a body of its own. -/
def isBare : Shape → Bool
  | .tryStatement _ _ _ | .catchClause _ _ => false
  | shape => shape.isClear

theorem isClear_of_isBare {shape : Shape} (bare : shape.isBare = true) : shape.isClear = true := by
  cases shape <;> first | rfl | cases bare

theorem bodySlots_of_isBare {shape : Shape} (bare : shape.isBare = true) :
    shape.bodySlots = [] := by
  cases shape <;> first | rfl | cases bare

end Shape

namespace Store

structure Stands (store : Store) (root : NodeId) (tree : Tree) : Prop where
  holds : store.Holds tree
  rooted : tree.root = some root
  nodup : tree.names.Nodup
  top : store.parent (some root) = none
  links : store.HasTrueLinks
  tidy : store.IsTidy
  file : store.kind? (some root) = some .sourceFile

section Holding
variable {store : Store} {tree : Tree} {id : NodeId} {shape : Shape} {below : List Tree}

theorem Holds.alone (holds : store.Holds tree) (nodup : tree.names.Nodup) :
    store.HoldsAll [tree] :=
  ⟨List.forall_mem_singleton.mpr holds,
    by rw [Tree.namesAll, Tree.namesAll, List.append_nil]; exact nodup⟩

theorem Holds.holdsAll_below (holds : store.Holds (.node id shape below))
    (nodup : (Tree.node id shape below).names.Nodup) : store.HoldsAll below := by
  have all := (holds.alone nodup).below.1
  rwa [List.append_nil] at all

theorem Holds.eq_node (holds : store.Holds tree) (rooted : tree.root = some id)
    (found : store.shape? (some id) = some shape) :
    ∃ below, tree = .node id shape below ∧ shape.slots = below.map Tree.root := by
  cases holds with
  | nothing => cases rooted
  | node there _ roots =>
    cases rooted
    rw [found] at there
    cases there
    exact ⟨_, rfl, roots⟩

theorem Holds.exists_node (holds : store.Holds tree) (found : store.shape? tree.root = some shape) :
    ∃ id below, tree = .node id shape below ∧ shape.slots = below.map Tree.root := by
  cases rooted : tree.root with
  | none =>
    rw [rooted] at found
    cases found
  | some id =>
    rw [rooted] at found
    exact ⟨id, holds.eq_node rooted found⟩

end Holding

/-! ## Copies -/

section Copies
variable {store middle later : Store} {names : List NodeId} {id : NodeId} {depth : Nat}

/-- New nodes list new nodes only. -/
def ListsNew (store later : Store) : Prop :=
  ∀ id, store.nodes.size ≤ id → ∀ shape, later.shape? (some id) = some shape →
    ∀ child, some child ∈ shape.slots → store.nodes.size ≤ child ∧ child < later.nodes.size

theorem ListsNew.refl (store : Store) : ListsNew store store := fun _ beyond _ found =>
  absurd (lt_size_of_shape? found) (Nat.not_lt_of_le beyond)

theorem ListsNew.trans (first : ListsNew store middle) (second : ListsNew middle later)
    (size : store.nodes.size ≤ middle.nodes.size) (sustains : Sustains middle later) :
    ListsNew store later := by
  intro id beyond shape found child listed
  by_cases early : id < middle.nodes.size
  · obtain ⟨before, there⟩ := exists_shape? early
    have same := sustains.shape? there
    rw [found] at same
    cases same
    exact (first id beyond shape there child listed).imp_right fun bound =>
      Nat.lt_of_lt_of_le bound sustains.size
  · exact (second id (Nat.le_of_not_lt early) shape found child listed).imp_left (Nat.le_trans size)

/-- All that the nodes of a list of names have as children is in the list. -/
def IsClosed (store : Store) (names : List NodeId) : Prop :=
  ∀ id ∈ names, ∃ shape, store.shape? (some id) = some shape ∧ shape.IsRegular ∧
    ∀ child, some child ∈ shape.slots → child ∈ names

theorem IsClosed.carry (closed : store.IsClosed names) (sustains : Sustains store later) :
    later.IsClosed names := by
  intro id inside
  obtain ⟨shape, found, regular⟩ := closed id inside
  exact ⟨shape, sustains.shape? found, regular⟩

theorem UnfoldsTo.isClosed {tree : Tree} (unfolds : store.UnfoldsTo tree) :
    store.IsClosed tree.names := by
  intro id inside
  obtain ⟨part, within, rooted⟩ := Tree.exists_within inside
  cases unfolds.within within with
  | nothing => cases rooted
  | node found regular roots _ =>
    cases rooted
    refine ⟨_, found, regular, fun child listed => ?_⟩
    rw [roots] at listed
    obtain ⟨below, member, same⟩ := List.mem_map.mp listed
    exact within.names_subset
      (List.mem_cons_of_mem _ (Tree.mem_namesAll.mpr ⟨below, member, Tree.mem_names_root same⟩))

theorem Holds.isClosed {tree : Tree} (holds : store.Holds tree) : store.IsClosed tree.names :=
  holds.unfoldsTo.isClosed

theorem copyTo_listsNew (closed : store.IsClosed names) (inside : id ∈ names) :
    ListsNew store (store.copyTo depth id).1 ∧
      ∀ copy, (store.copyTo depth id).2 = some copy → copy < (store.copyTo depth id).1.nodes.size := by
  induction depth generalizing store id with
  | zero => exact ⟨.refl store, fun copy impossible => nomatch impossible⟩
  | succ depth ih =>
    obtain ⟨shape, found, regular, children⟩ := closed id inside
    have below : ∀ child ∈ shape.children, child ∈ names := fun child visible =>
      children child (Shape.some_mem_slots_of_mem_children visible)
    -- the children one after the other
    have copying : ∀ (ids : List NodeId) (state : Store × List (NodeId × Slot)),
        (∀ child ∈ ids, child ∈ names) → Sustains store state.1 → ListsNew store state.1 →
        (∀ pair ∈ state.2, ∀ copy, pair.2 = some copy → copy < state.1.nodes.size) →
        ListsNew store (copyChildren depth ids state).1 ∧
          ∀ pair ∈ (copyChildren depth ids state).2, ∀ copy, pair.2 = some copy →
            copy < (copyChildren depth ids state).1.nodes.size := by
      intro ids
      induction ids with
      | nil => exact fun _ _ _ lists bounds => ⟨lists, bounds⟩
      | cons first rest again =>
        intro state among sustains lists bounds
        have step := (copyTo_sustains state.1 depth first).1
        obtain ⟨next, bound⟩ := ih (closed.carry sustains) (among first List.mem_cons_self)
        refine again _ (fun child member => among child (List.mem_cons_of_mem _ member))
          (sustains.trans step) (lists.trans next sustains.size step) fun pair member copy same => ?_
        rcases List.mem_cons.mp member with rfl | old
        · exact bound copy same
        · exact Nat.lt_of_lt_of_le (bounds pair old copy same) step.size
    obtain ⟨lists, bounds⟩ := copying shape.children (store, []) below (.refl store) (.refl store)
      fun _ member => nomatch member
    have copied := @copyChildren_copiesOf store store depth shape.children []
      (fun store id => copyTo_sustains store depth id) []
      ⟨.refl store, List.forall_mem_nil _, List.forall_mem_nil _⟩
    generalize folded : copyChildren depth shape.children (store, []) = result at *
    obtain ⟨later, copies⟩ := result
    obtain ⟨flags, start, stop, unfolded⟩ :=
      copyTo_succ store later depth id found folded (copied.sustains.shape? found)
    rw [unfolded]
    have size : ((later.push (shape.withSlots (shape.slots.map (renameSlot copies))) flags start
        stop).1.setParents ((shape.withSlots (shape.slots.map (renameSlot copies))).children.map some)
        (some later.nodes.size)).nodes.size = later.nodes.size + 1 := by
      rw [size_setParents, push_size]
    refine ⟨fun new beyond other there child listed => ?_, fun copy same => ?_⟩
    · rw [size]
      rw [shape?_setParents, shape?_push] at there
      split at there
      · cases there
        rw [Shape.slots_withSlots _ _ (List.length_map _)] at listed
        obtain ⟨slot, member, renamed⟩ := List.mem_map.mp listed
        cases slot with
        | none => cases renamed
        | some original =>
          have visible : original ∈ shape.children :=
            regular.mem_iff.mpr (List.mem_filterMap.mpr ⟨some original, member, rfl⟩)
          refine ⟨copied.fresh_renameSlot visible renamed, ?_⟩
          obtain ⟨slot, entry⟩ := copied.all original visible
          rw [renameSlot, Option.bind_some] at renamed
          cases looked : copies.lookup original with
          | none =>
            have absent := List.lookup_eq_none_iff.mp looked (original, slot) entry
            simp at absent
          | some found =>
            rw [looked, Option.getD_some] at renamed
            exact Nat.lt_succ_of_lt (bounds _ (mem_of_lookup looked) child renamed)
      · exact (lists new beyond other there child listed).imp_right Nat.lt_succ_of_lt
    · cases same
      rw [size]
      exact Nat.lt_succ_self _

theorem Holds.copy_listsNew {tree : Tree} (holds : store.Holds tree) :
    ListsNew store (store.copy tree.root).1 := by
  cases tree with
  | nothing => exact .refl store
  | node id shape below => exact (copyTo_listsNew holds.isClosed List.mem_cons_self).1

end Copies

namespace Rebuilds

section Chains
variable {store middle later : Store} {trees parts rest built : List Tree} {tree : Tree}
  {shape : Shape}

/-- New trees, made of new nodes only. -/
theorem ofNew (grown : Grown store later) (all : later.HoldsAll built)
    (fresh : ∀ id ∈ Tree.namesAll built, store.nodes.size ≤ id)
    (links : store.HasTrueLinks → later.HasTrueLinks) (tidy : store.IsTidy → later.IsTidy)
    (lists : ListsNew store later) : Rebuilds store later [] built := by
  have keeps : store.Keeps later := fun id shape found =>
    (grown.shape id (lt_size_of_shape? found)).trans found
  refine ⟨⟨List.forall_mem_nil _, .nil⟩, all, grown.touches _, fun id inside => .inr (fresh id inside),
    links, tidy, keeps.keepsKinds, fun id origin shape found child listed => ?_,
    fun id parent old linked => .inl (by rwa [grown.parent id old] at linked),
    fun loop inside old => absurd old (Nat.not_lt_of_le (fresh loop inside)),
    fun _ inside => absurd inside List.not_mem_nil,
    fun links list origin _ declaration old linked => ?_⟩
  · have beyond := origin.resolve_left List.not_mem_nil
    exact (lists id beyond shape found child listed).symm.imp_right .inr
  · rw [grown.parent declaration old] at linked
    obtain ⟨shape, found, -⟩ := links declaration list linked
    exact absurd (lt_size_of_shape? found) (Nat.not_lt_of_le (origin.resolve_left List.not_mem_nil))

/-- A further node is made. -/
theorem andAdd {flags : Flags} {start stop : Nat} (work : Rebuilds store middle trees (parts ++ rest))
    (slots : shape.slots = parts.map Tree.root) (regular : shape.IsRegular)
    (quiet : ∀ slot ∈ shape.quietSlots, middle.IsQuietAt slot)
    (body : ∀ slot ∈ shape.bodySlots, middle.IsBodyAt slot)
    (full : shape.isHollow = false) :
    Rebuilds store (middle.add shape flags start stop).1 trees
      (.node middle.nodes.size shape parts :: rest) :=
  work.trans (adding work.all slots regular fun _ =>
    ⟨fun child listed => quiet _ listed child rfl, fun child listed => body _ listed child rfl, full,
      regular⟩)

/-- A further node of a bare shape, together with what is needed of it later. -/
theorem andNode (work : Rebuilds store middle trees built) (shape : Shape)
    (parts rest : List Tree) (perm : built.Perm (parts ++ rest))
    (slots : shape.slots = parts.map Tree.root) (bare : shape.isBare = true)
    (quiet : ∀ slot ∈ shape.quietSlots, middle.IsQuietAt slot)
    (full : shape.isHollow = false) :
    ∃ later made, middle.make shape = (later, made) ∧
      Rebuilds store later trees (.node made shape parts :: rest) ∧
      (Tree.node made shape parts).unmet = Tree.unmetAll parts ∧
      middle.KeepsKinds later ∧ later.shape? (some made) = some shape := by
  have regular : shape.IsRegular := Shape.isRegular_of_not_isLoop fun _ _ _ _ _ same => by
    rw [same] at bare
    cases bare
  refine ⟨(middle.make shape).1, middle.nodes.size, rfl,
    (work.perm perm).andAdd slots regular quiet ?_ full,
    Tree.unmet_of_isClear (Shape.isClear_of_isBare bare),
    (keeps_make middle shape).keepsKinds, shape?_make_id middle shape⟩
  rw [Shape.bodySlots_of_isBare bare]
  exact List.forall_mem_nil _

/-- A further node whose parts do not matter later. -/
theorem andNew (work : Rebuilds store middle trees built) (shape : Shape)
    (parts rest : List Tree) (perm : built.Perm (parts ++ rest))
    (slots : shape.slots = parts.map Tree.root) (bare : shape.isBare = true)
    (quiet : ∀ slot ∈ shape.quietSlots, middle.IsQuietAt slot)
    (full : shape.isHollow = false) :
    ∃ later made new, middle.make shape = (later, made) ∧ new.root = some made ∧
      Rebuilds store later trees (new :: rest) ∧ new.unmet = Tree.unmetAll parts ∧
      middle.KeepsKinds later ∧ later.shape? new.root = some shape := by
  obtain ⟨later, made, result, new, unmet, kinds, found⟩ :=
    work.andNode shape parts rest perm slots bare quiet full
  exact ⟨later, made, _, result, rfl, new, unmet, kinds, found⟩

/-- A further tree is a copy. -/
theorem andCopied (work : Rebuilds store middle trees parts) (member : tree ∈ parts) :
    ∃ copied, Rebuilds store (middle.copy tree.root).1 trees (copied :: parts) ∧
      (middle.copy tree.root).2 = copied.root ∧ copied.unmet = tree.unmet ∧
      copied.text? = tree.text? ∧ copied.bare = tree.bare ∧
      ∀ id ∈ copied.names, store.nodes.size ≤ id := by
  have holds := work.all.holds tree member
  have nodup := Tree.nodup_of_mem_namesAll work.all.nodup member
  obtain ⟨copied, grown, isCopy, rooted⟩ := copy_copies holds rfl nodup
  obtain ⟨unmet, text⟩ := Tree.unmet_of_bare holds isCopy.holds isCopy.bare
  have alone : Rebuilds middle (middle.copy tree.root).1 [] [copied] := by
    refine ofNew grown (isCopy.holds.alone isCopy.nodup) (fun id inside => ?_)
      (hasTrueLinks_copy _) (isTidy_copy _) holds.copy_listsNew
    rw [Tree.namesAll, Tree.namesAll, List.append_nil] at inside
    exact isCopy.fresh id inside
  exact ⟨copied, work.trans (alone.beside work.all), rooted, unmet, text, isCopy.bare,
    fun id inside => Nat.le_trans work.touches.size (isCopy.fresh id inside)⟩

theorem andCopy (work : Rebuilds store middle trees parts) (member : tree ∈ parts) :
    ∃ copied, Rebuilds store (middle.copy tree.root).1 trees (copied :: parts) ∧
      (middle.copy tree.root).2 = copied.root ∧ copied.unmet = tree.unmet ∧
      copied.text? = tree.text? := by
  obtain ⟨copied, work, rooted, unmet, text, -⟩ := work.andCopied member
  exact ⟨copied, work, rooted, unmet, text⟩

end Chains

end Rebuilds

namespace Remakes

section Extras
variable {store middle later : Store} {tree remade : Tree} {extras others : List Tree}

/-- Work on what was taken out. -/
theorem further (remakes : Remakes store middle tree remade extras)
    (work : Rebuilds middle later extras others) : Remakes store later tree remade others := by
  have all : middle.HoldsAll (extras ++ [remade]) :=
    remakes.rebuilds.all.perm (List.perm_append_singleton remade extras).symm
  obtain ⟨-, -, apart⟩ := holdsAll_append.mp all
  have beside : Rebuilds middle later (remade :: extras) (remade :: others) :=
    ((work.beside all).permBefore (List.perm_append_singleton remade extras)).perm
      (List.perm_append_singleton remade others)
  have outside : ∀ id ∈ remade.names, id ∉ Tree.namesAll extras := fun id inside there =>
    apart id there (Tree.mem_namesAll.mpr ⟨remade, List.mem_singleton_self _, inside⟩)
  have held := remakes.rebuilds.all.holds remade List.mem_cons_self
  refine ⟨remakes.rebuilds.trans beside, remakes.root, remakes.text, ?_, ?_, remakes.needs⟩
  · rw [← remakes.link, ← remakes.root]
    exact work.touches.parent_root held outside
  · intro body prelude rooted framed
    have inside := Tree.mem_names_root (remakes.root.trans rooted)
    exact (remakes.headed body prelude rooted framed).carry work.kinds
      (work.touches.shape body (held.lt_size inside) (outside body inside))

/-- What was taken out is given up. -/
theorem without (remakes : Remakes store later tree remade extras) :
    Remakes store later tree remade [] := by
  have all : later.HoldsAll ([remade] ++ extras) := remakes.rebuilds.all
  exact remakes.further (.droppingAll (holdsAll_append.mp all).2.1)

end Extras

end Remakes

/-- A program still stands, with the jumps needing no more than before. -/
def Remade (store later : Store) (tree : Tree) : Prop :=
  ∃ remade, Remakes store later tree remade []

/-- An edit applied and left the program standing. -/
def Applied (store : Store) (edit : Store × Bool) (tree : Tree) : Prop :=
  store.Remade edit.1 tree ∧ edit.2 = true

namespace Stands

section Parts
variable {store middle later : Store} {root id old : NodeId} {tree made part new : Tree}
  {shape : Shape} {below built extras : List Tree}

theorem isArena (stands : store.Stands root tree) : store.IsArena root :=
  ⟨⟨tree, stands.holds, stands.rooted, stands.nodup⟩, stands.top, stands.links⟩

theorem remade (stands : store.Stands root tree) (remakes : Remakes store later tree made []) :
    later.Stands root made := by
  have rooted := remakes.root.trans stands.rooted
  refine ⟨remakes.rebuilds.all.holds made List.mem_cons_self, rooted,
    Tree.nodup_of_mem_namesAll remakes.rebuilds.all.nodup List.mem_cons_self, ?_,
    remakes.rebuilds.links stands.links, remakes.rebuilds.tidy stands.tidy,
    remakes.rebuilds.kinds _ _ stands.file⟩
  rw [← stands.rooted, remakes.link, stands.rooted, stands.top]

theorem mem_descendants (stands : store.Stands root tree) :
    id ∈ store.descendants (some root) ↔ id ∈ tree.names := by
  rw [← stands.rooted, (stands.holds.descendants_perm stands.nodup).mem_iff]

theorem mem_of_isAttached (stands : store.Stands root tree)
    (attached : store.isAttached root (some id) = true) : id ∈ tree.names := by
  obtain ⟨_, inside, same⟩ := stands.isArena.mem_of_isAttached stands.holds stands.rooted attached
  cases same
  exact inside

/-- The part below a node. -/
theorem opened (stands : store.Stands root tree) (inside : id ∈ tree.names)
    (found : store.shape? (some id) = some shape) :
    ∃ below, Tree.Within (.node id shape below) tree ∧ store.Holds (.node id shape below) ∧
      (Tree.node id shape below).names.Nodup ∧ shape.slots = below.map Tree.root := by
  obtain ⟨part, within, rooted⟩ := Tree.exists_within inside
  have holds := stands.holds.within within
  have nodup := within.nodup stands.nodup
  cases holds with
  | nothing => cases rooted
  | @node name there below shaped regular roots links held =>
    cases rooted
    rw [found] at shaped
    cases shaped
    exact ⟨below, within, .node found regular roots links held, nodup, roots⟩

/-- The parent of a node is in the tree and lists the node. -/
theorem parent_mem (stands : store.Stands root tree) (inside : id ∈ tree.names) {parent : NodeId}
    (linked : store.parent (some id) = some parent) : parent ∈ tree.names ∧
      ∃ shape, store.shape? (some parent) = some shape ∧ some id ∈ shape.slots := by
  refine ⟨?_, stands.links id parent linked⟩
  have deeper : id ∈ tree.inner := by
    cases tree with
    | nothing => cases inside
    | node name shape below =>
      rcases List.mem_cons.mp inside with same | there
      · have rooted := stands.rooted
        cases rooted
        rw [same, stands.top] at linked
        cases linked
      · exact there
  obtain ⟨above, there, same⟩ := stands.holds.parent_mem deeper
  rw [linked] at same
  cases same
  exact there

/-- The node around a part. -/
theorem above (stands : store.Stands root tree) (within : Tree.Within part tree)
    (rooted : part.root = some id) (found : store.shape? (some id) = some shape)
    (inList : shape.isContainer = false) :
    ∃ parent outer front back, store.parent (some id) = some parent ∧
      Tree.Within (.node parent outer (front ++ part :: back)) tree ∧
      store.Holds (.node parent outer (front ++ part :: back)) ∧
      (Tree.node parent outer (front ++ part :: back)).names.Nodup := by
  rcases within.eq_or_exists_above with same | ⟨parent, outer, below, around, member⟩
  · subst same
    rw [stands.rooted] at rooted
    cases rooted
    have file := stands.file
    rw [kind?, found, Option.map_some, Option.some.injEq] at file
    fun_cases Shape.kind shape <;> simp_all [Shape.kind, Shape.isContainer, Shape.statements?]
  · obtain ⟨front, back, rfl⟩ := List.append_of_mem member
    have holds := stands.holds.within around
    refine ⟨parent, outer, front, back, ?_, around, holds, around.nodup stands.nodup⟩
    cases holds with
    | node _ _ _ links _ =>
      have linked := links part member (by rw [rooted]; rfl)
      rwa [rooted] at linked

/-- A new tree takes the place of a part below some node. -/
theorem replacing_around (stands : store.Stands root tree) (within : Tree.Within part tree)
    (rooted : part.root = some old) (found : store.shape? (some old) = some shape)
    (plain : shape.isPlain = true) (inList : shape.isContainer = false)
    (work : Rebuilds store middle [part] (new :: extras))
    (link : middle.parent (some old) = store.parent (some old)) (needs : part.NeedsNoMore new)
    (fits : middle.Fits shape new.root) :
    ∃ later remade parent outer changed front back,
      middle.replaceNode (some old) new.root = (later, true) ∧
      Remakes store later tree remade [] ∧ store.parent (some old) = some parent ∧
      changed.withSlots [] = outer.withSlots [] ∧
      Tree.Placed (.node parent outer (front ++ part :: back))
        (.node parent changed (front ++ new :: back)) tree remade := by
  obtain ⟨parent, outer, front, back, linked, around, holds, nodup⟩ :=
    stands.above within rooted found inList
  obtain ⟨later, result, remakes⟩ :=
    Remakes.replacing holds nodup work rooted found plain needs fits
  obtain ⟨remade, whole, placed⟩ := remakes.without.within_placed around stands.holds stands.nodup
  refine ⟨later, remade, parent, outer, _, front, back, ?_, whole, linked,
    Shape.withSlots_withSlots _ _ _, placed⟩
  rw [replaceNode, link, linked]
  exact result

/-- A new tree takes the place of a part. -/
theorem replacing_placed (stands : store.Stands root tree) (within : Tree.Within part tree)
    (rooted : part.root = some old) (found : store.shape? (some old) = some shape)
    (plain : shape.isPlain = true) (inList : shape.isContainer = false)
    (work : Rebuilds store middle [part] (new :: extras))
    (link : middle.parent (some old) = store.parent (some old)) (needs : part.NeedsNoMore new)
    (fits : middle.Fits shape new.root) :
    ∃ later remade, middle.replaceNode (some old) new.root = (later, true) ∧
      Remakes store later tree remade [] ∧ Tree.Placed part new tree remade := by
  obtain ⟨later, remade, parent, outer, changed, front, back, result, remakes, -, same, placed⟩ :=
    stands.replacing_around within rooted found plain inList work link needs fits
  exact ⟨later, remade, result, remakes, (Tree.Placed.here.deeper same).trans placed⟩

/-- What is below a node is taken apart, with the node itself in its place. -/
theorem opening (stands : store.Stands root tree)
    (within : Tree.Within (.node old shape below) tree) (free : shape.isTied = false)
    (work : Rebuilds store middle below built) :
    Rebuilds store middle [.node old shape below] built ∧
      middle.parent (some old) = store.parent (some old) := by
  have holds := stands.holds.within within
  have nodup := within.nodup stands.nodup
  have opening := Rebuilds.opening (holds.alone nodup) free
  rw [List.append_nil] at opening
  exact ⟨opening.trans work, (holds.shape?_middle nodup (List.Subset.refl _) work.touches).2⟩

/-- A new tree, made of what is below a node, takes the place of the node below another. -/
theorem replacingOpened_around (stands : store.Stands root tree)
    (within : Tree.Within (.node old shape below) tree) (plain : shape.isPlain = true)
    (inList : shape.isContainer = false) (free : shape.isTied = false)
    (work : Rebuilds store middle below (new :: extras))
    (needs : (Tree.node old shape below).NeedsNoMore new)
    (fits : middle.Fits shape new.root) :
    ∃ later remade parent outer changed front back,
      middle.replaceNode (some old) new.root = (later, true) ∧
      Remakes store later tree remade [] ∧ store.parent (some old) = some parent ∧
      changed.withSlots [] = outer.withSlots [] ∧
      Tree.Placed (.node parent outer (front ++ .node old shape below :: back))
        (.node parent changed (front ++ new :: back)) tree remade := by
  obtain ⟨opened, link⟩ := stands.opening within free work
  exact stands.replacing_around within rfl (stands.holds.within within).shape?_node plain inList
    opened link needs fits

/-- A new tree, made of what is below a node, takes the place of the node. -/
theorem replacingOpened_placed (stands : store.Stands root tree)
    (within : Tree.Within (.node old shape below) tree) (plain : shape.isPlain = true)
    (inList : shape.isContainer = false) (free : shape.isTied = false)
    (work : Rebuilds store middle below (new :: extras))
    (needs : (Tree.node old shape below).NeedsNoMore new)
    (fits : middle.Fits shape new.root) :
    ∃ later remade, middle.replaceNode (some old) new.root = (later, true) ∧
      Remakes store later tree remade [] ∧ Tree.Placed (.node old shape below) new tree remade := by
  obtain ⟨opened, link⟩ := stands.opening within free work
  exact stands.replacing_placed within rfl (stands.holds.within within).shape?_node plain inList
    opened link needs fits

theorem replacingOpened (stands : store.Stands root tree)
    (within : Tree.Within (.node old shape below) tree) (plain : shape.isPlain = true)
    (inList : shape.isContainer = false) (free : shape.isTied = false)
    (work : Rebuilds store middle below (new :: extras))
    (needs : (Tree.node old shape below).NeedsNoMore new)
    (fits : middle.Fits shape new.root) :
    store.Applied (middle.replaceNode (some old) new.root) tree := by
  obtain ⟨later, remade, result, remakes, -⟩ :=
    stands.replacingOpened_placed within plain inList free work needs fits
  rw [result]
  exact ⟨⟨remade, remakes⟩, rfl⟩

/-- The list around a statement that has a position. -/
theorem listed (stands : store.Stands root tree) (inside : id ∈ tree.names)
    (position : (store.position? (some id)).isSome = true) :
    ∃ container shape lead front part back, store.parent (some id) = some container ∧
      part.root = some id ∧
      Tree.Within (.node container shape (lead ++ (front ++ part :: back))) tree ∧
      shape.leading = lead.map Tree.root ∧
      shape.statements? = some ((front ++ part :: back).map Tree.root) := by
  rw [position?] at position
  cases linked : store.parent (some id) with
  | none =>
    rw [linked] at position
    cases position
  | some container =>
    obtain ⟨there, shape, found, -⟩ := stands.parent_mem inside linked
    obtain ⟨below, within, holds, nodup, roots⟩ := stands.opened there found
    rw [linked] at position
    simp only [statements?, found, Option.bind_some] at position
    cases has : shape.statements? with
    | none =>
      rw [has] at position
      cases position
    | some statements =>
      obtain ⟨lead, old, rfl, leading, rfl⟩ := holds.split_statements has
      rw [has, Option.bind_some, Option.isSome_map, List.findIdx?_isSome, List.any_eq_true] at position
      obtain ⟨slot, member, same⟩ := position
      cases eq_of_beq same
      obtain ⟨part, among, rooted⟩ := List.mem_map.mp member
      obtain ⟨front, back, rfl⟩ := List.append_of_mem among
      exact ⟨container, shape, lead, front, part, back, rfl, rooted, within, leading, has⟩

/-- A node has its children in another order, or is of another shape of its kind. -/
theorem shuffled (stands : store.Stands root tree)
    (within : Tree.Within (.node id shape below) tree) (changed : Shape) {parts : List Tree}
    (perm : below.Perm parts) (kind : changed.kind = shape.kind)
    (slots : changed.slots = parts.map Tree.root) (clear : shape.isClear = true)
    (still : changed.isBare = true) (quiet : changed.quietSlots ⊆ shape.quietSlots)
    (noBlock : shape.isBlock = false)
    (text : (Tree.node id changed parts).text? = (Tree.node id shape below).text?)
    (full : changed.isHollow = false) :
    ∃ remade, Remakes store (store.setShape id changed) tree remade [] ∧
      Tree.Placed (.node id shape below) (.node id changed parts) tree remade := by
  have holds := stands.holds.within within
  have nodup := within.nodup stands.nodup
  have all := holds.holdsAll_below nodup
  cases holds with
  | node found regular roots links held =>
  have reshapes := reshapes_setShape_only (lt_size_of_shape? found) changed
  have same : ∀ slot ∈ shape.slots, slot ∈ changed.slots := by
    intro slot listed
    rw [roots] at listed
    rw [slots]
    exact (perm.map Tree.root).mem_iff.mp listed
  have reshaped : changed.IsRegular := Shape.isRegular_of_not_isLoop fun _ _ _ _ _ same => by
    rw [same] at still
    cases still
  have closes : Rebuilds.Closes store id shape changed parts [] [] := by
    refine ⟨kind, slots, reshaped, fun part member child rooted => .inr ⟨?_, List.not_mem_nil⟩,
      List.forall_mem_nil _, List.forall_mem_nil _, fun slot listed => .inl (same slot listed),
      fun tidy => ⟨fun child listed => (tidy id shape found).quiet child (quiet listed),
        fun child listed => ?_, full, reshaped⟩⟩
    · have linked := links part (perm.mem_iff.mpr member) (by rw [rooted]; rfl)
      rwa [rooted] at linked
    · rw [Shape.bodySlots_of_isBare still] at listed
      cases listed
  have work : Rebuilds store store (below ++ []) (parts ++ []) := by
    rw [List.append_nil, List.append_nil]
    exact (Rebuilds.refl all).perm perm
  have framed : ∀ prelude, store.IsFramed id prelude →
      (store.setShape id changed).IsFramed id prelude := by
    rintro prelude ⟨body, ⟨_, _, _, _, shaped⟩, -⟩
    rw [found] at shaped
    cases shaped
    cases clear
  obtain ⟨rebuilds, link⟩ := Rebuilds.reshaping
    (Holds.alone (.node found regular roots links held) nodup) work reshapes closes framed
  have remakes : Remakes store (store.setShape id changed) (.node id shape below)
      (.node id changed parts) [] := by
    refine ⟨rebuilds, rfl, text, link, ?_, .inr ?_⟩
    · rintro body prelude same ⟨statements, shaped, -⟩
      cases same
      rw [found] at shaped
      cases shaped
      cases noBlock
    · rw [Tree.unmet_of_isClear clear, Tree.unmet_of_isClear (Shape.isClear_of_isBare still)]
      exact Tree.unmetAll_subset_of_subset perm.symm.subset
  exact remakes.within_placed within stands.holds stands.nodup

end Parts

end Stands

end Store

end Unflatten
