import Unflatten.Proofs.Syntax.Moving
import Unflatten.Proofs.Token.Scanning

/-! # Spans of nodes

A node spans a stretch of the source, which never changes.  In a nested store (`Store.IsNested`)
each node spans a stretch between two characters, and its children stand in it one behind the
other (`Store.InLine`).  The tokens that a tree shows (`Store.shown`) are those of its nodes that
are names, numbers, strings or regular expressions, in the order of the walk down. -/

set_option autoImplicit false

namespace Unflatten

/-- The text between two offsets. -/
def Text.stretch (text : List Char) (start stop : Nat) : List Char :=
  takeBytes (stop - start) (dropBytes start text)

/-- The token that a node of a shape stands for.  The name of a property may be a reserved word,
and then it is no identifier. -/
def Shape.token? (text : List Char) (start stop : Nat) : Shape → Option Token
  | .identifier name =>
    if (TokenKind.keyword? (String.ofList (Text.stretch text start stop))).isSome then none
    else some ⟨.identifier, start, stop, name⟩
  | .literal .number value _ => some ⟨.numericLiteral, start, stop, value⟩
  | .literal .string value _ => some ⟨.stringLiteral, start, stop, value⟩
  | .literal .pattern value _ => some ⟨.regularExpressionLiteral, start, stop, value⟩
  | _ => none

namespace Store

/-- The stretch of the source that a node comes from. -/
def span? (store : Store) (id : NodeId) : Option (Nat × Nat) :=
  store.nodes[id]?.map fun node => (node.start, node.stop)

/-- Nodes stand between two offsets, one behind the other. -/
structure InLine (store : Store) (low high : Nat) (ids : List NodeId) : Prop where
  within : ∀ id ∈ ids, ∃ start stop, store.span? id = some (start, stop) ∧
    low ≤ start ∧ start ≤ stop ∧ stop ≤ high
  apart : ids.Pairwise fun first second => ∀ span span', store.span? first = some span →
    store.span? second = some span' → span.2 ≤ span'.1

/-- A node spans a stretch between two characters, in which its children stand in line. -/
structure Nests (text : List Char) (store : Store) (id : NodeId) (shape : Shape) : Prop where
  span : ∃ start stop, store.span? id = some (start, stop) ∧ start ≤ stop ∧
    Text.IsBoundary text start ∧ Text.IsBoundary text stop ∧ store.InLine start stop shape.children
  older : ∀ child ∈ shape.children, child < id

/-- All nodes nest. -/
def IsNested (text : List Char) (store : Store) : Prop :=
  ∀ id shape, store.shape? (some id) = some shape → store.Nests text id shape

/-- The token that a node stands for. -/
def token? (text : List Char) (store : Store) (id : NodeId) : Option Token :=
  store.nodes[id]?.bind fun node => node.shape.token? text node.start node.stop

/-- A node and those below it.  Children are older than their parent, so the walk ends. -/
def preorder (store : Store) (id : NodeId) : List NodeId := store.preorderOnto (id + 1) id []

/-- The tokens that a tree shows. -/
def shown (text : List Char) (store : Store) (id : NodeId) : List Token :=
  (store.preorder id).filterMap (store.token? text)

/-- A later store, in which every node is what it was. -/
structure LastsIn (store later : Store) : Prop where
  keeps : store.Keeps later
  spans : ∀ id span, store.span? id = some span → later.span? id = some span

section Spans
variable (store : Store) (id : NodeId)

theorem span?_setParents (slots : List Slot) (parent : Slot) :
    (store.setParents slots parent).span? id = store.span? id := by
  unfold setParents
  induction slots generalizing store with
  | nil => rfl
  | cons first rest ih =>
    rw [List.foldl_cons, ih]
    cases first with
    | none => rfl
    | some child =>
      simp only [span?, setParent, Array.getElem?_modify]
      split
      · cases store.nodes[id]? <;> rfl
      · rfl

theorem span?_add (shape : Shape) (flags : Flags) (start stop : Nat) :
    (store.add shape flags start stop).1.span? id =
      if id = store.nodes.size then some (start, stop) else store.span? id := by
  unfold add
  rw [span?_setParents]
  simp only [push, span?, Array.getElem?_push]
  split <;> rfl

theorem span?_eq_none (beyond : store.nodes.size ≤ id) : store.span? id = none := by
  simp [span?, beyond]

/-- A node has a shape if and only if it has a span. -/
theorem exists_shape?_iff :
    (∃ shape, store.shape? (some id) = some shape) ↔ ∃ span, store.span? id = some span := by
  simp only [shape?, node?, span?, Option.bind_some]
  cases store.nodes[id]? <;> simp

theorem token?_eq {text : List Char} {shape : Shape} {start stop : Nat}
    (found : store.shape? (some id) = some shape) (spans : store.span? id = some (start, stop)) :
    store.token? text id = shape.token? text start stop := by
  simp only [shape?, node?, span?, token?, Option.bind_some, Option.map_eq_some_iff] at found spans ⊢
  obtain ⟨node, there, rfl⟩ := found
  obtain ⟨_, also, same⟩ := spans
  obtain rfl := Option.some_inj.mp (there.symm.trans also)
  cases same
  rw [there, Option.bind_some]

theorem children_eq {shape : Shape} (found : store.shape? (some id) = some shape) :
    store.children id = shape.children := by
  rw [children, found, Option.map_some, Option.getD_some]

end Spans

section Lines
variable {store middle later : Store} {low low' mid mid' high high' : Nat} {first second : List NodeId}

theorem LastsIn.refl (store : Store) : store.LastsIn store := ⟨.refl store, fun _ _ found => found⟩

theorem LastsIn.trans (one : store.LastsIn middle) (two : middle.LastsIn later) : store.LastsIn later :=
  ⟨one.keeps.trans two.keeps, fun id span found => two.spans id span (one.spans id span found)⟩

theorem lastsIn_add (store : Store) (shape : Shape) (flags : Flags) (start stop : Nat) :
    store.LastsIn (store.add shape flags start stop).1 := by
  refine ⟨keeps_add store shape flags start stop, fun id span found => ?_⟩
  have other : id ≠ store.nodes.size := by
    rintro rfl
    rw [span?_eq_none store _ (Nat.le_refl _)] at found
    cases found
  rw [span?_add, if_neg other, found]

theorem inLine_nil : store.InLine low high [] := ⟨List.forall_mem_nil _, .nil⟩

theorem inLine_singleton {id : NodeId} {start stop : Nat} (found : store.span? id = some (start, stop))
    (before : low ≤ start) (within : start ≤ stop) (behind : stop ≤ high) :
    store.InLine low high [id] := by
  refine ⟨fun other member => ?_, List.pairwise_singleton _ _⟩
  obtain rfl := List.mem_singleton.mp member
  exact ⟨start, stop, found, before, within, behind⟩

theorem InLine.mono (line : store.InLine low high first) (below : low' ≤ low) (above : high ≤ high') :
    store.InLine low' high' first := by
  refine ⟨fun id member => ?_, line.apart⟩
  obtain ⟨start, stop, found, before, within, behind⟩ := line.within id member
  exact ⟨start, stop, found, Nat.le_trans below before, within, Nat.le_trans behind above⟩

theorem InLine.append (one : store.InLine low mid first) (two : store.InLine mid' high second)
    (order : mid ≤ mid') (low_le : low ≤ mid') (le_high : mid ≤ high) :
    store.InLine low high (first ++ second) := by
  refine ⟨fun id member => ?_, ?_⟩
  · rcases List.mem_append.mp member with here | there
    · exact (one.mono (Nat.le_refl _) le_high).within id here
    · exact (two.mono low_le (Nat.le_refl _)).within id there
  · refine List.pairwise_append.mpr ⟨one.apart, two.apart, fun id here id' there span span' found found' => ?_⟩
    obtain ⟨start, stop, spans, -, -, behind⟩ := one.within id here
    obtain ⟨start', stop', spans', before, -, -⟩ := two.within id' there
    cases spans.symm.trans found
    cases spans'.symm.trans found'
    exact Nat.le_trans behind (Nat.le_trans order before)

theorem InLine.carry (line : store.InLine low high first) (lasts : store.LastsIn later) :
    later.InLine low high first := by
  refine ⟨fun id member => ?_, line.apart.imp_of_mem fun {id id'} here there apart span span' found found' => ?_⟩
  · obtain ⟨start, stop, found, rest⟩ := line.within id member
    exact ⟨start, stop, lasts.spans id _ found, rest⟩
  · obtain ⟨start, stop, spans, -⟩ := line.within id here
    obtain ⟨start', stop', spans', -⟩ := line.within id' there
    cases (lasts.spans id _ spans).symm.trans found
    cases (lasts.spans id' _ spans').symm.trans found'
    exact apart _ _ spans spans'

end Lines

/-! ## Walks through nested stores -/

section Nested
variable {text : List Char} {store later : Store} {id : NodeId} {shape : Shape}

theorem IsNested.lt_size (nested : store.IsNested text) (found : store.shape? (some id) = some shape)
    {child : NodeId} (listed : child ∈ shape.children) : child < store.nodes.size :=
  Nat.lt_trans ((nested id shape found).older child listed) (lt_size_of_shape? found)

/-- The walk down goes no deeper than the name of a node. -/
theorem IsNested.preorderOnto_eq (nested : store.IsNested text) {depth : Nat} (deep : id < depth) :
    store.preorderOnto depth id [] = store.preorder id := by
  induction id using Nat.strongRecOn generalizing depth with
  | ind id ih =>
    obtain ⟨rest, rfl⟩ := Nat.exists_eq_add_of_lt deep
    rw [preorder, preorderOnto_succ, preorderOnto_succ]
    refine congrArg _ (List.flatMap_congr fun child listed => ?_)
    obtain ⟨shape, found, listed⟩ : ∃ shape, store.shape? (some id) = some shape ∧
        child ∈ shape.children := by
      unfold children at listed
      cases found : store.shape? (some id) with
      | none =>
        rw [found] at listed
        cases listed
      | some shape =>
        rw [found] at listed
        exact ⟨shape, rfl, listed⟩
    have less := (nested id shape found).older child listed
    rw [ih child less (Nat.lt_of_lt_of_le less (Nat.le_add_right id rest)), ih child less less]

theorem IsNested.preorder_eq (nested : store.IsNested text) (found : store.shape? (some id) = some shape) :
    store.preorder id = id :: shape.children.flatMap store.preorder := by
  rw [preorder, preorderOnto_succ, children_eq store id found]
  exact congrArg _ (List.flatMap_congr fun child listed =>
    nested.preorderOnto_eq ((nested id shape found).older child listed))

theorem IsNested.descendants_eq (nested : store.IsNested text) (found : store.shape? (some id) = some shape) :
    store.descendants (some id) = store.preorder id :=
  nested.preorderOnto_eq (Nat.lt_succ_of_lt (lt_size_of_shape? found))

theorem IsNested.shown_eq (nested : store.IsNested text) (found : store.shape? (some id) = some shape) :
    store.shown text id = (store.token? text id).toList ++ shape.children.flatMap (store.shown text) := by
  rw [shown, nested.preorder_eq found, List.filterMap_cons]
  have below : (shape.children.flatMap store.preorder).filterMap (store.token? text) =
      shape.children.flatMap (store.shown text) := List.filterMap_flatMap
  rw [below]
  cases store.token? text id <;> rfl

/-- A tree shows the same tokens in a later store. -/
theorem IsNested.shown_carry (nested : store.IsNested text) (nested' : later.IsNested text)
    (lasts : store.LastsIn later) (bound : id < store.nodes.size) :
    later.shown text id = store.shown text id := by
  induction id using Nat.strongRecOn with
  | ind id ih =>
    obtain ⟨shape, found⟩ := exists_shape? bound
    obtain ⟨start, stop, spans, -⟩ := (nested id shape found).span
    rw [nested'.shown_eq (lasts.keeps id shape found), nested.shown_eq found,
      token?_eq later id (lasts.keeps id shape found) (lasts.spans id _ spans),
      token?_eq store id found spans]
    refine congrArg _ (List.flatMap_congr fun child listed => ?_)
    exact ih child ((nested id shape found).older child listed) (nested.lt_size found listed)

theorem IsNested.add (nested : store.IsNested text) {flags : Flags} {start stop : Nat}
    (order : start ≤ stop) (starts : Text.IsBoundary text start) (stops : Text.IsBoundary text stop)
    (line : store.InLine start stop shape.children) :
    (store.add shape flags start stop).1.IsNested text := by
  have lasts := lastsIn_add store shape flags start stop
  intro id other found
  rw [shape?_add] at found
  split at found
  · rename_i new
    cases found
    subst new
    refine ⟨⟨start, stop, ?_, order, starts, stops, line.carry lasts⟩, fun child listed => ?_⟩
    · rw [span?_add, if_pos rfl]
    · obtain ⟨_, _, spans, -⟩ := line.within child listed
      obtain ⟨_, there⟩ := (exists_shape?_iff store child).mpr ⟨_, spans⟩
      exact lt_size_of_shape? there
  · obtain ⟨⟨start', stop', spans, rest, starts', stops', line'⟩, older⟩ := nested id other found
    exact ⟨⟨start', stop', lasts.spans id _ spans, rest, starts', stops', line'.carry lasts⟩, older⟩

end Nested

end Store

end Unflatten
