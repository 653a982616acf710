import Unflatten.Proofs.Syntax.Copying

/-! # What jumps need

A `break` needs a loop or a `switch` around it, a `continue` a loop, both in the same function,
and a jump with a label a statement with that label.  `Tree.unmet` lists what the jumps in a tree
need of what stands around the tree. -/

set_option autoImplicit false

namespace Unflatten

/-- What a jump needs around it. -/
inductive Target where
  | breaks
  | continues
  | label (text : String)
  /-- Nothing will do: the function of the jump has ended, or its label is no name. -/
  | stray
  deriving DecidableEq, Repr

namespace Shape

/-- What a jump asks for; the label is the text of its identifier. -/
def asks (label : Option String) : Shape → List Target
  | .jump .breaks none => [.breaks]
  | .jump .continues none => [.continues]
  | .jump _ (some _) => [label.elim .stray .label]
  | _ => []

/-- What is left of a need outside a node. -/
def leaves (label : Option String) : Shape → Target → Option Target
  | .loop _ _ _ _ _, .breaks | .loop _ _ _ _ _, .continues => none
  | .forIn _ _ _, .breaks | .forIn _ _ _, .continues => none
  | .switch _ _, .breaks => none
  | .labeled _ _, .label text => if label = some text then none else some (.label text)
  | .function _ _ _ _, .breaks | .function _ _ _ _, .continues => some .stray
  | _, target => some target

/-- A shape that neither asks for anything nor gives anything to what is below. -/
def isClear : Shape → Bool
  | .jump _ _ | .loop _ _ _ _ _ | .forIn _ _ _ | .switch _ _ | .labeled _ _
  | .function _ _ _ _ => false
  | _ => true

theorem leaves_withSlots (shape : Shape) (slots : List Slot) (label : Option String) :
    (shape.withSlots slots).leaves label = shape.leaves label := by
  funext target
  cases shape <;> cases target <;> rfl

end Shape

namespace Tree

/-- The text of an identifier. -/
def text? : Tree → Option String
  | .node _ (.identifier text) _ => some text
  | _ => none

/-- The text in the first slot, which is the label of a labeled statement or a jump. -/
def label? (below : List Tree) : Option String := below.head?.bind text?

mutual

/-- What the jumps in a tree need around it. -/
def unmet : Tree → List Target
  | .nothing => []
  | .node _ shape below =>
    shape.asks (label? below) ++ (unmetAll below).filterMap (shape.leaves (label? below))

/-- What the jumps in some trees need around them. -/
def unmetAll : List Tree → List Target
  | [] => []
  | tree :: rest => tree.unmet ++ unmetAll rest

end

section Unmet
variable {id other : NodeId} {shape changed : Shape} {below parts : List Tree} {tree part : Tree}
  {target : Target}

@[simp] theorem unmet_nothing : Tree.nothing.unmet = [] := rfl

@[simp] theorem unmetAll_nil : unmetAll [] = [] := rfl

@[simp] theorem unmetAll_cons (tree : Tree) (rest : List Tree) :
    unmetAll (tree :: rest) = tree.unmet ++ unmetAll rest := rfl

theorem unmetAll_eq (trees : List Tree) : unmetAll trees = trees.flatMap unmet := by
  induction trees with
  | nil => rfl
  | cons tree rest ih => rw [unmetAll, ih, List.flatMap_cons]

@[simp] theorem unmetAll_append (first second : List Tree) :
    unmetAll (first ++ second) = unmetAll first ++ unmetAll second := by
  simp only [unmetAll_eq, List.flatMap_append]

theorem mem_unmetAll : target ∈ unmetAll below ↔ ∃ tree ∈ below, target ∈ tree.unmet := by
  rw [unmetAll_eq, List.mem_flatMap]

theorem unmetAll_subset_of_subset (within : parts ⊆ below) : unmetAll parts ⊆ unmetAll below := by
  intro target needed
  obtain ⟨tree, member, there⟩ := mem_unmetAll.mp needed
  exact mem_unmetAll.mpr ⟨tree, within member, there⟩

theorem text?_node (first second : List Tree) :
    (Tree.node id shape first).text? = (Tree.node other shape second).text? := by
  cases shape <;> rfl

theorem label?_middle {front back : List Tree} (same : tree.text? = part.text?) :
    label? (front ++ tree :: back) = label? (front ++ part :: back) := by
  cases front with
  | nil => exact same
  | cons => rfl

/-- A node that asks for no more and leaves no more needs no more if its parts need no more. -/
theorem unmet_node_subset (asks : changed.asks (label? parts) ⊆ shape.asks (label? below))
    (leaves : ∀ target left, changed.leaves (label? parts) target = some left →
      shape.leaves (label? below) target = some left)
    (needs : unmetAll parts ⊆ unmetAll below) :
    (Tree.node other changed parts).unmet ⊆ (Tree.node id shape below).unmet := by
  intro target needed
  rw [unmet, List.mem_append] at needed ⊢
  refine needed.imp (fun asked => asks asked) fun outside => ?_
  obtain ⟨inner, there, left⟩ := List.mem_filterMap.mp outside
  exact List.mem_filterMap.mpr ⟨inner, needs there, leaves inner target left⟩

theorem unmet_of_isClear (clear : shape.isClear = true) :
    (Tree.node id shape below).unmet = unmetAll below := by
  have same : ∀ target, shape.leaves (label? below) target = some target := by
    intro target
    cases shape
    case jump | loop | forIn | switch | labeled | function => cases clear
    all_goals cases target <;> rfl
  have asks : shape.asks (label? below) = [] := by
    cases shape
    case jump => cases clear
    all_goals rfl
  rw [unmet, asks, List.nil_append]
  conv_rhs => rw [← List.filterMap_some (l := unmetAll below)]
  exact List.filterMap_congr fun target _ => same target

/-- No node around a stray jump helps it. -/
theorem stray_mem_unmet_node (needed : .stray ∈ unmetAll below) :
    .stray ∈ (Tree.node id shape below).unmet := by
  rw [unmet, List.mem_append]
  refine .inr (List.mem_filterMap.mpr ⟨.stray, needed, ?_⟩)
  cases shape <;> rfl

/-- The jumps of a tree need no more than those of another, unless those cannot be helped. -/
def NeedsNoMore (tree later : Tree) : Prop := .stray ∈ tree.unmet ∨ later.unmet ⊆ tree.unmet

theorem NeedsNoMore.refl (tree : Tree) : NeedsNoMore tree tree := .inr (List.Subset.refl _)

theorem NeedsNoMore.trans {middle later : Tree} (first : NeedsNoMore tree middle)
    (second : NeedsNoMore middle later) : NeedsNoMore tree later := by
  rcases first with lost | fewer
  · exact .inl lost
  · exact second.imp (fun lost => fewer lost) fun less _ needed => fewer (less needed)

/-- A tree among others needs no more than before. -/
theorem NeedsNoMore.middle {front back : List Tree} (needs : NeedsNoMore part tree) :
    .stray ∈ unmetAll (front ++ part :: back) ∨
      unmetAll (front ++ tree :: back) ⊆ unmetAll (front ++ part :: back) := by
  refine needs.imp (fun lost => ?_) fun fewer target needed => ?_
  · rw [unmetAll_append, unmetAll_cons]
    exact List.mem_append_right _ (List.mem_append_left _ lost)
  · rw [unmetAll_append, unmetAll_cons, List.mem_append, List.mem_append] at needed ⊢
    exact needed.imp_right (Or.imp_left fun here => fewer here)

theorem NeedsNoMore.node {front back : List Tree} (needs : NeedsNoMore part tree)
    (same : tree.text? = part.text?) :
    NeedsNoMore (.node id shape (front ++ part :: back)) (.node id shape (front ++ tree :: back)) := by
  refine needs.middle.imp stray_mem_unmet_node fun fewer => ?_
  have label : label? (front ++ tree :: back) = label? (front ++ part :: back) := label?_middle same
  exact unmet_node_subset (by rw [label]; exact List.Subset.refl _)
    (fun target left leaves => by rwa [label] at leaves) fewer

theorem NeedsNoMore.unmet_eq_nil {later : Tree} (needs : NeedsNoMore tree later)
    (met : tree.unmet = []) : later.unmet = [] := by
  rcases needs with lost | fewer
  · rw [met] at lost
    cases lost
  · rw [met] at fewer
    exact List.eq_nil_of_subset_nil fewer

end Unmet

/-- The jumps of some trees need at most a loop or a `switch` in addition. -/
def AddsBreaks (before after : List Tree) : Prop := unmetAll after ⊆ .breaks :: unmetAll before

section AddsBreaks
variable {before middle after others : List Tree} {tree : Tree} {id : NodeId} {target : Target}

theorem AddsBreaks.of_subset (fewer : unmetAll after ⊆ unmetAll before) : AddsBreaks before after :=
  fun _ needed => List.mem_cons_of_mem _ (fewer needed)

theorem AddsBreaks.refl (trees : List Tree) : AddsBreaks trees trees :=
  .of_subset (List.Subset.refl _)

theorem AddsBreaks.trans (first : AddsBreaks before middle) (second : AddsBreaks middle after) :
    AddsBreaks before after := by
  intro target needed
  rcases List.mem_cons.mp (second needed) with rfl | there
  · exact List.mem_cons_self
  · exact first there

/-- More trees may need as much. -/
theorem AddsBreaks.after_subset (adds : AddsBreaks before after) (within : before.Sublist others) :
    AddsBreaks others after :=
  (AddsBreaks.of_subset (unmetAll_subset_of_subset within.subset)).trans adds

theorem AddsBreaks.append {more : List Tree} (first : AddsBreaks before after)
    (second : AddsBreaks others more) : AddsBreaks (before ++ others) (after ++ more) := by
  intro target needed
  rw [unmetAll_append, List.mem_append] at needed
  rw [unmetAll_append, List.mem_cons, List.mem_append]
  rcases needed with here | there
  · exact (List.mem_cons.mp (first here)).imp_right .inl
  · exact (List.mem_cons.mp (second there)).imp_right .inr

theorem AddsBreaks.beside (adds : AddsBreaks before after) (others : List Tree) :
    AddsBreaks (before ++ others) (after ++ others) :=
  adds.append (.refl others)

/-- A node that gives its parts nothing needs no more breaks than they do. -/
theorem AddsBreaks.clear {other : NodeId} {shape changed : Shape}
    (adds : AddsBreaks before after) (clear : shape.isClear = true) (still : changed.isClear = true) :
    AddsBreaks [.node id shape before] [.node other changed after] := by
  intro target needed
  rw [unmetAll_cons, unmetAll_nil, List.append_nil, unmet_of_isClear still] at needed
  rw [unmetAll_cons, unmetAll_nil, List.append_nil, unmet_of_isClear clear]
  exact adds needed

/-- A `switch` meets every `break` in it and nothing else. -/
theorem mem_unmet_switch {discriminant : Slot} {clauses : List Slot} {below : List Tree} :
    target ∈ (Tree.node id (.switch discriminant clauses) below).unmet ↔
      target ∈ unmetAll below ∧ target ≠ .breaks := by
  rw [unmet, show Shape.asks _ (.switch discriminant clauses) = [] from rfl, List.nil_append,
    List.mem_filterMap]
  constructor
  · rintro ⟨inner, there, left⟩
    cases inner <;> cases left <;> exact ⟨there, by simp⟩
  · rintro ⟨there, other⟩
    refine ⟨target, there, ?_⟩
    cases target
    case breaks => exact absurd rfl other
    all_goals rfl

/-- Nothing is needed of a `switch` made of trees that need something to break from. -/
theorem AddsBreaks.switch {discriminant : Slot} {clauses : List Slot} {below : List Tree}
    (adds : AddsBreaks before below) :
    (Tree.node id (.switch discriminant clauses) below).unmet ⊆ unmetAll before := by
  intro target needed
  obtain ⟨there, other⟩ := mem_unmet_switch.mp needed
  exact (List.mem_cons.mp (adds there)).resolve_left other

/-- A `switch` whose clauses need more breaks needs no more itself. -/
theorem AddsBreaks.switches {discriminant : Slot} {clauses : List Slot}
    (adds : AddsBreaks before after) (tree : Tree) :
    AddsBreaks [.node id (.switch discriminant clauses) (tree :: before)]
      [.node id (.switch discriminant clauses) (tree :: after)] := by
  refine .of_subset ?_
  rw [unmetAll_cons, unmetAll_cons, unmetAll_nil, List.append_nil, List.append_nil]
  intro target needed
  obtain ⟨there, other⟩ := mem_unmet_switch.mp needed
  refine mem_unmet_switch.mpr ⟨?_, other⟩
  exact (List.mem_cons.mp (((AddsBreaks.refl [tree]).append adds) there)).resolve_left other

end AddsBreaks

section Bare
variable {store later : Store} {tree copied : Tree}

/-- The jumps of a copy need what those of the original need. -/
theorem unmet_of_bare (holds : store.Holds tree) (also : later.Holds copied)
    (same : copied.bare = tree.bare) : copied.unmet = tree.unmet ∧ copied.text? = tree.text? := by
  induction tree generalizing copied with
  | nothing =>
    cases copied with
    | nothing => exact ⟨rfl, rfl⟩
    | node => cases same
  | node id shape below ih =>
    cases copied with
    | nothing => cases same
    | node other changed parts =>
      rw [bare, bare, Tree.node.injEq, bareAll_eq, bareAll_eq] at same
      obtain ⟨-, shapes, trees⟩ := same
      cases holds with
      | node _ _ roots _ held =>
      cases also with
      | node _ _ roots' _ held' =>
      have each : ∀ (first second : List Tree), second.map bare = first.map bare →
          first ⊆ below → second ⊆ parts →
          unmetAll second = unmetAll first ∧ label? second = label? first ∧
            second.map (fun tree => tree.root.isSome) = first.map (fun tree => tree.root.isSome) := by
        intro first
        induction first with
        | nil =>
          intro second same _ _
          cases List.map_eq_nil_iff.mp same
          exact ⟨rfl, rfl, rfl⟩
        | cons tree rest again =>
          intro second same within among
          obtain ⟨copy, others, rfl, here, there⟩ := List.map_eq_cons_iff.mp same
          obtain ⟨unmet, text⟩ := ih tree (within List.mem_cons_self)
            (held _ (within List.mem_cons_self)) (held' _ (among List.mem_cons_self)) here
          obtain ⟨unmets, -, presents⟩ := again others there
            (fun _ member => within (List.mem_cons_of_mem _ member))
            (fun _ member => among (List.mem_cons_of_mem _ member))
          refine ⟨by rw [unmetAll, unmetAll, unmet, unmets], text, ?_⟩
          rw [List.map_cons, List.map_cons, presents]
          cases copy <;> cases tree <;> first | rfl | cases here
      obtain ⟨unmets, label, presents⟩ := each below parts trees (List.Subset.refl _)
        (List.Subset.refl _)
      have filled : changed = shape.withSlots changed.slots := by
        rw [← Shape.withSlots_withSlots shape [], ← shapes, Shape.withSlots_withSlots,
          Shape.withSlots_slots]
      refine ⟨?_, ?_⟩
      · rw [unmet, unmet, unmets, label]
        congr 1
        · cases shape with
          | jump kind asked =>
            -- a copy has a label if there is one
            have slots : changed.slots.map Option.isSome = [asked.isSome] := by
              have before : below.map (fun tree => tree.root.isSome) = [asked.isSome] := by
                have listed := congrArg (List.map Option.isSome) roots
                rw [List.map_map] at listed
                exact listed.symm
              rw [roots', List.map_map]
              exact presents.trans before
            rw [filled]
            obtain ⟨slot, listed, same⟩ := List.map_eq_singleton_iff.mp slots
            rw [listed]
            cases kind <;> cases asked <;> cases slot <;> first | rfl | cases same
          | _ =>
            rw [filled]
            rfl
        · rw [filled, Shape.leaves_withSlots]
      · rw [filled]
        cases shape <;> rfl

end Bare

end Tree

end Unflatten
