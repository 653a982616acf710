import Unflatten.Proofs.Syntax.Reshaping

/-! # Nodes in their places

Expressions and declarations are quiet: statements stand below them in functions only.  An
expression that is taken out of a statement, or the head that is taken off a loop, therefore
brings no jump along that needs the statement or the loop around it.  The body of a loop or a
function is no part of another statement, so that a body that lists statements is a block.

`Store.IsTidy` says that the slots for such nodes hold such nodes.  As no edit changes the kind of
a node, each edit has to answer only for the slots that it fills. -/

set_option autoImplicit false

namespace Unflatten

/-- The kinds of statements and of their parts. -/
def NodeKind.isStatement : NodeKind → Bool
  | .sourceFile | .block | .emptyStatement | .expressionStatement | .ifStatement | .forStatement
  | .forInStatement | .whileStatement | .doStatement | .switchStatement | .caseClause
  | .defaultClause | .breakStatement | .continueStatement | .returnStatement | .throwStatement
  | .tryStatement | .catchClause | .labeledStatement | .debuggerStatement => true
  | _ => false

namespace Shape

/-- An expression or a declaration. -/
def isQuiet (shape : Shape) : Bool := !shape.kind.isStatement

/-- No part of another statement, and no file. -/
def isBody (shape : Shape) : Bool :=
  shape.kind != .caseClause && shape.kind != .defaultClause && shape.kind != .sourceFile

/-- The slots of a shape that hold quiet nodes. -/
def quietSlots : Shape → List Slot
  | .declarationList _ declarations => declarations
  | .declaration name initializer => [name, initializer]
  | .expressionStatement expression => [expression]
  | .conditionalStatement test _ _ => [test]
  | .loop _ initializer _ _ _ => [initializer]
  | .forIn initializer _ _ => [initializer]
  | .unary _ _ operand => [operand]
  | .binary left _ right => [left, right]
  | .conditional condition whenTrue whenFalse => [condition, whenTrue, whenFalse]
  | .elements _ items => items
  | .call _ callee arguments => callee :: arguments
  | .access _ object property => [object, property]
  | .propertyAssignment name initializer => [name, initializer]
  | _ => []

/-- The slots for the bodies of loops and functions, and for those behind a label or `try`. -/
def bodySlots : Shape → List Slot
  | .function _ _ _ body => [body]
  | .loop _ _ _ _ body => [body]
  | .labeled _ body => [body]
  | .tryStatement body handler finalizer => [body, handler, finalizer]
  | .catchClause _ body => [body]
  | _ => []

/-- A sequence without items. -/
def isHollow : Shape → Bool
  | .elements .sequence [] => true
  | _ => false

theorem isHollow_withSlots {shape : Shape} {slots : List Slot}
    (same : slots.length = shape.slots.length) : (shape.withSlots slots).isHollow = shape.isHollow := by
  cases shape
  case elements kind items =>
    have length : slots.length = items.length := same
    cases kind <;> cases slots <;> cases items <;> first | rfl | cases length
  all_goals rfl

theorem isBody_of_isQuiet {shape : Shape} (quiet : shape.isQuiet = true) : shape.isBody = true := by
  rw [isBody]
  rw [isQuiet, Bool.not_eq_true'] at quiet
  cases same : shape.kind <;> rw [same] at quiet <;> first | rfl | cases quiet

/-- A body that lists statements is a block. -/
theorem isBlock_of_isBody {shape : Shape} (body : shape.isBody = true)
    (container : shape.isContainer = true) : shape.isBlock = true := by
  cases shape
  case block => rfl
  case file => cases body
  case clause isDefault _ _ => cases isDefault <;> cases body
  all_goals cases container

theorem kind_withStatements? {shape changed : Shape} {statements : List Slot}
    (changes : shape.withStatements? statements = some changed) : changed.kind = shape.kind := by
  cases shape
  case file => cases changes; rfl
  case block => cases changes; rfl
  case clause => cases changes; rfl
  all_goals cases changes

/-- Everything in a quiet node is quiet, but for functions. -/
theorem quietSlots_of_isQuiet {shape : Shape} (quiet : shape.isQuiet = true)
    (noFunction : shape.isFunction = false) : shape.quietSlots = shape.slots := by
  fun_cases Shape.kind shape <;>
    simp_all [isQuiet, kind, NodeKind.isStatement, quietSlots, slots, isFunction]

theorem quietSlots_of_isContainer {shape : Shape} (container : shape.isContainer = true) :
    shape.quietSlots = [] := by
  cases shape
  case file => rfl
  case block => rfl
  case clause => rfl
  all_goals cases container

theorem bodySlots_of_isContainer {shape : Shape} (container : shape.isContainer = true) :
    shape.bodySlots = [] := by
  cases shape
  case file => rfl
  case block => rfl
  case clause => rfl
  all_goals cases container

theorem quietSlots_withSlots (shape : Shape) (rename : Slot → Slot) :
    (shape.withSlots (shape.slots.map rename)).quietSlots = shape.quietSlots.map rename := by
  cases shape <;> rfl

theorem bodySlots_withSlots (shape : Shape) (rename : Slot → Slot) :
    (shape.withSlots (shape.slots.map rename)).bodySlots = shape.bodySlots.map rename := by
  cases shape <;> simp [bodySlots, withSlots, slots]

end Shape

namespace Store

/-- Nodes keep their kinds. -/
def KeepsKinds (store later : Store) : Prop :=
  ∀ id kind, store.kind? (some id) = some kind → later.kind? (some id) = some kind

/-- The slots of a shape hold what belongs there, a sequence has items, and all slots are children. -/
structure Admits (store : Store) (shape : Shape) : Prop where
  quiet : ∀ child, some child ∈ shape.quietSlots →
    store.satisfies (some child) Shape.isQuiet = true
  body : ∀ child, some child ∈ shape.bodySlots → store.satisfies (some child) Shape.isBody = true
  full : shape.isHollow = false
  regular : shape.IsRegular

/-- A slot holds nothing or a quiet node. -/
def IsQuietAt (store : Store) (slot : Slot) : Prop :=
  ∀ child, slot = some child → store.satisfies (some child) Shape.isQuiet = true

/-- A slot holds nothing or what may be a body. -/
def IsBodyAt (store : Store) (slot : Slot) : Prop :=
  ∀ child, slot = some child → store.satisfies (some child) Shape.isBody = true

/-- A slot holds what may stand in the place of a node of a shape. -/
def Fits (store : Store) (shape : Shape) (slot : Slot) : Prop :=
  (shape.isQuiet = true → store.IsQuietAt slot) ∧ (shape.isBody = true → store.IsBodyAt slot)

/-- All slots hold what belongs there. -/
def IsTidy (store : Store) : Prop :=
  ∀ id shape, store.shape? (some id) = some shape → store.Admits shape

section Kinds
variable {store middle later : Store} {id : NodeId} {slot : Slot} {shape old : Shape}
  {removed new : List Slot}

theorem KeepsKinds.refl (store : Store) : store.KeepsKinds store := fun _ _ found => found

theorem KeepsKinds.trans (first : store.KeepsKinds middle) (second : middle.KeepsKinds later) :
    store.KeepsKinds later := fun id kind found => second id kind (first id kind found)

theorem Keeps.keepsKinds (keeps : store.Keeps later) : store.KeepsKinds later := by
  intro id kind found
  obtain ⟨shape, there, same⟩ := Option.map_eq_some_iff.mp found
  exact Option.map_eq_some_iff.mpr ⟨shape, keeps id shape there, same⟩

theorem Sustains.keepsKinds (sustains : Sustains store later) : store.KeepsKinds later :=
  Keeps.keepsKinds fun _ _ found => sustains.shape? found

theorem Reshapes.keepsKinds (reshapes : Reshapes store later id shape removed new)
    (found : store.shape? (some id) = some old) (same : shape.kind = old.kind) :
    store.KeepsKinds later := by
  intro other kind has
  rw [kind?, reshapes.shapes]
  by_cases here : other = id
  · subst here
    rw [kind?, found] at has
    rw [if_pos rfl, Option.map_some, same]
    exact has
  · rw [if_neg here]
    exact has

/-- What depends on the kind alone is kept with it. -/
theorem KeepsKinds.satisfies (kinds : store.KeepsKinds later) {test : Shape → Bool}
    (byKind : ∀ first second : Shape, first.kind = second.kind → test first = test second)
    (passes : store.satisfies slot test = true) : later.satisfies slot test = true := by
  cases slot with
  | none => cases passes
  | some id =>
    rw [Store.satisfies, Option.any_eq_true] at passes ⊢
    obtain ⟨shape, found, holds⟩ := passes
    obtain ⟨other, there, same⟩ :=
      Option.map_eq_some_iff.mp (kinds id shape.kind (by rw [kind?, found]; rfl))
    exact ⟨other, there, (byKind other shape same).trans holds⟩

theorem isQuiet_byKind (first second : Shape) (same : first.kind = second.kind) :
    first.isQuiet = second.isQuiet := by
  rw [Shape.isQuiet, Shape.isQuiet, same]

theorem isBody_byKind (first second : Shape) (same : first.kind = second.kind) :
    first.isBody = second.isBody := by
  rw [Shape.isBody, Shape.isBody, same]

theorem KeepsKinds.satisfies_isQuiet (kinds : store.KeepsKinds later)
    (quiet : store.satisfies slot Shape.isQuiet = true) :
    later.satisfies slot Shape.isQuiet = true :=
  kinds.satisfies isQuiet_byKind quiet

theorem IsQuietAt.carry (quiet : store.IsQuietAt slot) (kinds : store.KeepsKinds later) :
    later.IsQuietAt slot := fun child same => kinds.satisfies_isQuiet (quiet child same)

theorem IsBodyAt.carry (body : store.IsBodyAt slot) (kinds : store.KeepsKinds later) :
    later.IsBodyAt slot := fun child same => kinds.satisfies isBody_byKind (body child same)

theorem IsQuietAt.isBodyAt (quiet : store.IsQuietAt slot) : store.IsBodyAt slot := by
  intro child same
  have calm := quiet child same
  rw [Store.satisfies, Option.any_eq_true] at calm ⊢
  obtain ⟨there, found, isQuiet⟩ := calm
  exact ⟨there, found, Shape.isBody_of_isQuiet isQuiet⟩

theorem IsQuietAt.fits (quiet : store.IsQuietAt slot) : store.Fits shape slot :=
  ⟨fun _ => quiet, fun _ => quiet.isBodyAt⟩

theorem isQuietAt_of_shape? (found : store.shape? slot = some shape) (quiet : shape.isQuiet = true) :
    store.IsQuietAt slot := by
  rintro child rfl
  rw [Store.satisfies, found]
  exact quiet

theorem isBodyAt_of_shape? (found : store.shape? slot = some shape) (body : shape.isBody = true) :
    store.IsBodyAt slot := by
  rintro child rfl
  rw [Store.satisfies, found]
  exact body

/-- A statement takes the place of a statement. -/
theorem IsBodyAt.fits (body : store.IsBodyAt slot) (loud : shape.isQuiet = false) :
    store.Fits shape slot :=
  ⟨fun quiet => Bool.noConfusion (loud.symm.trans quiet), fun _ => body⟩

theorem IsTidy.quietAt (tidy : store.IsTidy) (found : store.shape? (some id) = some shape)
    (listed : slot ∈ shape.quietSlots) : store.IsQuietAt slot :=
  fun child same => (tidy id shape found).quiet child (same ▸ listed)

theorem IsTidy.bodyAt (tidy : store.IsTidy) (found : store.shape? (some id) = some shape)
    (listed : slot ∈ shape.bodySlots) : store.IsBodyAt slot :=
  fun child same => (tidy id shape found).body child (same ▸ listed)

theorem KeepsKinds.admits (kinds : store.KeepsKinds later) (admits : store.Admits shape) :
    later.Admits shape :=
  ⟨fun child listed => kinds.satisfies isQuiet_byKind (admits.quiet child listed),
    fun child listed => kinds.satisfies isBody_byKind (admits.body child listed), admits.full,
    admits.regular⟩

/-- A list of statements may hold anything. -/
theorem admits_of_isContainer (container : shape.isContainer = true) : store.Admits shape := by
  refine ⟨fun child listed => ?_, fun child listed => ?_, ?_, ?_⟩
  · rw [Shape.quietSlots_of_isContainer container] at listed
    cases listed
  · rw [Shape.bodySlots_of_isContainer container] at listed
    cases listed
  · cases shape <;> first | rfl | cases container
  · refine Shape.isRegular_of_not_isLoop ?_
    rintro _ _ _ _ _ rfl
    cases container

/-! ## Edits keep nodes in their places -/

/-- Only the shapes that are new have to be looked at. -/
theorem IsTidy.carry (tidy : store.IsTidy) (kinds : store.KeepsKinds later)
    (changed : ∀ id shape, later.shape? (some id) = some shape →
      store.shape? (some id) = some shape ∨ later.Admits shape) : later.IsTidy := by
  intro id shape found
  rcases changed id shape found with same | answers
  · exact kinds.admits (tidy id shape same)
  · exact answers

theorem Reshapes.isTidy (reshapes : Reshapes store later id shape removed new)
    (kinds : store.KeepsKinds later) (tidy : store.IsTidy) (answers : store.Admits shape) :
    later.IsTidy := by
  refine tidy.carry kinds fun other found there => ?_
  rw [reshapes.shapes] at there
  split at there
  · cases there
    exact .inr (kinds.admits answers)
  · exact .inl there

theorem isTidy_setStatements (container : Slot) (statements : List Slot) (tidy : store.IsTidy) :
    (store.setStatements container statements).1.IsTidy := by
  rcases setStatements_cases store container statements with
    same | ⟨id, shape, removed, changed, later, -, found, has, changes, result, reshapes⟩
  · rw [same]
    exact tidy
  · rw [result]
    obtain ⟨-, kept⟩ := Shape.slots_of_withStatements? changes
    exact reshapes.isTidy (reshapes.keepsKinds found (Shape.kind_withStatements? changes)) tidy
      (admits_of_isContainer (by rw [Shape.isContainer, kept]; rfl))

end Kinds

section New
variable {store later : Store} {shape : Shape} {copies : List (NodeId × Slot)} {depth : Nat}

theorem isTidy_push (flags : Flags) (start stop : Nat) (slots : List Slot) (parent : Slot)
    (tidy : store.IsTidy) (answers : store.Admits shape) :
    ((store.push shape flags start stop).1.setParents slots parent).IsTidy := by
  have keeps : store.Keeps ((store.push shape flags start stop).1.setParents slots parent) := by
    intro id found there
    rw [shape?_setParents, shape?_push, if_neg (Nat.ne_of_lt (lt_size_of_shape? there)), there]
  refine tidy.carry keeps.keepsKinds fun id found there => ?_
  rw [shape?_setParents, shape?_push] at there
  split at there
  · cases there
    exact .inr (keeps.keepsKinds.admits answers)
  · exact .inl there

theorem isTidy_add (flags : Flags) (start stop : Nat) (tidy : store.IsTidy)
    (answers : store.Admits shape) : (store.add shape flags start stop).1.IsTidy :=
  isTidy_push _ _ _ _ _ tidy answers

/-- Copies have the kinds of what they are copied from. -/
def Resemble (store later : Store) (copies : List (NodeId × Slot)) : Prop :=
  ∀ id copy, (id, some copy) ∈ copies → ∀ kind, store.kind? (some id) = some kind →
    later.kind? (some copy) = some kind

theorem Resemble.renameSlot (resemble : Resemble store later copies) (kinds : store.KeepsKinds later)
    {slot : Slot} {child : NodeId} (renamed : Store.renameSlot copies slot = some child)
    {kind : NodeKind} (has : store.kind? slot = some kind) : later.kind? (some child) = some kind := by
  cases slot with
  | none => cases has
  | some id =>
    rw [Store.renameSlot, Option.bind_some] at renamed
    cases looked : copies.lookup id with
    | none =>
      rw [looked] at renamed
      cases renamed
      exact kinds _ _ has
    | some found =>
      rw [looked, Option.getD_some] at renamed
      subst renamed
      exact resemble id child (mem_of_lookup looked) kind has

/-- A slot of a copy holds what has the kind of the original. -/
theorem Resemble.satisfies (resemble : Resemble store later copies) (kinds : store.KeepsKinds later)
    {test : Shape → Bool}
    (byKind : ∀ first second : Shape, first.kind = second.kind → test first = test second)
    {slot : Slot} {child : NodeId} (renamed : Store.renameSlot copies slot = some child)
    (passes : store.satisfies slot test = true) : later.satisfies (some child) test = true := by
  rw [Store.satisfies, Option.any_eq_true] at passes ⊢
  obtain ⟨there, shaped, holds⟩ := passes
  have kind := resemble.renameSlot kinds renamed (by rw [kind?, shaped]; rfl)
  obtain ⟨made, stands, same⟩ := Option.map_eq_some_iff.mp kind
  exact ⟨made, stands, (byKind made there same).trans holds⟩

theorem Resemble.admits (resemble : Resemble store later copies) (kinds : store.KeepsKinds later)
    (admits : store.Admits shape) :
    later.Admits (shape.withSlots (shape.slots.map (Store.renameSlot copies))) := by
  have original : ∀ {slot : Slot} {child : NodeId}, Store.renameSlot copies slot = some child →
      ∃ id, slot = some id := by
    intro slot child renamed
    cases slot with
    | none => cases renamed
    | some id => exact ⟨id, rfl⟩
  refine ⟨fun child listed => ?_, fun child listed => ?_, ?_, isRegular_renamed admits.regular⟩
  · rw [Shape.quietSlots_withSlots] at listed
    obtain ⟨slot, old, renamed⟩ := List.mem_map.mp listed
    obtain ⟨id, rfl⟩ := original renamed
    exact resemble.satisfies kinds isQuiet_byKind renamed (admits.quiet id old)
  · rw [Shape.bodySlots_withSlots] at listed
    obtain ⟨slot, old, renamed⟩ := List.mem_map.mp listed
    obtain ⟨id, rfl⟩ := original renamed
    exact resemble.satisfies kinds isBody_byKind renamed (admits.body id old)
  · rw [Shape.isHollow_withSlots (List.length_map _)]
    exact admits.full

theorem isTidy_copyTo (depth : Nat) (id : NodeId) (tidy : store.IsTidy) :
    (store.copyTo depth id).1.IsTidy ∧
      Resemble store (store.copyTo depth id).1 [(id, (store.copyTo depth id).2)] := by
  have nothing : Resemble store store [(id, none)] := by
    intro other copy member
    cases List.mem_singleton.mp member
  induction depth generalizing store id with
  | zero => exact ⟨tidy, nothing⟩
  | succ depth ih =>
    cases found : store.shape? (some id) with
    | none =>
      have absent : store.node? (some id) = none := Option.map_eq_none_iff.mp found
      have childless : store.children id = [] := by simp [children, found]
      rw [copyTo, childless]
      simp only [List.foldl_nil, absent]
      exact ⟨tidy, nothing⟩
    | some shape =>
      have children : ∀ (ids : List NodeId) (state : Store × List (NodeId × Slot)),
          Sustains store state.1 → state.1.IsTidy → Resemble store state.1 state.2 →
          Sustains store (copyChildren depth ids state).1 ∧
            (copyChildren depth ids state).1.IsTidy ∧
            Resemble store (copyChildren depth ids state).1 (copyChildren depth ids state).2 := by
        intro ids
        induction ids with
        | nil => exact fun _ sustains tidy resemble => ⟨sustains, tidy, resemble⟩
        | cons first rest again =>
          intro state sustains tidy resemble
          have copied := (copyTo_sustains state.1 depth first).1
          obtain ⟨tidyNext, resembles⟩ := ih first tidy (by
            intro other copy member
            cases List.mem_singleton.mp member)
          refine again _ (sustains.trans copied) tidyNext fun other copy member kind has => ?_
          rcases List.mem_cons.mp member with same | old
          · obtain ⟨rfl, result⟩ := Prod.mk.inj same
            exact resembles other copy (List.mem_singleton.mpr (by rw [← result])) kind
              (sustains.keepsKinds _ _ has)
          · exact copied.keepsKinds _ _ (resemble other copy old kind has)
      obtain ⟨sustains, tidyCopied, resemble⟩ := children shape.children (store, []) (.refl store)
        tidy fun _ _ member => absurd member List.not_mem_nil
      generalize folded : copyChildren depth shape.children (store, []) = result at *
      obtain ⟨later, copies⟩ := result
      obtain ⟨flags, start, stop, unfolded⟩ :=
        copyTo_succ store later depth id found folded (sustains.shape? found)
      rw [unfolded]
      refine ⟨isTidy_push _ _ _ _ _ tidyCopied
        (resemble.admits sustains.keepsKinds (tidy id shape found)), fun other copy member => ?_⟩
      cases List.mem_singleton.mp member
      intro kind has
      rw [kind?, found, Option.map_some, Option.some.injEq] at has
      rw [kind?, shape?_setParents, shape?_push, if_pos rfl, Option.map_some,
        Shape.kind_withSlots, has]

theorem isTidy_copy (slot : Slot) (tidy : store.IsTidy) : (store.copy slot).1.IsTidy := by
  cases slot with
  | none => exact tidy
  | some id => exact (isTidy_copyTo _ id tidy).1

/-- A copy is quiet if the original is. -/
theorem satisfies_copy {slot copied : Slot} (tidy : store.IsTidy)
    (calm : store.satisfies slot Shape.isQuiet = true) (copies : (store.copy slot).2 = copied)
    (present : copied.isSome = true) : (store.copy slot).1.satisfies copied Shape.isQuiet = true := by
  cases slot with
  | none => cases calm
  | some id =>
    obtain ⟨copy, rfl⟩ := Option.isSome_iff_exists.mp present
    obtain ⟨-, resemble⟩ := isTidy_copyTo store.depthBound id tidy
    refine resemble.satisfies (copyTo_sustains store store.depthBound id).1.keepsKinds isQuiet_byKind
      ?_ calm
    have same : (store.copyTo store.depthBound id).2 = some copy := copies
    simp [renameSlot, same]

theorem isTidy_copyAll (slots : List Slot) (tidy : store.IsTidy) :
    (store.copyAll slots).1.IsTidy := by
  have onto : ∀ state : Store × List Slot, state.1.IsTidy → (copyOnto slots state).1.IsTidy := by
    induction slots with
    | nil => exact fun _ tidy => tidy
    | cons slot rest ih => exact fun state tidy => ih _ (isTidy_copy slot tidy)
  exact onto (store, []) tidy

end New

end Store

end Unflatten
