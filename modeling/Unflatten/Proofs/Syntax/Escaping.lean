import Unflatten.Proofs.Syntax.Quiet
import Unflatten.Proofs.Syntax.Targets

/-! # Jumps that leave their surroundings

`Store.escapingJumps` lists the jumps below some statements that leave the loop or `switch` around
them.  It misses none: where the jumps of a tree need something to break from or to continue, the
list has one of them.  Expressions and declarations have no such jumps at all. -/

set_option autoImplicit false

namespace Unflatten

namespace Shape

/-- A `switch`. -/
def selects : Shape → Bool
  | .switch _ _ => true
  | _ => false

/-- A shape below which jumps are looked for. -/
def isSearched : Shape → Bool
  | .function _ _ _ _ | .jump _ _ => false
  | _ => true

/-- What needs something to break from or to continue is no function, and nothing to break from. -/
theorem leaves_jump {shape : Shape} {label : Option String} {target left : Target}
    (same : shape.leaves label target = some left) (jumps : left = .breaks ∨ left = .continues) :
    target = left ∧ shape.isFunction = false ∧ shape.isLoop = false ∧
      (left = .breaks → shape.selects = false) := by
  rcases jumps with rfl | rfl <;> cases shape <;> cases target <;>
    simp_all [leaves, isFunction, isLoop, selects]

/-- A quiet node that is no function is clear. -/
theorem isClear_of_isQuiet {shape : Shape} (quiet : shape.isQuiet = true)
    (noFunction : shape.isFunction = false) : shape.isClear = true := by
  cases shape
  case function => cases noFunction
  case loop kind _ _ _ _ => cases kind <;> cases quiet
  case jump kind _ => cases kind <;> cases quiet
  case forIn | switch | labeled => cases quiet
  all_goals rfl

end Shape

/-- Below a node the children are searched from the last to the first. -/
theorem Store.jumpsBelow_searched {store : Store} {id : NodeId} {shape : Shape}
    (found : store.shape? (some id) = some shape) (searched : shape.isSearched = true)
    (withContinue : Bool) (depth : Nat) (inLoop inSwitch : Bool) :
    store.jumpsBelow withContinue (depth + 1) inLoop inSwitch id = shape.children.reverse.flatMap
      (store.jumpsBelow withContinue depth (inLoop || shape.isLoop) (inSwitch || shape.selects)) := by
  rw [jumpsBelow, found]
  cases shape <;> first | rfl | cases searched

namespace Tree

/-- A jump in a tree that has a label, or leaves the loop or `switch` around the tree. -/
inductive Escapes (jump : NodeId) : (inLoop inSwitch : Bool) → Tree → Prop
  | breaks {inLoop inSwitch : Bool} {label : Slot} {below : List Tree}
      (outward : (label.isSome || !(inLoop || inSwitch)) = true) :
      Escapes jump inLoop inSwitch (.node jump (.jump .breaks label) below)
  | continues {inLoop inSwitch : Bool} {label : Slot} {below : List Tree}
      (outward : (label.isSome || !inLoop) = true) :
      Escapes jump inLoop inSwitch (.node jump (.jump .continues label) below)
  | deeper {inLoop inSwitch : Bool} {id : NodeId} {shape : Shape} {below : List Tree} {tree : Tree}
      (searched : shape.isSearched = true) (member : tree ∈ below)
      (escapes : Escapes jump (inLoop || shape.isLoop) (inSwitch || shape.selects) tree) :
      Escapes jump inLoop inSwitch (.node id shape below)

section Escapes
variable {store : Store} {tree : Tree} {trees : List Tree} {jump id : NodeId}
  {inLoop inSwitch : Bool} {depth : Nat}

theorem Escapes.mem_names (escapes : Escapes jump inLoop inSwitch tree) : jump ∈ tree.names := by
  induction escapes with
  | breaks | continues => exact List.mem_cons_self
  | deeper _ member _ ih => exact List.mem_cons_of_mem _ (mem_namesAll.mpr ⟨_, member, ih⟩)

/-- The search finds the jump. -/
theorem Escapes.mem_jumpsBelow (escapes : Escapes jump inLoop inSwitch tree)
    (holds : store.Holds tree) (rooted : tree.root = some id) (deep : tree.height ≤ depth) :
    jump ∈ store.jumpsBelow true depth inLoop inSwitch id := by
  induction escapes generalizing id depth with
  | @breaks inLoop inSwitch label below outward =>
    cases rooted
    cases holds with
    | node found =>
    match depth, deep with
    | depth + 1, _ =>
      rw [Store.jumpsBelow, found]
      simp only [outward, if_true]
      exact List.mem_singleton_self _
  | @continues inLoop inSwitch label below outward =>
    cases rooted
    cases holds with
    | node found =>
    match depth, deep with
    | depth + 1, _ =>
      rw [Store.jumpsBelow, found]
      simp only [outward, Bool.true_and, if_true]
      exact List.mem_singleton_self _
  | @deeper inLoop inSwitch id shape below tree searched member escapes ih =>
    cases rooted
    match depth, deep with
    | depth + 1, deep =>
      have lower := Nat.le_of_lt_succ (Nat.lt_of_lt_of_le (height_lt_node member) deep)
      cases holds with
      | node found regular roots links held =>
      obtain ⟨child, same⟩ : ∃ child, tree.root = some child := by
        cases escapes <;> exact ⟨_, rfl⟩
      have visible : child ∈ shape.children := by
        refine regular.mem_iff.mpr (List.mem_filterMap.mpr ⟨some child, ?_, rfl⟩)
        rw [roots, ← same]
        exact List.mem_map_of_mem member
      rw [Store.jumpsBelow_searched found searched]
      exact List.mem_flatMap.mpr
        ⟨child, List.mem_reverse.mpr visible, ih (held tree member) same lower⟩

/-- A jump that needs something to break from or to continue leaves the tree. -/
theorem exists_escapes {target : Target} (holds : store.Holds tree) (needed : target ∈ tree.unmet)
    (jumps : target = .breaks ∧ inSwitch = false ∨ target = .continues) :
    ∃ jump, Escapes jump false inSwitch tree := by
  induction tree generalizing inSwitch with
  | nothing => cases needed
  | node id shape below ih =>
    cases holds with
    | node found regular roots links held =>
    rw [unmet, List.mem_append] at needed
    by_cases searched : shape.isSearched = true
    · -- the need comes from below
      have none : shape.asks (label? below) = [] := by
        cases shape <;> first | rfl | cases searched
      rw [none] at needed
      obtain ⟨before, within, left⟩ := List.mem_filterMap.mp (needed.resolve_left List.not_mem_nil)
      obtain ⟨rfl, -, noLoop, noSwitch⟩ := Shape.leaves_jump left (jumps.imp_left And.left)
      obtain ⟨tree, member, inside⟩ := mem_unmetAll.mp within
      have onward : before = .breaks ∧ (inSwitch || shape.selects) = false ∨ before = .continues :=
        jumps.imp_left fun both => ⟨both.1, by rw [both.2, noSwitch both.1]; rfl⟩
      obtain ⟨jump, escapes⟩ := ih tree member (held tree member) inside onward
      refine ⟨jump, .deeper searched member ?_⟩
      rwa [noLoop]
    · cases shape <;> first | exact absurd rfl searched | skip
      case function =>
        rcases needed with asked | passed
        · cases asked
        · obtain ⟨_, -, left⟩ := List.mem_filterMap.mp passed
          cases (Shape.leaves_jump left (jumps.imp_left And.left)).2.1
      case jump kind label =>
        cases label with
        | some label => cases kind <;> exact ⟨id, by constructor; rfl⟩
        | none =>
          -- a jump without a label has nothing below it
          have nothing : unmetAll below = [] := by
            obtain ⟨first, rfl, rooted⟩ := List.map_eq_singleton_iff.mp roots.symm
            cases first with
            | nothing => rfl
            | node => cases rooted
          rw [nothing] at needed
          have asked := needed.resolve_right List.not_mem_nil
          cases kind with
          | continues => exact ⟨id, .continues rfl⟩
          | breaks =>
            refine ⟨id, .breaks ?_⟩
            rcases jumps with ⟨-, out⟩ | rfl
            · rw [out]
              rfl
            · cases List.mem_singleton.mp asked

/-- The jumps of some trees need nothing to break from and no loop to continue. -/
def NeedsNoLoop (trees : List Tree) : Prop :=
  .breaks ∉ unmetAll trees ∧ .continues ∉ unmetAll trees

theorem NeedsNoLoop.of_subset {others : List Tree} (needs : NeedsNoLoop trees)
    (fewer : unmetAll others ⊆ unmetAll trees) : NeedsNoLoop others :=
  ⟨fun needed => needs.1 (fewer needed), fun needed => needs.2 (fewer needed)⟩

theorem NeedsNoLoop.append {others : List Tree} (first : NeedsNoLoop trees)
    (second : NeedsNoLoop others) : NeedsNoLoop (trees ++ others) := by
  constructor
  all_goals rw [unmetAll_append, List.mem_append, not_or]
  · exact ⟨first.1, second.1⟩
  · exact ⟨first.2, second.2⟩

/-- Where no jump leaves some trees, nothing is needed to break from or to continue. -/
theorem needsNoLoop_of_escapes (holds : ∀ tree ∈ trees, store.Holds tree)
    (closed : ∀ tree ∈ trees, ∀ jump, ¬ Escapes jump false false tree) : NeedsNoLoop trees := by
  constructor
  all_goals
    intro needed
    obtain ⟨tree, member, inside⟩ := mem_unmetAll.mp needed
  · obtain ⟨jump, escapes⟩ := exists_escapes (holds tree member) inside (.inl ⟨rfl, rfl⟩)
    exact closed tree member jump escapes
  · obtain ⟨jump, escapes⟩ : ∃ jump, Escapes jump false false tree :=
      exists_escapes (holds tree member) inside (.inr rfl)
    exact closed tree member jump escapes

/-- Expressions and declarations need nothing to break from or to continue. -/
theorem needsNoLoop_of_isQuietAt (holds : store.Holds tree) (tidy : store.IsTidy)
    (quiet : store.IsQuietAt tree.root) : NeedsNoLoop [tree] := by
  induction tree with
  | nothing => exact ⟨List.not_mem_nil, List.not_mem_nil⟩
  | node id shape below ih =>
    rw [NeedsNoLoop, unmetAll_cons, unmetAll_nil, List.append_nil]
    cases holds with
    | node found regular roots links held =>
    have calm := quiet id rfl
    rw [Store.satisfies, found, Option.any_some] at calm
    by_cases isFunction : shape.isFunction = true
    · cases shape <;> cases isFunction
      constructor
      all_goals
        intro needed
        rw [unmet, List.mem_append] at needed
        obtain ⟨_, -, left⟩ := List.mem_filterMap.mp (needed.resolve_left List.not_mem_nil)
      · cases (Shape.leaves_jump left (.inl rfl)).2.1
      · cases (Shape.leaves_jump left (.inr rfl)).2.1
    · rw [Bool.not_eq_true] at isFunction
      have each : ∀ tree ∈ below, NeedsNoLoop [tree] := by
        intro tree member
        refine ih tree member (held tree member) (tidy.quietAt found ?_)
        rw [Shape.quietSlots_of_isQuiet calm isFunction, roots]
        exact List.mem_map_of_mem member
      rw [unmet_of_isClear (Shape.isClear_of_isQuiet calm isFunction)]
      constructor
      all_goals
        intro needed
        obtain ⟨tree, member, inside⟩ := mem_unmetAll.mp needed
        have alone := mem_unmetAll.mpr ⟨tree, List.mem_singleton_self tree, inside⟩
      · exact (each tree member).1 alone
      · exact (each tree member).2 alone

end Escapes

end Tree

end Unflatten
