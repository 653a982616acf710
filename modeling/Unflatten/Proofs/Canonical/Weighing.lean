import Unflatten.Proofs.Canonical.Rewriting
import Unflatten.Proofs.Execution.Meaning

/-! # Weighing programs

Every step of a rule makes the program lighter, so no rules undo one another's work for ever.  What
a rule takes apart is made heavy (`Weight.own`), and so is what it will move to a better place
(`Weight.burden`): a body that is no block, a number that is compared to what is on its right.  The
weight of an assignment is a product, since the target of a conditional assignment is doubled. -/

set_option autoImplicit false

namespace Unflatten

namespace Canonical

/-- What the weight of a tree is made of, and what a node above looks at. -/
structure Weight where
  amount : Nat
  isBlock : Bool
  isNumber : Bool

namespace Weight

/-- The weight of an empty slot. -/
def empty : Weight := ⟨0, false, false⟩

/-- Whether statements are anything but one block. -/
def scattered : List Weight → Bool
  | [body] => !body.isBlock
  | _ => true

/-- The weight of a node alone. -/
def own : Shape → List Weight → Nat
  | .conditional _ _ _, _ => 7
  | .binary _ .ampersandAmpersand _, _ => 4
  | .clause _ _ _, below => if scattered (below.drop 1) then 3 else 1
  | _, _ => 1

/-- What a child weighs more for its place, by the number of children before it. -/
def burden (shape : Shape) (before : Nat) (child : Weight) : Nat :=
  match shape with
  | .elements .sequence _ => 2
  | .binary _ _ _ => if before == 0 && child.isNumber then 1 else 0
  | shape => if shape.holdsBody before && !child.isBlock && child.amount != 0 then 2 else 0

/-- The weight of children in their places. -/
def loads (shape : Shape) : (before : Nat) → List Weight → Nat
  | _, [] => 0
  | before, child :: rest => child.amount + burden shape before child + loads shape (before + 1) rest

def total (shape : Shape) (below : List Weight) : Nat :=
  match shape, below with
  | .binary _ operator _, [target, value] =>
    if operator.isAssignment then (target.amount + 2) * (value.amount + 1)
    else own shape below + loads shape 0 below
  | shape, below => own shape below + loads shape 0 below

/-- The weight of a node with its children. -/
def node (shape : Shape) (below : List Weight) : Weight where
  amount := total shape below
  isBlock := shape.isBlock
  isNumber := match shape with
    | .literal .number _ _ => true
    | _ => false

/-- Lighter wherever it stands: a block stays one, and a number costs at most one more. -/
structure Below (new part : Weight) : Prop where
  amount : new.amount < part.amount
  isBlock : part.isBlock = true → new.isBlock = true
  isNumber : new.isNumber = true → part.isNumber = true ∨ new.amount + 1 < part.amount

section Below
variable {shape : Shape} {new part : Weight} {front back below : List Weight} {before : Nat}

theorem loads_append : loads shape before (front ++ back) =
    loads shape before front + loads shape (before + front.length) back := by
  induction front generalizing before with
  | nil => simp [loads]
  | cons first rest ih =>
    rw [List.cons_append, loads, loads, ih, List.length_cons, Nat.add_right_comm before,
      Nat.add_assoc before, Nat.add_assoc (first.amount + _)]

theorem Below.burden (lighter : Below new part) (shape : Shape) (before : Nat) :
    new.amount + Weight.burden shape before new < part.amount + Weight.burden shape before part := by
  obtain ⟨amount, isBlock, isNumber⟩ := lighter
  unfold Weight.burden
  split
  · omega
  · split <;> split <;> grind
  · split <;> split <;> grind

theorem Below.loads (lighter : Below new part) (shape : Shape) (before : Nat)
    (front back : List Weight) :
    loads shape before (front ++ new :: back) < loads shape before (front ++ part :: back) := by
  have heavier := lighter.burden shape (before + front.length)
  rw [loads_append, loads_append, Weight.loads, Weight.loads]
  omega

theorem Below.scattered (lighter : Below new part)
    (some : scattered (front ++ new :: back) = true) : Weight.scattered (front ++ part :: back) = true := by
  match front, back with
  | [], [] =>
    cases isBlock : part.isBlock with
    | false => exact congrArg Bool.not isBlock
    | true => rw [List.nil_append, Weight.scattered, lighter.isBlock isBlock] at some; cases some
  | [], _ :: _ | [_], [] | [_], _ :: _ | _ :: _ :: _, _ => rfl

theorem Below.own (lighter : Below new part) (shape : Shape) (front back : List Weight) :
    own shape (front ++ new :: back) ≤ own shape (front ++ part :: back) := by
  cases shape
  case clause isDefault label statements =>
    cases front with
    | nil => exact Nat.le_refl _
    | cons _ front =>
      cases more : Weight.scattered (front ++ new :: back) with
      | true =>
        have also := lighter.scattered more
        simp only [Weight.own, List.cons_append, List.drop_succ_cons, List.drop_zero, more, also,
          Nat.le_refl]
      | false =>
        simp only [Weight.own, List.cons_append, List.drop_succ_cons, List.drop_zero, more,
          Bool.false_eq_true, if_false]
        split <;> decide
  case binary left operator right => cases operator <;> exact Nat.le_refl _
  all_goals exact Nat.le_refl _

/-- What holds something lighter is lighter. -/
theorem Below.total (lighter : Below new part) :
    total shape (front ++ new :: back) < total shape (front ++ part :: back) := by
  have rest := Nat.add_lt_add_of_le_of_lt (lighter.own shape front back) (lighter.loads shape 0 front back)
  have amount := lighter.amount
  cases shape
  case binary left operator right =>
    match front, back with
    | [], [value] =>
      simp only [List.nil_append, Weight.total]
      split
      · exact Nat.mul_lt_mul_of_pos_right (by omega) (Nat.succ_pos _)
      · exact rest
    | [target], [] =>
      simp only [List.cons_append, List.nil_append, Weight.total]
      split
      · exact Nat.mul_lt_mul_of_pos_left (by omega) (Nat.succ_pos _)
      · exact rest
    | [], [] | [], _ :: _ :: _ | [_], _ :: _ | [_, _], _ | _ :: _ :: _ :: _, _ => exact rest
  all_goals exact rest

theorem Below.node (lighter : Below new part) : Below (node shape (front ++ new :: back))
    (node shape (front ++ part :: back)) :=
  ⟨lighter.total, id, .inl⟩

end Below

section Loads
variable {shape : Shape} {below : List Weight} {before cost : Nat}

/-- Where all places cost the same. -/
theorem loads_of_burden (same : ∀ before child, burden shape before child = cost) :
    loads shape before below = (below.map fun child => child.amount + cost).sum := by
  induction below generalizing before with
  | nil => rfl
  | cons child rest ih => rw [loads, ih, same, List.map_cons, List.sum_cons]

theorem loads_of_free (free : ∀ before child, burden shape before child = 0) :
    loads shape before below = (below.map amount).sum :=
  loads_of_burden free

theorem burden_le_two (shape : Shape) (before : Nat) (child : Weight) : burden shape before child ≤ 2 := by
  unfold burden
  split
  · exact Nat.le_refl _
  · split <;> decide
  · split <;> decide

theorem own_pos (shape : Shape) (below : List Weight) : 0 < own shape below := by
  unfold own
  split
  · decide
  · decide
  · split <;> decide
  · decide

theorem sum_le_loads : (below.map amount).sum ≤ loads shape before below := by
  induction below generalizing before with
  | nil => exact Nat.le_refl _
  | cons child rest ih =>
    have later := @ih (before + 1)
    rw [List.map_cons, List.sum_cons, loads]
    omega

/-- A node weighs more than all below it. -/
theorem sum_lt_total (shape : Shape) (below : List Weight) :
    (below.map amount).sum < total shape below := by
  have plain : (below.map amount).sum < own shape below + loads shape 0 below :=
    Nat.lt_of_le_of_lt sum_le_loads (Nat.lt_add_of_pos_left (own_pos shape below))
  cases shape
  case binary left operator right =>
    match below with
    | [target, value] =>
      rw [total]
      split
      · simp only [List.map_cons, List.map_nil, List.sum_cons, List.sum_nil, Nat.add_mul,
          Nat.mul_add]
        omega
      · exact plain
    | [] | [_] | _ :: _ :: _ :: _ => exact plain
  all_goals exact plain

/-- Something lighter in a place makes a node lighter that only adds up what is below it. -/
theorem total_lt_of_place {front back : List Weight} {new part : Weight}
    (plain : ∀ below, total shape below = own shape [] + loads shape 0 below)
    (lighter : new.amount + burden shape front.length new <
      part.amount + burden shape front.length part) :
    total shape (front ++ new :: back) < total shape (front ++ part :: back) := by
  rw [plain, plain, loads_append, loads_append, loads, loads, Nat.zero_add]
  omega

/-- Statements weigh what they weigh, in whatever list they stand. -/
theorem total_of_isContainer (isContainer : shape.isContainer = true) :
    total shape below = own shape below + (below.map amount).sum := by
  cases shape
  case file | block | clause =>
    exact congrArg (_ + ·) (loads_of_free fun _ _ => rfl)
  all_goals cases isContainer

/-- A list that holds a statement that is no block could not be heavier by itself. -/
theorem own_le_of_isContainer {lead front back other : List Weight} {statement : Weight}
    (isContainer : shape.isContainer = true) (leads : shape.leading.length = lead.length)
    (noBlock : statement.isBlock = false) :
    own shape other ≤ own shape (lead ++ (front ++ statement :: back)) := by
  cases shape
  case file | block => exact Nat.le_refl _
  case clause isDefault label statements =>
    obtain ⟨first, rfl⟩ := List.length_eq_one_iff.mp leads.symm
    have heavy : scattered (front ++ statement :: back) = true := by
      match front, back with
      | [], [] => exact congrArg Bool.not noBlock
      | [], _ :: _ | [_], [] | [_], _ :: _ | _ :: _ :: _, _ => rfl
    simp only [own, List.cons_append, List.nil_append, List.drop_succ_cons, List.drop_zero, heavy,
      if_true]
    split <;> decide
  all_goals cases isContainer

end Loads

end Weight

end Canonical

namespace Tree

open Canonical (Weight)

/-- What a tree weighs.  Names of nodes do not matter. -/
def weighed (tree : Tree) : Weight := tree.fold Weight.empty Weight.node

/-- The weight of a tree. -/
def weight (tree : Tree) : Nat := tree.weighed.amount

section Weighed
variable (id : NodeId)

theorem weighed_nothing : Tree.nothing.weighed = Weight.empty := rfl

theorem weighed_node (shape : Shape) (below : List Tree) :
    (Tree.node id shape below).weighed = Weight.node (shape.withSlots []) (below.map weighed) :=
  fold_node _ _ _ _ _

theorem sum_lt_weight (shape : Shape) (below : List Tree) :
    (below.map weight).sum < (Tree.node id shape below).weight := by
  have lighter := Weight.sum_lt_total (shape.withSlots []) (below.map weighed)
  rw [List.map_map] at lighter
  rwa [weight, weighed_node]

theorem weight_lt_node {shape : Shape} {below : List Tree} {tree : Tree} (member : tree ∈ below) :
    tree.weight < (Tree.node id shape below).weight :=
  Nat.lt_of_le_of_lt (List.single_le_sum (fun _ _ => Nat.zero_le _) _ (List.mem_map_of_mem member))
    (sum_lt_weight id shape below)

theorem weight_pos (shape : Shape) (below : List Tree) : 0 < (Tree.node id shape below).weight :=
  Nat.lt_of_le_of_lt (Nat.zero_le _) (sum_lt_weight id shape below)

theorem weighed_stated (expression : Tree) :
    (stated id expression).weighed = ⟨1 + expression.weighed.amount, false, false⟩ := by
  rw [stated, weighed_node]
  rfl

theorem weighed_voided (operand : Tree) :
    (voided id operand).weighed = ⟨1 + operand.weighed.amount, false, false⟩ := by
  rw [voided, weighed_node]
  rfl

theorem weighed_chosen (test yes no : Tree) : (chosen id test yes no).weighed =
    ⟨7 + (test.weighed.amount + (yes.weighed.amount + no.weighed.amount)), false, false⟩ := by
  rw [chosen, weighed_node]
  rfl

theorem weighed_inBlock (statements : List Tree) :
    (inBlock id statements).weighed = ⟨1 + (statements.map weight).sum, true, false⟩ := by
  rw [inBlock, weighed_node]
  have loads : Weight.loads (.block []) 0 (statements.map weighed) = _ :=
    Weight.loads_of_free fun _ _ => rfl
  rw [List.map_map] at loads
  exact congrArg (fun load => (⟨1 + load, true, false⟩ : Weight)) loads

theorem weighed_inSequence (items : List Tree) : (inSequence id items).weighed =
    ⟨1 + (items.map fun item => item.weight + 2).sum, false, false⟩ := by
  rw [inSequence, weighed_node]
  have loads : Weight.loads (.elements .sequence []) 0 (items.map weighed) =
      ((items.map weighed).map fun item => item.amount + 2).sum :=
    Weight.loads_of_burden fun _ _ => rfl
  rw [List.map_map] at loads
  exact congrArg (fun load => (⟨1 + load, false, false⟩ : Weight)) loads

theorem weighed_tested (test yes no : Tree) : (tested id test yes no).weighed =
    ⟨1 + (test.weight + (yes.weight + Weight.burden (.conditionalStatement none none none) 1 yes.weighed +
      (no.weight + Weight.burden (.conditionalStatement none none none) 2 no.weighed))), false, false⟩ := by
  rw [tested, weighed_node]
  rfl

theorem weighed_conjoined (left right : Tree) : (conjoined id left right).weighed =
    ⟨4 + (left.weight + Weight.burden (.binary none .ampersandAmpersand none) 0 left.weighed +
      right.weight), false, false⟩ := by
  rw [conjoined, weighed_node]
  rfl

theorem weighed_assigned {operator : TokenKind} (assigns : operator.isAssignment = true)
    (target value : Tree) : (assigned id operator target value).weighed =
      ⟨(target.weight + 2) * (value.weight + 1), false, false⟩ := by
  rw [assigned, weighed_node]
  exact congrArg (fun amount => (⟨amount, false, false⟩ : Weight)) (if_pos assigns)

/-- A node over something lighter in one of its places. -/
theorem below_around {shape changed : Shape} {front back : List Tree} {new part : Tree}
    (same : changed.withSlots [] = shape.withSlots [])
    (lighter : Weight.total (shape.withSlots []) (front.map weighed ++ new.weighed :: back.map weighed) <
      Weight.total (shape.withSlots []) (front.map weighed ++ part.weighed :: back.map weighed)) :
    Weight.Below (node id changed (front ++ new :: back)).weighed
      (node id shape (front ++ part :: back)).weighed := by
  rw [weighed_node, weighed_node, same, List.map_append, List.map_append]
  exact ⟨lighter, fun isBlock => isBlock, .inl⟩

theorem weighed_bare (tree : Tree) : tree.bare.weighed = tree.weighed := fold_bare _ _ tree

end Weighed

/-- What holds a lighter part is lighter. -/
theorem Placed.lighter {part new whole result : Tree} (placed : Placed part new whole result)
    (lighter : Weight.Below new.weighed part.weighed) :
    Weight.Below result.weighed whole.weighed := by
  induction placed with
  | here => exact lighter
  | deeper _ same ih => exact below_around _ same ih.total

end Tree

namespace Canonical

open Weight

namespace Weight

section Places
variable {shape : Shape} {before behind : Nat} {below : List Weight}

theorem total_of_wastes (wasted : shape.wastes before behind = true) (below : List Weight) :
    total shape below = own shape [] + loads shape 0 below := by
  cases shape
  case expressionStatement | elements | loop => rfl
  all_goals cases wasted

theorem burden_of_wastes (wasted : shape.wastes before behind = true) (one other : Weight) :
    burden shape before one = burden shape before other := by
  cases shape
  case expressionStatement => rfl
  case elements kind items =>
    cases kind with
    | sequence => rfl
    | array | object => cases wasted
  case loop kind initializer condition incrementor body =>
    cases kind with
    | forLoop =>
      rcases (Bool.or_eq_true _ _).mp wasted with first | third
      · rw [beq_iff_eq.mp first]; rfl
      · rw [beq_iff_eq.mp third]; rfl
    | whileLoop | doLoop => cases wasted
  all_goals cases wasted

theorem total_of_holdsBody (holds : shape.holdsBody before = true) (below : List Weight) :
    total shape below = own shape [] + loads shape 0 below := by
  cases shape
  case conditionalStatement | forIn | loop => rfl
  all_goals cases holds

theorem burden_of_holdsBody (holds : shape.holdsBody before = true) (body : Weight) :
    burden shape before body = if body.isBlock || body.amount == 0 then 0 else 2 := by
  cases shape
  case conditionalStatement | forIn | loop =>
    cases isBlock : body.isBlock <;> simp [burden, holds, isBlock]
  all_goals cases holds

end Places

end Weight

section Steps
variable {store : Store} {above id leaf name whole first second statement : NodeId}
  {outer changed shape : Shape} {front back : List Tree}

theorem undefined_lighter {literal : Shape} (same : changed.withSlots [] = outer.withSlots []) :
    Below (Tree.node above changed (front ++ .node name (.identifier "undefined") [] :: back)).weighed
      (Tree.node above outer (front ++ .voided id (.node leaf literal []) :: back)).weighed := by
  refine Tree.below_around _ same (Below.total ?_)
  rw [Tree.weighed_voided, Tree.weighed_node, Tree.weighed_node]
  have heavy : 0 < total (literal.withSlots []) [] := sum_lt_total (literal.withSlots []) []
  exact ⟨Nat.lt_add_of_pos_right heavy, nofun, nofun⟩

theorem dropped_lighter {operand : Tree} (wasted : outer.wastes front.length back.length = true)
    (same : changed.withSlots [] = outer.withSlots []) :
    Below (Tree.node above changed (front ++ operand :: back)).weighed
      (Tree.node above outer (front ++ .voided id operand :: back)).weighed := by
  rw [← outer.wastes_withSlots [], ← List.length_map Tree.weighed] at wasted
  refine Tree.below_around _ same (total_lt_of_place (total_of_wastes wasted) ?_)
  rw [burden_of_wastes wasted _ (Tree.voided id operand).weighed, Tree.weighed_voided]
  exact Nat.add_lt_add_right (Nat.lt_add_of_pos_left Nat.one_pos) _

theorem assigned_lighter {assignment : NodeId} {operator : TokenKind} {target copied test yes no : Tree}
    (assigns : operator.isAssignment = true) (copy : copied.bare = target.bare) :
    Below (Tree.chosen whole test (.assigned first operator target yes)
        (.assigned second operator copied no)).weighed
      (Tree.assigned assignment operator target (.chosen id test yes no)).weighed := by
  have same : copied.weighed = target.weighed :=
    (Tree.weighed_bare copied).symm.trans (copy ▸ Tree.weighed_bare target)
  rw [Tree.weighed_chosen, Tree.weighed_assigned _ assigns, Tree.weighed_assigned _ assigns,
    Tree.weighed_assigned _ assigns, Tree.weight, Tree.weight, Tree.weight, Tree.weight, Tree.weight, same,
    Tree.weighed_chosen]
  refine ⟨?_, nofun, nofun⟩
  simp only [Nat.add_mul, Nat.mul_add]
  omega

theorem chosen_lighter {second : NodeId} {test yes no : Tree} :
    Below (Tree.tested whole test (.stated first yes) (.stated second no)).weighed
      (Tree.stated statement (.chosen id test yes no)).weighed := by
  have one := burden_le_two (.conditionalStatement none none none) 1 (Tree.stated first yes).weighed
  have two := burden_le_two (.conditionalStatement none none none) 2 (Tree.stated second no).weighed
  simp only [Tree.weighed_tested, Tree.weight, Tree.weighed_stated, Tree.weighed_chosen] at one two ⊢
  exact ⟨by simp only; omega, nofun, nofun⟩

theorem conjoined_lighter {left right : Tree} :
    Below (Tree.tested whole left (.stated first right) .nothing).weighed
      (Tree.stated statement (.conjoined id left right)).weighed := by
  have one := burden_le_two (.conditionalStatement none none none) 1 (Tree.stated first right).weighed
  have two : burden (.conditionalStatement none none none) 2 Tree.nothing.weighed = 0 := rfl
  have none : Tree.nothing.weighed.amount = 0 := rfl
  simp only [Tree.weighed_tested, Tree.weight, Tree.weighed_stated, Tree.weighed_conjoined, two, none]
    at one ⊢
  exact ⟨by simp only; omega, nofun, nofun⟩

theorem itemized_lighter {items statements : List Tree}
    (each : List.Forall₂ (fun item made => ∃ name, made = .stated name item) items statements) :
    Below (Tree.inBlock whole statements).weighed (Tree.stated statement (.inSequence id items)).weighed := by
  rw [Tree.weighed_inBlock, Tree.weighed_stated, Tree.weighed_inSequence]
  refine ⟨?_, nofun, nofun⟩
  have sums : (statements.map Tree.weight).sum ≤ (items.map fun item => item.weight + 2).sum := by
    induction each with
    | nil => exact Nat.le_refl _
    | cons made _ ih =>
      obtain ⟨name, rfl⟩ := made
      rw [List.map_cons, List.map_cons, List.sum_cons, List.sum_cons]
      refine Nat.add_le_add ?_ ih
      rw [Tree.weight, Tree.weighed_stated]
      exact (Nat.add_comm 1 _).trans_le (Nat.le_succ _)
  simp only
  omega

theorem wrapped_lighter {body : NodeId} {inner : Shape} {below : List Tree}
    (isBody : shape.holdsBody front.length = true) (noBlock : inner.isBlock = false)
    (same : changed.withSlots [] = shape.withSlots []) :
    Below (Tree.node id changed (front ++ .inBlock name [.node body inner below] :: back)).weighed
      (Tree.node id shape (front ++ .node body inner below :: back)).weighed := by
  rw [← shape.holdsBody_withSlots [], ← List.length_map Tree.weighed] at isBody
  refine Tree.below_around _ same (total_lt_of_place (total_of_holdsBody isBody) ?_)
  have kept : (Tree.node body inner below).weighed.isBlock = false := by
    rw [Tree.weighed_node]
    exact (inner.isBlock_withSlots []).trans noBlock
  have heavy : ((Tree.node body inner below).weighed.amount == 0) = false :=
    beq_false_of_ne (Nat.ne_of_gt (Tree.weight_pos body inner below))
  rw [burden_of_holdsBody isBody, burden_of_holdsBody isBody, Tree.weighed_inBlock, kept, heavy]
  simp only [List.map_cons, List.map_nil, List.sum_cons, List.sum_nil, Tree.weight, Bool.true_or,
    Bool.or_self, if_true, Bool.false_eq_true, if_false]
  omega

theorem emptied_lighter {body : NodeId} (isBody : shape.holdsBody front.length = true)
    (same : changed.withSlots [] = shape.withSlots []) :
    Below (Tree.node id changed (front ++ .inBlock name [] :: back)).weighed
      (Tree.node id shape (front ++ .node body .emptyStatement [] :: back)).weighed := by
  rw [← shape.holdsBody_withSlots [], ← List.length_map Tree.weighed] at isBody
  refine Tree.below_around _ same (total_lt_of_place (total_of_holdsBody isBody) ?_)
  rw [burden_of_holdsBody isBody, burden_of_holdsBody isBody, Tree.weighed_inBlock, Tree.weighed_node]
  exact Nat.lt_add_of_pos_right Nat.two_pos

/-- What is kept of a sequence in front weighs less than the sequence. -/
theorem leads_lighter (id : NodeId) {first leading : Tree} {more : List Tree}
    (gathered : first.Leads more leading) (last : Tree) :
    leading.weight + last.weight + 1 <
      (Tree.inSequence id (first :: (more ++ [last]))).weight := by
  rw [Tree.weight, Tree.weight, Tree.weight, Tree.weighed_inSequence]
  simp only [List.map_cons, List.map_append, List.map_nil, List.sum_cons, List.sum_append, List.sum_nil,
    Tree.weight]
  by_cases only : more = []
  · rw [Tree.Leads, if_pos only] at gathered
    rw [gathered]
    omega
  · rw [Tree.Leads, if_neg only] at gathered
    obtain ⟨name, rfl⟩ := gathered
    rw [Tree.weighed_inSequence]
    simp only [List.map_cons, List.sum_cons, Tree.weight]
    omega

/-- A statement with another first part. -/
theorem total_of_isLed (isLed : shape.isLed = true) (first : Weight) (rest : List Weight) :
    total shape (first :: rest) = 1 + (first.amount + loads shape 1 rest) := by
  cases shape
  case conditionalStatement => rfl
  case exit kind value => cases kind <;> rfl
  all_goals cases isLed

theorem isBlock_of_isLed (isLed : shape.isLed = true) : shape.isBlock = false := by
  cases shape
  case conditionalStatement | exit => rfl
  all_goals cases isLed

theorem weight_of_isLed (id : NodeId) (isLed : shape.isLed = true) (tree : Tree) (rest : List Tree) :
    (Tree.node id shape (tree :: rest)).weight =
      1 + (tree.weight + loads (shape.withSlots []) 1 (rest.map Tree.weighed)) := by
  rw [Tree.weight, Tree.weighed_node]
  exact total_of_isLed ((shape.isLed_withSlots []).trans isLed) _ _

theorem led_lighter {container statement sequence before : NodeId} {remade : Shape}
    {lead rest : List Tree} {first last leading : Tree} {more : List Tree}
    (isLed : shape.isLed = true) (leads : outer.leading = lead.map Tree.root)
    (inList : outer.isContainer = true) (gathered : first.Leads more leading)
    (same : changed.withSlots [] = outer.withSlots [])
    (still : remade.withSlots [] = shape.withSlots []) :
    Below (Tree.node container changed (lead ++ (front ++ .stated before leading ::
        .node statement remade (last :: rest) :: back))).weighed
      (Tree.node container outer (lead ++ (front ++ .node statement shape
        (.inSequence sequence (first :: (more ++ [last])) :: rest) :: back))).weighed := by
  have container' := (outer.isContainer_withSlots []).trans inList
  have noBlock : (Tree.node statement shape
      (.inSequence sequence (first :: (more ++ [last])) :: rest)).weighed.isBlock = false := by
    rw [Tree.weighed_node]
    exact (shape.isBlock_withSlots []).trans (isBlock_of_isLed isLed)
  have lengths : (outer.withSlots []).leading.length = (lead.map Tree.weighed).length := by
    rw [Shape.length_leading_withSlots, leads, List.length_map, List.length_map]
  have isLed' : remade.isLed = true := by
    rw [← remade.isLed_withSlots [], still, Shape.isLed_withSlots, isLed]
  rw [Tree.weighed_node, Tree.weighed_node, same]
  refine ⟨?_, fun isBlock => isBlock, .inl⟩
  change total _ _ < total _ _
  rw [total_of_isContainer container', total_of_isContainer container']
  refine Nat.add_lt_add_of_le_of_lt ?_ ?_
  · simp only [List.map_append, List.map_cons]
    exact own_le_of_isContainer container' lengths noBlock
  · have lighter := leads_lighter sequence gathered last
    simp only [List.map_map, List.map_append, List.map_cons, List.sum_append, List.sum_cons]
    have one := weight_of_isLed statement isLed' last rest
    have other := weight_of_isLed statement isLed
      (.inSequence sequence (first :: (more ++ [last]))) rest
    have said : (Tree.stated before leading).weight = 1 + leading.weight :=
      congrArg amount (Tree.weighed_stated before leading)
    rw [still] at one
    simp only [Tree.weight] at one other said lighter ⊢
    omega

theorem single_lighter {sequence : NodeId} {remade : Shape} {rest : List Tree} {only : Tree}
    (isLed : shape.isLed = true) (still : remade.withSlots [] = shape.withSlots []) :
    Below (Tree.node statement remade (only :: rest)).weighed
      (Tree.node statement shape (.inSequence sequence [only] :: rest)).weighed := by
  refine @Tree.below_around statement shape remade [] rest only (.inSequence sequence [only]) still ?_
  have isLed' := (shape.isLed_withSlots []).trans isLed
  simp only [List.map_nil, List.nil_append, total_of_isLed isLed', Tree.weighed_inSequence,
    List.map_cons, List.sum_cons, List.sum_nil, Tree.weight]
  omega

theorem turned_lighter {number : NodeId} {operator mirrored : TokenKind} {text digits : String}
    {value : Float} (mirrors : operator.mirrored? = some mirrored) :
    Below (Tree.node id (.binary (some name) mirrored (some number))
        [.node name (.identifier text) [], .node number (.literal .number digits (some value)) []]).weighed
      (Tree.node id (.binary (some number) operator (some name))
        [.node number (.literal .number digits (some value)) [], .node name (.identifier text) []]).weighed := by
  simp only [Tree.weighed_node, List.map_cons, List.map_nil]
  refine ⟨?_, nofun, nofun⟩
  cases operator <;> cases mirrors <;> exact Nat.lt_add_one 3

theorem gathered_lighter {isDefault : Bool} {label : Slot} {slots : List Slot} {lead : Tree}
    {statements : List Tree}
    (unsettled : ∀ block slots below, statements ≠ [.node block (.block slots) below])
    (same : changed.withSlots [] = (Shape.clause isDefault label slots).withSlots []) :
    Below (Tree.node id changed [lead, .inBlock name statements]).weighed
      (Tree.node id (.clause isDefault label slots) (lead :: statements)).weighed := by
  have scatters : scattered (statements.map Tree.weighed) = true := by
    match statements, unsettled with
    | [], _ => rfl
    | [.nothing], _ => rfl
    | [.node block shape below], unsettled =>
      rw [List.map_singleton, Tree.weighed_node]
      cases shape
      case block slots => exact absurd rfl (unsettled block slots below)
      all_goals rfl
    | _ :: _ :: _, _ => rfl
  rw [Tree.weighed_node, Tree.weighed_node, same]
  refine ⟨?_, fun isBlock => isBlock, .inl⟩
  change total (.clause isDefault none []) _ < total (.clause isDefault none []) _
  rw [total_of_isContainer rfl, total_of_isContainer rfl, List.map_cons, List.map_cons,
    List.map_nil, List.map_cons, Tree.weighed_inBlock]
  have before : own (.clause isDefault none []) (lead.weighed :: statements.map Tree.weighed) = 3 :=
    if_pos scatters
  have after : own (.clause isDefault none [])
      [lead.weighed, ⟨1 + (statements.map Tree.weight).sum, true, false⟩] = 1 := rfl
  have sums : (statements.map Tree.weighed).map amount = statements.map Tree.weight := List.map_map
  rw [after]
  simp only [List.map_cons, List.map_nil, List.sum_cons, List.sum_nil, sums, before]
  omega

theorem called_lighter {statement operator call function : NodeId} {isAfter : Bool} {body : Tree} :
    Below body.weighed (Tree.calledOnTheSpot statement operator call function isAfter body).weighed := by
  have within := @Tree.weight_lt_node function (.function true none [] body.root) _ _
    (List.mem_cons_of_mem Tree.nothing (List.mem_singleton_self body))
  have above := @Tree.weight_lt_node call (.call false (some function) []) _ _
    (List.mem_singleton_self (Tree.node function (.function true none [] body.root) [.nothing, body]))
  have whole : _ < (Tree.calledOnTheSpot statement operator call function isAfter body).weight :=
    Nat.lt_trans (Tree.weight_lt_node operator (List.mem_singleton_self _))
      (Tree.weight_lt_node statement (List.mem_singleton_self _))
  have lighter := Nat.lt_of_le_of_lt within (Nat.lt_trans above whole)
  refine ⟨Nat.lt_of_succ_lt lighter, ?_, fun _ => .inr lighter⟩
  rw [Tree.calledOnTheSpot, Tree.weighed_node]
  exact nofun

theorem sum_spread_le (tree : Tree) : ((spread store tree).map Tree.weight).sum ≤ tree.weight := by
  cases tree with
  | nothing => exact Nat.le_refl _
  | node name shape below =>
    rw [spread]
    split
    · exact Nat.le_of_lt (Tree.sum_lt_weight name shape below)
    · exact Nat.le_of_eq (Nat.add_zero _)

theorem sum_spread_lt {tree : Tree} (splices : isSpliceable store tree.root = true) :
    ((spread store tree).map Tree.weight).sum < tree.weight := by
  cases tree with
  | nothing => cases splices
  | node name shape below =>
    rw [Tree.root_node] at splices
    rw [spread, if_pos splices]
    exact Tree.sum_lt_weight name shape below

theorem spliced_lighter {statements : List Tree} (isList : shape.isList = true)
    (any : ∃ part ∈ statements, isSpliceable store part.root = true)
    (same : changed.withSlots [] = shape.withSlots []) :
    Below (Tree.node id changed (statements.flatMap (spread store))).weighed
      (Tree.node id shape statements).weighed := by
  have total_eq (below : List Weight) :
      total (shape.withSlots []) below = 1 + (below.map amount).sum := by
    cases shape
    case file | block => exact total_of_isContainer rfl
    all_goals cases isList
  rw [Tree.weighed_node, Tree.weighed_node, same]
  refine ⟨?_, fun isBlock => isBlock, .inl⟩
  change total _ _ < total _ _
  rw [total_eq, total_eq, List.map_map, List.map_map]
  refine Nat.add_lt_add_left ?_ 1
  rw [List.map_flatMap, List.flatMap_def, List.sum_flatten, List.map_map]
  exact List.sum_lt_sum _ _ (fun tree _ => sum_spread_le tree)
    (any.imp fun tree splices => ⟨splices.1, sum_spread_lt splices.2⟩)

end Steps

/-- What a rule puts in the place of something is lighter. -/
theorem Rewrites.lighter {store : Store} {rule : Rule} {part new : Tree}
    (rewrites : Rewrites store rule part new) : Below new.weighed part.weighed := by
  cases rewrites with
  | undefined _ _ same => exact undefined_lighter same
  | dropped wasted same => exact dropped_lighter wasted same
  | assigned assigns _ copy _ => exact assigned_lighter assigns copy
  | chosen => exact chosen_lighter
  | conjoined _ => exact conjoined_lighter
  | itemized _ each => exact itemized_lighter each
  | wrapped isBody noBlock same => exact wrapped_lighter isBody noBlock same
  | emptied isBody same => exact emptied_lighter isBody same
  | led _ isLed leads inList split gathered same still =>
    subst split
    exact led_lighter isLed leads inList gathered same still
  | single _ isLed still => exact single_lighter isLed still
  | turned mirrors => exact turned_lighter mirrors
  | gathered unsettled same => exact gathered_lighter unsettled same
  | called _ => exact called_lighter
  | spliced isList any _ same => exact spliced_lighter isList any same

end Canonical

/-- A step of a rule makes the program lighter. -/
theorem Tree.Replaced.weight_lt {store : Store} {rule : Rule} {tree remade : Tree}
    (replaced : Replaced (Canonical.Rewrites store rule) tree remade) : remade.weight < tree.weight := by
  obtain ⟨part, new, rewrites, placed⟩ := replaced
  exact (placed.lighter rewrites.lighter).amount

end Unflatten
