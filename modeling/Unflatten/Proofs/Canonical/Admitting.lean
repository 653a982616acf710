import Unflatten.Proofs.Binding.Echoing
import Unflatten.Proofs.Canonical.Normalizing

/-! # What rules ask of the names in a program

What a rule asks of a program so that names keep their declarations (`Rule.admits`): statements with
`let` or `const` stand in lists, of files and blocks and, but for the rule that puts the statements of a
clause into a block, of clauses; a function that is called on the spot declares no names, if its body is
to be put in the place of the call.  A step of a rule keeps this (`Canonical.Rewrites.keeps`). -/

set_option autoImplicit false

namespace Unflatten

namespace Shape

/-- What holds expressions only: an expression other than a function, or the statement of one. -/
def holdsOperands : Shape → Bool
  | .expressionStatement _ => true
  | .function _ _ _ _ => false
  | shape => shape.isOperand

/-- A node that declares nothing, asks nothing of what it holds and calls nothing. -/
def isMute : Shape → Bool
  | .function _ _ _ _ | .declarationList _ _ | .declaration _ _ | .catchClause _ _ | .access _ _ _
  | .call _ _ _ => false
  | _ => true

/-- A call without `new`. -/
def isCall : Shape → Bool
  | .call false _ _ => true
  | _ => false

theorem natureAt_withSlots (shape : Shape) (slots : List Slot) (before behind : Nat) :
    (shape.withSlots slots).natureAt before behind = shape.natureAt before behind := by
  cases shape
  case access isElement _ _ => cases isElement <;> cases before <;> rfl
  case declaration | catchClause => cases before <;> rfl
  case function => cases before <;> cases behind <;> rfl
  all_goals rfl

theorem holdsOperands_withSlots (shape : Shape) (slots : List Slot) :
    (shape.withSlots slots).holdsOperands = shape.holdsOperands := by
  cases shape <;> rfl

theorem isCall_withSlots (shape : Shape) (slots : List Slot) :
    (shape.withSlots slots).isCall = shape.isCall := by
  cases shape
  case call isNew _ _ => cases isNew <;> rfl
  all_goals rfl

end Shape

namespace Rule

/-- Where a tree with `let` or `const` may stand: as a statement of a list or in the head of a loop.  What
a clause of a `switch` holds belongs to the `switch`. -/
def takesLexical (rule : Rule) (shape : Shape) (before : Nat) (isLexical : Bool) : Bool :=
  match shape with
  | .file _ _ | .block _ => isLexical
  | .clause _ _ _ => isLexical && rule != .switchCase
  | .switch _ _ => before != 0
  | .loop .forLoop _ _ _ _ | .forIn _ _ _ => before == 0
  | _ => false

theorem takesLexical_withSlots (rule : Rule) (shape : Shape) (slots : List Slot) (before : Nat) :
    rule.takesLexical (shape.withSlots slots) before = rule.takesLexical shape before := by
  cases shape
  case loop kind _ _ _ _ => cases kind <;> rfl
  all_goals rfl

/-- What a rule asks of a child of a node. -/
def admits (rule : Rule) (store : Store) (shape : Shape) (before behind : Nat) (child : Tree) : Bool :=
  store.answers shape before behind child &&
  (!shape.holdsOperands || (child.reach store).isOperand) &&
  (!(child.reach store).leaks || rule.takesLexical shape before (child.reach store).isLexical) &&
  (rule != .inlineCall || !shape.isCall || before != 0 || behind != 0 || (child.reach store).isIdle)

end Rule

/-- All children in a tree are admitted. -/
def Rule.Accepts (rule : Rule) (store : Store) (tree : Tree) : Prop :=
  tree.every (rule.admits store) = true

instance (rule : Rule) (store : Store) (tree : Tree) : Decidable (rule.Accepts store tree) :=
  inferInstanceAs (Decidable (_ = true))

/-- An expression in which all children are admitted. -/
structure Rule.AcceptsOperand (rule : Rule) (store : Store) (tree : Tree) : Prop where
  accepts : rule.Accepts store tree
  isOperand : (tree.reach store).isOperand = true

/-- A tree in which all children are admitted and that declares no names around it. -/
structure Rule.AcceptsSilent (rule : Rule) (store : Store) (tree : Tree) : Prop where
  accepts : rule.Accepts store tree
  leaks : (tree.reach store).leaks = false
  hoists : (tree.reach store).hoists = false

/-- A tree reaches around it as another does, or less. -/
structure Reach.Quiets (rule : Rule) (part new : Reach) : Prop where
  leaks : new.leaks = true → part.leaks = true
  hoists : new.hoists = true → part.hoists = true
  idle : rule = .inlineCall → part.isIdle = true → new.isIdle = true

/-- A tree may stand where another does. -/
structure Reach.Yields (rule : Rule) (part new : Reach) : Prop extends part.Quiets rule new where
  natures : part.natures ⊆ new.natures
  isOperand : part.isOperand = true → new.isOperand = true
  lexical : new.leaks = true → part.isLexical = true → new.isLexical = true

section Reach
variable {rule : Rule} {store : Store} {shape changed : Shape} {parts news : List Reach}
  {part new : Reach} {isBlockScoped : Bool} {before behind : Nat} {tree child other : Tree} {id : NodeId}
  {below front back : List Tree}

namespace Reach

theorem Quiets.refl (rule : Rule) (part : Reach) : part.Quiets rule part :=
  ⟨fun leaks => leaks, fun hoists => hoists, fun _ idle => idle⟩

theorem Quiets.of_silent (noCall : rule ≠ .inlineCall) (leaks : new.leaks = false)
    (hoists : new.hoists = false) : part.Quiets rule new :=
  ⟨fun there => absurd there (ne_true_of_eq_false leaks),
    fun there => absurd there (ne_true_of_eq_false hoists), fun is => absurd is noCall⟩

theorem node_congr (same : changed.withSlots [] = shape.withSlots []) :
    node isBlockScoped changed parts = node isBlockScoped shape parts := by
  have blind (shape : Shape) (slots : List Slot) :
      node isBlockScoped (shape.withSlots slots) parts = node isBlockScoped shape parts := by
    cases shape
    case loop kind _ _ _ _ => cases kind <;> rfl
    case declarationList isStatement _ => cases isStatement <;> rfl
    all_goals rfl
  rw [← blind changed [], same, blind]

theorem any_of_each {test : Reach → Bool}
    (each : ∀ new ∈ news, ∃ part ∈ parts, test new = true → test part = true)
    (any : news.any test = true) : parts.any test = true := by
  obtain ⟨new, member, passes⟩ := List.any_eq_true.mp any
  obtain ⟨part, there, also⟩ := each new member
  exact List.any_eq_true.mpr ⟨part, there, also passes⟩

/-- A node reaches no further if no child does. -/
theorem node_yields (same : changed.withSlots [] = shape.withSlots [])
    (each : ∀ new ∈ news, ∃ part ∈ parts, part.Quiets rule new) :
    (node isBlockScoped shape parts).Yields rule (node isBlockScoped changed news) := by
  rw [node_congr same]
  have leaks : news.any Reach.leaks = true → parts.any Reach.leaks = true :=
    any_of_each fun new member => (each new member).imp fun _ found => ⟨found.1, found.2.leaks⟩
  have hoists : news.any Reach.hoists = true → parts.any Reach.hoists = true :=
    any_of_each fun new member => (each new member).imp fun _ found => ⟨found.1, found.2.hoists⟩
  refine ⟨⟨?_, ?_, fun isCall => ?_⟩, List.Subset.refl _, fun operand => operand, fun _ lexical => lexical⟩
  · cases shape
    case declarationList =>
      simp only [node, Bool.or_eq_true]
      exact Or.imp_right leaks
    case loop kind _ _ _ _ =>
      cases kind
      case forLoop => exact fun impossible => impossible
      all_goals exact leaks
    case function | block | forIn | switch | catchClause => exact fun impossible => impossible
    all_goals exact leaks
  · cases shape
    case declarationList =>
      simp only [node, Bool.or_eq_true]
      exact Or.imp_right hoists
    case function => exact fun isDeclaration => isDeclaration
    all_goals exact hoists
  · cases shape
    case function =>
      simp only [node, List.all_eq_true]
      intro idle new member
      obtain ⟨part, there, quiets⟩ := each new member
      exact quiets.idle isCall (idle part there)
    case block =>
      simp only [node, List.all_eq_true, Bool.and_eq_true, Bool.not_eq_true']
      intro silent new member
      obtain ⟨part, there, quiets⟩ := each new member
      obtain ⟨noLeaks, noHoists⟩ := silent part there
      refine ⟨Bool.eq_false_iff.mpr fun leaks => ?_, Bool.eq_false_iff.mpr fun hoists => ?_⟩
      · rw [quiets.leaks leaks] at noLeaks
        cases noLeaks
      · rw [quiets.hoists hoists] at noHoists
        cases noHoists
    all_goals exact fun _ => rfl

end Reach

namespace Rule

theorem admits_iff : rule.admits store shape before behind child = true ↔
    (∀ nature, shape.natureAt before behind = some nature → nature ∈ (child.reach store).natures) ∧
    (shape.holdsOperands = true → (child.reach store).isOperand = true) ∧
    ((child.reach store).leaks = true →
      rule.takesLexical shape before (child.reach store).isLexical = true) ∧
    (rule = .inlineCall → shape.isCall = true → before = 0 → behind = 0 → (child.reach store).isIdle = true) := by
  have answers : store.answers shape before behind child = true ↔
      ∀ nature, shape.natureAt before behind = some nature → nature ∈ (child.reach store).natures := by
    rw [Store.answers, Option.all_eq_true]
    simp only [List.contains_iff_mem]
  simp only [admits, Bool.and_eq_true, answers, Bool.or_eq_true, Bool.not_eq_true', bne_iff_ne, and_assoc]
  have imp (first second : Bool) : (first = false ∨ second = true) ↔ (first = true → second = true) := by
    cases first <;> simp
  rw [imp, imp]
  refine and_congr_right fun _ => and_congr_right fun _ => and_congr_right fun _ => ?_
  cases shape.isCall <;> tauto

theorem admits_congr (same : changed.withSlots [] = shape.withSlots []) :
    rule.admits store changed before behind child = rule.admits store shape before behind child := by
  have blind (shape : Shape) (slots : List Slot) : rule.admits store (shape.withSlots slots) before behind child =
      rule.admits store shape before behind child := by
    rw [admits, admits, Store.answers, Store.answers, Shape.natureAt_withSlots, takesLexical_withSlots,
      Shape.holdsOperands_withSlots, Shape.isCall_withSlots]
  rw [← blind changed [], same, blind]

theorem takesLexical_mono {isLexical also : Bool} (lexical : isLexical = true → also = true)
    (takes : rule.takesLexical shape before isLexical = true) : rule.takesLexical shape before also = true := by
  cases isLexical with
  | true =>
    rw [lexical rfl]
    exact takes
  | false =>
    cases also with
    | false => exact takes
    | true =>
      cases shape
      case file | block | clause => cases takes
      case loop kind _ _ _ _ => cases kind <;> exact takes
      all_goals exact takes

/-- What yields to an admitted child is admitted. -/
theorem admits_of_yields (yields : (child.reach store).Yields rule (other.reach store))
    (admitted : rule.admits store shape before behind child = true) :
    rule.admits store shape before behind other = true := by
  obtain ⟨answers, operand, leaks, idle⟩ := admits_iff.mp admitted
  refine admits_iff.mpr ⟨fun nature asks => yields.natures (answers nature asks),
    fun holds => yields.isOperand (operand holds), fun leaky => ?_,
    fun inlines isCall front back => yields.idle inlines (idle inlines isCall front back)⟩
  exact takesLexical_mono (yields.lexical leaky) (leaks (yields.leaks leaky))

theorem accepts_node : rule.Accepts store (.node id shape below) ↔ ∀ front child back,
    below = front ++ child :: back → rule.admits store shape front.length back.length child = true ∧
      rule.Accepts store child :=
  Tree.every_node

theorem Accepts.within (accepts : rule.Accepts store tree) (within : Tree.Within child tree) :
    rule.Accepts store child :=
  Tree.every_of_within within accepts

theorem Accepts.answers (accepts : rule.Accepts store tree) : tree.every store.answers = true := by
  induction tree with
  | nothing => rfl
  | node id shape below ih =>
    refine Tree.every_node.mpr fun front child back same => ?_
    obtain ⟨admitted, inner⟩ := accepts_node.mp accepts front child back same
    refine ⟨?_, ih child (by simp [same]) inner⟩
    simp only [admits, Bool.and_eq_true] at admitted
    exact admitted.1.1.1

/-- What a rule asks depends on the marks and the shapes of the nodes only. -/
theorem Accepts.marked {later : Store} (accepts : rule.Accepts store tree)
    (same : ∀ id ∈ tree.names, later.flags (some id) = store.flags (some id)) : rule.Accepts later tree := by
  induction tree with
  | nothing => rfl
  | node id shape below ih =>
    refine accepts_node.mpr fun front child back split => ?_
    obtain ⟨admitted, inner⟩ := accepts_node.mp accepts front child back split
    have member : child ∈ below := split ▸ List.mem_append_right _ List.mem_cons_self
    have marks : ∀ id ∈ child.names, later.flags (some id) = store.flags (some id) := fun name inside =>
      same name (List.mem_cons_of_mem _ (Tree.mem_namesAll.mpr ⟨child, member, inside⟩))
    refine ⟨?_, ih child member inner marks⟩
    rw [admits, Store.answers, Tree.reach_marked marks]
    exact admitted

theorem Accepts.operand (accepts : rule.Accepts store (.node id shape below))
    (holds : shape.holdsOperands = true) (member : child ∈ below) : rule.AcceptsOperand store child := by
  obtain ⟨front, back, rfl⟩ := List.append_of_mem member
  obtain ⟨admitted, inner⟩ := accepts_node.mp accepts front child back rfl
  exact ⟨inner, (admits_iff.mp admitted).2.1 holds⟩

theorem AcceptsOperand.silent (operand : rule.AcceptsOperand store tree) : rule.AcceptsSilent store tree := by
  have held : ∀ shape before behind child, shape.isOperand = true → shape.isFunction = false →
      rule.admits store shape before behind child = true → (child.reach store).isOperand = true := by
    intro shape before behind child isOperand noFunction admitted
    refine (admits_iff.mp admitted).2.1 ?_
    cases shape
    case function => cases noFunction
    case expressionStatement => rfl
    all_goals exact isOperand
  obtain ⟨leaks, hoists⟩ := Tree.reach_of_operands held operand.accepts operand.isOperand
  exact ⟨operand.accepts, leaks, hoists⟩

theorem AcceptsSilent.admits (silent : rule.AcceptsSilent store child)
    (answers : ∀ nature, shape.natureAt before behind = some nature → nature ∈ (child.reach store).natures)
    (operand : shape.holdsOperands = true → (child.reach store).isOperand = true)
    (noCall : shape.isCall = false) : rule.admits store shape before behind child = true := by
  refine admits_iff.mpr ⟨answers, operand, fun leaks => ?_, fun _ isCall => ?_⟩
  · rw [silent.leaks] at leaks
    cases leaks
  · rw [noCall] at isCall
    cases isCall

theorem AcceptsSilent.nothing : rule.AcceptsSilent store .nothing :=
  ⟨rfl, rfl, rfl⟩

theorem AcceptsSilent.node (mute : shape.isMute = true) (each : ∀ child ∈ below, rule.AcceptsSilent store child)
    (operands : shape.holdsOperands = true → ∀ child ∈ below, (child.reach store).isOperand = true) :
    rule.AcceptsSilent store (.node id shape below) := by
  have leaks : (below.map (Tree.reach store)).any Reach.leaks = false := by
    simp only [List.any_map, List.any_eq_false, Function.comp_apply, Bool.not_eq_true]
    exact fun child member => (each child member).leaks
  have hoists : (below.map (Tree.reach store)).any Reach.hoists = false := by
    simp only [List.any_map, List.any_eq_false, Function.comp_apply, Bool.not_eq_true]
    exact fun child member => (each child member).hoists
  refine ⟨accepts_node.mpr fun front child back same => ⟨(each child (by simp [same])).admits
    (fun nature asks => ?_) (fun holds => operands holds child (by simp [same])) ?_,
    (each child (by simp [same])).accepts⟩, ?_, ?_⟩
  · cases shape <;> first | exact absurd mute Bool.false_ne_true | cases asks
  · cases shape <;> first | exact absurd mute Bool.false_ne_true | rfl
  · rw [Tree.reach_node]
    cases shape
    case function | declarationList => cases mute
    case loop kind _ _ _ _ =>
      cases kind
      case forLoop => rfl
      all_goals exact leaks
    case block | forIn | switch | catchClause => rfl
    all_goals exact leaks
  · rw [Tree.reach_node]
    cases shape
    case function | declarationList => cases mute
    all_goals exact hoists

theorem AcceptsOperand.node (mute : shape.isMute = true) (isOperand : shape.isOperand = true)
    (each : ∀ child ∈ below, rule.AcceptsOperand store child) :
    rule.AcceptsOperand store (.node id shape below) :=
  ⟨(AcceptsSilent.node mute (fun child member => (each child member).silent)
    fun _ child member => (each child member).isOperand).accepts, by rw [Tree.reach_node]; exact isOperand⟩

theorem AcceptsOperand.stated (operand : rule.AcceptsOperand store tree) :
    rule.AcceptsSilent store (.stated id tree) :=
  .node rfl (List.forall_mem_singleton.mpr operand.silent)
    fun _ => List.forall_mem_singleton.mpr operand.isOperand

theorem Accepts.stated (accepts : rule.Accepts store (.stated id tree)) : rule.AcceptsOperand store tree :=
  accepts.operand rfl List.mem_cons_self

/-- What is mute, and stands where nothing is asked, may give way to anything mute. -/
theorem AcceptsSilent.yields (silent : rule.AcceptsSilent store other) (noCall : rule ≠ .inlineCall)
    (unnatural : (tree.reach store).natures = [])
    (operand : (tree.reach store).isOperand = true → (other.reach store).isOperand = true) :
    (tree.reach store).Yields rule (other.reach store) where
  toQuiets := .of_silent noCall silent.leaks silent.hoists
  natures := by
    rw [unnatural]
    exact List.nil_subset _
  isOperand := operand
  lexical leaks := by
    rw [silent.leaks] at leaks
    cases leaks

/-! ### Children that give way -/

section Middle

/-- A child gives way to another. -/
theorem Accepts.swap (accepts : rule.Accepts store (.node id shape (front ++ child :: back)))
    (same : changed.withSlots [] = shape.withSlots [])
    (also : ∀ before behind, rule.admits store shape before behind child = true →
      rule.admits store shape before behind other = true)
    (inner : rule.Accepts store other) : rule.Accepts store (.node id changed (front ++ other :: back)) := by
  refine accepts_node.mpr fun first tree last split => ?_
  rw [admits_congr same]
  rcases List.append_eq_append_iff.mp split with ⟨middle, rfl, others⟩ | ⟨middle, rfl, others⟩
  · cases middle with
    | nil =>
      cases others
      obtain ⟨admitted, -⟩ := accepts_node.mp accepts _ child back rfl
      rw [List.append_nil]
      exact ⟨also _ _ admitted, inner⟩
    | cons head middle =>
      cases others
      have found := accepts_node.mp accepts (front ++ child :: middle) tree last (by simp)
      rwa [List.length_append, List.length_cons] at found ⊢
  · cases middle with
    | nil =>
      cases others
      obtain ⟨admitted, -⟩ := accepts_node.mp accepts first child back (by simp)
      exact ⟨also _ _ admitted, inner⟩
    | cons head middle =>
      cases others
      have found := accepts_node.mp accepts first tree (middle ++ child :: back) (by simp)
      rw [List.append_eq]
      rwa [List.length_append, List.length_cons] at found ⊢

theorem yields_swap (same : changed.withSlots [] = shape.withSlots [])
    (quiets : (child.reach store).Quiets rule (other.reach store)) :
    ((Tree.node id shape (front ++ child :: back)).reach store).Yields rule
      ((Tree.node id changed (front ++ other :: back)).reach store) := by
  rw [Tree.reach_node, Tree.reach_node]
  refine Reach.node_yields same fun new member => ?_
  simp only [List.map_append, List.map_cons, List.mem_append, List.mem_cons] at member ⊢
  rcases member with before | rfl | behind
  · exact ⟨new, .inl before, .refl _ _⟩
  · exact ⟨_, .inr (.inl rfl), quiets⟩
  · exact ⟨new, .inr (.inr behind), .refl _ _⟩

/-- A child gives way to one that yields to it. -/
theorem Accepts.swap_of_yields (accepts : rule.Accepts store (.node id shape (front ++ child :: back)))
    (same : changed.withSlots [] = shape.withSlots [])
    (yields : (child.reach store).Yields rule (other.reach store)) (inner : rule.Accepts store other) :
    rule.Accepts store (.node id changed (front ++ other :: back)) ∧
      ((Tree.node id shape (front ++ child :: back)).reach store).Yields rule
        ((Tree.node id changed (front ++ other :: back)).reach store) :=
  ⟨accepts.swap same (fun _ _ => admits_of_yields yields) inner, yields_swap same yields.toQuiets⟩

end Middle

theorem accepts_container (inList : shape.isContainer = true) :
    rule.Accepts store (.node id shape below) ↔ ∀ child ∈ below, ((child.reach store).leaks = true →
      rule.takesLexical shape 0 (child.reach store).isLexical = true) ∧ rule.Accepts store child := by
  have admitted (before behind : Nat) (child : Tree) : rule.admits store shape before behind child = true ↔
      ((child.reach store).leaks = true → rule.takesLexical shape 0 (child.reach store).isLexical = true) := by
    rw [admits_iff]
    cases shape
    case file | block | clause =>
      simp [Shape.natureAt, Shape.holdsOperands, Shape.isCall, Shape.isOperand, takesLexical]
    all_goals cases inList
  rw [accepts_node]
  constructor
  · intro all child member
    obtain ⟨front, back, rfl⟩ := List.append_of_mem member
    obtain ⟨here, inner⟩ := all front child back rfl
    exact ⟨(admitted _ _ child).mp here, inner⟩
  · intro all front child back same
    obtain ⟨here, inner⟩ := all child (by simp [same])
    exact ⟨(admitted _ _ child).mpr here, inner⟩

end Rule

end Reach

/-! ## Copies of targets -/

section Targets
variable {rule : Rule} {store before : Store} {target copied : Tree} {around : List Surrounding}
  {found : Occurrence}

theorem Tree.exists_of_bare {id : NodeId} {shape : Shape} {below : List Tree}
    (same : copied.bare = (Tree.node id shape below).bare) : ∃ name other parts,
      copied = .node name other parts ∧ other.withSlots [] = shape.withSlots [] ∧
        parts.map Tree.bare = below.map Tree.bare := by
  cases copied with
  | nothing => cases same
  | node name other parts =>
    rw [bare, bare, bareAll_eq, bareAll_eq] at same
    obtain ⟨-, shapes, parts⟩ := Tree.node.inj same
    exact ⟨_, _, _, rfl, shapes, parts⟩

/-- A copy of the name of a property. -/
theorem Tree.eq_of_bare_name (holds : before.Holds target)
    (named : Nature.name ∈ (target.reach store).natures) (same : copied.bare = target.bare) :
    copied = .nothing ∨ ∃ id text, copied = .node id (.identifier text) [] := by
  cases holds with
  | nothing =>
    cases copied with
    | nothing => exact .inl rfl
    | node => cases same
  | @node id shape below found regular roots links inner =>
    rw [reach_node] at named
    obtain ⟨name, other, parts, rfl, shapes, bares⟩ := exists_of_bare same
    cases shape <;> first | exact absurd named (List.not_mem_nil) | skip
    case identifier text =>
      cases List.map_eq_nil_iff.mp roots.symm
      rw [Shape.eq_identifier_of_withSlots shapes, List.map_eq_nil_iff.mp bares]
      exact .inr ⟨name, text, rfl⟩
    all_goals simp [Reach.node, Shape.natures] at named

namespace Tree.IsTarget

theorem acceptsOperand (simple : target.IsTarget) (holds : before.Holds target)
    (accepts : rule.Accepts store target) (same : copied.bare = target.bare) :
    rule.AcceptsOperand store copied := by
  induction simple generalizing copied with
  | name | this =>
    obtain ⟨name, shape, parts, rfl, shapes, bares⟩ := exists_of_bare same
    rw [List.map_eq_nil_iff.mp bares]
    cases shape <;> cases shapes
    exact .node rfl rfl (List.forall_mem_nil _)
  | @member id first second object property _ ih =>
    obtain ⟨name, shape, parts, rfl, shapes, bares⟩ := exists_of_bare same
    obtain ⟨object', rest, rfl, sameObject, others⟩ := List.map_eq_cons_iff.mp bares
    obtain ⟨property', rfl, sameProperty⟩ := List.map_eq_singleton_iff.mp others
    have inner := ih (holds.within (.deeper List.mem_cons_self .whole))
      (accepts.within (.deeper List.mem_cons_self .whole)) sameObject
    cases shape <;> cases shapes
    obtain ⟨admitted, -⟩ := Rule.accepts_node.mp accepts [object] property [] rfl
    have named : Nature.name ∈ (property.reach store).natures := (Rule.admits_iff.mp admitted).1 .name rfl
    have operand : rule.AcceptsOperand store property' ∧ Nature.name ∈ (property'.reach store).natures := by
      rcases eq_of_bare_name (holds.within (.deeper (by simp) .whole)) named sameProperty with
        rfl | ⟨id, text, rfl⟩
      · exact ⟨⟨rfl, rfl⟩, List.mem_cons_self⟩
      · exact ⟨.node rfl rfl (List.forall_mem_nil _), by rw [reach_node]; exact List.mem_cons_self⟩
    refine ⟨Rule.accepts_node.mpr fun front child back split => ?_, by rw [reach_node]; rfl⟩
    cases front with
    | nil =>
      cases split
      exact ⟨inner.silent.admits (fun _ asks => by cases asks) (fun _ => inner.isOperand) rfl, inner.accepts⟩
    | cons head front =>
      obtain ⟨-, others⟩ := List.cons.inj split
      rcases List.append_eq_singleton_iff.mp others.symm with ⟨rfl, same⟩ | ⟨-, same⟩ <;> cases same
      exact ⟨operand.1.silent.admits (fun _ asks => by cases asks; exact operand.2)
        (fun _ => operand.1.isOperand) rfl, operand.1.accepts⟩

/-- The identifiers in a copy declare nothing. -/
theorem home?_eq_none (simple : target.IsTarget) (holds : before.Holds target)
    (accepts : rule.Accepts store target) (same : copied.bare = target.bare)
    (occurs : copied.Occurs store ⟨around, .plain⟩ found) : found.home? = none := by
  have leaf {id : NodeId} {shape : Shape}
      (occurs : (Tree.node id shape []).Occurs store ⟨around, .plain⟩ found) : found.home? = none := by
    rcases occurs_node.mp occurs with ⟨text, -, rfl⟩ | ⟨inner, child, paired, -⟩
    · rfl
    · rw [List.zip_nil_right] at paired
      cases paired
  induction simple generalizing copied with
  | name | this =>
    obtain ⟨name, shape, parts, rfl, shapes, bares⟩ := exists_of_bare same
    cases List.map_eq_nil_iff.mp bares
    exact leaf occurs
  | @member id first second object property _ ih =>
    obtain ⟨name, shape, parts, rfl, shapes, bares⟩ := exists_of_bare same
    obtain ⟨object', rest, rfl, sameObject, others⟩ := List.map_eq_cons_iff.mp bares
    obtain ⟨property', rfl, sameProperty⟩ := List.map_eq_singleton_iff.mp others
    cases shape <;> cases shapes
    obtain ⟨child, member, there⟩ := (occurs_clear rfl rfl rfl).mp occurs
    obtain ⟨admitted, -⟩ := Rule.accepts_node.mp accepts [object] property [] rfl
    have named : Nature.name ∈ (property.reach store).natures := (Rule.admits_iff.mp admitted).1 .name rfl
    rcases List.mem_pair.mp member with rfl | rfl
    · exact ih (holds.within (.deeper List.mem_cons_self .whole))
        (accepts.within (.deeper List.mem_cons_self .whole)) sameObject there
    · rcases eq_of_bare_name (holds.within (.deeper (by simp) .whole)) named sameProperty with
        rfl | ⟨id, text, rfl⟩
      · exact absurd there occurs_nothing
      · exact leaf there

end Tree.IsTarget

end Targets

/-! ## Steps -/

section Shapes
variable {rule : Rule} {shape changed : Shape} {before behind : Nat} {isLexical : Bool}

theorem Shape.natureAt_of_holdsBody (isBody : shape.holdsBody before = true) (front behind : Nat) :
    shape.natureAt front behind = none ∧ shape.holdsOperands = false ∧ shape.isCall = false := by
  cases shape
  case conditionalStatement | loop | forIn => exact ⟨rfl, rfl, rfl⟩
  all_goals cases isBody

theorem Rule.takesLexical_of_holdsBody (isBody : shape.holdsBody before = true) :
    rule.takesLexical shape before isLexical = false := by
  cases shape
  case conditionalStatement => rfl
  case loop kind _ _ _ _ =>
    cases kind
    case forLoop =>
      rw [beq_iff_eq.mp isBody]
      rfl
    all_goals rfl
  case forIn =>
    rw [beq_iff_eq.mp isBody]
    rfl
  all_goals cases isBody

theorem Rule.takesLexical_congr (same : changed.withSlots [] = shape.withSlots []) :
    rule.takesLexical changed before = rule.takesLexical shape before := by
  rw [← rule.takesLexical_withSlots changed [], same, takesLexical_withSlots]

theorem Shape.isContainer_congr (same : changed.withSlots [] = shape.withSlots []) :
    changed.isContainer = shape.isContainer := by
  rw [← isContainer_withSlots changed [], same, isContainer_withSlots]

theorem Shape.isContainer_of_isList (isList : shape.isList = true) : shape.isContainer = true := by
  cases shape
  case file | block => rfl
  all_goals cases isList

theorem Shape.isEven_of_isContainer (inList : shape.isContainer = true) : shape.isEven = true := by
  cases shape
  case file | block | clause => rfl
  all_goals cases inList

/-- `let` and `const` in a block are for the block. -/
theorem Tree.leaks_inBlock {store : Store} {id : NodeId} {items : List Tree} :
    ((inBlock id items).reach store).leaks = false := by
  rw [inBlock, reach_node]
  rfl

/-- The body of a statement has no `let` or `const` for what is around it. -/
theorem Rule.Accepts.closed_body {rule : Rule} {store : Store} {id : NodeId} {front back : List Tree}
    {body : Tree} (accepts : rule.Accepts store (.node id shape (front ++ body :: back)))
    (isBody : shape.holdsBody front.length = true) : (body.reach store).leaks = false := by
  obtain ⟨admitted, -⟩ := accepts_node.mp accepts front body back rfl
  refine Bool.eq_false_iff.mpr fun leaks => ?_
  have takes := (admits_iff.mp admitted).2.2.1 leaks
  rw [takesLexical_of_holdsBody isBody] at takes
  cases takes

/-- Where the statements of clauses are to be put into blocks, they have no `let` or `const` for what is
around the clause. -/
theorem Rule.Accepts.closed_clause {store : Store} {id : NodeId} {isDefault : Bool} {label : Slot}
    {slots : List Slot} {below : List Tree}
    (accepts : Rule.switchCase.Accepts store (.node id (.clause isDefault label slots) below)) :
    ∀ child ∈ below, (child.reach store).leaks = false := by
  intro child member
  refine Bool.eq_false_iff.mpr fun leaks => ?_
  have takes := ((accepts_container rfl).mp accepts child member).1 leaks
  rw [takesLexical, bne_self_eq_false, Bool.and_false] at takes
  cases takes

end Shapes

namespace Canonical.Rewrites
variable {rule : Rule} {store before : Store} {part new : Tree}

/-- A tree in which all children are admitted gives way to such a tree, which reaches no further. -/
def Keeps (rule : Rule) (store : Store) (part new : Tree) : Prop :=
  rule.Accepts store new ∧ (part.reach store).Yields rule (new.reach store)

section Keeps
variable {above id name statement whole first second function operator call : NodeId}
  {outer changed shape remade literal : Shape} {front back rest below items statements : List Tree}
  {operand test yes no left right target copied body : Tree} {operation : TokenKind}

theorem keeps_undefined (same : changed.withSlots [] = outer.withSlots []) (accepts : rule.Accepts store
      (.node above outer (front ++ .voided id operand :: back))) (noCall : rule ≠ .inlineCall) :
    Keeps rule store (.node above outer (front ++ .voided id operand :: back))
      (.node above changed (front ++ .node name (.identifier "undefined") [] :: back)) := by
  have made : rule.AcceptsOperand store (.node name (.identifier "undefined") []) :=
    .node rfl rfl (List.forall_mem_nil _)
  exact accepts.swap_of_yields same (made.silent.yields noCall (by rw [Tree.voided, Tree.reach_node]; rfl)
    fun _ => made.isOperand) made.accepts

theorem keeps_dropped (same : changed.withSlots [] = outer.withSlots []) (accepts : rule.Accepts store
      (.node above outer (front ++ .voided id operand :: back))) (noCall : rule ≠ .inlineCall) :
    Keeps rule store (.node above outer (front ++ .voided id operand :: back))
      (.node above changed (front ++ operand :: back)) := by
  have inner : rule.Accepts store (.voided id operand) :=
    accepts.within (.deeper (List.mem_append_right _ List.mem_cons_self) .whole)
  have held : rule.AcceptsOperand store operand := inner.operand rfl List.mem_cons_self
  exact accepts.swap_of_yields same (held.silent.yields noCall (by rw [Tree.voided, Tree.reach_node]; rfl)
    fun _ => held.isOperand) held.accepts

theorem keeps_assigned (simple : target.IsTarget) (copy : copied.bare = target.bare)
    (holds : before.Holds (.assigned above operation target (.chosen id test yes no)))
    (accepts : rule.Accepts store (.assigned above operation target (.chosen id test yes no)))
    (noCall : rule ≠ .inlineCall) :
    Keeps rule store (.assigned above operation target (.chosen id test yes no))
      (.chosen whole test (.assigned first operation target yes) (.assigned second operation copied no)) := by
  have left : rule.AcceptsOperand store target := accepts.operand rfl List.mem_cons_self
  have value : rule.AcceptsOperand store (.chosen id test yes no) := accepts.operand rfl (by simp)
  have tested : rule.AcceptsOperand store test := value.accepts.operand rfl List.mem_cons_self
  have positive : rule.AcceptsOperand store yes := value.accepts.operand rfl (by simp)
  have negative : rule.AcceptsOperand store no := value.accepts.operand rfl (by simp)
  have again := simple.acceptsOperand (holds.within (.deeper List.mem_cons_self .whole)) left.accepts copy
  have made : rule.AcceptsOperand store (.chosen whole test (.assigned first operation target yes)
      (.assigned second operation copied no)) :=
    .node rfl rfl (List.forall_mem_cons.mpr ⟨tested, List.forall_mem_cons.mpr
      ⟨.node rfl rfl (List.forall_mem_cons.mpr ⟨left, List.forall_mem_singleton.mpr positive⟩),
        List.forall_mem_singleton.mpr
          (.node rfl rfl (List.forall_mem_cons.mpr ⟨again, List.forall_mem_singleton.mpr negative⟩))⟩⟩)
  exact ⟨made.accepts, made.silent.yields noCall (by rw [Tree.assigned, Tree.reach_node]; rfl)
    fun _ => made.isOperand⟩

/-- A statement gives way to one that declares nothing around it. -/
theorem keeps_stated (silent : rule.AcceptsSilent store new) (noCall : rule ≠ .inlineCall) :
    Keeps rule store (.stated statement operand) new :=
  ⟨silent.accepts, silent.yields noCall (by rw [Tree.stated, Tree.reach_node]; rfl) fun isOperand => by
    rw [Tree.stated, Tree.reach_node] at isOperand
    cases isOperand⟩

theorem keeps_chosen (accepts : rule.Accepts store (.stated statement (.chosen id test yes no)))
    (noCall : rule ≠ .inlineCall) : Keeps rule store (.stated statement (.chosen id test yes no))
      (.tested whole test (.stated first yes) (.stated second no)) := by
  have value := accepts.stated
  have tested : rule.AcceptsOperand store test := value.accepts.operand rfl List.mem_cons_self
  have positive : rule.AcceptsOperand store yes := value.accepts.operand rfl (by simp)
  have negative : rule.AcceptsOperand store no := value.accepts.operand rfl (by simp)
  exact keeps_stated (.node rfl (List.forall_mem_cons.mpr ⟨tested.silent, List.forall_mem_cons.mpr
    ⟨positive.stated, List.forall_mem_singleton.mpr negative.stated⟩⟩) fun holds => by cases holds) noCall

theorem keeps_conjoined (accepts : rule.Accepts store (.stated statement (.conjoined id left right)))
    (noCall : rule ≠ .inlineCall) : Keeps rule store (.stated statement (.conjoined id left right))
      (.tested whole left (.stated first right) .nothing) := by
  have value := accepts.stated
  have tested : rule.AcceptsOperand store left := value.accepts.operand rfl List.mem_cons_self
  have positive : rule.AcceptsOperand store right := value.accepts.operand rfl (by simp)
  exact keeps_stated (.node rfl (List.forall_mem_cons.mpr ⟨tested.silent, List.forall_mem_cons.mpr
    ⟨positive.stated, List.forall_mem_singleton.mpr .nothing⟩⟩) fun holds => by cases holds) noCall

theorem keeps_itemized (each : List.Forall₂ (fun item made => ∃ name, made = .stated name item) items statements)
    (accepts : rule.Accepts store (.stated statement (.inSequence id items))) (noCall : rule ≠ .inlineCall) :
    Keeps rule store (.stated statement (.inSequence id items)) (.inBlock whole statements) := by
  refine keeps_stated (.node rfl (fun made member => ?_) fun holds => by cases holds) noCall
  obtain ⟨item, listed, name, rfl⟩ := exists_of_mem_forall₂ each member
  have operand : rule.AcceptsOperand store item := accepts.stated.accepts.operand rfl listed
  exact operand.stated

theorem keeps_wrapped (isBody : shape.holdsBody front.length = true)
    (same : changed.withSlots [] = shape.withSlots [])
    (accepts : rule.Accepts store (.node id shape (front ++ body :: back))) (noCall : rule ≠ .inlineCall) :
    Keeps rule store (.node id shape (front ++ body :: back))
      (.node id changed (front ++ .inBlock name [body] :: back)) := by
  obtain ⟨-, inner⟩ := Rule.accepts_node.mp accepts front body back rfl
  have closed := accepts.closed_body isBody
  have made : rule.Accepts store (.inBlock name [body]) :=
    (Rule.accepts_container rfl).mpr (List.forall_mem_singleton.mpr
      ⟨fun leaks => absurd leaks (ne_true_of_eq_false closed), inner⟩)
  refine ⟨accepts.swap same (fun before behind _ => ?_) made, Rule.yields_swap same
    ⟨fun leaks => ?_, fun hoists => ?_, fun is => absurd is noCall⟩⟩
  · obtain ⟨unasked, noOperands, noCall⟩ := Shape.natureAt_of_holdsBody isBody before behind
    refine Rule.admits_iff.mpr ⟨fun nature asks => ?_, fun holds => ?_, fun leaks => ?_, fun _ isCall => ?_⟩
    · rw [unasked] at asks
      cases asks
    · rw [noOperands] at holds
      cases holds
    · rw [Tree.leaks_inBlock] at leaks
      cases leaks
    · rw [noCall] at isCall
      cases isCall
  · rw [Tree.leaks_inBlock] at leaks
    cases leaks
  · rw [Tree.inBlock, Tree.reach_node] at hoists
    simpa [Reach.node] using hoists

theorem keeps_emptied (isBody : shape.holdsBody front.length = true)
    (same : changed.withSlots [] = shape.withSlots [])
    (accepts : rule.Accepts store (.node id shape (front ++ body :: back))) (noCall : rule ≠ .inlineCall) :
    Keeps rule store (.node id shape (front ++ body :: back))
      (.node id changed (front ++ .inBlock name [] :: back)) := by
  have made : rule.AcceptsSilent store (.inBlock name []) :=
    .node rfl (List.forall_mem_nil _) fun holds => by cases holds
  refine ⟨accepts.swap same (fun before behind _ => ?_) made.accepts,
    Rule.yields_swap same (.of_silent noCall made.leaks made.hoists)⟩
  obtain ⟨unasked, noOperands, isNoCall⟩ := Shape.natureAt_of_holdsBody isBody before behind
  exact made.admits (fun nature asks => by rw [unasked] at asks; cases asks)
    (fun holds => by rw [noOperands] at holds; cases holds) isNoCall

/-- The first child of a node is a sequence of which the last item is left. -/
theorem keeps_last {last : Tree} (member : last ∈ items) (still : remade.withSlots [] = shape.withSlots [])
    (accepts : rule.Accepts store (.node statement shape (.inSequence id items :: rest)))
    (noCall : rule ≠ .inlineCall) :
    Keeps rule store (.node statement shape (.inSequence id items :: rest))
      (.node statement remade (last :: rest)) := by
  have inner : rule.Accepts store (.inSequence id items) := accepts.within (.deeper List.mem_cons_self .whole)
  have held : rule.AcceptsOperand store last := inner.operand rfl member
  have swap : Keeps rule store (.node statement shape ([] ++ .inSequence id items :: rest))
      (.node statement remade ([] ++ last :: rest)) :=
    Rule.Accepts.swap_of_yields accepts still (held.silent.yields noCall
      (by rw [Tree.inSequence, Tree.reach_node]; rfl) fun _ => held.isOperand) held.accepts
  exact swap

theorem acceptsOperand_leading {lead : Tree} {more : List Tree} (leads : Tree.Leads yes more lead)
    (each : ∀ item ∈ yes :: more, rule.AcceptsOperand store item) : rule.AcceptsOperand store lead := by
  rw [Tree.Leads] at leads
  split at leads
  · rw [leads]
    exact each yes List.mem_cons_self
  · obtain ⟨id, rfl⟩ := leads
    exact .node rfl rfl each

theorem keeps_led {lead more : List Tree} {sequence before : NodeId} {leading last : Tree}
    (inList : outer.isContainer = true) (gathered : yes.Leads more leading)
    (same : changed.withSlots [] = outer.withSlots []) (still : remade.withSlots [] = shape.withSlots [])
    (accepts : rule.Accepts store (.node above outer (lead ++ (front ++ .node statement shape
      (.inSequence sequence (yes :: (more ++ [last])) :: rest) :: back)))) (noCall : rule ≠ .inlineCall) :
    Keeps rule store (.node above outer (lead ++ (front ++ .node statement shape
        (.inSequence sequence (yes :: (more ++ [last])) :: rest) :: back)))
      (.node above changed (lead ++ (front ++ .stated before leading ::
        .node statement remade (last :: rest) :: back))) := by
  have each := (Rule.accepts_container inList).mp accepts
  obtain ⟨admitted, inner⟩ := each (.node statement shape
    (.inSequence sequence (yes :: (more ++ [last])) :: rest)) (by simp)
  have items : ∀ item ∈ yes :: (more ++ [last]), rule.AcceptsOperand store item := fun item member =>
    (inner.within (.deeper List.mem_cons_self .whole)).operand rfl member
  have stated : rule.AcceptsSilent store (.stated before leading) :=
    (acceptsOperand_leading gathered fun item member => items item (by
      rcases List.mem_cons.mp member with rfl | among
      · exact List.mem_cons_self
      · exact List.mem_cons_of_mem _ (List.mem_append_left _ among))).stated
  obtain ⟨kept, yields⟩ : Keeps rule store _ (.node statement remade (last :: rest)) :=
    keeps_last (by simp) still inner noCall
  constructor
  · refine (Rule.accepts_container ((Shape.isContainer_congr same).trans inList)).mpr fun child member => ?_
    rw [Rule.takesLexical_congr same]
    simp only [List.mem_append, List.mem_cons] at member
    rcases member with among | among | rfl | rfl | among
    · exact each child (by simp [among])
    · exact each child (by simp [among])
    · refine ⟨fun leaks => ?_, stated.accepts⟩
      rw [stated.leaks] at leaks
      cases leaks
    · exact ⟨fun leaks => Rule.takesLexical_mono (yields.lexical leaks) (admitted (yields.leaks leaks)), kept⟩
    · exact each child (by simp [among])
  · rw [Tree.reach_node, Tree.reach_node]
    refine Reach.node_yields same (List.forall_mem_map.mpr fun child member => ?_)
    simp only [List.mem_append, List.mem_cons] at member
    rcases member with among | among | rfl | rfl | among
    · exact ⟨_, List.mem_map_of_mem (by simp [among]), .refl _ _⟩
    · exact ⟨_, List.mem_map_of_mem (by simp [among]), .refl _ _⟩
    · exact ⟨_, List.mem_map_of_mem (a := .node statement shape
        (.inSequence sequence (yes :: (more ++ [last])) :: rest)) (by simp),
        .of_silent noCall stated.leaks stated.hoists⟩
    · exact ⟨_, List.mem_map_of_mem (a := .node statement shape
        (.inSequence sequence (yes :: (more ++ [last])) :: rest)) (by simp), yields.toQuiets⟩
    · exact ⟨_, List.mem_map_of_mem (by simp [among]), .refl _ _⟩

theorem keeps_turned {number : NodeId} {text digits : String} {value : Option Float} {mirrored : TokenKind}
    (noCall : rule ≠ .inlineCall) :
    Keeps rule store (.node id (.binary (some number) operation (some name))
        [.node number (.literal .number digits value) [], .node name (.identifier text) []])
      (.node id (.binary (some name) mirrored (some number))
        [.node name (.identifier text) [], .node number (.literal .number digits value) []]) := by
  have made : rule.AcceptsOperand store (.node id (.binary (some name) mirrored (some number))
      [.node name (.identifier text) [], .node number (.literal .number digits value) []]) :=
    .node rfl rfl (List.forall_mem_cons.mpr ⟨.node rfl rfl (List.forall_mem_nil _),
      List.forall_mem_singleton.mpr (.node rfl rfl (List.forall_mem_nil _))⟩)
  exact ⟨made.accepts, made.silent.yields noCall (by rw [Tree.reach_node]; rfl) fun _ => made.isOperand⟩

theorem keeps_gathered {isDefault : Bool} {label : Slot} {slots : List Slot} {lead : Tree}
    (same : changed.withSlots [] = (Shape.clause isDefault label slots).withSlots [])
    (accepts : Rule.switchCase.Accepts store (.node id (.clause isDefault label slots) (lead :: statements))) :
    Keeps .switchCase store (.node id (.clause isDefault label slots) (lead :: statements))
      (.node id changed [lead, .inBlock name statements]) := by
  have each := (Rule.accepts_container rfl).mp accepts
  have closed := accepts.closed_clause
  have made : Rule.switchCase.Accepts store (.inBlock name statements) :=
    (Rule.accepts_container rfl).mpr fun child member =>
      ⟨fun leaks => absurd leaks (ne_true_of_eq_false (closed child (List.mem_cons_of_mem _ member))),
        (each child (List.mem_cons_of_mem _ member)).2⟩
  constructor
  · refine (Rule.accepts_container ((Shape.isContainer_congr same).trans rfl)).mpr
      (List.forall_mem_cons.mpr ⟨⟨fun leaks => ?_, (each lead List.mem_cons_self).2⟩,
        List.forall_mem_singleton.mpr ⟨fun leaks => ?_, made⟩⟩)
    · rw [closed lead List.mem_cons_self] at leaks
      cases leaks
    · rw [Tree.leaks_inBlock] at leaks
      cases leaks
  · rw [Tree.reach_node, Tree.reach_node]
    refine Reach.node_yields same (List.forall_mem_map.mpr (List.forall_mem_cons.mpr
      ⟨⟨_, List.mem_map_of_mem List.mem_cons_self, .refl _ _⟩, List.forall_mem_singleton.mpr ?_⟩))
    -- a statement that hoists, if there is one, or the label
    cases any : (statements.map (Tree.reach store)).any Reach.hoists with
    | true =>
      obtain ⟨part, listed, hoists⟩ := List.any_eq_true.mp any
      exact ⟨part, List.mem_cons_of_mem _ listed, fun leaks => absurd leaks (ne_true_of_eq_false Tree.leaks_inBlock),
        fun _ => hoists, fun is => by cases is⟩
    | false =>
      refine ⟨_, List.mem_map_of_mem List.mem_cons_self, .of_silent (by decide) Tree.leaks_inBlock ?_⟩
      rw [Tree.inBlock, Tree.reach_node]
      exact any

/-- The body of a function that declares no names. -/
theorem eq_block_of_isIdle (isBlock : Nature.block ∈ (body.reach store).natures)
    (idle : (body.reach store).isIdle = true) : body = .nothing ∨ ∃ id slots below,
      body = .node id (.block slots) below ∧ ∀ child ∈ below,
        (child.reach store).leaks = false ∧ (child.reach store).hoists = false := by
  cases body with
  | nothing => exact .inl rfl
  | node id shape below =>
    rw [Tree.reach_node] at isBlock idle
    cases shape
    case block slots =>
      refine .inr ⟨id, slots, below, rfl, fun child member => ?_⟩
      have silent := List.all_eq_true.mp idle _ (List.mem_map_of_mem member)
      simpa only [Bool.and_eq_true, Bool.not_eq_true'] using silent
    all_goals simp [Reach.node, Shape.natures] at isBlock

theorem keeps_called {isAfter : Bool}
    (accepts : Rule.inlineCall.Accepts store (.calledOnTheSpot statement operator call function isAfter body)) :
    Keeps .inlineCall store (.calledOnTheSpot statement operator call function isAfter body) body ∧
      (body.reach store).isIdle = true ∧ Nature.block ∈ (body.reach store).natures := by
  have unary := accepts.within (.deeper List.mem_cons_self .whole)
  have called := unary.within (.deeper List.mem_cons_self .whole)
  obtain ⟨admitted, inner⟩ := Rule.accepts_node.mp called [] _ [] rfl
  obtain ⟨asked, kept⟩ := Rule.accepts_node.mp inner [.nothing] body [] rfl
  have isBlock : Nature.block ∈ (body.reach store).natures := (Rule.admits_iff.mp asked).1 .block rfl
  have idle : (body.reach store).isIdle = true := by
    have all := (Rule.admits_iff.mp admitted).2.2.2 rfl rfl rfl rfl
    rw [Tree.reach_node] at all
    exact List.all_eq_true.mp all _ (by simp)
  have silent : (body.reach store).leaks = false ∧ (body.reach store).hoists = false := by
    rcases eq_block_of_isIdle isBlock idle with rfl | ⟨id, slots, below, rfl, each⟩
    · exact ⟨rfl, rfl⟩
    · rw [Tree.reach_node]
      refine ⟨rfl, List.any_eq_false.mpr (List.forall_mem_map.mpr fun child member => ?_)⟩
      rw [(each child member).2]
      exact Bool.false_ne_true
  have part : ((Tree.calledOnTheSpot statement operator call function isAfter body).reach store).natures = [] ∧
      ((Tree.calledOnTheSpot statement operator call function isAfter body).reach store).isOperand = false := by
    rw [Tree.calledOnTheSpot, Tree.reach_node]
    exact ⟨rfl, rfl⟩
  refine ⟨⟨kept, ⟨fun leaks => ?_, fun hoists => ?_, fun _ _ => idle⟩, ?_, fun isOperand => ?_, fun leaks => ?_⟩,
    idle, isBlock⟩
  · rw [silent.1] at leaks
    cases leaks
  · rw [silent.2] at hoists
    cases hoists
  · rw [part.1]
    exact List.nil_subset _
  · rw [part.2] at isOperand
    cases isOperand
  · rw [silent.1] at leaks
    cases leaks

/-- The statements of a block that can be spliced are without `let` and `const`. -/
theorem isLexical_of_isSpliceable {slots : List Slot} {child : Tree}
    (holds : before.Holds (.node name (.block slots) below))
    (spliceable : isSpliceable before (some name) = true) (member : child ∈ below)
    (marks : ∀ id ∈ child.names, store.flags (some id) = before.flags (some id)) :
    (child.reach store).isLexical = false := by
  cases holds with
  | node found regular roots links inner =>
  cases child with
  | nothing => rfl
  | node id shape parts =>
    have shaped := (inner _ member).shape?_node
    rw [isSpliceable, Bool.and_eq_true, Bool.not_eq_true', declaresBlockScoped, List.any_eq_false] at spliceable
    have listed : some id ∈ (before.statements? (some name)).getD [] := by
      rw [Store.statements?, found, Option.bind_some, Shape.statements?, Option.getD_some]
      have same : slots = below.map Tree.root := roots
      rw [same]
      exact List.mem_map_of_mem (f := Tree.root) member
    have plain := spliceable.2 _ listed
    rw [shaped] at plain
    rw [Tree.reach_node, marks id List.mem_cons_self]
    cases shape
    case declarationList isStatement declarations =>
      cases isStatement with
      | true => exact (Bool.and_eq_false_iff).mpr (.inl (Bool.eq_false_iff.mpr plain))
      | false => exact Bool.and_false _
    all_goals exact Bool.and_false _

/-- A block that is spliced, and what is asked of it. -/
theorem eq_of_mem_spread {tree child : Tree} (member : child ∈ spread before tree) :
    child = tree ∧ isSpliceable before tree.root = false ∨
      ∃ name inner below, tree = .node name inner below ∧ isSpliceable before (some name) = true ∧ child ∈ below := by
  cases tree with
  | nothing => exact .inl ⟨List.mem_singleton.mp member, rfl⟩
  | node name inner below =>
    rw [spread] at member
    split at member
    · rename_i spliceable
      exact .inr ⟨name, inner, below, rfl, spliceable, member⟩
    · rename_i unspliceable
      exact .inl ⟨List.mem_singleton.mp member, Bool.eq_false_iff.mpr unspliceable⟩

/-- What comes out of a block declares nothing in the scopes around the block. -/
theorem silent_of_spliced (isList : shape.isList = true)
    (blocks : ∀ name inner below, .node name inner below ∈ statements →
      isSpliceable before (some name) = true → inner.isBlock = true)
    (holds : before.Holds (.node id shape statements))
    (marks : ∀ name ∈ (Tree.node id shape statements).names, store.flags (some name) = before.flags (some name))
    (accepts : rule.Accepts store (.node id shape statements)) {inner : Shape}
    (listed : .node name inner below ∈ statements) (spliceable : isSpliceable before (some name) = true) :
    ∀ child ∈ below, rule.Accepts store child ∧ (child.reach store).leaks = false ∧
      ((child.reach store).hoists = true → ((Tree.node name inner below).reach store).hoists = true) := by
  intro child member
  have inList := Shape.isContainer_of_isList isList
  have isBlock := blocks name inner below listed spliceable
  cases inner
  case block slots =>
    have kept := ((Rule.accepts_container inList).mp accepts _ listed).2
    have block := (Rule.accepts_container rfl).mp kept child member
    have plain : (child.reach store).isLexical = false :=
      isLexical_of_isSpliceable (holds.within (.deeper listed .whole)) spliceable member fun name there =>
        marks name (List.mem_cons_of_mem _ (Tree.mem_namesAll.mpr
          ⟨_, listed, List.mem_cons_of_mem _ (Tree.mem_namesAll.mpr ⟨_, member, there⟩)⟩))
    refine ⟨block.2, Bool.eq_false_iff.mpr fun leaks => ?_, fun hoists => ?_⟩
    · have takes := block.1 leaks
      rw [plain] at takes
      cases takes
    · rw [Tree.reach_node]
      exact List.any_eq_true.mpr ⟨_, List.mem_map_of_mem member, hoists⟩
  all_goals cases isBlock

theorem keeps_spliced (isList : shape.isList = true)
    (blocks : ∀ name inner below, .node name inner below ∈ statements →
      isSpliceable before (some name) = true → inner.isBlock = true)
    (same : changed.withSlots [] = shape.withSlots []) (holds : before.Holds (.node id shape statements))
    (marks : ∀ name ∈ (Tree.node id shape statements).names, store.flags (some name) = before.flags (some name))
    (accepts : rule.Accepts store (.node id shape statements)) (noCall : rule ≠ .inlineCall) :
    Keeps rule store (.node id shape statements) (.node id changed (statements.flatMap (spread before))) := by
  have inList := Shape.isContainer_of_isList isList
  have each := (Rule.accepts_container inList).mp accepts
  constructor
  · refine (Rule.accepts_container ((Shape.isContainer_congr same).trans inList)).mpr fun child member => ?_
    obtain ⟨tree, listed, among⟩ := List.mem_flatMap.mp member
    rw [Rule.takesLexical_congr same]
    rcases eq_of_mem_spread among with ⟨rfl, -⟩ | ⟨name, inner, below, rfl, spliceable, there⟩
    · exact each child listed
    · obtain ⟨kept, closed, -⟩ := silent_of_spliced isList blocks holds marks accepts listed spliceable child there
      exact ⟨fun leaks => absurd leaks (ne_true_of_eq_false closed), kept⟩
  · rw [Tree.reach_node, Tree.reach_node]
    refine Reach.node_yields same (List.forall_mem_map.mpr fun child member => ?_)
    obtain ⟨tree, listed, among⟩ := List.mem_flatMap.mp member
    refine ⟨_, List.mem_map_of_mem listed, ?_⟩
    rcases eq_of_mem_spread among with ⟨rfl, -⟩ | ⟨name, inner, below, rfl, spliceable, there⟩
    · exact .refl _ _
    · obtain ⟨-, closed, hoists⟩ := silent_of_spliced isList blocks holds marks accepts listed spliceable child there
      exact ⟨fun leaks => absurd leaks (ne_true_of_eq_false closed), hoists,
        fun is => absurd is noCall⟩

/-- A step of a rule leaves what the rule asks of a program. -/
theorem keeps (rewrites : Rewrites before rule part new) (holds : before.Holds part)
    (marks : ∀ id ∈ part.names, store.flags (some id) = before.flags (some id))
    (accepts : rule.Accepts store part) : Keeps rule store part new := by
  cases rewrites with
  | undefined _ _ same => exact keeps_undefined same accepts (by decide)
  | dropped _ same => exact keeps_dropped same accepts (by decide)
  | assigned _ simple copy _ => exact keeps_assigned simple copy holds accepts (by decide)
  | chosen => exact keeps_chosen accepts (by decide)
  | conjoined either => exact keeps_conjoined accepts (by rcases either with rfl | rfl <;> decide)
  | itemized either each => exact keeps_itemized each accepts (by rcases either with rfl | rfl <;> decide)
  | wrapped isBody _ same => exact keeps_wrapped isBody same accepts (by decide)
  | emptied isBody same => exact keeps_emptied isBody same accepts (by decide)
  | led either _ _ inList split gathered same still =>
    subst split
    exact keeps_led inList gathered same still accepts (by rcases either with rfl | rfl <;> decide)
  | single either _ still =>
    exact keeps_last List.mem_cons_self still accepts (by rcases either with rfl | rfl <;> decide)
  | turned => exact keeps_turned (by decide)
  | gathered _ same => exact keeps_gathered same accepts
  | called => exact (keeps_called accepts).1
  | spliced isList _ blocks same => exact keeps_spliced isList blocks same holds marks accepts (by decide)

end Keeps

end Canonical.Rewrites

end Unflatten
