import Unflatten.Proofs.Canonical.Admitting

/-! # The canonical form and names

The rules put blocks around statements, take blocks away and take functions apart, and none of this
changes what a name stands for, as long as the program is as the rule asks (`Rule.run_resolvesAlike`): the
scopes that come and go are quiet (`Canonical.Rewrites.echo`).  Two rules do not look whether the program
is so.  The one puts `let` in a clause of a `switch` out of the sight of the other clauses
(`wrapped_clause_hides_name`), and the other moves the declarations of a called function into the function
around it. -/

set_option autoImplicit false

namespace Unflatten

open Unflatten.Tree

/-! ## Trees that rules look for or make -/

section Forms
variable {store : Store} {around : List Surrounding} {found : Occurrence}
  {id statement operator call function : NodeId} {isAfter : Bool}
  {first second third operand body : Tree} {operation : TokenKind} {items : List Tree} {outer : Surroundings}
  {shape changed : Shape} {below : List Tree}

namespace Tree

theorem occurs_assigned : (assigned id operation first second).Occurs store ⟨around, .plain⟩ found ↔
    first.Occurs store ⟨around, .plain⟩ found ∨ second.Occurs store ⟨around, .plain⟩ found := by
  rw [assigned, occurs_clear rfl rfl rfl]
  simp

theorem occurs_conjoined : (conjoined id first second).Occurs store ⟨around, .plain⟩ found ↔
    first.Occurs store ⟨around, .plain⟩ found ∨ second.Occurs store ⟨around, .plain⟩ found := by
  rw [conjoined, occurs_clear rfl rfl rfl]
  simp

theorem occurs_chosen : (chosen id first second third).Occurs store ⟨around, .plain⟩ found ↔
    first.Occurs store ⟨around, .plain⟩ found ∨ second.Occurs store ⟨around, .plain⟩ found ∨
      third.Occurs store ⟨around, .plain⟩ found := by
  rw [chosen, occurs_clear rfl rfl rfl]
  simp

theorem occurs_tested : (tested id first second third).Occurs store ⟨around, .plain⟩ found ↔
    first.Occurs store ⟨around, .plain⟩ found ∨ second.Occurs store ⟨around, .plain⟩ found ∨
      third.Occurs store ⟨around, .plain⟩ found := by
  rw [tested, occurs_clear rfl rfl rfl]
  simp

theorem occurs_stated : (stated id operand).Occurs store ⟨around, .plain⟩ found ↔
    operand.Occurs store ⟨around, .plain⟩ found := by
  rw [stated, occurs_clear rfl rfl rfl]
  simp

theorem occurs_voided : (voided id operand).Occurs store ⟨around, .plain⟩ found ↔
    operand.Occurs store ⟨around, .plain⟩ found := by
  rw [voided, occurs_clear rfl rfl rfl]
  simp

theorem occurs_inSequence : (inSequence id items).Occurs store ⟨around, .plain⟩ found ↔
    ∃ item ∈ items, item.Occurs store ⟨around, .plain⟩ found := by
  have full : (items.map root).length = items.length := List.length_map _
  exact occurs_clear rfl rfl full

/-- A block in a plain place opens a scope. -/
theorem occurs_block (isBlock : shape.isBlock = true) (full : shape.slots.length = below.length) :
    (node id shape below).Occurs store ⟨around, .plain⟩ found ↔
      ∃ child ∈ below, child.Occurs store ⟨⟨id, false, true⟩ :: around, .plain⟩ found := by
  cases shape
  case block => exact occurs_even rfl full
  all_goals cases isBlock

theorem occurs_inBlock : (inBlock id items).Occurs store ⟨around, .plain⟩ found ↔
    ∃ item ∈ items, item.Occurs store ⟨⟨id, false, true⟩ :: around, .plain⟩ found := by
  have full : (items.map root).length = items.length := List.length_map _
  exact occurs_block rfl full

/-- The body of a function that is called on the spot stands in the scope of the function. -/
theorem occurs_calledOnTheSpot : (calledOnTheSpot statement operator call function isAfter body).Occurs store
    ⟨around, .plain⟩ found ↔ body.Occurs store ⟨⟨function, true, true⟩ :: around, .body⟩ found := by
  rw [calledOnTheSpot, occurs_clear rfl rfl rfl]
  simp only [List.mem_singleton, exists_eq_left]
  rw [occurs_clear rfl rfl rfl]
  simp only [List.mem_singleton, exists_eq_left]
  rw [occurs_clear rfl rfl rfl]
  simp only [List.mem_singleton, exists_eq_left]
  rw [occurs_node]
  simp only [Surroundings.below, List.map_nil, List.nil_append, List.zip_cons_cons, List.zip_nil_right,
    List.mem_cons, List.not_mem_nil, or_false, Prod.mk.injEq, reduceCtorEq, false_and, exists_false, false_or]
  constructor
  · rintro ⟨_, _, ⟨rfl, rfl⟩ | ⟨rfl, rfl⟩, occurs⟩
    · exact absurd occurs occurs_nothing
    · exact occurs
  · exact fun occurs => ⟨_, _, .inr ⟨rfl, rfl⟩, occurs⟩

end Tree

theorem Surroundings.inside_congr (same : changed.withSlots [] = shape.withSlots []) :
    outer.inside id changed = outer.inside id shape := by
  rw [← inside_withSlots [], same, inside_withSlots]

/-- What asks for nothing and is no file stands in a plain place. -/
theorem Surroundings.Hosts.plain (hosts : outer.Hosts (.node id shape below)) (unnatural : shape.natures = [])
    (noList : shape.isList = false) :
    ∃ around, outer = ⟨around, .plain⟩ ∧ around.any Surrounding.hoists = true := by
  obtain ⟨around, place⟩ := outer
  have suits := hosts.suits
  cases place
  case plain => exact ⟨around, rfl, hosts.hoisting.resolve_right fun same => by cases same⟩
  all_goals
    cases shape <;> first
      | exact absurd suits Bool.false_ne_true
      | exact absurd noList.symm Bool.false_ne_true
      | cases unnatural

end Forms

/-! ## Blocks that come and go -/

section Blocks
variable {store : Store} {around : List Surrounding} {found other : Occurrence} {quiet : List NodeId}
  {tree : Tree}

theorem Occurrence.Echoes.symm (echoes : found.Echoes quiet other) : other.Echoes quiet found :=
  ⟨echoes.id.symm, echoes.text.symm, echoes.around.symm, echoes.home.symm, by
    rw [← echoes.home]
    exact echoes.apart⟩

/-- A tree that declares nothing in the nearest scope may have a block put around it, or taken away. -/
theorem Tree.occurs_under (opener : NodeId) (isQuiet : opener ∈ quiet)
    (apart : ∀ home ∈ quiet, home ∉ tree.names ∧ home ∉ around.map Surrounding.opener)
    (any : around.any Surrounding.hoists = true) (closed : (tree.reach store).leaks = false) :
    (∀ found, tree.Occurs store ⟨around, .plain⟩ found →
      ∃ other, tree.Occurs store ⟨⟨opener, false, true⟩ :: around, .plain⟩ other ∧ found.Echoes quiet other) ∧
    (∀ other, tree.Occurs store ⟨⟨opener, false, true⟩ :: around, .plain⟩ other →
      ∃ found, tree.Occurs store ⟨around, .plain⟩ found ∧ found.Echoes quiet other) := by
  have outside : ∀ home ∈ quiet, hoistingHome around ≠ some home := fun home member hoisting =>
    (apart home member).2 (mem_openers_of_hoistingHome hoisting)
  have past : hoistingHome (⟨opener, false, true⟩ :: around) = hoistingHome around := hoistingHome_cons rfl any
  have same : loud quiet (⟨opener, false, true⟩ :: around) = loud quiet around := loud_cons_of_mem isQuiet
  refine ⟨fun found occurs => occurs.moved same.symm (fun home member => (apart home member).1)
    closed fun _ => ⟨past.symm, outside⟩, fun other occurs => ?_⟩
  obtain ⟨found, there, echoes⟩ := occurs.moved same
    (fun home member => (apart home member).1) closed fun _ => ⟨past, by rw [past]; exact outside⟩
  exact ⟨found, there, echoes.symm⟩

end Blocks

/-! ## Steps -/

namespace Canonical.Rewrites
variable {rule : Rule} {store before : Store} {part new : Tree} {bound : Nat} {outer : Surroundings}

section Echoes
variable {above id name statement whole first second function operator call : NodeId}
  {literal : Shape} {items statements : List Tree}
  {operand test yes no left right target copied body : Tree} {operation : TokenKind}

theorem echo_undefined (primitive : isPrimitiveLiteral literal = true) (fresh : bound ≤ name)
    (hosts : outer.Hosts (.voided id (.node above literal []))) :
    Echo store bound [] outer (.voided id (.node above literal [])) (.node name (.identifier "undefined") []) := by
  obtain ⟨around, rfl, -⟩ := hosts.plain rfl rfl
  constructor
  · intro found occurs
    have inner := occurs_voided.mp occurs
    rcases occurs_node.mp inner with ⟨text, rfl, -⟩ | ⟨inner, child, paired, -⟩
    · cases primitive
    · rw [List.zip_nil_right] at paired
      cases paired
  · intro other occurs
    rcases occurs_node.mp occurs with ⟨text, -, rfl⟩ | ⟨inner, child, paired, -⟩
    · exact .inr ⟨fresh, rfl⟩
    · rw [List.zip_nil_right] at paired
      cases paired

theorem echo_dropped (hosts : outer.Hosts (.voided id operand)) :
    Echo store bound [] outer (.voided id operand) operand := by
  obtain ⟨around, rfl, -⟩ := hosts.plain rfl rfl
  exact .of_iff fun found => occurs_voided

theorem echo_assigned (simple : target.IsTarget) (copy : copied.bare = target.bare)
    (fresh : ∀ id ∈ copied.names, bound ≤ id)
    (holds : before.Holds (.assigned above operation target (.chosen id test yes no)))
    (accepts : rule.Accepts store (.assigned above operation target (.chosen id test yes no)))
    (hosts : outer.Hosts (.assigned above operation target (.chosen id test yes no))) :
    Echo store bound [] outer (.assigned above operation target (.chosen id test yes no))
      (.chosen whole test (.assigned first operation target yes) (.assigned second operation copied no)) := by
  obtain ⟨around, rfl, -⟩ := hosts.plain rfl rfl
  have within : Within target (.assigned above operation target (.chosen id test yes no)) :=
    .deeper List.mem_cons_self .whole
  constructor
  · intro found occurs
    refine ⟨found, ?_, .refl (List.forall_mem_nil _)⟩
    rw [occurs_assigned, occurs_chosen] at occurs
    rw [occurs_chosen, occurs_assigned, occurs_assigned]
    tauto
  · intro other occurs
    rw [occurs_chosen, occurs_assigned, occurs_assigned] at occurs
    have old (here : target.Occurs store ⟨around, .plain⟩ other ∨ test.Occurs store ⟨around, .plain⟩ other ∨
        yes.Occurs store ⟨around, .plain⟩ other ∨ no.Occurs store ⟨around, .plain⟩ other) :
        ∃ found, (Tree.assigned above operation target (.chosen id test yes no)).Occurs store ⟨around, .plain⟩ found ∧
          found.Echoes [] other :=
      ⟨other, by rw [occurs_assigned, occurs_chosen]; exact here, .refl (List.forall_mem_nil _)⟩
    rcases occurs with here | (here | here) | (here | here)
    · exact .inl (old (.inr (.inl here)))
    · exact .inl (old (.inl here))
    · exact .inl (old (.inr (.inr (.inl here))))
    · exact .inr ⟨fresh _ here.mem_names,
        simple.home?_eq_none (holds.within within) (accepts.within within) copy here⟩
    · exact .inl (old (.inr (.inr (.inr here))))

theorem echo_chosen (hosts : outer.Hosts (.stated statement (.chosen id test yes no))) :
    Echo store bound [] outer (.stated statement (.chosen id test yes no))
      (.tested whole test (.stated first yes) (.stated second no)) := by
  obtain ⟨around, rfl, -⟩ := hosts.plain rfl rfl
  exact .of_iff fun found => by rw [occurs_stated, occurs_chosen, occurs_tested, occurs_stated, occurs_stated]

theorem echo_conjoined (hosts : outer.Hosts (.stated statement (.conjoined id left right))) :
    Echo store bound [] outer (.stated statement (.conjoined id left right))
      (.tested whole left (.stated first right) .nothing) := by
  obtain ⟨around, rfl, -⟩ := hosts.plain rfl rfl
  refine .of_iff fun found => ?_
  rw [occurs_stated, occurs_conjoined, occurs_tested, occurs_stated, or_iff_left occurs_nothing]

/-- Trees go into a block, which is the only new scope around them. -/
theorem echo_inBlock {around : List Surrounding} (any : around.any Surrounding.hoists = true)
    (hosted : (⟨around, .plain⟩ : Surroundings).Hosts (.inBlock whole statements))
    (distinct : (inBlock whole statements).names.Nodup)
    (closed : ∀ tree ∈ statements, (tree.reach store).leaks = false) :
    (∀ tree ∈ statements, ∀ found, tree.Occurs store ⟨around, .plain⟩ found →
      ∃ other, (inBlock whole statements).Occurs store ⟨around, .plain⟩ other ∧ found.Echoes [whole] other) ∧
    (∀ other, (inBlock whole statements).Occurs store ⟨around, .plain⟩ other →
      ∃ tree ∈ statements, ∃ found, tree.Occurs store ⟨around, .plain⟩ found ∧ found.Echoes [whole] other) := by
  have apart (tree : Tree) (member : tree ∈ statements) :
      ∀ home ∈ [whole], home ∉ tree.names ∧ home ∉ around.map Surrounding.opener :=
    List.forall_mem_singleton.mpr
      ⟨fun inside => (List.nodup_cons.mp distinct).1 (mem_namesAll.mpr ⟨tree, member, inside⟩),
        fun there => hosted.apart whole (List.mem_append_left _ there) List.mem_cons_self⟩
  constructor
  · intro tree member found occurs
    obtain ⟨other, there, echoes⟩ := (occurs_under whole (List.mem_singleton_self _) (apart tree member) any
      (closed tree member)).1 found occurs
    exact ⟨other, occurs_inBlock.mpr ⟨tree, member, there⟩, echoes⟩
  · intro other occurs
    obtain ⟨tree, member, there⟩ := occurs_inBlock.mp occurs
    obtain ⟨found, here, echoes⟩ := (occurs_under whole (List.mem_singleton_self _) (apart tree member) any
      (closed tree member)).2 other there
    exact ⟨tree, member, found, here, echoes⟩

theorem echo_itemized (each : List.Forall₂ (fun item made => ∃ name, made = .stated name item) items statements)
    (accepts : rule.Accepts store (.stated statement (.inSequence id items)))
    (distinct : (inBlock whole statements).names.Nodup)
    (hosts : outer.Hosts (.stated statement (.inSequence id items)))
    (hosted : outer.Hosts (.inBlock whole statements)) :
    Echo store bound [whole] outer (.stated statement (.inSequence id items)) (.inBlock whole statements) := by
  obtain ⟨around, rfl, any⟩ := hosts.plain rfl rfl
  have operands : ∀ item ∈ items, rule.AcceptsOperand store item := fun item listed =>
    accepts.stated.accepts.operand rfl listed
  have closed : ∀ made ∈ statements, (made.reach store).leaks = false := by
    intro made member
    obtain ⟨item, listed, name, rfl⟩ := exists_of_mem_forall₂ each member
    exact (operands item listed).stated.leaks
  obtain ⟨forth, back⟩ := echo_inBlock any hosted distinct closed
  constructor
  · intro found occurs
    obtain ⟨item, listed, occurs⟩ := occurs_inSequence.mp (occurs_stated.mp occurs)
    obtain ⟨made, member, name, rfl⟩ := exists_of_mem_forall₂ each.flip listed
    exact forth _ member found (occurs_stated.mpr occurs)
  · intro other occurs
    obtain ⟨made, member, found, there, echoes⟩ := back other occurs
    obtain ⟨item, listed, name, rfl⟩ := exists_of_mem_forall₂ each member
    exact .inl ⟨found, occurs_stated.mpr (occurs_inSequence.mpr ⟨item, listed, occurs_stated.mp there⟩), echoes⟩

theorem echo_wrapped {inner : Shape} {below : List Tree} (noBlock : inner.isBlock = false)
    (closed : ((Tree.node above inner below).reach store).leaks = false)
    (distinct : (inBlock whole [.node above inner below]).names.Nodup)
    (hosts : outer.Hosts (.node above inner below))
    (hosted : outer.Hosts (.inBlock whole [.node above inner below])) :
    Echo store bound [whole] outer (.node above inner below) (.inBlock whole [.node above inner below]) := by
  obtain ⟨around, place⟩ := outer
  have plain : place = .plain := by
    have suits := hosts.suits
    have suited := hosted.suits
    cases place
    case plain => rfl
    case body =>
      cases inner <;> first | exact absurd suits Bool.false_ne_true | cases noBlock
    all_goals cases suited
  subst plain
  obtain ⟨forth, back⟩ := echo_inBlock (hosts.hoisting.resolve_right fun same => by cases same) hosted distinct
    (List.forall_mem_singleton.mpr closed)
  refine ⟨forth _ (List.mem_singleton_self _), fun other occurs => .inl ?_⟩
  obtain ⟨tree, member, found, there, echoes⟩ := back other occurs
  cases List.mem_singleton.mp member
  exact ⟨found, there, echoes⟩

theorem echo_emptied : Echo store bound [] outer (.node above .emptyStatement []) (.inBlock whole []) := by
  refine .of_iff fun found => iff_of_false (fun occurs => ?_) fun occurs => ?_
  · obtain ⟨child, member, -⟩ := (occurs_even rfl rfl).mp occurs
    cases member
  · obtain ⟨child, member, -⟩ := (occurs_even rfl rfl).mp occurs
    cases member

theorem echo_single {only : Tree} (hosts : outer.Hosts (.inSequence id [only])) :
    Echo store bound [] outer (.inSequence id [only]) only := by
  obtain ⟨around, rfl, -⟩ := hosts.plain rfl rfl
  exact .of_iff fun found => by simp [occurs_inSequence]

theorem echo_turned {number : NodeId} {text digits : String} {value : Option Float} {mirrored : TokenKind}
    (hosts : outer.Hosts (.node id (.binary (some number) operation (some name))
      [.node number (.literal .number digits value) [], .node name (.identifier text) []])) :
    Echo store bound [] outer (.node id (.binary (some number) operation (some name))
        [.node number (.literal .number digits value) [], .node name (.identifier text) []])
      (.node id (.binary (some name) mirrored (some number))
        [.node name (.identifier text) [], .node number (.literal .number digits value) []]) := by
  obtain ⟨around, rfl, -⟩ := hosts.plain rfl rfl
  refine .of_iff fun found => ?_
  rw [occurs_clear rfl rfl rfl, occurs_clear rfl rfl rfl]
  simp [or_comm]

theorem occurs_leading {around : List Surrounding} {found : Occurrence} {lead : Tree} {more : List Tree}
    (leads : yes.Leads more lead) : lead.Occurs store ⟨around, .plain⟩ found ↔
      ∃ item ∈ yes :: more, item.Occurs store ⟨around, .plain⟩ found := by
  rw [Leads] at leads
  split at leads
  · rename_i none
    rw [leads, none]
    simp
  · obtain ⟨id, rfl⟩ := leads
    exact occurs_inSequence

theorem echo_led {outside changed shape remade : Shape} {lead front back rest more : List Tree}
    {sequence earlier : NodeId} {leading last : Tree} (isLed : shape.isLed = true)
    (inList : outside.isContainer = true) (gathered : yes.Leads more leading)
    (same : changed.withSlots [] = outside.withSlots []) (still : remade.withSlots [] = shape.withSlots [])
    (holds : before.Holds (.node above outside (lead ++ (front ++ .node statement shape
      (.inSequence sequence (yes :: (more ++ [last])) :: rest) :: back))))
    (held : store.Holds (.node above changed (lead ++ (front ++ .stated earlier leading ::
        .node statement remade (last :: rest) :: back)))) :
    Echo store bound [] outer (.node above outside (lead ++ (front ++ .node statement shape
        (.inSequence sequence (yes :: (more ++ [last])) :: rest) :: back)))
      (.node above changed (lead ++ (front ++ .stated earlier leading ::
        .node statement remade (last :: rest) :: back))) := by
  have clearLed {led : Shape} (isLed : led.isLed = true) : led.isEven = true ∧ led.opens .plain = none := by
    cases led
    case conditionalStatement | exit => exact ⟨rfl, rfl⟩
    all_goals cases isLed
  have remadeLed : remade.isLed = true := by
    rw [← Shape.isLed_withSlots remade [], still, Shape.isLed_withSlots, isLed]
  obtain ⟨even, clear⟩ := clearLed isLed
  obtain ⟨evenNew, clearNew⟩ := clearLed remadeLed
  refine .of_iff fun found => ?_
  rw [occurs_even (Shape.isEven_of_isContainer inList) holds.length_slots, occurs_even
      (Shape.isEven_of_isContainer ((Shape.isContainer_congr same).trans inList)) held.length_slots,
    Surroundings.inside_congr same]
  have full := (holds.within (.deeper (by simp) (.whole : Within (.node statement shape
    (.inSequence sequence (yes :: (more ++ [last])) :: rest)) _))).length_slots
  have fullNew := (held.within (.deeper (by simp) (.whole : Within (.node statement remade
    (last :: rest)) _))).length_slots
  simp only [List.mem_append, List.mem_cons, or_and_right, exists_or, exists_eq_left,
    occurs_clear even clear full, occurs_clear evenNew clearNew fullNew, occurs_inSequence, occurs_stated,
    occurs_leading gathered, List.not_mem_nil, or_false, or_assoc]

theorem echo_gathered {isDefault : Bool} {label : Slot} {slots : List Slot} {changed : Shape} {lead : Tree}
    (same : changed.withSlots [] = (Shape.clause isDefault label slots).withSlots [])
    (accepts : Rule.switchCase.Accepts store (.node id (.clause isDefault label slots) (lead :: statements)))
    (holds : before.Holds (.node id (.clause isDefault label slots) (lead :: statements)))
    (held : store.Holds (.node id changed [lead, .inBlock whole statements]))
    (distinct : (Tree.node id changed [lead, .inBlock whole statements]).names.Nodup)
    (hosts : outer.Hosts (.node id (.clause isDefault label slots) (lead :: statements)))
    (hosted : outer.Hosts (.node id changed [lead, .inBlock whole statements])) :
    Echo store bound [whole] outer (.node id (.clause isDefault label slots) (lead :: statements))
      (.node id changed [lead, .inBlock whole statements]) := by
  obtain ⟨around, rfl, any⟩ := hosts.plain rfl rfl
  have closed : ∀ child ∈ statements, (child.reach store).leaks = false := fun child member =>
    accepts.closed_clause child (List.mem_cons_of_mem _ member)
  have split : changed.isEven = true ∧ changed.opens .plain = none := by
    cases changed <;> first | exact ⟨rfl, rfl⟩ | cases same
  have below : (inBlock whole statements).names.Nodup :=
    nodup_of_mem_namesAll (List.nodup_cons.mp distinct).2 (by simp)
  have under : (⟨around, .plain⟩ : Surroundings).Hosts (.inBlock whole statements) :=
    ⟨fun name outside inside => hosted.apart name outside (List.mem_cons_of_mem _ (mem_namesAll.mpr
      ⟨_, by simp, inside⟩)), .inl any, rfl⟩
  obtain ⟨forth, back⟩ := echo_inBlock any under below closed
  -- the label stays where it is
  have labelled {found : Occurrence} (occurs : lead.Occurs store ⟨around, .plain⟩ found) :
      found.Echoes [whole] found := by
    refine .refl (List.forall_mem_singleton.mpr fun named => ?_)
    rcases occurs.home_mem named with inside | outside
    · have others := (List.nodup_cons.mp distinct).2
      rw [namesAll] at others
      exact (List.nodup_append.mp others).2.2 whole inside whole
        (mem_namesAll.mpr ⟨_, List.mem_singleton_self _, List.mem_cons_self⟩) rfl
    · exact under.apart whole outside List.mem_cons_self
  constructor
  · intro found occurs
    obtain ⟨child, member, inner⟩ := (occurs_clear rfl rfl holds.length_slots).mp occurs
    rcases List.mem_cons.mp member with rfl | listed
    · exact ⟨found, (occurs_clear split.1 split.2 held.length_slots).mpr ⟨child, List.mem_cons_self, inner⟩,
        labelled inner⟩
    · obtain ⟨other, there, echoes⟩ := forth child listed found inner
      exact ⟨other, (occurs_clear split.1 split.2 held.length_slots).mpr ⟨_, by simp, there⟩, echoes⟩
  · intro other occurs
    obtain ⟨child, member, inner⟩ := (occurs_clear split.1 split.2 held.length_slots).mp occurs
    rcases List.mem_pair.mp member with rfl | rfl
    · exact .inl ⟨other, (occurs_clear rfl rfl holds.length_slots).mpr ⟨child, List.mem_cons_self, inner⟩,
        labelled inner⟩
    · obtain ⟨tree, listed, found, there, echoes⟩ := back other inner
      exact .inl ⟨found, (occurs_clear rfl rfl holds.length_slots).mpr
        ⟨tree, List.mem_cons_of_mem _ listed, there⟩, echoes⟩

theorem echo_called {isAfter : Bool}
    (accepts : Rule.inlineCall.Accepts store (.calledOnTheSpot statement operator call function isAfter body))
    (holds : before.Holds (.calledOnTheSpot statement operator call function isAfter body))
    (nodup : (calledOnTheSpot statement operator call function isAfter body).names.Nodup) :
    EchoesAnywhere store bound (.calledOnTheSpot statement operator call function isAfter body) body := by
  obtain ⟨-, idle, isBlock⟩ := keeps_called accepts
  rcases eq_block_of_isIdle isBlock idle with rfl | ⟨block, slots, below, rfl, silent⟩
  · refine .of_silent fun outer hosts => ?_
    obtain ⟨around, rfl, -⟩ := hosts.plain rfl rfl
    exact .of_iff fun found => occurs_calledOnTheSpot.trans (iff_of_false occurs_nothing occurs_nothing)
  · have within : Within (.node block (.block slots) below)
        (calledOnTheSpot statement operator call function isAfter (.node block (.block slots) below)) :=
      .deeper List.mem_cons_self (.deeper List.mem_cons_self (.deeper List.mem_cons_self
        (.deeper (List.mem_cons_of_mem _ List.mem_cons_self) .whole)))
    have full := (holds.within within).length_slots
    have inFunction : Within (.node function (.function true none [] (some block))
        [.nothing, .node block (.block slots) below])
        (calledOnTheSpot statement operator call function isAfter (.node block (.block slots) below)) :=
      .deeper List.mem_cons_self (.deeper List.mem_cons_self (.deeper List.mem_cons_self .whole))
    have distinct := inFunction.nodup nodup
    refine ⟨[function, block], List.forall_mem_cons.mpr ⟨.inl (inFunction.names_subset List.mem_cons_self),
      List.forall_mem_singleton.mpr (.inl (within.names_subset List.mem_cons_self))⟩, fun outer hosts _ => ?_⟩
    obtain ⟨around, rfl, -⟩ := hosts.plain rfl rfl
    have apart (child : Tree) (member : child ∈ below) : ∀ home ∈ [function, block], home ∉ child.names := by
      have inside : child.names ⊆ namesAll below := fun name there => mem_namesAll.mpr ⟨child, member, there⟩
      refine List.forall_mem_cons.mpr ⟨fun there => ?_, List.forall_mem_singleton.mpr fun there => ?_⟩
      · exact (List.nodup_cons.mp distinct).1 (mem_namesAll.mpr ⟨.node block (.block slots) below,
          List.mem_cons_of_mem _ List.mem_cons_self, List.mem_cons_of_mem _ (inside there)⟩)
      · exact (List.nodup_cons.mp (within.nodup nodup)).1 (inside there)
    have loudly : loud [function, block] (⟨function, true, true⟩ :: around) =
        loud [function, block] (⟨block, false, true⟩ :: around) := by
      rw [loud_cons_of_mem (by simp), loud_cons_of_mem (by simp)]
    have none {child : Tree} (member : child ∈ below) {scopes other : List Surrounding} :
        (child.reach store).hoists = true → hoistingHome scopes = hoistingHome other ∧
          ∀ home ∈ [function, block], hoistingHome scopes ≠ some home := fun hoists => by
      rw [(silent child member).2] at hoists
      cases hoists
    constructor
    · intro found occurs
      obtain ⟨child, member, inner⟩ := (occurs_even rfl full).mp (occurs_calledOnTheSpot.mp occurs)
      obtain ⟨other, there, echoes⟩ :=
        Occurs.moved inner loudly (apart child member) (silent child member).1 (none member)
      exact ⟨other, (occurs_even rfl full).mpr ⟨child, member, there⟩, echoes⟩
    · intro other occurs
      obtain ⟨child, member, inner⟩ := (occurs_even rfl full).mp occurs
      obtain ⟨found, there, echoes⟩ :=
        Occurs.moved inner loudly.symm (apart child member) (silent child member).1 (none member)
      exact .inl ⟨found, occurs_calledOnTheSpot.mpr ((occurs_even rfl full).mpr ⟨child, member, there⟩),
        echoes.symm⟩

/-- The blocks among some trees that are spliced. -/
def splicedNames (before : Store) (statements : List Tree) : List NodeId :=
  (statements.filter fun tree => isSpliceable before tree.root).filterMap Tree.root

theorem mem_splicedNames : name ∈ splicedNames before statements ↔
    ∃ tree ∈ statements, isSpliceable before (some name) = true ∧ tree.root = some name := by
  simp only [splicedNames, List.mem_filterMap, List.mem_filter]
  constructor
  · rintro ⟨tree, ⟨listed, spliceable⟩, rooted⟩
    exact ⟨tree, listed, rooted ▸ spliceable, rooted⟩
  · rintro ⟨tree, listed, spliceable, rooted⟩
    exact ⟨tree, ⟨listed, rooted ▸ spliceable⟩, rooted⟩

/-- A spliced block is in no other statement, and not in what it holds. -/
theorem splicedNames_apart {shape : Shape} {tree : Tree} (nodup : (Tree.node id shape statements).names.Nodup)
    (isQuiet : name ∈ splicedNames before statements) (listed : tree ∈ statements)
    (other : tree.root ≠ some name) : name ∉ tree.names := by
  obtain ⟨block, among, -, rooted⟩ := mem_splicedNames.mp isQuiet
  intro inside
  have different : tree ≠ block := fun same => other (same ▸ rooted)
  have pairs := (nodup_namesAll_iff.mp (List.nodup_cons.mp nodup).2).2
  have symm : Std.Symm fun first second : Tree => first.names.Disjoint second.names :=
    ⟨fun _ _ disjoint => disjoint.symm⟩
  exact pairs.forall listed among different inside (mem_names_root rooted)

/-- A spliced block is not around the statements, as it is one of them. -/
theorem splicedNames_outside {shape : Shape} (nodup : (Tree.node id shape statements).names.Nodup)
    (hosts : outer.Hosts (.node id shape statements)) :
    ∀ home ∈ splicedNames before statements, home ∉ (outer.inside id shape).map Surrounding.opener := by
  intro home isQuiet around
  obtain ⟨tree, listed, -, rooted⟩ := mem_splicedNames.mp isQuiet
  have inside : home ∈ namesAll statements := mem_namesAll.mpr ⟨tree, listed, mem_names_root rooted⟩
  rcases List.mem_cons.mp (Surroundings.inside_ids around) with rfl | further
  · exact (List.nodup_cons.mp nodup).1 inside
  · exact hosts.apart home further (List.mem_cons_of_mem _ inside)

/-- No spliced block is in what one of them holds. -/
theorem splicedNames_apart_of_mem {shape inner : Shape} {below : List Tree} {child : Tree}
    (nodup : (Tree.node id shape statements).names.Nodup) (listed : .node name inner below ∈ statements)
    (member : child ∈ below) : ∀ home ∈ splicedNames before statements, home ∉ child.names := by
  intro home isQuiet inside
  have there : home ∈ namesAll below := mem_namesAll.mpr ⟨child, member, inside⟩
  by_cases same : name = home
  · subst same
    exact (List.nodup_cons.mp (nodup_of_mem_namesAll (List.nodup_cons.mp nodup).2 listed)).1 there
  · exact splicedNames_apart nodup isQuiet listed (fun rooted => same (Option.some.inj rooted))
      (List.mem_cons_of_mem _ there)

/-- A statement that stays where it is declares nothing in the spliced blocks. -/
theorem echoes_of_kept {shape : Shape} {tree : Tree} {found : Occurrence}
    (nodup : (Tree.node id shape statements).names.Nodup) (hosts : outer.Hosts (.node id shape statements))
    (listed : tree ∈ statements) (whole : isSpliceable before tree.root = false)
    (occurs : tree.Occurs store ⟨outer.inside id shape, .plain⟩ found) :
    found.Echoes (splicedNames before statements) found := by
  refine .refl fun home isQuiet named => ?_
  rcases occurs.home_mem named with inside | around
  · refine splicedNames_apart nodup isQuiet listed (fun rooted => ?_) inside
    obtain ⟨-, -, spliceable, -⟩ := mem_splicedNames.mp isQuiet
    rw [rooted, spliceable] at whole
    cases whole
  · change home ∈ (outer.inside id shape).map Surrounding.opener ++ [] at around
    rw [List.append_nil] at around
    exact splicedNames_outside nodup hosts home isQuiet around

theorem echo_spliced {shape changed : Shape} (isList : shape.isList = true)
    (blocks : ∀ name inner below, .node name inner below ∈ statements →
      isSpliceable before (some name) = true → inner.isBlock = true)
    (same : changed.withSlots [] = shape.withSlots []) (holds : before.Holds (.node id shape statements))
    (held : store.Holds (.node id changed (statements.flatMap (spread before))))
    (marks : ∀ name ∈ (Tree.node id shape statements).names, store.flags (some name) = before.flags (some name))
    (accepts : rule.Accepts store (.node id shape statements))
    (nodup : (Tree.node id shape statements).names.Nodup) (hosts : outer.Hosts (.node id shape statements)) :
    Echo store bound (splicedNames before statements) outer (.node id shape statements)
      (.node id changed (statements.flatMap (spread before))) := by
  have inList := Shape.isContainer_of_isList isList
  have even := Shape.isEven_of_isContainer inList
  have evenStill := Shape.isEven_of_isContainer ((Shape.isContainer_congr same).trans inList)
  have full {name : NodeId} {inner : Shape} {below : List Tree} (listed : .node name inner below ∈ statements) :
      inner.slots.length = below.length := (holds.within (.deeper listed .whole)).length_slots
  -- what comes out of a block is the same outside
  have taken {name : NodeId} {inner : Shape} {below : List Tree} (listed : .node name inner below ∈ statements)
      (spliceable : isSpliceable before (some name) = true) {child : Tree} (member : child ∈ below) :=
    occurs_under name (mem_splicedNames.mpr ⟨_, listed, spliceable, rfl⟩) (fun home isQuiet =>
        ⟨splicedNames_apart_of_mem nodup listed member home isQuiet, splicedNames_outside nodup hosts home isQuiet⟩)
      hosts.any_inside (silent_of_spliced isList blocks holds marks accepts listed spliceable child member).2.1
  constructor
  · intro found occurs
    obtain ⟨tree, listed, inner⟩ := (occurs_even even holds.length_slots).mp occurs
    have placed {child : Tree} (among : child ∈ spread before tree) {other : Occurrence}
        (there : child.Occurs store ⟨outer.inside id shape, .plain⟩ other) :
        (Tree.node id changed (statements.flatMap (spread before))).Occurs store outer other := by
      rw [occurs_even evenStill held.length_slots, Surroundings.inside_congr same]
      exact ⟨child, List.mem_flatMap.mpr ⟨tree, listed, among⟩, there⟩
    cases tree with
    | nothing => exact absurd inner occurs_nothing
    | node name shape below =>
      cases spliceable : isSpliceable before (some name) with
      | true =>
        obtain ⟨child, member, under⟩ :=
          (occurs_block (blocks name shape below listed spliceable) (full listed)).mp inner
        obtain ⟨other, there, echoes⟩ := (taken listed spliceable member).2 found under
        exact ⟨other, placed (by rw [spread, if_pos spliceable]; exact member) there, echoes.symm⟩
      | false =>
        refine ⟨found, placed ?_ inner, echoes_of_kept nodup hosts listed spliceable inner⟩
        rw [spread, spliceable]
        exact List.mem_singleton_self _
  · intro other occurs
    rw [occurs_even evenStill held.length_slots, Surroundings.inside_congr same] at occurs
    obtain ⟨child, among, inner⟩ := occurs
    obtain ⟨tree, listed, spreads⟩ := List.mem_flatMap.mp among
    have placed {found : Occurrence} (there : tree.Occurs store ⟨outer.inside id shape, .plain⟩ found) :
        (Tree.node id shape statements).Occurs store outer found :=
      (occurs_even even holds.length_slots).mpr ⟨tree, listed, there⟩
    rcases eq_of_mem_spread spreads with ⟨rfl, whole⟩ | ⟨name, shape, below, rfl, spliceable, member⟩
    · exact .inl ⟨other, placed inner, echoes_of_kept nodup hosts listed whole inner⟩
    · obtain ⟨found, under, echoes⟩ := (taken listed spliceable member).1 other inner
      exact .inl ⟨found, placed ((occurs_block (blocks name shape below listed spliceable) (full listed)).mpr
        ⟨child, member, under⟩), echoes.symm⟩

/-- What a rule puts in the place of a tree echoes the tree. -/
theorem echo (rewrites : Rewrites before rule part new) (holds : before.Holds part) (held : store.Holds new)
    (marks : ∀ id ∈ part.names, store.flags (some id) = before.flags (some id)) (nodup : part.names.Nodup)
    (distinct : new.names.Nodup) (accepts : rule.Accepts store part) :
    EchoesAnywhere store before.nodes.size part new := by
  have made := (rewrites.keeps holds marks accepts).1
  -- a child of a node gives way to another
  have swap {child other : Tree} (placed : Placed child other part new)
      (base : EchoesAnywhere store before.nodes.size child other) :
      EchoesAnywhere store before.nodes.size part new :=
    placed.echoesAnywhere holds held nodup distinct accepts.answers made.answers base
  cases rewrites with
  | undefined primitive fresh same =>
    exact swap (.deeper .here same) (.of_silent fun inner hosts => echo_undefined primitive fresh hosts)
  | dropped _ same => exact swap (.deeper .here same) (.of_silent fun inner hosts => echo_dropped hosts)
  | assigned _ simple copy fresh =>
    exact .of_silent fun outer hosts => echo_assigned simple copy fresh holds accepts hosts
  | chosen => exact .of_silent fun outer hosts => echo_chosen hosts
  | conjoined => exact .of_silent fun outer hosts => echo_conjoined hosts
  | @itemized _ _ _ whole _ _ either each =>
    exact ⟨[whole], List.forall_mem_singleton.mpr (.inr List.mem_cons_self), fun outer hosts hosted =>
      echo_itemized each accepts distinct hosts hosted⟩
  | @wrapped id name shape changed inner front back below body isBody noBlock same =>
    exact swap (.deeper .here same) ⟨[name], List.forall_mem_singleton.mpr (.inr List.mem_cons_self),
      fun around hosts hosted => echo_wrapped noBlock (accepts.closed_body isBody)
        (nodup_of_mem_namesAll (List.nodup_cons.mp distinct).2 (by simp)) hosts hosted⟩
  | emptied _ same => exact swap (.deeper .here same) (.of_silent fun inner _ => echo_emptied)
  | led either isLed _ inList split gathered same still =>
    subst split
    exact .of_silent fun outer hosts => echo_led isLed inList gathered same still holds held
  | @single _ statement sequence shape remade rest only either isLed still =>
    have placed : Placed (.inSequence sequence [only]) only
        (.node statement shape ([] ++ .inSequence sequence [only] :: rest))
        (.node statement remade ([] ++ only :: rest)) := .deeper .here still
    exact swap placed (.of_silent fun inner hosts => echo_single hosts)
  | turned => exact .of_silent fun outer hosts => echo_turned hosts
  | @gathered id name _ _ _ _ _ _ unsettled same =>
    refine ⟨[name], List.forall_mem_singleton.mpr (.inr ?_), fun outer hosts hosted =>
      echo_gathered same accepts holds held distinct hosts hosted⟩
    exact List.mem_cons_of_mem _ (mem_namesAll.mpr
      ⟨.inBlock name _, List.mem_cons_of_mem _ List.mem_cons_self, List.mem_cons_self⟩)
  | called free => exact echo_called accepts holds nodup
  | @spliced id shape changed statements isList any blocks same =>
    refine ⟨splicedNames before statements, fun home isQuiet => .inl ?_, fun outer hosts _ =>
      echo_spliced isList blocks same holds held marks accepts nodup hosts⟩
    obtain ⟨tree, listed, -, rooted⟩ := mem_splicedNames.mp isQuiet
    exact List.mem_cons_of_mem _ (mem_namesAll.mpr ⟨tree, listed, mem_names_root rooted⟩)

end Echoes

end Canonical.Rewrites

/-! ## Programs -/

theorem Tree.Placed.symm {part new whole result : Tree} (placed : Placed part new whole result) :
    Placed new part result whole := by
  induction placed with
  | here => exact .here
  | deeper _ same ih => exact ih.deeper same.symm

/-- In a part of a program a rule keeps what it asks for, and so it does in the program. -/
theorem Tree.Placed.keeps {rule : Rule} {store : Store} {part new tree remade : Tree}
    (placed : Placed part new tree remade) (accepts : rule.Accepts store tree)
    (inner : rule.Accepts store part → Canonical.Rewrites.Keeps rule store part new) :
    Canonical.Rewrites.Keeps rule store tree remade := by
  induction placed with
  | here => exact inner accepts
  | @deeper _ _ _ front back whole _ _ same ih =>
    obtain ⟨-, below⟩ := Rule.accepts_node.mp accepts front whole back rfl
    obtain ⟨kept, yields⟩ := ih below
    exact accepts.swap_of_yields same yields kept

/-- Names are declared in the same scopes in two programs, and from an identifier that is in both the same
declarations of its name can be seen. -/
structure Canonical.NamesAlike (before after : Store × Tree) : Prop where
  size : before.1.nodes.size ≤ after.1.nodes.size
  declares : ∀ name home id,
    before.2.Declares before.1 name home id ↔ after.2.Declares after.1 name home id
  seen : ∀ other, after.2.Occurs after.1 ⟨[], .program⟩ other → other.id < before.1.nodes.size →
    ∃ found, before.2.Occurs before.1 ⟨[], .program⟩ found ∧ found.id = other.id ∧ found.text = other.text ∧
      ∀ id, before.2.Sees before.1 other.text found.outer.around id ↔
        after.2.Sees after.1 other.text other.outer.around id

namespace Canonical.NamesAlike
variable {before middle after : Store × Tree}

theorem refl (state : Store × Tree) : NamesAlike state state :=
  ⟨Nat.le_refl _, fun _ _ _ => .rfl, fun other occurs _ => ⟨other, occurs, rfl, rfl, fun _ => .rfl⟩⟩

theorem trans (first : NamesAlike before middle) (second : NamesAlike middle after) :
    NamesAlike before after := by
  refine ⟨Nat.le_trans first.size second.size,
    fun name home id => (first.declares name home id).trans (second.declares name home id),
    fun other occurs old => ?_⟩
  obtain ⟨inner, between, sameId, sameText, alike⟩ :=
    second.seen other occurs (Nat.lt_of_lt_of_le old first.size)
  obtain ⟨found, there, id, text, again⟩ := first.seen inner between (sameId ▸ old)
  rw [sameText] at again
  exact ⟨found, there, id.trans sameId, text.trans sameText, fun id => (again id).trans (alike id)⟩

end Canonical.NamesAlike

/-- A program stands where nothing is around it. -/
theorem Store.Stands.hosts {store : Store} {root : NodeId} {tree : Tree} (stands : store.Stands root tree) :
    (⟨[], .program⟩ : Surroundings).Hosts tree := by
  refine ⟨fun id around => absurd around List.not_mem_nil, .inr rfl, ?_⟩
  obtain ⟨source, statements, file⟩ := stands.exists_file
  have rooted := stands.rooted
  cases tree with
  | nothing => rfl
  | node id shape below =>
    cases rooted
    cases stands.holds.shape?_node.symm.trans file
    rfl

namespace Rule
variable {rule : Rule} {before after : Store × Tree} {root : NodeId}

/-- A step of a rule that finds a program as it asks leaves it so, and no name changes its meaning. -/
theorem Takes.namesAlike (takes : rule.Takes before after) (stands : before.1.Stands root before.2)
    (accepts : rule.Accepts before.1 before.2) :
    rule.Accepts after.1 after.2 ∧ Canonical.NamesAlike before after := by
  obtain ⟨part, new, rewrites, placed⟩ := takes.replaced
  have standing : after.1.Stands root after.2 := stands.remade takes.remakes
  have marks : ∀ id ∈ before.2.names, after.1.flags (some id) = before.1.flags (some id) :=
    fun id inside => takes.descends.flags (stands.holds.lt_size inside)
  have marksIn : ∀ id ∈ part.names, after.1.flags (some id) = before.1.flags (some id) :=
    fun id inside => marks id (placed.within.names_subset inside)
  have accepted := accepts.marked marks
  have holds := stands.holds.within placed.within
  have kept : Canonical.Rewrites.Keeps rule after.1 before.2 after.2 :=
    placed.keeps accepted (rewrites.keeps holds marksIn)
  obtain ⟨quiet, -, echoes⟩ : EchoesAnywhere after.1 before.1.nodes.size before.2 after.2 :=
    placed.echoesAnywhere stands.holds standing.holds stands.nodup standing.nodup accepted.answers kept.1.answers
      (rewrites.echo holds (standing.holds.within placed.symm.within) marksIn
        (placed.within.nodup stands.nodup) (placed.symm.within.nodup standing.nodup)
        (accepted.within placed.within))
  have echo : Echo after.1 before.1.nodes.size quiet ⟨[], .program⟩ before.2 after.2 :=
    echoes _ stands.hosts standing.hosts
  have declares (name : String) (home id : NodeId) :
      before.2.Declares before.1 name home id ↔ before.2.Declares after.1 name home id := declares_marked marks
  refine ⟨kept.1, takes.remakes.rebuilds.touches.size,
    fun name home id => (declares name home id).trans echo.declares_iff, fun other occurs old => ?_⟩
  obtain ⟨found, there, id, text, alike⟩ := echo.seen other.text occurs old
  exact ⟨found, (occurs_marked marks).mpr there, id, text,
    fun id => (sees_congr (declares other.text)).trans (alike id)⟩

theorem namesAlike_of_takes (taken : Relation.ReflTransGen rule.Takes before after)
    (stands : before.1.Stands root before.2) (accepts : rule.Accepts before.1 before.2) :
    after.1.Stands root after.2 ∧ rule.Accepts after.1 after.2 ∧ Canonical.NamesAlike before after := by
  induction taken with
  | refl => exact ⟨stands, accepts, .refl _⟩
  | tail _ step ih =>
    obtain ⟨standing, accepted, alike⟩ := ih
    obtain ⟨also, again⟩ := step.namesAlike standing accepted
    exact ⟨standing.remade step.remakes, also, alike.trans again⟩

end Rule

/-! ## Bindings -/

/-- An identifier of a program that uses a name. -/
structure Store.Uses (store : Store) (root id : NodeId) : Prop where
  inside : id ∈ store.descendants (some root)
  spelled : (store.identifier? (some id)).isSome = true
  named : store.isReference id = true
  plain : store.isDeclarationName id = false

instance (store : Store) (root id : NodeId) : Decidable (store.Uses root id) :=
  decidable_of_iff (id ∈ store.descendants (some root) ∧ (store.identifier? (some id)).isSome = true ∧
      store.isReference id = true ∧ store.isDeclarationName id = false)
    ⟨fun ⟨inside, spelled, named, plain⟩ => ⟨inside, spelled, named, plain⟩,
      fun uses => ⟨uses.inside, uses.spelled, uses.named, uses.plain⟩⟩

/-- An identifier is bound to a symbol with some declarations. -/
def Bindings.Denotes (bindings : Bindings) (id : NodeId) (declarations : List NodeId) : Prop :=
  ∃ number symbol, bindings.symbolId? id = some number ∧ bindings.symbols[number]? = some symbol ∧
    ∀ declaration, declaration ∈ symbol.declarations ↔ declaration ∈ declarations

/-- What uses a name in two states of a program is bound to the same declarations, or to none both times,
and names that are declared have the same declarations. -/
structure Store.ResolvesAlike (store later : Store) (root : NodeId) : Prop where
  uses : ∀ id, store.Uses root id → later.Uses root id → ∃ declarations,
    (Bindings.of store root).ResolvesTo id declarations ∧ (Bindings.of later root).ResolvesTo id declarations
  declared : ∀ id home, .declares id home ∈ store.scopeEntries root → ∃ declarations,
    (Bindings.of store root).Denotes id declarations ∧ (Bindings.of later root).Denotes id declarations

section Bindings
variable {store later : Store} {root id : NodeId} {tree remade : Tree} {bindings : Bindings}
  {declarations others : List NodeId} {name : String}

theorem Bindings.ResolvesTo.congr (resolves : bindings.ResolvesTo id declarations)
    (same : ∀ other, other ∈ declarations ↔ other ∈ others) : bindings.ResolvesTo id others := by
  have empty : declarations = [] ↔ others = [] := by
    simp only [List.eq_nil_iff_forall_not_mem, same]
  unfold ResolvesTo at resolves ⊢
  simpa only [empty, same] using resolves

/-- A declaration is bound to a symbol with all declarations of its name in its scope. -/
theorem Store.Stands.denotes (stands : store.Stands root tree) (proper : store.IsProperIn tree) {home : NodeId}
    (declares : tree.Declares store name home id) :
    (Bindings.of store root).Denotes id (store.declaredIn (store.scopeEntries root) name home) := by
  obtain ⟨entry, spelled⟩ := Unflatten.mem_declaredIn.mp (stands.mem_declaredIn.mpr declares)
  exact (Bindings.of_resolvesByScope proper stands).declared id home name entry spelled

/-- If the same can be seen in two states of a program, names are bound alike. -/
theorem Canonical.NamesAlike.resolvesAlike (alike : NamesAlike (store, tree) (later, remade))
    (stands : store.Stands root tree) (standing : later.Stands root remade) (proper : store.IsProperIn tree)
    (properly : later.IsProperIn remade) : store.ResolvesAlike later root := by
  constructor
  · intro id uses still
    obtain ⟨around, sees⟩ := (Bindings.of_resolvesByScope properly standing).found id still.inside still.spelled
    have listed := sees
    rw [standing.scopeEntries_eq, sees_mem_visit] at listed
    obtain ⟨other, occurs, rfl, rfl⟩ := listed
    obtain ⟨found, there, same, text, seen⟩ := alike.seen other occurs
      (stands.holds.lt_size (stands.mem_descendants.mp uses.inside))
    have before : .sees other.id found.outer.around ∈ store.scopeEntries root := by
      rw [stands.scopeEntries_eq, sees_mem_visit]
      exact ⟨found, there, same, rfl⟩
    have spelled : store.identifier? (some other.id) = some other.text := by
      rw [← same, there.identifier? stands.holds, text]
    refine ⟨_, Bindings.of_resolvesTo proper stands before spelled uses.named uses.plain,
      (Bindings.of_resolvesTo properly standing sees (occurs.identifier? standing.holds) still.named
        still.plain).congr fun declaration => ?_⟩
    rw [standing.mem_declarationsSeen, stands.mem_declarationsSeen, seen]
  · intro id home entry
    rw [stands.scopeEntries_eq, declares_mem_visit] at entry
    obtain ⟨found, occurs, rfl, named⟩ := entry
    have declares : tree.Declares store found.text home found.id := ⟨found, occurs, rfl, rfl, named⟩
    obtain ⟨number, symbol, known, there, each⟩ := standing.denotes properly ((alike.declares _ _ _).mp declares)
    refine ⟨_, stands.denotes proper declares, number, symbol, known, there, fun declaration => ?_⟩
    rw [each, standing.mem_declaredIn, stands.mem_declaredIn]
    exact (alike.declares _ _ _).symm

end Bindings

/-- A run of a rule on a program that is as the rule asks leaves every name bound as it was. -/
theorem Rule.run_resolvesAlike {rule : Rule} {store : Store} {root : NodeId} {tree : Tree}
    (stands : store.Stands root tree)
    (accepts : rule.Accepts store (store.treeAt store.depthBound (some root))) (journal : Journal) :
    store.ResolvesAlike (rule.run root (store, journal)).1.1 root := by
  obtain ⟨remade, -, taken, -⟩ := rule.run_turned (store, journal) tree stands
  rw [stands.treeAt_eq] at accepts
  obtain ⟨standing, accepted, alike⟩ := Rule.namesAlike_of_takes taken stands accepts
  exact alike.resolvesAlike stands standing (stands.holds.isProperIn accepts.answers)
    (standing.holds.isProperIn accepted.answers)

/-- `var` in a clause of a `switch` is for the function or file around it, also in a block. -/
theorem wrapped_clause_shows_name :
    let program := parse "switch (a) { case 0: var x = 1; break; case 1: f(x); }".toList
    program.store.ResolvesAlike (Rule.switchCase.run program.root (program.store, Journal.empty)).1.1
      program.root := by
  intro program
  obtain ⟨tree, stands⟩ := parse_stands "switch (a) { case 0: var x = 1; break; case 1: f(x); }".toList
  exact Rule.run_resolvesAlike stands (by decide +kernel) Journal.empty

/-- `let` in a clause of a `switch` is for the `switch`, but in a block for the block only. -/
theorem wrapped_clause_hides_name :
    let program := parse "switch (a) { case 0: let x = 1; break; case 1: f(x); }".toList
    ¬program.store.ResolvesAlike (Rule.switchCase.run program.root (program.store, Journal.empty)).1.1
      program.root := by
  intro program alike
  let later := (Rule.switchCase.run program.root (program.store, Journal.empty)).1.1
  have before : program.store.Uses program.root 10 ∧
      (Bindings.of program.store program.root).symbolId? 10 = some 0 := by decide +kernel
  have after : later.Uses program.root 10 ∧ (Bindings.of later program.root).symbolId? 10 = none := by
    decide +kernel
  obtain ⟨declarations, known, unknown⟩ := alike.uses 10 before.1 after.1
  unfold Bindings.ResolvesTo at known unknown
  split at known
  · cases before.2.symm.trans known.1
  · rename_i some
    rw [if_neg some] at unknown
    obtain ⟨number, symbol, bound, -⟩ := unknown
    cases after.2.symm.trans bound

end Unflatten
