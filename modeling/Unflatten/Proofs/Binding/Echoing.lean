import Unflatten.Proofs.Binding.Reaching

/-! # Trees in the place of others

A tree echoes another if the same identifiers stand in both and declare their names in the same scopes,
and what is around them differs by quiet scopes only (`Tree.Echo`).  The whole then echoes the whole
(`Tree.Echo.node`), and from every identifier the same declarations can be seen (`Tree.Echo.seen`).

Scopes in which nothing is declared may be put around a tree that does not reach for them
(`Tree.Occurs.moved`). -/

set_option autoImplicit false

namespace Unflatten

/-- What may stand in a place. -/
def Place.suits : Place → Shape → Bool
  | .plain, _ => true
  | .program, .file _ _ | .body, .block _ | .declarator _, .declaration _ _
  | .name _, .identifier _ => true
  | _, _ => false

/-- Whether a tree may stand in a place. -/
def Tree.suits (place : Place) : Tree → Bool
  | .nothing => true
  | .node _ shape _ => place.suits shape

/-- A tree stands in some surroundings: it opens no scope that is around it, and if it is not the whole
program there is a function or file around it. -/
structure Surroundings.Hosts (outer : Surroundings) (tree : Tree) : Prop where
  apart : ∀ id ∈ outer.ids, id ∉ tree.names
  hoisting : outer.around.any Surrounding.hoists = true ∨ outer.place = .program
  suits : tree.suits outer.place = true

/-- A child is what its parent asks for. -/
def Store.answers (store : Store) (shape : Shape) (before behind : Nat) (child : Tree) : Bool :=
  (shape.natureAt before behind).all fun nature => (child.reach store).natures.contains nature

section Hosts
variable {store : Store} {tree child : Tree} {below front back : List Tree} {outer inner : Surroundings}
  {first last : List Surroundings} {id : NodeId} {shape changed : Shape}

namespace Surroundings

/-- What a slot is for depends on what the node asks for there. -/
theorem place_below (split : outer.below store id shape = first ++ inner :: last) : inner.place = .plain ∨
    ∃ nature, shape.natureAt first.length last.length = some nature ∧
      ∀ other : Shape, nature ∈ other.natures → inner.place.suits other = true := by
  have member : inner ∈ outer.below store id shape := split ▸ List.mem_append_right _ List.mem_cons_self
  have names {home : Option NodeId} {other : Shape} (is : Nature.name ∈ other.natures) :
      (Place.name home).suits other = true := by
    cases other <;> first | rfl | simp [Shape.natures] at is
  cases shape
  case function isExpression name parameters body =>
    cases first with
    | nil =>
      cases split
      exact .inr ⟨.name, rfl, fun _ => names⟩
    | cons head first =>
      obtain ⟨-, others⟩ := List.cons.inj split
      rcases List.eq_nil_or_concat' last with rfl | ⟨last, final, rfl⟩
      · obtain ⟨-, same⟩ := List.append_inj' others rfl
        cases same
        refine .inr ⟨.block, rfl, fun other is => ?_⟩
        cases other <;> first | rfl | simp [Shape.natures] at is
      · change _ = first ++ (inner :: (last ++ [final])) at others
        rw [← List.cons_append, ← List.append_assoc] at others
        obtain ⟨same, -⟩ := List.append_inj' others rfl
        obtain ⟨_, _, rfl⟩ := List.mem_map.mp (same ▸ List.mem_append_right first List.mem_cons_self)
        rw [List.length_append, List.length_singleton]
        exact .inr ⟨.name, rfl, fun _ => names⟩
  case declarationList isStatement declarations =>
    obtain ⟨_, _, rfl⟩ := List.mem_map.mp member
    refine .inr ⟨.declarator, rfl, fun other is => ?_⟩
    cases other <;> first | rfl | simp [Shape.natures] at is
  case declaration name initializer =>
    cases first with
    | nil =>
      cases split
      cases outer.place with
      | declarator => exact .inr ⟨.name, rfl, fun _ => names⟩
      | _ => exact .inl rfl
    | cons head first =>
      obtain ⟨-, others⟩ := List.cons.inj split
      rcases List.append_eq_singleton_iff.mp others.symm with ⟨-, same⟩ | ⟨-, same⟩ <;> cases same
      exact .inl rfl
  case catchClause name body =>
    cases first with
    | nil =>
      cases split
      exact .inr ⟨.name, rfl, fun _ => names⟩
    | cons head first =>
      obtain ⟨-, others⟩ := List.cons.inj split
      rcases List.append_eq_singleton_iff.mp others.symm with ⟨-, same⟩ | ⟨-, same⟩ <;> cases same
      exact .inl rfl
  case switch discriminant clauses =>
    rcases List.mem_cons.mp member with rfl | listed
    · exact .inl rfl
    · obtain ⟨_, _, rfl⟩ := List.mem_map.mp listed
      exact .inl rfl
  all_goals
    obtain ⟨_, _, rfl⟩ := List.mem_map.mp member
    exact .inl rfl

theorem exists_split (full : shape.slots.length = (front ++ child :: back).length) :
    ∃ first inner last, outer.below store id shape = first ++ inner :: last ∧
      first.length = front.length ∧ last.length = back.length := by
  have listed : (outer.below store id shape).length = (front ++ child :: back).length := length_below.trans full
  rw [List.length_append, List.length_cons] at listed
  obtain ⟨first, rest, same, short⟩ : ∃ first rest, outer.below store id shape = first ++ rest ∧
      first.length = front.length :=
    ⟨_, _, (List.take_append_drop front.length _).symm, List.length_take_of_le (by omega)⟩
  rw [same, List.length_append] at listed
  cases rest with
  | nil =>
    rw [List.length_nil] at listed
    omega
  | cons inner last =>
    rw [List.length_cons] at listed
    exact ⟨first, inner, last, same, short, by omega⟩

theorem inside_withSlots (slots : List Slot) : outer.inside id (shape.withSlots slots) = outer.inside id shape := by
  have opens : (shape.withSlots slots).opens outer.place = shape.opens outer.place := by
    cases shape
    case loop kind initializer condition incrementor body => cases kind <;> rfl
    all_goals rfl
  rw [inside, inside, opens]

/-- What is around the slots does not depend on what is in them. -/
theorem below_withSlots {slots : List Slot} (full : slots.length = shape.slots.length) :
    outer.below store id (shape.withSlots slots) = outer.below store id shape := by
  have around : outer.inside id (shape.withSlots slots) = outer.inside id shape := inside_withSlots slots
  cases shape
  case loop kind initializer condition incrementor body => cases kind <;> rfl
  all_goals
    first
    | rfl
    | simp only [Shape.withSlots, Shape.slots, List.length_cons, List.length_append, List.length_nil]
        at around full
      simp only [below, around, Shape.withSlots, Shape.slots, List.map_const', List.map_cons, List.length_drop,
        List.length_dropLast, full, Nat.add_sub_cancel]

theorem below_congr (same : changed.withSlots [] = shape.withSlots [])
    (full : changed.slots.length = shape.slots.length) :
    outer.below store id changed = outer.below store id shape := by
  rw [← below_withSlots full, ← Shape.withSlots_withSlots shape [], ← same, Shape.withSlots_withSlots,
    Shape.withSlots_slots]

end Surroundings

theorem Store.Holds.length_slots (holds : store.Holds (.node id shape below)) :
    shape.slots.length = below.length := by
  cases holds with
  | node _ _ roots => rw [roots, List.length_map]

namespace Surroundings

namespace Hosts

theorem any_inside (hosts : outer.Hosts (.node id shape below)) :
    (outer.inside id shape).any Surrounding.hoists = true := by
  rcases hosts.hoisting with any | program
  · unfold inside
    split
    · rw [List.any_cons, any, Bool.or_true]
    · exact any
  · have suits := hosts.suits
    rw [program] at suits
    cases shape
    case file => simp [inside, Shape.opens, program]
    all_goals cases suits

/-- What is in a child of a node is nowhere else. -/
theorem apart_middle {home : NodeId} (hosts : outer.Hosts (.node id shape (front ++ child :: back)))
    (nodup : (Tree.node id shape (front ++ child :: back)).names.Nodup) (there : home ∈ child.names) :
    home ≠ id ∧ home ∉ outer.ids ∧ home ∉ Tree.namesAll front ∧ home ∉ Tree.namesAll back := by
  obtain ⟨noTop, others⟩ := List.nodup_cons.mp nodup
  have inside : home ∈ Tree.namesAll (front ++ child :: back) :=
    Tree.mem_namesAll_middle.mpr (.inr (.inl there))
  rw [Tree.namesAll_append, Tree.namesAll] at others
  obtain ⟨-, behind, before⟩ := List.nodup_append.mp others
  refine ⟨fun same => noTop (same ▸ inside), fun around => hosts.apart home around
    (List.mem_cons_of_mem _ inside), fun front => ?_, fun back => ?_⟩
  · exact before home front home (List.mem_append_left _ there) rfl
  · exact (List.nodup_append.mp behind).2.2 home there home back rfl

/-- What stands in a slot of a node. -/
theorem slot (hosts : outer.Hosts (.node id shape (front ++ child :: back)))
    (nodup : (Tree.node id shape (front ++ child :: back)).names.Nodup)
    (split : outer.below store id shape = first ++ inner :: last) (before : first.length = front.length)
    (behind : last.length = back.length)
    (answers : store.answers shape front.length back.length child = true) : inner.Hosts child := by
  have member : inner ∈ outer.below store id shape := split ▸ List.mem_append_right _ List.mem_cons_self
  have inside : child.names ⊆ Tree.namesAll (front ++ child :: back) := fun name there =>
    Tree.mem_namesAll_middle.mpr (.inr (.inl there))
  refine ⟨fun name around there => ?_, .inl ?_, ?_⟩
  · rcases List.mem_cons.mp (ids_below member around) with rfl | outside
    · exact (List.nodup_cons.mp nodup).1 (inside there)
    · exact hosts.apart name outside (List.mem_cons_of_mem _ (inside there))
  · have any := hosts.any_inside
    rcases around_of_mem_below member with ⟨same, closed⟩ | ⟨hoists, visible, opens, same⟩
    · rw [same]
      rwa [Surroundings.inside, closed] at any
    · rw [same]
      rw [Surroundings.inside, opens] at any
      exact any
  · cases child with
    | nothing => rfl
    | node name other parts =>
      rcases place_below split with plain | ⟨nature, asks, suits⟩
      · rw [Tree.suits, plain]
        rfl
      · rw [before, behind] at asks
        rw [Store.answers, asks, Option.all_some, Tree.reach_node, List.contains_iff_mem] at answers
        exact suits other answers

end Hosts

end Surroundings

theorem Shape.exists_of_mem_demands (roots : shape.slots = below.map Tree.root) {demand : Slot × Nature}
    (member : demand ∈ shape.demands) : ∃ front child back, below = front ++ child :: back ∧
      child.root = demand.1 ∧ shape.natureAt front.length back.length = some demand.2 := by
  cases shape
  case function isExpression name parameters body =>
    obtain ⟨first, rest, rfl, rfl, listed⟩ := List.map_eq_cons_iff.mp roots.symm
    obtain ⟨middle, last, rfl, rfl, single⟩ := List.map_eq_append_iff.mp listed
    obtain ⟨last, rfl, rfl⟩ := Tree.one_of_roots single.symm
    rcases List.mem_cons.mp member with rfl | others
    · exact ⟨[], first, _, rfl, rfl, rfl⟩
    · rcases List.mem_cons.mp others with rfl | parameter
      · exact ⟨first :: middle, last, [], rfl, rfl, rfl⟩
      · obtain ⟨_, among, rfl⟩ := List.mem_map.mp parameter
        obtain ⟨tree, there, rfl⟩ := List.mem_map.mp among
        obtain ⟨front, back, rfl⟩ := List.append_of_mem there
        refine ⟨first :: front, tree, back ++ [last], by simp, rfl, ?_⟩
        rw [List.length_append, List.length_singleton]
        rfl
  case declarationList isStatement declarations =>
    obtain ⟨slot, among, rfl⟩ := List.mem_map.mp member
    have listed : slot ∈ below.map Tree.root := roots ▸ among
    obtain ⟨tree, there, rfl⟩ := List.mem_map.mp listed
    obtain ⟨front, back, rfl⟩ := List.append_of_mem there
    exact ⟨front, tree, back, rfl, rfl, rfl⟩
  case declaration name initializer =>
    obtain ⟨first, second, rfl, rfl, rfl⟩ := Tree.two_of_roots roots
    cases List.mem_singleton.mp member
    exact ⟨[], first, [second], rfl, rfl, rfl⟩
  case catchClause name body =>
    obtain ⟨first, second, rfl, rfl, rfl⟩ := Tree.two_of_roots roots
    cases List.mem_singleton.mp member
    exact ⟨[], first, [second], rfl, rfl, rfl⟩
  all_goals cases member

/-- In a tree in which all children are what their parents ask for, names and declarations are where they
belong. -/
theorem Store.Holds.isProperIn (holds : store.Holds tree) (answers : tree.every store.answers = true) :
    store.IsProperIn tree := by
  intro id inside shape found demand member
  obtain ⟨part, within, rooted⟩ := Tree.exists_within inside
  have held := holds.within within
  have answered := Tree.every_of_within within answers
  cases held with
  | nothing => cases rooted
  | @node _ other below shaped _ roots _ inner =>
    cases rooted
    cases shaped.symm.trans found
    obtain ⟨front, child, back, rfl, same, asks⟩ := Shape.exists_of_mem_demands roots member
    obtain ⟨fits, -⟩ := Tree.every_node.mp answered front child back rfl
    rw [Store.answers, asks, Option.all_some, List.contains_iff_mem] at fits
    intro name named
    cases child with
    | nothing => cases same.trans named
    | node top other parts =>
      cases same.trans named
      rw [Tree.reach_node] at fits
      exact ⟨other, (inner _ (List.mem_append_right _ List.mem_cons_self)).shape?_node, fits⟩

end Hosts

/-! ## Echoes -/

/-- An identifier stands in a tree as another does, with the same around it but for quiet scopes. -/
structure Occurrence.Echoes (quiet : List NodeId) (found other : Occurrence) : Prop where
  id : found.id = other.id
  text : found.text = other.text
  around : loud quiet found.outer.around = loud quiet other.outer.around
  home : found.home? = other.home?
  apart : ∀ home ∈ quiet, found.home? ≠ some home

/-- The identifiers of a tree stand in another too.  What else stands there is new and declares
nothing. -/
structure Tree.Echo (store : Store) (bound : Nat) (quiet : List NodeId) (outer : Surroundings)
    (part new : Tree) : Prop where
  forth : ∀ found, part.Occurs store outer found →
    ∃ other, new.Occurs store outer other ∧ found.Echoes quiet other
  back : ∀ other, new.Occurs store outer other →
    (∃ found, part.Occurs store outer found ∧ found.Echoes quiet other) ∨
      bound ≤ other.id ∧ other.home? = none

section Echoes
variable {store : Store} {tree remade child part new : Tree} {below front back : List Tree}
  {outer inner : Surroundings} {quiet : List NodeId} {bound : Nat} {id home : NodeId}
  {shape changed : Shape} {found other : Occurrence} {around around' scopes : List Surrounding} {name : String}

theorem Place.Alike.home_eq {place place' : Place} (alike : place.Alike quiet place')
    (here : ∀ home ∈ quiet, place.home? ≠ some home) (there : ∀ home ∈ quiet, place'.home? ≠ some home) :
    place.home? = place'.home? := by
  cases alike with
  | name homes => exact homes.eq here there
  | _ => rfl

theorem Occurrence.Echoes.refl (apart : ∀ home ∈ quiet, found.home? ≠ some home) :
    found.Echoes quiet found :=
  ⟨rfl, rfl, rfl, rfl, apart⟩

namespace Tree

/-- A tree that declares nothing in quiet scopes has the same identifiers with other quiet scopes around
it. -/
theorem Occurs.moved (occurs : tree.Occurs store ⟨around, .plain⟩ found)
    (same : loud quiet around = loud quiet around') (apart : ∀ home ∈ quiet, home ∉ tree.names)
    (closed : (tree.reach store).leaks = false)
    (hoisted : (tree.reach store).hoists = true → hoistingHome around = hoistingHome around' ∧
      ∀ home ∈ quiet, hoistingHome around ≠ some home) :
    ∃ other, tree.Occurs store ⟨around', .plain⟩ other ∧ found.Echoes quiet other := by
  obtain ⟨other, also, id, text, alike⟩ :=
    occurs.alike (⟨same, .plain⟩ : Surroundings.Alike quiet ⟨around, .plain⟩ ⟨around', .plain⟩)
  have loudly {scopes : List Surrounding} {here : Occurrence} (there : tree.Occurs store ⟨scopes, .plain⟩ here)
      (near : (tree.reach store).hoists = true → hoistingHome scopes = hoistingHome around) :
      ∀ home ∈ quiet, here.home? ≠ some home := by
    intro home isQuiet named
    rcases there.home_cases named with inside | settled | ⟨hoists, hoisting⟩ | ⟨leaks | body, -⟩
    · exact apart home isQuiet inside
    · cases settled
    · exact (hoisted hoists).2 home isQuiet ((near hoists).symm.trans hoisting)
    · rw [closed] at leaks
      cases leaks
    · cases body
  have here := loudly occurs fun _ => rfl
  have there := loudly also fun hoists => (hoisted hoists).1.symm
  exact ⟨other, also, id.symm, text.symm, alike.around, alike.place.home_eq here there, here⟩

/-- Two trees with the same identifiers in the same scopes. -/
theorem Echo.of_iff (same : ∀ found, part.Occurs store outer found ↔ new.Occurs store outer found) :
    Echo store bound [] outer part new where
  forth found occurs := ⟨found, (same found).mp occurs, .refl (List.forall_mem_nil _)⟩
  back other occurs := .inl ⟨other, (same other).mpr occurs, .refl (List.forall_mem_nil _)⟩

/-! ### Nodes -/

/-- The identifiers below an even node stand in the scopes inside it. -/
theorem occurs_even (even : shape.isEven = true) (full : shape.slots.length = below.length) :
    (node id shape below).Occurs store outer found ↔
      ∃ child ∈ below, child.Occurs store ⟨outer.inside id shape, .plain⟩ found := by
  have slots : outer.below store id shape =
      shape.slots.map fun _ => ⟨outer.inside id shape, .plain⟩ := by
    cases shape <;> first | rfl | cases even
  have noName : ∀ text, shape ≠ .identifier text := by
    rintro text rfl
    cases even
  rw [occurs_node, slots]
  constructor
  · rintro (⟨text, same, -⟩ | ⟨inner, child, paired, occurs⟩)
    · exact absurd same (noName text)
    · obtain ⟨rfl, member⟩ := (mem_zip_const full).mp paired
      exact ⟨child, member, occurs⟩
  · rintro ⟨child, member, occurs⟩
    exact .inr ⟨_, child, (mem_zip_const full).mpr ⟨rfl, member⟩, occurs⟩

/-- The identifiers below a node that opens no scope stand in the scopes around it. -/
theorem occurs_clear (even : shape.isEven = true) (closed : shape.opens .plain = none)
    (full : shape.slots.length = below.length) :
    (node id shape below).Occurs store ⟨around, .plain⟩ found ↔
      ∃ child ∈ below, child.Occurs store ⟨around, .plain⟩ found := by
  have inside : Surroundings.inside ⟨around, .plain⟩ id shape = around := by
    rw [Surroundings.inside, closed]
  rw [occurs_even even full, inside]

section Middle
variable {first last : List Surroundings}

theorem occurs_middle (split : outer.below store id shape = first ++ inner :: last)
    (short : first.length = front.length) : (node id shape (front ++ child :: back)).Occurs store outer found ↔
      child.Occurs store inner found ∨ (∃ text, shape = .identifier text ∧ found = ⟨id, text, outer⟩) ∨
        ∃ inner other, ((inner, other) ∈ first.zip front ∨ (inner, other) ∈ last.zip back) ∧
          other.Occurs store inner found := by
  rw [occurs_node, split, List.zip_append short, List.zip_cons_cons]
  simp only [List.mem_append, List.mem_cons, Prod.mk.injEq]
  constructor
  · rintro (name | ⟨_, _, before | ⟨rfl, rfl⟩ | behind, occurs⟩)
    · exact .inr (.inl name)
    · exact .inr (.inr ⟨_, _, .inl before, occurs⟩)
    · exact .inl occurs
    · exact .inr (.inr ⟨_, _, .inr behind, occurs⟩)
  · rintro (occurs | name | ⟨_, _, before | behind, occurs⟩)
    · exact .inr ⟨_, _, .inr (.inl ⟨rfl, rfl⟩), occurs⟩
    · exact .inl name
    · exact .inr ⟨_, _, .inl before, occurs⟩
    · exact .inr ⟨_, _, .inr (.inr behind), occurs⟩

/-- A tree takes the place of the tree that it echoes. -/
theorem Echo.node (echo : Echo store bound quiet inner part new)
    (split : outer.below store id shape = first ++ inner :: last) (short : first.length = front.length)
    (same : changed.withSlots [] = shape.withSlots []) (full : changed.slots.length = shape.slots.length)
    (apart : ∀ home ∈ quiet, home ≠ id ∧ home ∉ outer.ids ∧ home ∉ namesAll front ∧ home ∉ namesAll back) :
    Echo store bound quiet outer (.node id shape (front ++ part :: back))
      (.node id changed (front ++ new :: back)) := by
  have splitNew : outer.below store id changed = first ++ inner :: last :=
    (Surroundings.below_congr same full).trans split
  have spelled {text : String} : changed = .identifier text ↔ shape = .identifier text :=
    ⟨fun is => Shape.eq_identifier_of_withSlots (same.symm.trans (congrArg (·.withSlots []) is)),
      fun is => Shape.eq_identifier_of_withSlots (same.trans (congrArg (·.withSlots []) is))⟩
  have still : ∀ found, ((∃ text, shape = .identifier text ∧ found = ⟨id, text, outer⟩) ∨
      ∃ inner other, ((inner, other) ∈ first.zip front ∨ (inner, other) ∈ last.zip back) ∧
        other.Occurs store inner found) → found.Echoes quiet found := by
    intro found either
    refine .refl fun home isQuiet named => ?_
    obtain ⟨noTop, outside, before, behind⟩ := apart home isQuiet
    rcases either with ⟨text, -, rfl⟩ | ⟨inner, other, paired, occurs⟩
    · exact outside (Surroundings.mem_ids_of_home? named)
    · have slot : inner ∈ outer.below store id shape := by
        rw [split]
        rcases paired with among | among
        · exact List.mem_append_left _ (List.of_mem_zip among).1
        · exact List.mem_append_right _ (List.mem_cons_of_mem _ (List.of_mem_zip among).1)
      rcases occurs.home_mem named with inside | around
      · rcases paired with among | among
        · exact before (mem_namesAll.mpr ⟨_, (List.of_mem_zip among).2, inside⟩)
        · exact behind (mem_namesAll.mpr ⟨_, (List.of_mem_zip among).2, inside⟩)
      · rcases List.mem_cons.mp (Surroundings.ids_below slot around) with rfl | further
        · exact noTop rfl
        · exact outside further
  constructor
  · intro found occurs
    rcases (occurs_middle split short).mp occurs with here | others
    · obtain ⟨other, there, echoes⟩ := echo.forth found here
      exact ⟨other, (occurs_middle splitNew short).mpr (.inl there), echoes⟩
    · refine ⟨found, (occurs_middle splitNew short).mpr (.inr ?_), still found others⟩
      simpa only [spelled] using others
  · intro other occurs
    rcases (occurs_middle splitNew short).mp occurs with here | others
    · rcases echo.back other here with ⟨found, there, echoes⟩ | fresh
      · exact .inl ⟨found, (occurs_middle split short).mpr (.inl there), echoes⟩
      · exact .inr fresh
    · simp only [spelled] at others
      exact .inl ⟨other, (occurs_middle split short).mpr (.inr others), still other others⟩

end Middle

/-- What a part of a tree echoes, the tree echoes. -/
theorem Placed.echo {before : Store} (placed : Placed part new tree remade) (holds : before.Holds tree)
    (held : store.Holds remade) (nodup : tree.names.Nodup) (distinct : remade.names.Nodup)
    (answered : tree.every store.answers = true) (answers : remade.every store.answers = true)
    (among : ∀ home ∈ quiet, home ∈ part.names ∨ home ∈ new.names) (hosts : outer.Hosts tree)
    (hosted : outer.Hosts remade)
    (base : ∀ outer : Surroundings, outer.Hosts part → outer.Hosts new → Echo store bound quiet outer part new) :
    Echo store bound quiet outer tree remade := by
  induction placed generalizing outer with
  | here => exact base outer hosts hosted
  | @deeper id shape changed front back whole result placed same ih =>
    have full := holds.length_slots
    have fullNew := held.length_slots
    obtain ⟨first, inner, last, split, short, rest⟩ : ∃ first inner last,
        outer.below store id shape = first ++ inner :: last ∧ first.length = front.length ∧
          last.length = back.length := Surroundings.exists_split full
    have lengths : changed.slots.length = shape.slots.length := by
      rw [full, fullNew, List.length_append, List.length_append, List.length_cons, List.length_cons]
    have splitNew : outer.below store id changed = first ++ inner :: last :=
      (Surroundings.below_congr same lengths).trans split
    obtain ⟨fits, inside⟩ := every_node.mp answered front whole back rfl
    obtain ⟨fitsNew, insideNew⟩ := every_node.mp answers front result back rfl
    have inOld : Within whole (.node id shape (front ++ whole :: back)) :=
      .deeper (List.mem_append_right _ List.mem_cons_self) .whole
    have inNew : Within result (.node id changed (front ++ result :: back)) :=
      .deeper (List.mem_append_right _ List.mem_cons_self) .whole
    have echoes : Echo store bound quiet inner whole result :=
      ih (holds.within inOld) (held.within inNew) (inOld.nodup nodup) (inNew.nodup distinct) inside insideNew
        (hosts.slot nodup split short rest fits) (hosted.slot distinct splitNew short rest fitsNew)
    refine echoes.node split short same lengths fun home isQuiet => ?_
    -- a quiet scope is opened in the part or in the new tree, and so nowhere else
    rcases among home isQuiet with old | new
    · exact hosts.apart_middle nodup (placed.within.names_subset old)
    · exact hosted.apart_middle distinct (placed.names_subset new)

/-- A tree echoes another wherever both may stand, but for scopes that are opened in one of them. -/
def EchoesAnywhere (store : Store) (bound : Nat) (part new : Tree) : Prop :=
  ∃ quiet, (∀ home ∈ quiet, home ∈ part.names ∨ home ∈ new.names) ∧ ∀ outer : Surroundings,
    outer.Hosts part → outer.Hosts new → Echo store bound quiet outer part new

theorem EchoesAnywhere.of_silent
    (both : ∀ outer : Surroundings, outer.Hosts part → Echo store bound [] outer part new) :
    EchoesAnywhere store bound part new :=
  ⟨[], List.forall_mem_nil _, fun outer hosts _ => both outer hosts⟩

theorem Placed.echoesAnywhere {before : Store} (placed : Placed part new tree remade) (holds : before.Holds tree)
    (held : store.Holds remade) (nodup : tree.names.Nodup) (distinct : remade.names.Nodup)
    (answered : tree.every store.answers = true) (answers : remade.every store.answers = true)
    (base : EchoesAnywhere store bound part new) : EchoesAnywhere store bound tree remade := by
  obtain ⟨quiet, among, base⟩ := base
  exact ⟨quiet, fun home isQuiet => (among home isQuiet).imp (placed.within.names_subset ·) (placed.names_subset ·),
    fun outer hosts hosted => placed.echo holds held nodup distinct answered answers among hosts hosted base⟩

/-! ### Programs -/

theorem sees_congr {later : Store}
    (same : ∀ home id, tree.Declares store name home id ↔ remade.Declares later name home id) :
    tree.Sees store name scopes id ↔ remade.Sees later name scopes id := by
  induction scopes with
  | nil => rfl
  | cons scope rest ih => simp only [Sees, same, ih]

namespace Echo

section Whole
variable (echo : Echo store bound quiet ⟨[], .program⟩ tree remade)
include echo

theorem declares_iff : tree.Declares store name home id ↔ remade.Declares store name home id := by
  constructor
  · rintro ⟨found, occurs, rfl, rfl, named⟩
    obtain ⟨other, there, echoes⟩ := echo.forth found occurs
    exact ⟨other, there, echoes.id.symm, echoes.text.symm, echoes.home.symm.trans named⟩
  · rintro ⟨other, occurs, rfl, rfl, named⟩
    rcases echo.back other occurs with ⟨found, there, echoes⟩ | ⟨-, none⟩
    · exact ⟨found, there, echoes.id, echoes.text, echoes.home.trans named⟩
    · rw [none] at named
      cases named

theorem silent : ∀ home ∈ quiet, ∀ id, ¬tree.Declares store name home id := by
  rintro home isQuiet id ⟨found, occurs, -, -, named⟩
  obtain ⟨other, -, echoes⟩ := echo.forth found occurs
  exact echoes.apart home isQuiet named

/-- From an identifier that stood in the program before, the same declarations can be seen. -/
theorem seen (name : String) (occurs : remade.Occurs store ⟨[], .program⟩ other) (old : other.id < bound) :
    ∃ found, tree.Occurs store ⟨[], .program⟩ found ∧ found.id = other.id ∧ found.text = other.text ∧
      ∀ id, tree.Sees store name found.outer.around id ↔ remade.Sees store name other.outer.around id := by
  rcases echo.back other occurs with ⟨found, there, echoes⟩ | ⟨fresh, -⟩
  · refine ⟨found, there, echoes.id, echoes.text, fun id => ?_⟩
    have loudly {scopes : List Surrounding} : remade.Sees store name scopes id ↔
        tree.Sees store name (loud quiet scopes) id := by
      rw [← sees_congr fun _ _ => echo.declares_iff, sees_loud echo.silent]
    rw [sees_loud echo.silent, echoes.around, loudly]
  · exact absurd old (Nat.not_lt_of_le fresh)

end Whole

end Echo

end Tree

end Echoes

end Unflatten
