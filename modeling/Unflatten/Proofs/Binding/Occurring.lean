import Unflatten.Proofs.Binding.Resolving
import Unflatten.Proofs.Syntax.Remaking

/-! # Where names occur

What a walk through a tree finds of names is where its identifiers stand (`Tree.Occurs`).  A name is
seen from a place if the innermost scope around it that has any declares it (`Tree.Sees`).  Scopes in
which nothing is declared are quiet: they may be put around a tree or taken away, and all that can be
seen is as before (`Tree.Occurs.alike`, `Tree.sees_loud`). -/

set_option autoImplicit false

namespace Unflatten

namespace Place

/-- The scope in which the name in a place is declared. -/
def home? : Place → Option NodeId
  | .name home => home
  | _ => none

/-- The scope that is settled for names in a place or below it. -/
def settled? : Place → Option NodeId
  | .name home | .declarator home => home
  | _ => none

end Place

/-- An identifier with what is around it. -/
structure Occurrence where
  id : NodeId
  text : String
  outer : Surroundings

/-- The scope in which an identifier declares its name. -/
def Occurrence.home? (found : Occurrence) : Option NodeId := found.outer.place.home?

namespace Tree

/-- An identifier stands in a tree that has something around it. -/
inductive Occurs (store : Store) : Surroundings → Tree → Occurrence → Prop
  | here {outer : Surroundings} {id : NodeId} {text : String} {below : List Tree} :
      Occurs store outer (.node id (.identifier text) below) ⟨id, text, outer⟩
  | deeper {outer inner : Surroundings} {id : NodeId} {shape : Shape} {below : List Tree}
      {child : Tree} {found : Occurrence}
      (paired : (inner, child) ∈ (outer.below store id shape).zip below)
      (occurs : Occurs store inner child found) : Occurs store outer (.node id shape below) found

/-- An identifier of a program declares a name in a scope. -/
def Declares (store : Store) (tree : Tree) (name : String) (home id : NodeId) : Prop :=
  ∃ found, tree.Occurs store ⟨[], .program⟩ found ∧ found.id = id ∧ found.text = name ∧
    found.home? = some home

/-- An identifier declares a name in the innermost of some scopes that has any declaration of it. -/
def Sees (store : Store) (tree : Tree) (name : String) : List Surrounding → NodeId → Prop
  | [], _ => False
  | scope :: rest, id => tree.Declares store name scope.opener id ∨
      (∀ other, ¬tree.Declares store name scope.opener other) ∧ tree.Sees store name rest id

section Occurs
variable {store later : Store} {tree child : Tree} {below : List Tree} {outer inner : Surroundings}
  {id home : NodeId} {shape : Shape} {found : Occurrence} {around : List Surrounding}

theorem occurs_nothing : ¬nothing.Occurs store outer found := fun occurs => by cases occurs

theorem occurs_node : (node id shape below).Occurs store outer found ↔
    (∃ text, shape = .identifier text ∧ found = ⟨id, text, outer⟩) ∨
      ∃ inner child, (inner, child) ∈ (outer.below store id shape).zip below ∧
        child.Occurs store inner found := by
  constructor
  · intro occurs
    cases occurs with
    | here => exact .inl ⟨_, rfl, rfl⟩
    | deeper paired occurs => exact .inr ⟨_, _, paired, occurs⟩
  · rintro (⟨text, rfl, rfl⟩ | ⟨inner, child, paired, occurs⟩)
    · exact .here
    · exact .deeper paired occurs

theorem mem_zip_const {α : Type} {items : List α} {given : Surroundings}
    (same : items.length = below.length) :
    (inner, child) ∈ (items.map fun _ => given).zip below ↔ inner = given ∧ child ∈ below := by
  induction items generalizing below with
  | nil =>
    cases below with
    | nil => simp
    | cons => cases same
  | cons item items ih =>
    cases below with
    | nil => cases same
    | cons first rest =>
      rw [List.map_cons, List.zip_cons_cons, List.mem_cons, ih (Nat.succ.inj same), List.mem_cons,
        Prod.mk.injEq]
      tauto

theorem Occurs.mem_names (occurs : tree.Occurs store outer found) : found.id ∈ tree.names := by
  induction occurs with
  | here => exact List.mem_cons_self
  | deeper paired _ ih =>
    exact List.mem_cons_of_mem _ (mem_namesAll.mpr ⟨_, (List.of_mem_zip paired).2, ih⟩)

theorem Occurs.identifier? (occurs : tree.Occurs store outer found) (holds : later.Holds tree) :
    later.identifier? (some found.id) = some found.text := by
  induction occurs with
  | here => rw [Store.identifier?, holds.shape?_node]
  | deeper paired _ ih => exact ih (holds.within (.deeper (List.of_mem_zip paired).2 .whole))

/-- What is below a node depends on its marks and not on the rest of the store. -/
theorem Occurs.marked (occurs : tree.Occurs store outer found)
    (same : ∀ id ∈ tree.names, later.flags (some id) = store.flags (some id)) :
    tree.Occurs later outer found := by
  induction occurs with
  | here => exact .here
  | @deeper outer inner id shape below child found paired _ ih =>
    have again : (inner, child) ∈ (outer.below later id shape).zip below := by
      have marks := same id List.mem_cons_self
      cases shape
      case declarationList => simpa only [Surroundings.below, marks] using paired
      all_goals exact paired
    exact .deeper again (ih fun name inside =>
      same name (List.mem_cons_of_mem _ (mem_namesAll.mpr ⟨_, (List.of_mem_zip paired).2, inside⟩)))

theorem occurs_marked (same : ∀ id ∈ tree.names, later.flags (some id) = store.flags (some id)) :
    tree.Occurs store outer found ↔ tree.Occurs later outer found :=
  ⟨fun occurs => occurs.marked same, fun occurs => occurs.marked fun id inside => (same id inside).symm⟩

theorem declares_marked {name : String} (same : ∀ id ∈ tree.names, later.flags (some id) = store.flags (some id)) :
    tree.Declares store name home id ↔ tree.Declares later name home id := by
  simp only [Declares, occurs_marked same]

theorem sees_mem_visit : .sees id around ∈ tree.visit store outer ↔
    ∃ found, tree.Occurs store outer found ∧ found.id = id ∧ found.outer.around = around := by
  induction tree generalizing outer with
  | nothing =>
    refine ⟨fun member => (List.not_mem_nil member).elim, ?_⟩
    rintro ⟨found, occurs, -⟩
    exact absurd occurs occurs_nothing
  | node top shape below ih =>
    rw [mem_visit_node]
    constructor
    · rintro (here | ⟨⟨inner, child⟩, paired, member⟩)
      · obtain ⟨rfl, rfl, -⟩ := Surroundings.sees_mem_entries here
        cases shape
        case identifier text => exact ⟨_, .here, rfl, rfl⟩
        all_goals simp [Surroundings.entries] at here
      · obtain ⟨found, occurs, same⟩ := (ih child (List.of_mem_zip paired).2).mp member
        exact ⟨found, .deeper paired occurs, same⟩
    · rintro ⟨found, occurs, rfl, rfl⟩
      cases occurs with
      | here => exact .inl List.mem_cons_self
      | deeper paired occurs =>
        exact .inr ⟨_, paired, (ih _ (List.of_mem_zip paired).2).mpr ⟨_, occurs, rfl, rfl⟩⟩

theorem declares_mem_visit : .declares id home ∈ tree.visit store outer ↔
    ∃ found, tree.Occurs store outer found ∧ found.id = id ∧ found.home? = some home := by
  induction tree generalizing outer with
  | nothing =>
    refine ⟨fun member => (List.not_mem_nil member).elim, ?_⟩
    rintro ⟨found, occurs, -⟩
    exact absurd occurs occurs_nothing
  | node top shape below ih =>
    rw [mem_visit_node]
    constructor
    · rintro (here | ⟨⟨inner, child⟩, paired, member⟩)
      · obtain ⟨rfl, place⟩ := Surroundings.declares_mem_entries here
        cases shape
        case identifier text => exact ⟨_, .here, rfl, congrArg Place.home? place⟩
        all_goals simp [Surroundings.entries] at here
      · obtain ⟨found, occurs, same⟩ := (ih child (List.of_mem_zip paired).2).mp member
        exact ⟨found, .deeper paired occurs, same⟩
    · rintro ⟨found, occurs, rfl, named⟩
      cases occurs with
      | @here _ _ text =>
        refine .inl ?_
        have place : outer.place = .name (some home) := by
          unfold Occurrence.home? Place.home? at named
          split at named
          · rename_i same
            exact same.trans (congrArg Place.name named)
          · cases named
        simp [Surroundings.entries, place]
      | deeper paired occurs =>
        exact .inr ⟨_, paired, (ih _ (List.of_mem_zip paired).2).mpr ⟨_, occurs, rfl, named⟩⟩

end Occurs

end Tree

namespace Store
variable {store : Store} {root : NodeId} {tree : Tree} {name : String} {home id : NodeId}
  {around : List Surrounding}

theorem Stands.mem_declaredIn (stands : store.Stands root tree) :
    id ∈ store.declaredIn (store.scopeEntries root) name home ↔ tree.Declares store name home id := by
  rw [Unflatten.mem_declaredIn, stands.scopeEntries_eq, Tree.declares_mem_visit]
  constructor
  · rintro ⟨⟨found, occurs, rfl, named⟩, spelled⟩
    exact ⟨found, occurs, rfl, Option.some.inj ((occurs.identifier? stands.holds).symm.trans spelled), named⟩
  · rintro ⟨found, occurs, rfl, rfl, named⟩
    exact ⟨⟨found, occurs, rfl, named⟩, occurs.identifier? stands.holds⟩

theorem Stands.mem_declarationsSeen (stands : store.Stands root tree) :
    id ∈ store.declarationsSeen (store.scopeEntries root) name around ↔ tree.Sees store name around id := by
  induction around with
  | nil => exact iff_of_false List.not_mem_nil fun sees => sees
  | cons scope rest ih =>
    rw [declarationsSeen, Tree.Sees]
    split
    · rename_i empty
      rw [ih]
      have none : ∀ other, ¬tree.Declares store name scope.opener other := fun other declares =>
        List.not_mem_nil (empty ▸ stands.mem_declaredIn.mpr declares)
      exact ⟨fun sees => .inr ⟨none, sees⟩, fun either => (either.resolve_left (none id)).2⟩
    · rename_i nonempty
      rw [stands.mem_declaredIn]
      refine ⟨.inl, fun either => either.resolve_right ?_⟩
      rintro ⟨nothing, -⟩
      exact nonempty (List.eq_nil_iff_forall_not_mem.mpr fun other member =>
        nothing other (stands.mem_declaredIn.mp member))

end Store

/-! ## Quiet scopes -/

/-- The scopes that are not among some. -/
def loud (quiet : List NodeId) (around : List Surrounding) : List Surrounding :=
  around.filter fun scope => !quiet.contains scope.opener

/-- Two scopes are the same unless one is quiet. -/
def HomesAlike (quiet : List NodeId) (first second : Option NodeId) : Prop :=
  first = second ∨ (∃ home ∈ quiet, first = some home) ∨ ∃ home ∈ quiet, second = some home

/-- Two places are for the same, but for quiet scopes. -/
inductive Place.Alike (quiet : List NodeId) : Place → Place → Prop
  | plain : Alike quiet .plain .plain
  | program : Alike quiet .program .program
  | body : Alike quiet .body .body
  | declarator {first second : Option NodeId} (homes : HomesAlike quiet first second) :
      Alike quiet (.declarator first) (.declarator second)
  | name {first second : Option NodeId} (homes : HomesAlike quiet first second) :
      Alike quiet (.name first) (.name second)

/-- Two places have the same around them, but for quiet scopes. -/
structure Surroundings.Alike (quiet : List NodeId) (first second : Surroundings) : Prop where
  around : loud quiet first.around = loud quiet second.around
  place : first.place.Alike quiet second.place

section Quiet
variable {store : Store} {quiet : List NodeId} {tree child : Tree} {first second outer other inner : Surroundings}
  {around around' : List Surrounding} {scope : Surrounding} {id : NodeId} {shape : Shape} {name : String}
  {found : Occurrence}

theorem loud_cons_of_mem (isQuiet : scope.opener ∈ quiet) : loud quiet (scope :: around) = loud quiet around := by
  rw [loud, List.filter_cons_of_neg (by simpa using isQuiet)]
  rfl

theorem loud_cons_congr (same : loud quiet around = loud quiet around') :
    loud quiet (scope :: around) = loud quiet (scope :: around') := by
  unfold loud at same ⊢
  rw [List.filter_cons, List.filter_cons, same]

/-- Quiet scopes do not count for what can be seen. -/
theorem Tree.sees_loud (silent : ∀ home ∈ quiet, ∀ id, ¬tree.Declares store name home id) :
    tree.Sees store name around id ↔ tree.Sees store name (loud quiet around) id := by
  induction around with
  | nil => rfl
  | cons scope rest ih =>
    by_cases isQuiet : scope.opener ∈ quiet
    · rw [loud_cons_of_mem isQuiet, ← ih, Tree.Sees]
      have none := silent scope.opener isQuiet
      exact ⟨fun either => (either.resolve_left (none id)).2, fun sees => .inr ⟨none, sees⟩⟩
    · rw [loud, List.filter_cons_of_pos (by simpa using isQuiet), Tree.Sees, Tree.Sees, ih]
      rfl

theorem HomesAlike.refl (quiet : List NodeId) (home : Option NodeId) : HomesAlike quiet home home := .inl rfl

theorem HomesAlike.eq {home home' : Option NodeId} (homes : HomesAlike quiet home home')
    (apart : ∀ scope ∈ quiet, home ≠ some scope) (apart' : ∀ scope ∈ quiet, home' ≠ some scope) :
    home = home' := by
  rcases homes with same | ⟨scope, member, same⟩ | ⟨scope, member, same⟩
  · exact same
  · exact absurd same (apart scope member)
  · exact absurd same (apart' scope member)

theorem Place.Alike.refl (place : Place) : place.Alike quiet place := by
  cases place
  case plain => exact .plain
  case program => exact .program
  case body => exact .body
  case declarator => exact .declarator (.refl _ _)
  case name => exact .name (.refl _ _)

/-- Of two lists with the same loud scopes the first scopes that pass a test are the same, unless one of
them is quiet or comes before the other only because of quiet ones. -/
theorem find?_alike (same : loud quiet around = loud quiet around') (test : Surrounding → Bool) :
    HomesAlike quiet ((around.find? test).map Surrounding.opener)
        ((around'.find? test).map Surrounding.opener) ∧
      ((around.find? test).isSome = true → (around'.find? test).isSome = true ∨
        ∃ home ∈ quiet, (around.find? test).map Surrounding.opener = some home) := by
  have inside (list : List Surrounding) : (∃ home ∈ quiet,
      (list.find? test).map Surrounding.opener = some home) ∨
        list.find? test = (loud quiet list).find? test := by
    induction list with
    | nil => exact .inr rfl
    | cons scope rest ih =>
      by_cases passes : test scope = true
      · rw [List.find?_cons_of_pos passes]
        by_cases isQuiet : scope.opener ∈ quiet
        · exact .inl ⟨_, isQuiet, rfl⟩
        · rw [loud, List.filter_cons_of_pos (by simpa using isQuiet), List.find?_cons_of_pos passes]
          exact .inr rfl
      · rw [List.find?_cons_of_neg passes]
        refine ih.imp_right fun same => same.trans ?_
        by_cases isQuiet : scope.opener ∈ quiet
        · rw [loud_cons_of_mem isQuiet]
        · rw [loud, loud, List.filter_cons_of_pos (by simpa using isQuiet), List.find?_cons_of_neg passes]
  rcases inside around with isQuiet | first
  · exact ⟨.inr (.inl isQuiet), fun _ => .inr isQuiet⟩
  · rcases inside around' with isQuiet | second
    · refine ⟨.inr (.inr isQuiet), fun _ => .inl ?_⟩
      obtain ⟨home, -, found⟩ := isQuiet
      obtain ⟨scope, there, -⟩ := Option.map_eq_some_iff.mp found
      rw [there]
      rfl
    · rw [first, second, same]
      exact ⟨.refl _ _, .inl⟩

theorem nearestHome_alike (same : loud quiet around = loud quiet around') :
    HomesAlike quiet (nearestHome around) (nearestHome around') := by
  have any (list : List Surrounding) : nearestHome list =
      (list.find? fun _ => true).map Surrounding.opener := by
    cases list <;> rfl
  rw [any, any]
  exact (find?_alike same _).1

theorem hoistingHome_alike (same : loud quiet around = loud quiet around') :
    HomesAlike quiet (hoistingHome around) (hoistingHome around') := by
  have split (list : List Surrounding) : hoistingHome list =
      ((list.find? Surrounding.hoists).map Surrounding.opener).or (nearestHome list) := by
    unfold hoistingHome nearestHome
    cases list.find? Surrounding.hoists <;> rfl
  obtain ⟨homes, there⟩ := find?_alike same Surrounding.hoists
  obtain ⟨-, back⟩ := find?_alike same.symm Surrounding.hoists
  rw [split, split]
  cases first : around.find? Surrounding.hoists with
  | some scope =>
    rw [first] at homes there
    rcases there rfl with some | isQuiet
    · obtain ⟨other, second⟩ := Option.isSome_iff_exists.mp some
      rw [second] at homes ⊢
      exact homes
    · exact .inr (.inl isQuiet)
  | none =>
    cases second : around'.find? Surrounding.hoists with
    | some scope =>
      rw [second, first] at back
      rcases back rfl with impossible | isQuiet
      · cases impossible
      · exact .inr (.inr isQuiet)
    | none => exact nearestHome_alike same

/-- Alike places are alike for the slots of a node. -/
theorem Surroundings.Alike.below (alike : first.Alike quiet second) :
    List.Forall₂ (Surroundings.Alike quiet) (first.below store id shape) (second.below store id shape) := by
  obtain ⟨around, place⟩ := first
  obtain ⟨around', place'⟩ := second
  obtain ⟨same, places⟩ := alike
  have opens : shape.opens place = shape.opens place' := by
    cases places <;> rfl
  have inside : loud quiet (Surroundings.inside ⟨around, place⟩ id shape) =
      loud quiet (Surroundings.inside ⟨around', place'⟩ id shape) := by
    simp only [Surroundings.inside, opens]
    split
    · exact loud_cons_congr same
    · exact same
  have each {inner inner' : Place} (homes : inner.Alike quiet inner') {α : Type} (items : List α) :
      List.Forall₂ (Surroundings.Alike quiet)
        (items.map fun _ => ⟨Surroundings.inside ⟨around, place⟩ id shape, inner⟩)
        (items.map fun _ => ⟨Surroundings.inside ⟨around', place'⟩ id shape, inner'⟩) := by
    induction items with
    | nil => exact .nil
    | cons _ _ ih => exact .cons ⟨inside, homes⟩ ih
  cases shape
  case function isExpression name parameters body =>
    refine .cons ⟨inside, .name ?_⟩ (List.rel_append (each (.refl _) parameters) (.cons ⟨inside, .body⟩ .nil))
    cases isExpression with
    | true => exact .refl _ _
    | false => exact hoistingHome_alike same
  case declarationList isStatement declarations =>
    refine each (.declarator ?_) declarations
    split
    · exact nearestHome_alike inside
    · exact hoistingHome_alike inside
  case declaration name initializer =>
    refine .cons ⟨inside, ?_⟩ (.cons ⟨inside, .plain⟩ .nil)
    cases places with
    | declarator homes => exact .name homes
    | _ => exact .plain
  case catchClause name body => exact .cons ⟨inside, .refl _⟩ (.cons ⟨inside, .plain⟩ .nil)
  case switch discriminant clauses =>
    exact .cons ⟨loud_cons_congr same, .plain⟩ (each .plain clauses)
  all_goals exact each .plain _

theorem exists_zip_of_forall₂ {related : Surroundings → Surroundings → Prop} {xs ys : List Surroundings}
    {trees : List Tree} (all : List.Forall₂ related xs ys) (paired : (inner, child) ∈ xs.zip trees) :
    ∃ inner', (inner', child) ∈ ys.zip trees ∧ related inner inner' := by
  induction all generalizing trees with
  | nil => cases paired
  | cons first _ ih =>
    cases trees with
    | nil => cases paired
    | cons tree rest =>
      rw [List.zip_cons_cons, List.mem_cons] at paired
      rcases paired with same | later
      · cases same
        exact ⟨_, List.mem_cons_self, first⟩
      · obtain ⟨inner', paired, also⟩ := ih later
        exact ⟨inner', List.mem_cons_of_mem _ paired, also⟩

/-- An identifier of a tree occurs in every place that is alike. -/
theorem Tree.Occurs.alike (occurs : tree.Occurs store outer found) (alike : outer.Alike quiet other) :
    ∃ found', tree.Occurs store other found' ∧ found'.id = found.id ∧ found'.text = found.text ∧
      found.outer.Alike quiet found'.outer := by
  induction occurs generalizing other with
  | here => exact ⟨_, .here, rfl, rfl, alike⟩
  | deeper paired _ ih =>
    obtain ⟨inner', paired, also⟩ := exists_zip_of_forall₂ alike.below paired
    obtain ⟨found', occurs, same⟩ := ih also
    exact ⟨found', .deeper paired occurs, same⟩

end Quiet

end Unflatten
