import Unflatten.Proofs.Parser.Turning
import Unflatten.Proofs.Syntax.Making

/-! # What the parser builds

A step of the parser uses what is known of some slots and answers with slots of which more is known
(`Parser.Builds`): how deep the trees below them are at most, and that a name is an identifier, a
list of declarations holds declarations and the body of a function is a block.  What is known stays
true, since the store only grows. -/

set_option autoImplicit false

namespace Unflatten

/-- What some slots are made for. -/
inductive Nature where
  | name
  | declarator
  | block
  deriving DecidableEq, Repr

/-- What is known of a slot. -/
inductive Fact where
  | levels (level : Nat)
  | isA (nature : Nature)
  deriving DecidableEq, Repr

/-- A slot with something that is known of it. -/
abbrev Note := Slot × Fact

namespace Shape

/-- What a node can be used as. -/
def natures : Shape → List Nature
  | .identifier _ => [.name]
  | .declaration _ _ => [.declarator]
  | .block _ => [.block]
  | _ => []

/-- The slots that ask for nodes of one nature. -/
def demands : Shape → List (Slot × Nature)
  | .declarationList _ declarations => declarations.map fun slot => (slot, .declarator)
  | .declaration name _ => [(name, .name)]
  | .function _ name parameters body =>
    (name, .name) :: (body, .block) :: parameters.map fun slot => (slot, .name)
  | .catchClause name _ => [(name, .name)]
  | _ => []

end Shape

namespace Store
variable {store later : Store} {slot : Slot} {nature : Nature} {fact : Fact} {notes : List Note}

/-- A slot is empty or holds a node of a nature. -/
def HasNature (store : Store) (slot : Slot) (nature : Nature) : Prop :=
  ∀ id, slot = some id → ∃ shape, store.shape? (some id) = some shape ∧ nature ∈ shape.natures

/-- All slots that ask for nodes of one nature hold such nodes. -/
def IsProper (store : Store) : Prop :=
  ∀ id shape, store.shape? (some id) = some shape →
    ∀ demand ∈ shape.demands, store.HasNature demand.1 demand.2

/-- What is known of a slot is true. -/
def Bears (store : Store) (slot : Slot) : Fact → Prop
  | .levels level => store.IsShallow level slot
  | .isA nature => store.HasNature slot nature

/-- Everything that is known is true. -/
def Knows (store : Store) (notes : List Note) : Prop := ∀ note ∈ notes, store.Bears note.1 note.2

theorem hasNature_none : store.HasNature none nature := fun _ impossible => by cases impossible

theorem HasNature.carry (has : store.HasNature slot nature) (keeps : store.Keeps later) :
    later.HasNature slot nature := by
  intro id same
  obtain ⟨shape, found, member⟩ := has id same
  exact ⟨shape, keeps id shape found, member⟩

theorem Bears.carry (bears : store.Bears slot fact) (keeps : store.Keeps later) :
    later.Bears slot fact := by
  cases fact with
  | levels => exact IsShallow.carry bears keeps
  | isA => exact HasNature.carry bears keeps

theorem Knows.carry (knows : store.Knows notes) (keeps : store.Keeps later) : later.Knows notes :=
  fun note member => (knows note member).carry keeps

theorem bears_none : store.Bears none fact := by
  cases fact with
  | levels => exact .nothing
  | isA => exact hasNature_none

theorem IsProper.add (proper : store.IsProper) {shape : Shape}
    (suits : ∀ demand ∈ shape.demands, store.HasNature demand.1 demand.2) (flags : Flags)
    (start stop : Nat) : (store.add shape flags start stop).1.IsProper := by
  intro id found there demand member
  have keeps := keeps_add store shape flags start stop
  rw [shape?_add] at there
  split at there
  · cases there
    exact (suits demand member).carry keeps
  · exact (proper id found there demand member).carry keeps

theorem isProper_empty : Store.empty.IsProper := fun id shape found => by cases found

end Store

namespace Parser

def noted (fact : Fact) (slots : List Slot) : List Note := slots.map fun slot => (slot, fact)

@[simp] theorem mem_noted {fact other : Fact} {slot : Slot} {slots : List Slot} :
    (slot, other) ∈ noted fact slots ↔ slot ∈ slots ∧ other = fact := by
  simp only [noted, List.mem_map, Prod.mk.injEq]
  constructor
  · rintro ⟨found, member, rfl, rfl⟩
    exact ⟨member, rfl⟩
  · rintro ⟨member, rfl⟩
    exact ⟨slot, member, rfl, rfl⟩

/-- A slot with the levels below it. -/
abbrev upTo (level : Nat) (slot : Slot) : List Note := [(slot, .levels level)]

/-- A slot with the levels below it and its nature. -/
abbrev being (nature : Nature) (level : Nat) (slot : Slot) : List Note :=
  [(slot, .levels level), (slot, .isA nature)]

theorem noted_push {fact : Fact} {found : Array Slot} {slot : Slot} {known : List Note}
    (old : noted fact found.toList ⊆ known) (new : (slot, fact) ∈ known) :
    noted fact (found.push slot).toList ⊆ known := by
  rw [noted, Array.toList_push, List.map_append]
  exact List.append_subset.mpr ⟨old, List.cons_subset.mpr ⟨new, List.nil_subset _⟩⟩

/-- What is known of a new node. -/
def made (shape : Shape) (level : Nat) (slot : Slot) : List Note :=
  (slot, .levels (level + 1)) :: shape.natures.map fun nature => (slot, .isA nature)

/-- From what is known before a step follows what is known behind it. -/
def Builds {α : Type} (before : List Note) (step : Parser α) (after : α → List Note) : Prop :=
  ∀ state, state.store.IsProper → state.store.Knows before →
    state.store.Keeps (step state).2.store ∧ (step state).2.store.IsProper ∧
      (step state).2.store.Knows (after (step state).1)

section Steps
variable {α β σ : Type} {before held : List Note} {step : Parser α} {next : α → Parser β}
  {after : α → List Note} {final : β → List Note}

theorem Builds.bind (first : Builds before step after)
    (rest : ∀ value, Builds (before ++ after value) (next value) final) :
    Builds before (step >>= next) final := by
  intro state proper knows
  obtain ⟨keeps, proper', knows'⟩ := first state proper knows
  have all : (step state).2.store.Knows (before ++ after (step state).1) := fun note member =>
    (List.mem_append.mp member).elim (knows.carry keeps note) (knows' note)
  obtain ⟨keeps', proper'', knows''⟩ := rest (step state).1 (step state).2 proper' all
  exact ⟨keeps.trans keeps', proper'', knows''⟩

/-- Of an empty slot everything is known. -/
theorem Builds.given (builds : Builds before step after)
    (known : ∀ note ∈ before, note.1 = none ∨ note ∈ held) : Builds held step after := by
  refine fun state proper knows => builds state proper fun note member => ?_
  rcases known note member with empty | listed
  · rw [empty]
    exact Store.bears_none
  · exact knows note listed

theorem Builds.mono (builds : Builds before step after) (more : before ⊆ held) :
    Builds held step after :=
  builds.given fun _ member => .inr (more member)

theorem Builds.both {other : α → List Note} (one : Builds before step after)
    (two : Builds before step other) : Builds before step fun value => after value ++ other value := by
  intro state proper knows
  obtain ⟨keeps, proper', knows'⟩ := one state proper knows
  obtain ⟨-, -, also⟩ := two state proper knows
  exact ⟨keeps, proper', fun note member => (List.mem_append.mp member).elim (knows' note) (also note)⟩

theorem Builds.less {fewer : α → List Note} (builds : Builds before step after)
    (less : ∀ value, fewer value ⊆ after value) : Builds before step fewer := by
  intro state proper knows
  obtain ⟨keeps, proper', knows'⟩ := builds state proper knows
  exact ⟨keeps, proper', fun note member => knows' note (less _ member)⟩

/-- A step for which nothing need be known stands before others. -/
theorem Builds.andThen (first : Builds [] step after)
    (rest : ∀ value, Builds (before ++ after value) (next value) final) :
    Builds before (step >>= next) final :=
  (first.mono (List.nil_subset _)).bind rest

theorem builds_pure {value : α} (known : after value ⊆ before) : Builds before (pure value) after :=
  fun state proper knows =>
    ⟨.refl state.store, proper, fun note member => knows note (known member)⟩

theorem builds_none {after : Slot → List Note} (empty : ∀ note ∈ after none, note.1 = none) :
    Builds before (pure none) after := by
  refine fun state proper _ => ⟨.refl state.store, proper, fun note member => ?_⟩
  rw [empty note member]
  exact Store.bears_none

theorem IsSilent.builds (silent : IsSilent step) : Builds before step fun _ => before :=
  fun state proper knows => by
    rw [silent state]
    exact ⟨.refl state.store, proper, knows⟩

theorem IsSilent.first (silent : IsSilent step) (rest : ∀ value, Builds before (next value) final) :
    Builds before (step >>= next) final := by
  have nothing : Builds [] step fun _ => [] := silent.builds
  refine nothing.andThen fun value => ?_
  rw [List.append_nil]
  exact rest value

theorem Builds.ite {condition : Prop} [Decidable condition] {first second : Parser α}
    (one : Builds before first after) (two : Builds before second after) :
    Builds before (if condition then first else second) after := by
  split
  · exact one
  · exact two

theorem Builds.outsideHead (builds : Builds before step after) :
    Builds before (outsideHead step) after :=
  fun state => builds { state with inHead := false }

theorem Builds.insideHead (builds : Builds before step after) :
    Builds before (insideHead step) after :=
  fun state => builds { state with inHead := true }

theorem Builds.insideFunction (builds : Builds before step after) :
    Builds before (insideFunction step) after :=
  fun state => builds { state with inHead := false, inFunction := true }

theorem Builds.raise {step : Parser Slot} {level more : Nat}
    (builds : Builds before step (upTo level)) (fewer : level ≤ more) :
    Builds before step (upTo more) := by
  intro state proper knows
  obtain ⟨keeps, proper', knows'⟩ := builds state proper knows
  refine ⟨keeps, proper', fun note member => ?_⟩
  cases List.mem_singleton.mp member
  exact Store.IsShallow.mono (knows' _ List.mem_cons_self) fewer

/-- What each turn of a repetition keeps known is known in the end. -/
theorem builds_repeatStep (holding : σ → List Note) {step : σ → Parser (σ × Bool)}
    (each : ∀ value, Builds (before ++ holding value) (step value) fun turn => holding turn.1)
    (fuel : Nat) (value : σ) :
    Builds (before ++ holding value) (repeatStep step fuel value) holding := by
  induction fuel generalizing value with
  | zero => exact builds_pure (List.subset_append_right _ _)
  | succ fuel ih =>
    refine (each value).bind fun turn => .ite ?_ (builds_pure (List.subset_append_right _ _))
    refine (ih turn.1).mono fun note member => ?_
    rcases List.mem_append.mp member with old | new
    · exact List.mem_append_left _ (List.mem_append_left _ old)
    · exact List.mem_append_right _ new

theorem builds_repeatWhile (holding : σ → List Note) {initial : σ} {step : σ → Parser (σ × Bool)}
    (start : holding initial ⊆ before)
    (each : ∀ value, Builds (before ++ holding value) (step value) fun turn => holding turn.1) :
    Builds before (repeatWhile initial step) holding :=
  isSilent_limit.first fun fuel => (builds_repeatStep holding each fuel initial).mono <|
    List.append_subset.mpr ⟨List.Subset.refl _, start⟩

end Steps

/-! ## Nodes -/

/-- What must be known for a node of a shape. -/
structure Supports (before : List Note) (shape : Shape) (level : Nat) : Prop where
  linked : ∀ slot ∈ shape.linked, (slot, .levels (level + 1)) ∈ before
  enclosed : ∀ slot ∈ shape.enclosed, (slot, .levels level) ∈ before
  natures : ∀ demand ∈ shape.demands, (demand.1, .isA demand.2) ∈ before

section Nodes
variable {before : List Note} {shape : Shape} {level : Nat}

/-- A node that continues no chain and asks for nothing in particular. -/
theorem Supports.of_plain (linked : shape.linked = []) (demands : shape.demands = [])
    (enclosed : ∀ slot ∈ shape.enclosed, (slot, .levels level) ∈ before) :
    Supports before shape level :=
  ⟨by rw [linked]; exact List.forall_mem_nil _, enclosed, by rw [demands]; exact List.forall_mem_nil _⟩

theorem Supports.nodeAt (supports : Supports before shape level) (flags : Flags) (start stop : Nat) :
    Builds before (nodeAt shape flags start stop) (made shape level) := by
  intro state proper knows
  have keeps := Store.keeps_add state.store shape flags start stop
  have found : (state.store.add shape flags start stop).1.shape? (some state.store.nodes.size) =
      some shape := (Store.shape?_add state.store shape flags start stop _).trans (if_pos rfl)
  have nests : (state.store.add shape flags start stop).1.IsShallow (level + 1)
      (some state.store.nodes.size) := .node found
    (fun slot member => (knows _ (supports.linked slot member)).carry keeps)
    fun slot member => (knows _ (supports.enclosed slot member)).carry keeps
  refine ⟨keeps, proper.add (fun demand member => knows _ (supports.natures demand member)) flags start stop,
    fun note member => ?_⟩
  rcases List.mem_cons.mp member with rfl | listed
  · exact nests
  · obtain ⟨nature, among, rfl⟩ := List.mem_map.mp listed
    rintro id ⟨⟩
    exact ⟨shape, found, among⟩

theorem Supports.flagged (supports : Supports before shape level) (flags : Flags) (start : Nat) :
    Builds before (flagged shape flags start) (made shape level) :=
  isSilent_lastEnd.first fun stop => supports.nodeAt flags start stop

theorem Supports.node (supports : Supports before shape level) (start : Nat) :
    Builds before (node shape start) (made shape level) :=
  supports.flagged Flags.none start

theorem Supports.leveled (supports : Supports before shape level) (start : Nat) :
    Builds before (Parser.node shape start) (upTo (level + 1)) :=
  (supports.node start).less fun _ => List.cons_subset.mpr ⟨List.mem_cons_self, List.nil_subset _⟩

end Nodes

end Parser

end Unflatten
