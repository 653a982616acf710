import Unflatten.Evaluation.Value
import Unflatten.Proofs.Execution.Leaving

/-! # What is seen of the things done

Not everything that is done matters to what is done later.  A `View` says what others see of a thing,
and which value it gives to a key.  In a world that is blind to the rest (`View.IsBlind`), the same
statements do the same from any two states that look alike (`runAll_alike`). -/

set_option autoImplicit false

namespace Unflatten.Execution

/-- How the things done are looked at. -/
structure View where
  /-- What others see of a thing. -/
  seen : Tree → Option Tree
  /-- The value that a thing gives to the key. -/
  gives : Tree → Option Value

namespace View

/-- What is seen of some things, last things first. -/
def sight (view : View) (log : List Tree) : List Tree := log.filterMap view.seen

/-- The value of the key after some things. -/
def value (view : View) (log : List Tree) : Value := (log.findSome? view.gives).getD .undefined

/-- Two states cannot be told apart, unless by the key. -/
structure LooksLike (view : View) (state other : State) : Prop where
  sight : view.sight state.log = view.sight other.log
  updates : state.updates = other.updates

/-- Two states cannot be told apart. -/
structure Agrees (view : View) (state other : State) : Prop extends view.LooksLike state other where
  value : view.value state.log = view.value other.log

/-- What a world answers depends on what is seen and on the value of the key. -/
structure IsBlind (view : View) (world : World) : Prop where
  throws : ∀ {state other : State}, view.Agrees state other →
    world.throws state.log = world.throws other.log
  holds : ∀ {state other : State}, view.Agrees state other →
    world.holds state.log = world.holds other.log
  known : ∀ {state other : State}, view.Agrees state other →
    world.known? state.log = world.known? other.log

/-- Nobody sees that a thing was done. -/
structure IsIdle (view : View) (world : World) (tree : Tree) : Prop where
  update : world.update? tree = none
  throws : ∀ log, world.throws log tree = false
  seen : view.seen tree = none

/-- Two things do the same. -/
structure DoesAlike (view : View) (world : World) (tree other : Tree) : Prop where
  update : world.update? tree = world.update? other
  throws : ∀ log, world.throws log tree = world.throws log other
  seen : view.seen tree = view.seen other
  gives : view.gives tree = view.gives other

/-- Two behaviours end alike, and leave states alike that cannot be told apart. -/
def Alike (view : View) (first second : Behaviour) : Prop :=
  ∀ ⦃state other : State⦄, view.Agrees state other →
    (first state).1 = (second other).1 ∧ view.Agrees (first state).2 (second other).2

/-- Two runs end alike, and nobody but the key can tell them apart. -/
structure EndsLike (view : View) (first second : Completion × State) : Prop where
  same : first.1 = second.1
  looks : view.LooksLike first.2 second.2

section Agrees
variable {view : View} {world : World} {state other third : State} {tree with_ : Tree} {log : List Tree}

theorem value_cons (view : View) (tree : Tree) (log : List Tree) :
    view.value (tree :: log) = (view.gives tree).getD (view.value log) := by
  unfold value
  rw [List.findSome?_cons]
  cases view.gives tree <;> rfl

theorem LooksLike.refl (view : View) (state : State) : view.LooksLike state state := ⟨rfl, rfl⟩

theorem Agrees.refl (view : View) (state : State) : view.Agrees state state := ⟨.refl view state, rfl⟩

theorem LooksLike.trans (first : view.LooksLike state other) (second : view.LooksLike other third) :
    view.LooksLike state third :=
  ⟨first.sight.trans second.sight, first.updates.trans second.updates⟩

theorem Agrees.trans (first : view.Agrees state other) (second : view.Agrees other third) :
    view.Agrees state third :=
  ⟨first.toLooksLike.trans second.toLooksLike, first.value.trans second.value⟩

/-- Two things that look the same are done. -/
theorem LooksLike.cons (looks : view.LooksLike state other) (seen : view.seen tree = view.seen with_) :
    view.LooksLike { state with log := tree :: state.log } { other with log := with_ :: other.log } := by
  refine ⟨?_, looks.updates⟩
  unfold View.sight
  rw [List.filterMap_cons, List.filterMap_cons, ← seen,
    show state.log.filterMap view.seen = other.log.filterMap view.seen from looks.sight]

theorem Agrees.cons (agrees : view.Agrees state other) (seen : view.seen tree = view.seen with_)
    (gives : view.gives tree = view.gives with_) :
    view.Agrees { state with log := tree :: state.log } { other with log := with_ :: other.log } :=
  ⟨agrees.toLooksLike.cons seen, by rw [value_cons, value_cons, gives, agrees.value]⟩

/-- A thing that nobody sees was done. -/
theorem LooksLike.aside (state : State) (unseen : view.seen tree = none) :
    view.LooksLike { state with log := tree :: state.log } state :=
  ⟨by rw [View.sight, List.filterMap_cons, unseen]; rfl, rfl⟩

theorem Agrees.aside (state : State) (unseen : view.seen tree = none) (gives : view.gives tree = none) :
    view.Agrees { state with log := tree :: state.log } state :=
  ⟨.aside state unseen, by rw [value_cons, gives]; rfl⟩

theorem DoesAlike.refl (view : View) (world : World) (tree : Tree) : view.DoesAlike world tree tree :=
  ⟨rfl, fun _ => rfl, rfl, rfl⟩

/-- A thing that nobody sees ends normally. -/
theorem IsIdle.note (idle : view.IsIdle world tree.bare) (state : State) :
    world.note tree state = (.normal, { state with log := tree.bare :: state.log }) := by
  rw [World.note, idle.update, idle.throws]
  rfl

end Agrees

section Alike
variable {view : View} {world : World} {limit : Nat} {first first' second second' : Behaviour}
  {state other : State}

theorem Alike.andThen {next next' : Completion → Behaviour} (one : view.Alike first first')
    (two : ∀ completion, view.Alike (next completion) (next' completion)) :
    view.Alike (andThen first next) (andThen first' next') := by
  intro state other agrees
  obtain ⟨same, after⟩ := one agrees
  unfold Execution.andThen
  split
  · rename_i here
    rw [here] at same after
    split
    · rename_i there
      rw [there] at after
      exact ⟨rfl, after⟩
    · rename_i bounded there
      rw [there] at same
      exact absurd same.symm bounded
  · rename_i bounded here
    rw [here] at same after
    split
    · rename_i there
      rw [there] at same
      exact absurd same bounded
    · rename_i there
      rw [there] at same after
      cases same
      exact two _ after

theorem IsBlind.note (blind : view.IsBlind world) {tree with_ : Tree}
    (alike : view.DoesAlike world tree.bare with_.bare) :
    view.Alike (world.note tree) (world.note with_) := by
  intro state other agrees
  unfold World.note
  rw [← alike.update]
  split
  · rename_i value _
    exact ⟨rfl, ⟨agrees.sight, congrArg (value :: ·) agrees.updates⟩, agrees.value⟩
  · refine ⟨?_, agrees.cons alike.seen alike.gives⟩
    simp only [blind.throws agrees, alike.throws]

theorem IsBlind.ask (blind : view.IsBlind world) (tree : Tree) {next next' : Bool → Behaviour}
    (each : ∀ holds, view.Alike (next holds) (next' holds)) :
    view.Alike (world.ask tree next) (world.ask tree next') := by
  intro state other agrees
  unfold World.ask
  have after : view.Agrees { state with log := tree.bare :: state.log }
      { other with log := tree.bare :: other.log } := agrees.cons rfl rfl
  simp only [blind.throws agrees, blind.holds agrees]
  split
  · exact ⟨rfl, after⟩
  · exact each _ after

/-- All ways to make behaviours respect what is seen. -/
theorem IsBlind.congruence (blind : view.IsBlind world) :
    Congruence world (fun _ => True) fun first second => view.Alike first second where
  done _ := fun _ _ agrees => ⟨rfl, agrees⟩
  note _ _ := blind.note (.refl view world _)
  ask each := blind.ask _ each
  known tree _ _ each := by
    intro state other agrees
    simp only [blind.known agrees]
    exact each _ agrees
  andThen one two := Alike.andThen one two

theorem IsBlind.runAll_alike (blind : view.IsBlind world) (trees : List Tree) :
    view.Alike (runAll world limit trees) (runAll world limit trees) := by
  have related : view.Alike (runAll world limit trees) (runAll world limit (trees.map Tree.bare)) :=
    blind.congruence.runAll fun tree (_ : tree ∈ trees) =>
      (blind.congruence.run_bare (.inl rfl) tree fun _ _ => trivial).1
  rwa [runAll_bare] at related

/-- A test throws in both of two states, or has one outcome in both. -/
theorem IsBlind.test_cases (blind : view.IsBlind world) (tree : Tree) (agrees : view.Agrees state other) :
    ∃ after after', view.Agrees after after' ∧
      ((∀ next, test world tree next state = (.throws, after) ∧
          test world tree next other = (.throws, after')) ∨
        ∃ holds, ∀ next, test world tree next state = next holds after ∧
          test world tree next other = next holds after') := by
  induction tree with
  | nothing => exact ⟨state, other, agrees, .inr ⟨true, fun _ => ⟨rfl, rfl⟩⟩⟩
  | node id shape below ih =>
    have asked : ∃ after after', view.Agrees after after' ∧
        ((∀ next, world.ask (.node id shape below) next state = (.throws, after) ∧
            world.ask (.node id shape below) next other = (.throws, after')) ∨
          ∃ holds, ∀ next, world.ask (.node id shape below) next state = next holds after ∧
            world.ask (.node id shape below) next other = next holds after') := by
      have after : view.Agrees { state with log := (Tree.node id shape below).bare :: state.log }
          { other with log := (Tree.node id shape below).bare :: other.log } := agrees.cons rfl rfl
      refine ⟨_, _, after, ?_⟩
      unfold World.ask
      simp only [blind.throws agrees, blind.holds agrees]
      split
      · exact .inl fun _ => ⟨rfl, rfl⟩
      · exact .inr ⟨_, fun _ => ⟨rfl, rfl⟩⟩
    cases shape
    case unary after operator operand =>
      cases operator
      case exclamation =>
        rcases below with _ | ⟨only, _ | ⟨another, rest⟩⟩
        · exact asked
        · obtain ⟨after, after', same, outcome⟩ := ih only List.mem_cons_self
          refine ⟨after, after', same, outcome.imp (fun throws next => throws _) ?_⟩
          rintro ⟨holds, goes⟩
          exact ⟨!holds, fun next => goes fun holds => next !holds⟩
        · exact asked
      all_goals exact asked
    all_goals exact asked

end Alike

end View

end Unflatten.Execution
