import Unflatten.Proofs.Syntax.Copying

/-! # Behaviours

A `Behaviour` takes the things done so far to a completion and the things done then.  What
a statement or a test does is left to a `World`: whether it throws and whether it holds may
depend on all that was done before.  A world may know the value of an expression without
running it, and it may take an assignment for an update of the key, which is noted on its
own.

A loop is run a bounded number of times, and a run that reaches the bound is pending.  A
behaviour `Approximates` another if it does the same or is pending on the way there. -/

set_option autoImplicit false

namespace Unflatten.Execution

/-- How a statement ends. -/
inductive Completion where
  | normal
  | breaks (label : Option String)
  | continues (label : Option String)
  | returns
  | throws
  /-- A bound was reached. -/
  | pending
  deriving DecidableEq, Repr

/-- What was done, last things first: the statements and tests without their names, and the
values given to the key, where none stands for `undefined`. -/
structure State where
  log : List Tree
  updates : List (Option Int)

/-- What statements and tests do. -/
structure World where
  throws : List Tree → Tree → Bool
  holds : List Tree → Tree → Bool
  known? : List Tree → Tree → Option Int
  update? : Tree → Option (Option Int)

/-- What is done from a state on. -/
abbrev Behaviour := State → Completion × State

/-- Ends at once. -/
def done (completion : Completion) : Behaviour := fun state => (completion, state)

/-- Goes on as a completion asks, unless the bound was reached. -/
def andThen (first : Behaviour) (next : Completion → Behaviour) : Behaviour := fun state =>
  match first state with
  | (.pending, state) => (.pending, state)
  | (completion, state) => next completion state

/-- One behaviour and, if it ends normally, another. -/
def seq (first second : Behaviour) : Behaviour :=
  andThen first fun completion => if completion = .normal then second else done completion

namespace World

/-- Does a thing: an update of the key is noted as such, anything else may throw. -/
def note (world : World) (tree : Tree) : Behaviour := fun state =>
  match world.update? tree.bare with
  | some value => (.normal, { state with updates := value :: state.updates })
  | none =>
    (if world.throws state.log tree.bare then .throws else .normal,
      { state with log := tree.bare :: state.log })

/-- Runs a test and goes on with its outcome. -/
def ask (world : World) (tree : Tree) (next : Bool → Behaviour) : Behaviour := fun state =>
  let after : State := { state with log := tree.bare :: state.log }
  if world.throws state.log tree.bare then (.throws, after)
  else next (world.holds state.log tree.bare) after

end World

namespace Completion

/-- A `break` leaves the statement that it stands in. -/
def leave : Completion → Completion
  | .breaks none => .normal
  | completion => completion

/-- Whether a loop with some labels goes on behind its body. -/
def goesOn (labels : List String) : Completion → Bool
  | .normal | .continues none => true
  | .continues (some label) => labels.contains label
  | _ => false

end Completion

/-- Tests, and runs a body as long as the test holds. -/
def cycle (test : (Bool → Behaviour) → Behaviour) (labels : List String) (body update : Behaviour) :
    (limit : Nat) → Behaviour
  | 0 => done .pending
  | limit + 1 => test fun holds =>
    if holds then
      andThen body fun completion =>
        if completion.goesOn labels then seq update (cycle test labels body update limit)
        else done completion.leave
    else done .normal

/-! ## Approximation -/

/-- One outcome is another or is pending on the way there. -/
def Below (first second : Completion × State) : Prop :=
  first = second ∨ first.1 = .pending ∧ first.2.log <:+ second.2.log

/-- A behaviour only adds to what was done. -/
def Adds (behaviour : Behaviour) : Prop := ∀ state, state.log <:+ (behaviour state).2.log

/-- A behaviour does the same as another or is pending on the way there. -/
def Approximates (first second : Behaviour) : Prop := ∀ state, Below (first state) (second state)

section Below
variable {first second third : Completion × State}

theorem Below.refl (outcome : Completion × State) : Below outcome outcome := .inl rfl

theorem Below.trans (one : Below first second) (two : Below second third) : Below first third := by
  rcases one with rfl | ⟨pending, before⟩
  · exact two
  · rcases two with rfl | ⟨_, after⟩
    · exact .inr ⟨pending, before⟩
    · exact .inr ⟨pending, before.trans after⟩

theorem Below.suffix (below : Below first second) : first.2.log <:+ second.2.log := by
  rcases below with rfl | ⟨_, before⟩
  · exact List.suffix_refl _
  · exact before

end Below

section Adds
variable {first second behaviour update : Behaviour} {next : Completion → Behaviour}

theorem adds_done (completion : Completion) : Adds (done completion) :=
  fun _ => List.suffix_refl _

theorem suffix_andThen (two : ∀ completion, Adds (next completion)) (state : State) :
    (first state).2.log <:+ (andThen first next state).2.log := by
  unfold andThen
  split
  · rename_i after same
    rw [same]
  · rename_i completion after _ same
    rw [same]
    exact two completion after

theorem adds_andThen (one : Adds first) (two : ∀ completion, Adds (next completion)) :
    Adds (andThen first next) :=
  fun state => (one state).trans (suffix_andThen two state)

theorem adds_seq (one : Adds first) (two : Adds second) : Adds (seq first second) := by
  refine adds_andThen one fun completion => ?_
  split
  · exact two
  · exact adds_done completion

theorem adds_note (world : World) (tree : Tree) : Adds (world.note tree) := by
  intro state
  unfold World.note
  split
  · exact List.suffix_refl _
  · exact List.suffix_cons _ _

theorem adds_ask {world : World} {tree : Tree} {next : Bool → Behaviour}
    (each : ∀ holds, Adds (next holds)) : Adds (world.ask tree next) := by
  intro state
  unfold World.ask
  simp only
  split
  · exact List.suffix_cons _ _
  · exact (List.suffix_cons tree.bare state.log).trans
      (each (world.holds state.log tree.bare) ⟨tree.bare :: state.log, state.updates⟩)

theorem adds_cycle {test : (Bool → Behaviour) → Behaviour} {labels : List String}
    (tests : ∀ {next : Bool → Behaviour}, (∀ holds, Adds (next holds)) → Adds (test next))
    (body : Adds behaviour) (updates : Adds update) (limit : Nat) :
    Adds (cycle test labels behaviour update limit) := by
  induction limit with
  | zero => exact adds_done .pending
  | succ limit ih =>
    refine tests fun holds => ?_
    split
    · refine adds_andThen body fun completion => ?_
      split
      · exact adds_seq updates ih
      · exact adds_done _
    · exact adds_done .normal

end Adds

section Approximates
variable {first second third first' second' update update' : Behaviour}
  {next next' : Completion → Behaviour}

theorem Approximates.refl (behaviour : Behaviour) : Approximates behaviour behaviour :=
  fun _ => .refl _

theorem Approximates.trans (one : Approximates first second) (two : Approximates second third) :
    Approximates first third := fun state => (one state).trans (two state)

theorem approximates_pending (adds : Adds first) : Approximates (done .pending) first :=
  fun state => .inr ⟨rfl, adds state⟩

theorem approximates_andThen (one : Approximates first first')
    (two : ∀ completion, Approximates (next completion) (next' completion))
    (adds : ∀ completion, Adds (next' completion)) :
    Approximates (andThen first next) (andThen first' next') := by
  intro state
  rcases one state with same | ⟨pending, before⟩
  · unfold andThen
    rw [same]
    split
    · exact .refl _
    · exact two _ _
  · have stopped : andThen first next state = first state := by
      unfold andThen
      cases left : first state with
      | mk completion after =>
        rw [left] at pending
        cases pending
        rfl
    rw [stopped]
    exact .inr ⟨pending, before.trans (suffix_andThen adds state)⟩

theorem approximates_seq (one : Approximates first first') (two : Approximates second second')
    (adds : Adds second') : Approximates (seq first second) (seq first' second') := by
  refine approximates_andThen one (fun completion => ?_) fun completion => ?_
  · split
    · exact two
    · exact .refl _
  · split
    · exact adds
    · exact adds_done completion

theorem approximates_ask {world : World} {tree : Tree} {next next' : Bool → Behaviour}
    (each : ∀ holds, Approximates (next holds) (next' holds)) :
    Approximates (world.ask tree next) (world.ask tree next') := by
  intro state
  unfold World.ask
  simp only
  split
  · exact .refl _
  · exact each _ _

/-- A loop does the same with a higher bound, or gets further. -/
theorem approximates_cycle {test : (Bool → Behaviour) → Behaviour} {labels : List String}
    (tests : ∀ {next next' : Bool → Behaviour},
      (∀ holds, Approximates (next holds) (next' holds)) → Approximates (test next) (test next'))
    (addsTest : ∀ {next : Bool → Behaviour}, (∀ holds, Adds (next holds)) → Adds (test next))
    (body : Approximates first first') (updates : Approximates update update')
    (addsBody : Adds first') (addsUpdate : Adds update') {limit limit' : Nat}
    (less : limit ≤ limit') :
    Approximates (cycle test labels first update limit)
      (cycle test labels first' update' limit') := by
  induction limit generalizing limit' with
  | zero => exact approximates_pending (adds_cycle addsTest addsBody addsUpdate limit')
  | succ limit ih =>
    cases limit' with
    | zero => exact absurd less (Nat.not_succ_le_zero limit)
    | succ limit' =>
      have rest := ih (Nat.le_of_succ_le_succ less)
      have addsRest : Adds (cycle test labels first' update' limit') :=
        adds_cycle addsTest addsBody addsUpdate limit'
      refine tests fun holds => ?_
      split
      · refine approximates_andThen body (fun completion => ?_) fun completion => ?_
        · split
          · exact approximates_seq updates rest addsRest
          · exact .refl _
        · split
          · exact adds_seq addsUpdate addsRest
          · exact adds_done _
      · exact .refl _

end Approximates

end Unflatten.Execution
