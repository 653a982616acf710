import Unflatten.Proofs.Execution.Run

/-! # Leaving a list of statements

A behaviour leaves if it never ends normally; nothing that stands behind it is run.  What is
said here of `seq` and `leave` moves a `break` into the arms of a test and out of a nested
`switch`. -/

set_option autoImplicit false

namespace Unflatten.Execution

/-- A behaviour that never ends normally. -/
def Leaves (behaviour : Behaviour) : Prop := ∀ state, (behaviour state).1 ≠ .normal

/-- A behaviour in a `switch`: a `break` leaves the `switch` only. -/
def inSwitch (behaviour : Behaviour) : Behaviour :=
  andThen behaviour fun completion => done completion.leave

section Leaves
variable {world : World} {first second behaviour : Behaviour}

theorem leaves_done {completion : Completion} (other : completion ≠ .normal) :
    Leaves (done completion) := fun _ => other

theorem leaves_break : Leaves (done (.breaks none)) :=
  leaves_done fun impossible => nomatch impossible

theorem seq_of_leaves (leaves : Leaves first) (second : Behaviour) : seq first second = first := by
  funext state
  have other := leaves state
  unfold seq andThen
  cases result : first state with
  | mk completion after =>
    rw [result] at other
    cases completion <;> first | rfl | exact absurd rfl other

theorem leaves_seq (leaves : Leaves second) : Leaves (seq first second) := by
  intro state
  unfold seq andThen
  cases first state with
  | mk completion after =>
    cases completion
    case normal => exact leaves after
    all_goals exact fun impossible => nomatch impossible

theorem leaves_ask {tree : Tree} {next : Bool → Behaviour} (each : ∀ holds, Leaves (next holds)) :
    Leaves (world.ask tree next) := by
  intro state
  unfold World.ask
  simp only
  split
  · exact fun impossible => nomatch impossible
  · exact each _ _

theorem leaves_test (tree : Tree) {next : Bool → Behaviour} (each : ∀ holds, Leaves (next holds)) :
    Leaves (test world tree next) := by
  induction tree generalizing next with
  | nothing => exact each true
  | node id shape below ih =>
    have asked : Leaves (world.ask (.node id shape below) next) := leaves_ask each
    cases shape
    case unary after operator operand =>
      cases operator
      case exclamation =>
        rcases below with _ | ⟨only, _ | ⟨another, rest⟩⟩
        · exact asked
        · exact ih only List.mem_cons_self fun holds => each !holds
        · exact asked
      all_goals exact asked
    all_goals exact asked

theorem seq_ask (tree : Tree) (next : Bool → Behaviour) (behaviour : Behaviour) :
    seq (world.ask tree next) behaviour = world.ask tree fun holds => seq (next holds) behaviour := by
  funext state
  unfold seq andThen World.ask
  simp only
  cases world.throws state.log tree.bare <;> rfl

/-- What stands behind a test may stand behind both of its outcomes. -/
theorem seq_test (tree : Tree) (next : Bool → Behaviour) (behaviour : Behaviour) :
    seq (test world tree next) behaviour =
      test world tree fun holds => seq (next holds) behaviour := by
  induction tree generalizing next with
  | nothing => rfl
  | node id shape below ih =>
    have asked := @seq_ask world (.node id shape below) next behaviour
    cases shape
    case unary after operator operand =>
      cases operator
      case exclamation =>
        rcases below with _ | ⟨only, _ | ⟨another, rest⟩⟩
        · exact asked
        · exact ih only List.mem_cons_self _
        · exact asked
      all_goals exact asked
    all_goals exact asked

end Leaves

section InSwitch
variable (first second : Behaviour)

/-- A `break` that left an inner `switch` does not leave the outer one. -/
theorem inSwitch_seq_inSwitch :
    inSwitch (seq (inSwitch first) second) = seq (inSwitch first) (inSwitch second) := by
  funext state
  unfold seq inSwitch andThen done
  cases first state with
  | mk completion after =>
    cases completion
    case breaks label => cases label <;> rfl
    all_goals rfl

theorem inSwitch_seq_break :
    inSwitch (seq (inSwitch first) (done (.breaks none))) = inSwitch first := by
  rw [inSwitch_seq_inSwitch]
  exact seq_done_right _

theorem inSwitch_inSwitch : inSwitch (inSwitch first) = inSwitch first := by
  have whole := inSwitch_seq_inSwitch first (done .normal)
  rw [seq_done_right] at whole
  exact whole.trans (seq_done_right _)

theorem inSwitch_done_normal : inSwitch (done .normal) = done .normal := rfl

theorem seq_congr {first other : Behaviour} {state : State} (same : first state = other state)
    (second : Behaviour) : seq first second state = seq other second state := by
  unfold seq andThen
  rw [same]

theorem inSwitch_congr {first other : Behaviour} {state : State} (same : first state = other state) :
    inSwitch first state = inSwitch other state := by
  unfold inSwitch andThen
  rw [same]

end InSwitch

end Unflatten.Execution
