import Unflatten.Proofs.Execution.Leaving
import Unflatten.Proofs.Syntax.Targets

/-! # How statements can end

A statement ends with a `break` or a `continue` that has no label only if a jump in it needs
something to break from or a loop to continue.  So what `Tree.unmet` says of the syntax holds of
every run (`run_needs`). -/

set_option autoImplicit false

namespace Unflatten.Execution

section States
variable {first second : Behaviour} {completion : Completion} {state after : State}

theorem andThen_of_ended (ended : first state = (completion, after)) (bounded : completion ≠ .pending)
    (next : Completion → Behaviour) : andThen first next state = next completion after := by
  unfold andThen
  rw [ended]
  cases completion <;> first | rfl | exact absurd rfl bounded

theorem andThen_of_pending (ended : first state = (.pending, after)) (next : Completion → Behaviour) :
    andThen first next state = (.pending, after) := by
  unfold andThen
  rw [ended]

theorem seq_of_normal (ended : first state = (.normal, after)) (second : Behaviour) :
    seq first second state = second after :=
  andThen_of_ended ended Completion.noConfusion _

theorem seq_of_other (ended : first state = (completion, after)) (other : completion ≠ .normal)
    (second : Behaviour) : seq first second state = (completion, after) := by
  unfold seq andThen
  rw [ended]
  cases completion <;> first | rfl | exact absurd rfl other

/-- A `switch` is left by a `break`, and otherwise as its clauses are. -/
theorem inSwitch_of_ended (ended : first state = (completion, after)) :
    inSwitch first state = (completion.leave, after) := by
  unfold inSwitch andThen
  rw [ended]
  cases completion <;> rfl

end States

/-- A completion that is no jump without a label, or is needed. -/
def Completion.IsNeeded (targets : List Target) (completion : Completion) : Prop :=
  (completion = .breaks none → .breaks ∈ targets) ∧
    (completion = .continues none → .continues ∈ targets)

/-- A behaviour ends only with jumps that are needed. -/
def Needs (targets : List Target) (behaviour : Behaviour) : Prop :=
  ∀ state, (behaviour state).1.IsNeeded targets

section Needs
variable {world : World} {limit : Nat} {targets others : List Target} {first second : Behaviour}
  {completion : Completion}

theorem Completion.isNeeded_of_plain (noBreak : completion ≠ .breaks none)
    (noContinue : completion ≠ .continues none) : completion.IsNeeded targets :=
  ⟨fun same => absurd same noBreak, fun same => absurd same noContinue⟩

/-- What ends a loop needs nothing outside it. -/
theorem Completion.leave_isNeeded {labels : List String} (stops : completion.goesOn labels = false) :
    completion.leave.IsNeeded targets := by
  rcases completion with _ | (_ | label) | (_ | label) | _ | _ | _
  case continues.none => cases (stops : true = false)
  all_goals exact ⟨fun same => (by cases same), fun same => (by cases same)⟩

theorem needs_done (needed : completion.IsNeeded targets) : Needs targets (done completion) :=
  fun _ => needed

theorem needs_normal : Needs targets (done .normal) :=
  needs_done (Completion.isNeeded_of_plain Completion.noConfusion Completion.noConfusion)

theorem needs_throws : Needs targets (done .throws) :=
  needs_done (Completion.isNeeded_of_plain Completion.noConfusion Completion.noConfusion)

theorem Needs.andThen {next : Completion → Behaviour} (one : Needs targets first)
    (two : ∀ completion, completion.IsNeeded targets → Needs others (next completion)) :
    Needs others (andThen first next) := by
  intro state
  have ended := one state
  unfold Execution.andThen
  split
  · exact Completion.isNeeded_of_plain Completion.noConfusion Completion.noConfusion
  · rename_i completion after _ same
    rw [same] at ended
    exact two completion ended after

theorem Needs.seq (one : Needs targets first) (two : Needs targets second) :
    Needs targets (seq first second) := by
  refine one.andThen fun completion needed => ?_
  split
  · exact two
  · exact needs_done needed

theorem needs_note (tree : Tree) : Needs targets (world.note tree) := by
  intro state
  unfold World.note
  split
  · exact Completion.isNeeded_of_plain Completion.noConfusion Completion.noConfusion
  · refine Completion.isNeeded_of_plain ?_ ?_
    all_goals
      simp only
      split <;> exact Completion.noConfusion

theorem needs_noteIfAny (tree : Tree) : Needs targets (noteIfAny world tree) := by
  cases tree with
  | nothing => exact needs_normal
  | node id shape below => exact needs_note (.node id shape below)

theorem needs_ask (tree : Tree) {next : Bool → Behaviour} (each : ∀ holds, Needs targets (next holds)) :
    Needs targets (world.ask tree next) := by
  intro state
  unfold World.ask
  simp only
  split
  · exact Completion.isNeeded_of_plain Completion.noConfusion Completion.noConfusion
  · exact each _ _

theorem needs_test (tree : Tree) {next : Bool → Behaviour} (each : ∀ holds, Needs targets (next holds)) :
    Needs targets (test world tree next) := by
  induction tree generalizing next with
  | nothing => exact each true
  | node id shape below ih =>
    have asked : Needs targets (world.ask (.node id shape below) next) := needs_ask _ each
    cases shape
    case unary after operator operand =>
      cases operator
      case exclamation =>
        rcases below with _ | ⟨only, _ | ⟨another, rest⟩⟩
        · exact asked
        · exact ih only List.mem_cons_self fun holds => each !holds
        · exact asked
      all_goals exact asked
    all_goals exact asked

/-- A loop is left by its own `break`, and goes on with its own `continue`. -/
theorem needs_round {labels : List String} {body again : Behaviour} (goesOn : Needs targets again) :
    Needs targets (andThen body fun completion =>
      if completion.goesOn labels then again else done completion.leave) := by
  have any : Needs [.breaks, .continues] body := fun state =>
    ⟨fun _ => List.mem_cons_self, fun _ => List.mem_cons_of_mem _ (List.mem_singleton_self _)⟩
  refine any.andThen fun completion _ => ?_
  split
  · exact goesOn
  · rename_i stops
    exact needs_done (Completion.leave_isNeeded (Bool.eq_false_of_not_eq_true stops))

theorem needs_cycle {again : (Bool → Behaviour) → Behaviour} {labels : List String}
    {body update : Behaviour}
    (tests : ∀ {next : Bool → Behaviour}, (∀ holds, Needs targets (next holds)) → Needs targets (again next))
    (updates : Needs targets update) (limit : Nat) :
    Needs targets (cycle again labels body update limit) := by
  induction limit with
  | zero => exact needs_done (Completion.isNeeded_of_plain Completion.noConfusion Completion.noConfusion)
  | succ limit ih =>
    refine tests fun holds => ?_
    split
    · exact needs_round (updates.seq ih)
    · exact needs_normal

/-- A `break` leaves a `switch`. -/
theorem needs_inSwitch (needs : Needs (.breaks :: targets) first) : Needs targets (inSwitch first) := by
  refine needs.andThen fun completion needed => needs_done ?_
  rcases completion with _ | (_ | label) | (_ | label) | _ | _ | _
  case continues.none =>
    exact ⟨fun same => (by cases same),
      fun _ => (List.mem_cons.mp (needed.2 rfl)).resolve_left Target.noConfusion⟩
  all_goals exact ⟨fun same => (by cases same), fun same => (by cases same)⟩

end Needs

section Select
variable {world : World} {limit : Nat} {targets : List Target}

theorem needs_matchLabel (subject : Option Int) (label : Tree) {next : Bool → Behaviour}
    (each : ∀ holds, Needs targets (next holds)) :
    Needs targets (matchLabel world subject label next) := by
  intro state
  unfold matchLabel
  cases subject with
  | none => exact needs_ask label each state
  | some value =>
    cases world.known? state.log label.bare with
    | none => exact needs_ask label each state
    | some other => exact each _ state

theorem needs_findLabel (subject : Option Int) (clauses : List Tree) (place : Nat)
    {next : Option Nat → Behaviour} (each : ∀ place?, Needs targets (next place?)) :
    Needs targets (findLabel world subject clauses place next) := by
  induction clauses generalizing place with
  | nil => exact each none
  | cons clause rest ih =>
    have later := ih (place + 1)
    cases clause with
    | nothing => exact later
    | node id shape below =>
      cases shape
      case clause isDefault label statements =>
        cases isDefault with
        | true => exact later
        | false =>
          cases below with
          | nil => exact later
          | cons first others =>
            refine needs_matchLabel subject first fun holds => ?_
            split
            · exact each _
            · exact later
      all_goals exact later

theorem needs_select (discriminant : Tree) (clauses : List Tree) {next : Nat → Behaviour}
    (each : ∀ place, Needs targets (next place)) :
    Needs targets (select world discriminant clauses next) := by
  have started : ∀ place?, Needs targets (startAt clauses next place?) := by
    intro place?
    unfold startAt
    split
    · exact each _
    · exact needs_normal
  intro state
  unfold select
  cases world.known? state.log discriminant.bare with
  | none => exact (needs_note discriminant).seq (needs_findLabel none clauses 0 started) state
  | some value => exact needs_findLabel (some value) clauses 0 started state

end Select

/-! ## Runs -/

section Runs
variable {world : World} {limit : Nat} {store : Store} {targets : List Target} {trees clauses : List Tree}

theorem needs_runAll (each : ∀ tree ∈ trees, Needs targets (run world limit tree [])) :
    Needs targets (runAll world limit trees) := by
  induction trees with
  | nil => exact needs_normal
  | cons tree rest ih =>
    exact (each tree List.mem_cons_self).seq
      (ih fun other member => each other (List.mem_cons_of_mem _ member))

theorem needs_runFrom (each : ∀ clause ∈ clauses, Needs targets (runAll world limit (clauseBody clause)))
    (place : Nat) : Needs targets (runFrom world limit clauses place) := by
  induction clauses generalizing place with
  | nil => exact needs_normal
  | cons clause rest ih =>
    have later := ih fun other member => each other (List.mem_cons_of_mem _ member)
    cases place with
    | zero =>
      rw [runFrom_zero]
      exact (each clause List.mem_cons_self).seq (later 0)
    | succ place =>
      rw [runFrom_succ]
      exact later place

section Around
variable {id : NodeId} {shape : Shape} {below : List Tree} {part : Tree} {first : Behaviour}

/-- What a part needs the node around it needs too, unless it meets it. -/
theorem mem_unmet_of_part {target : Target} (member : part ∈ below) (needed : target ∈ part.unmet)
    (left : shape.leaves (Tree.label? below) target = some target) :
    target ∈ (Tree.node id shape below).unmet := by
  rw [Tree.unmet, List.mem_append]
  exact .inr (List.mem_filterMap.mpr ⟨target, Tree.mem_unmetAll.mpr ⟨part, member, needed⟩, left⟩)

theorem Needs.around (needs : Needs part.unmet first) (member : part ∈ below)
    (breaks : shape.leaves (Tree.label? below) .breaks = some .breaks)
    (continues : shape.leaves (Tree.label? below) .continues = some .continues) :
    Needs (Tree.node id shape below).unmet first :=
  fun state => ⟨fun same => mem_unmet_of_part member ((needs state).1 same) breaks,
    fun same => mem_unmet_of_part member ((needs state).2 same) continues⟩

/-- A clause breaks from its `switch`, and continues the loop around it. -/
theorem Needs.inClause (needs : Needs part.unmet first) (member : part ∈ below)
    (continues : shape.leaves (Tree.label? below) .continues = some .continues) :
    Needs (.breaks :: (Tree.node id shape below).unmet) first :=
  fun state => ⟨fun _ => List.mem_cons_self,
    fun same => List.mem_cons_of_mem _ (mem_unmet_of_part member ((needs state).2 same) continues)⟩

end Around

/-- A jump without a label is needed by itself. -/
theorem needs_jump {id : NodeId} {kind : JumpKind} {label : Tree} (labels : List String) :
    Needs (Tree.node id (.jump kind label.root) [label]).unmet
      (run world limit (.node id (.jump kind label.root) [label]) labels) := by
  have plain : labelText label = none → label.root = none := by
    cases label with
    | nothing => exact fun _ => rfl
    | node name shape parts => cases shape <;> exact fun same => by cases same
  cases kind with
  | breaks =>
    refine needs_done ⟨fun same => ?_, fun same => by cases same⟩
    rw [plain (Completion.breaks.inj same)]
    exact List.mem_cons_self
  | continues =>
    refine needs_done ⟨fun same => (by cases same), fun same => ?_⟩
    rw [plain (Completion.continues.inj same)]
    exact List.mem_cons_self

/-- A jump that ends a run is needed by what was run. -/
theorem run_needs {tree : Tree} (holds : store.Holds tree) :
    (∀ labels, Needs tree.unmet (run world limit tree labels)) ∧
      Needs tree.unmet (runAll world limit (clauseBody tree)) := by
  induction tree with
  | nothing => exact ⟨fun _ => needs_normal, needs_normal⟩
  | node id shape below ih =>
    cases holds with
    | node found regular roots links held =>
    have ran : ∀ part ∈ below, shape.leaves (Tree.label? below) .breaks = some .breaks →
        shape.leaves (Tree.label? below) .continues = some .continues →
        ∀ labels, Needs (Tree.node id shape below).unmet (run world limit part labels) :=
      fun part member breaks continues labels =>
        ((ih part member (held part member)).1 labels).around member breaks continues
    have clause : Needs (Tree.node id shape below).unmet
        (runAll world limit (clauseBody (.node id shape below))) := by
      cases shape
      case clause =>
        cases below with
        | nil => exact needs_normal
        | cons label statements =>
          exact needs_runAll fun part member => ran part (List.mem_cons_of_mem _ member) rfl rfl []
      all_goals exact needs_normal
    refine ⟨fun labels => ?_, clause⟩
    have noted : Needs (Tree.node id shape below).unmet (world.note (.node id shape below)) :=
      needs_note _
    cases shape
    case block =>
      exact needs_runAll fun part member => ran part member rfl rfl []
    case conditionalStatement =>
      rcases below with _ | ⟨condition, _ | ⟨thenBody, _ | ⟨elseBody, _ | ⟨_, _⟩⟩⟩⟩
      case cons.cons.cons.nil =>
        refine needs_test condition fun holds => ?_
        split
        · exact ran thenBody (by simp) rfl rfl []
        · exact ran elseBody (by simp) rfl rfl []
      all_goals exact noted
    case loop kind _ _ _ _ =>
      rcases below with
        _ | ⟨initializer, _ | ⟨condition, _ | ⟨incrementor, _ | ⟨body, _ | ⟨_, _⟩⟩⟩⟩⟩
      case cons.cons.cons.cons.nil =>
        cases kind with
        | doLoop =>
          exact needs_round (needs_cycle (needs_test condition) needs_normal limit)
        | forLoop | whileLoop =>
          exact (needs_noteIfAny initializer).seq
            (needs_cycle (needs_test condition) (needs_noteIfAny incrementor) limit)
      all_goals cases kind <;> exact noted
    case forIn =>
      rcases below with _ | ⟨initializer, _ | ⟨expression, _ | ⟨body, _ | ⟨_, _⟩⟩⟩⟩
      case cons.cons.cons.nil =>
        exact (needs_noteIfAny expression).seq
          (needs_cycle (needs_ask initializer) needs_normal limit)
      all_goals exact noted
    case switch =>
      cases below with
      | nil => exact noted
      | cons discriminant clauses =>
        refine needs_inSwitch (needs_select discriminant clauses fun place =>
          needs_runFrom (fun part member => ?_) place)
        have inside := List.mem_cons_of_mem discriminant member
        exact (ih part inside (held part inside)).2.inClause inside rfl
    case exit kind _ => exact noted.seq (needs_done (by
        cases kind <;> exact Completion.isNeeded_of_plain Completion.noConfusion Completion.noConfusion))
    case jump kind slot =>
      rcases below with _ | ⟨label, _ | ⟨_, _⟩⟩
      case cons.nil =>
        obtain rfl : slot = label.root := (List.cons.inj roots).1
        exact needs_jump labels
      all_goals exact noted
    case labeled =>
      rcases below with _ | ⟨label, _ | ⟨statement, _ | ⟨_, _⟩⟩⟩
      case cons.cons.nil =>
        refine (ran statement (by simp) rfl rfl _).andThen fun completion needed => ?_
        split
        · exact needs_normal
        · exact needs_done needed
      all_goals exact noted
    case tryStatement =>
      rcases below with _ | ⟨body, _ | ⟨handler, _ | ⟨finalizer, _ | ⟨_, _⟩⟩⟩⟩
      case cons.cons.cons.nil =>
        have within := fun part (member : part ∈ [body, handler, finalizer]) => ran part member rfl rfl []
        refine ((within body (by simp)).andThen fun completion needed => ?_).andThen
          fun completion needed => (within finalizer (by simp)).seq (needs_done needed)
        split
        · cases handler with
          | nothing => exact needs_throws
          | node name shape parts => exact within (.node name shape parts) (by simp)
        · exact needs_done needed
      all_goals exact noted
    case catchClause =>
      rcases below with _ | ⟨name, _ | ⟨body, _ | ⟨_, _⟩⟩⟩
      case cons.cons.nil => exact ran body (by simp) rfl rfl []
      all_goals exact noted
    all_goals exact noted

end Runs

end Unflatten.Execution
