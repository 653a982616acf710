import Unflatten.Proofs.Execution.Behaviour

/-! # Running statements

`run` gives the behaviour of a statement, `runAll` that of a list of statements, and
`runFrom` that of the clauses of a `switch` from one of them on.  A `switch` whose
discriminant the world knows makes no test for it. -/

set_option autoImplicit false

namespace Unflatten.Execution

/-- The text of a label. -/
def labelText : Tree → Option String
  | .nothing => none
  | .node _ (.identifier text) _ => some text
  | .node _ _ _ => some ""

/-- Runs a test and goes on with its outcome.  A missing test holds, and a negated test is
the test with the other outcome. -/
def test (world : World) : Tree → (Bool → Behaviour) → Behaviour
  | .nothing, next => next true
  | .node _ (.unary _ .exclamation _) [operand], next =>
    test world operand fun holds => next !holds
  | tree, next => world.ask tree next

/-- Does a thing, if there is one. -/
def noteIfAny (world : World) : Tree → Behaviour
  | .nothing => done .normal
  | tree => world.note tree

/-- Compares the subject of a `switch` with a label: without a test if both are known. -/
def compareLabel (world : World) (label : Tree) (next : Bool → Behaviour) :
    (subject other : Option Int) → Behaviour
  | some value, some other => next (value == other)
  | _, _ => world.ask label next

/-- Compares the subject of a `switch` with a label. -/
def matchLabel (world : World) (subject : Option Int) (label : Tree) (next : Bool → Behaviour) :
    Behaviour := fun state =>
  compareLabel world label next subject (world.known? state.log label.bare) state

/-- Finds the first clause whose label matches the subject. -/
def findLabel (world : World) (subject : Option Int) : List Tree → (place : Nat) →
    (Option Nat → Behaviour) → Behaviour
  | [], _, next => next none
  | .node _ (.clause false _ _) (label :: _) :: rest, place, next =>
    matchLabel world subject label fun holds =>
      if holds then next (some place) else findLabel world subject rest (place + 1) next
  | _ :: rest, place, next => findLabel world subject rest (place + 1) next

/-- The place of the last default clause. -/
def defaultPlace? : List Tree → (place : Nat) → Option Nat
  | [], _ => none
  | .node _ (.clause true _ _) _ :: rest, place => (defaultPlace? rest (place + 1)).or (some place)
  | _ :: rest, place => defaultPlace? rest (place + 1)

/-- Goes on from the clause that matches, or from the default clause. -/
def startAt (clauses : List Tree) (next : Nat → Behaviour) (place? : Option Nat) : Behaviour :=
  match place?.or (defaultPlace? clauses 0) with
  | some place => next place
  | none => done .normal

/-- Finds the clause that a `switch` starts at, without running a discriminant that is
known. -/
def selectWith (world : World) (discriminant : Tree) (clauses : List Tree) (next : Nat → Behaviour) :
    (subject : Option Int) → Behaviour
  | some value => findLabel world (some value) clauses 0 (startAt clauses next)
  | none => seq (world.note discriminant) (findLabel world none clauses 0 (startAt clauses next))

/-- Finds the clause that a `switch` starts at and goes on from its place. -/
def select (world : World) (discriminant : Tree) (clauses : List Tree)
    (next : Nat → Behaviour) : Behaviour := fun state =>
  selectWith world discriminant clauses next (world.known? state.log discriminant.bare) state

mutual

/-- The behaviour of a statement that stands behind some labels. -/
def run (world : World) (limit : Nat) : Tree → (labels : List String) → Behaviour
  | .nothing, _ => done .normal
  | .node _ (.block _) statements, _ => runAll world limit statements
  | .node _ (.conditionalStatement _ _ _) [condition, thenBody, elseBody], _ =>
    test world condition fun holds =>
      if holds then run world limit thenBody [] else run world limit elseBody []
  | .node _ (.loop .doLoop _ _ _ _) [_, condition, _, body], labels =>
    andThen (run world limit body []) fun completion =>
      if completion.goesOn labels then
        cycle (test world condition) labels (run world limit body []) (done .normal) limit
      else done completion.leave
  | .node _ (.loop _ _ _ _ _) [initializer, condition, incrementor, body], labels =>
    seq (noteIfAny world initializer)
      (cycle (test world condition) labels (run world limit body [])
        (noteIfAny world incrementor) limit)
  | .node _ (.forIn _ _ _) [initializer, expression, body], labels =>
    seq (noteIfAny world expression)
      (cycle (world.ask initializer) labels (run world limit body []) (done .normal) limit)
  | .node _ (.switch _ _) (discriminant :: clauses), _ =>
    andThen (select world discriminant clauses (runFrom world limit clauses)) fun completion =>
      done completion.leave
  | .node id (.exit kind expression) below, _ =>
    seq (world.note (.node id (.exit kind expression) below)) (done (match kind with
      | .returns => .returns
      | .throws => .throws))
  | .node _ (.jump kind _) [label], _ => done (match kind with
      | .breaks => .breaks (labelText label)
      | .continues => .continues (labelText label))
  | .node _ (.labeled _ _) [label, statement], labels =>
    andThen (run world limit statement ((labelText label).toList ++ labels)) fun completion =>
      done (if completion = .breaks (labelText label) then .normal else completion)
  | .node _ (.tryStatement _ _ _) [body, handler, finalizer], _ =>
    andThen
      (andThen (run world limit body []) fun completion =>
        if completion = .throws then
          match handler with
          | .nothing => done .throws
          | _ => run world limit handler []
        else done completion)
      fun completion => seq (run world limit finalizer []) (done completion)
  | .node _ (.catchClause _ _) [_, body], _ => run world limit body []
  | .node id shape below, _ => world.note (.node id shape below)

/-- The behaviour of a list of statements. -/
def runAll (world : World) (limit : Nat) : List Tree → Behaviour
  | [] => done .normal
  | statement :: rest => seq (run world limit statement []) (runAll world limit rest)

/-- The behaviour of the clauses of a `switch` from a place on. -/
def runFrom (world : World) (limit : Nat) : List Tree → (place : Nat) → Behaviour
  | [], _ => done .normal
  | _ :: rest, place + 1 => runFrom world limit rest place
  | .node _ (.clause _ _ _) (_ :: statements) :: rest, 0 =>
    seq (runAll world limit statements) (runFrom world limit rest 0)
  | _ :: rest, 0 => runFrom world limit rest 0

end

/-- The statements of a clause. -/
def clauseBody : Tree → List Tree
  | .node _ (.clause _ _ _) (_ :: statements) => statements
  | _ => []

section Bare
variable {world : World} {tree : Tree} {next : Bool → Behaviour}

theorem bare_bare (tree : Tree) : tree.bare.bare = tree.bare := by
  induction tree with
  | nothing => rfl
  | node id shape below ih =>
    rw [Tree.bare, Tree.bare, Shape.withSlots_withSlots, Tree.bareAll_eq, Tree.bareAll_eq,
      List.map_map]
    congr 1
    exact List.map_congr_left ih

theorem bare_node (id : NodeId) (shape : Shape) (below : List Tree) :
    (Tree.node id shape below).bare = .node 0 (shape.withSlots []) (below.map Tree.bare) := by
  rw [Tree.bare, Tree.bareAll_eq]

theorem note_bare (world : World) (tree : Tree) : world.note tree.bare = world.note tree := by
  unfold World.note
  rw [bare_bare]

theorem ask_bare (world : World) (tree : Tree) (next : Bool → Behaviour) :
    world.ask tree.bare next = world.ask tree next := by
  unfold World.ask
  rw [bare_bare]

theorem noteIfAny_bare (world : World) (tree : Tree) :
    noteIfAny world tree.bare = noteIfAny world tree := by
  cases tree with
  | nothing => rfl
  | node id shape below => exact note_bare world (.node id shape below)

theorem labelText_bare (tree : Tree) : labelText tree.bare = labelText tree := by
  cases tree with
  | nothing => rfl
  | node id shape below => cases shape <;> rfl

theorem test_bare (world : World) (tree : Tree) (next : Bool → Behaviour) :
    test world tree.bare next = test world tree next := by
  induction tree generalizing next with
  | nothing => rfl
  | node id shape below ih =>
    have asked := ask_bare world (.node id shape below) next
    rw [bare_node] at asked ⊢
    cases shape
    case unary after operator operand =>
      cases operator
      case exclamation =>
        rcases below with _ | ⟨only, _ | ⟨second, rest⟩⟩
        · exact asked
        · exact ih only List.mem_cons_self _
        · exact asked
      all_goals exact asked
    all_goals exact asked

theorem matchLabel_bare (world : World) (subject : Option Int) (label : Tree)
    (next : Bool → Behaviour) :
    matchLabel world subject label.bare next = matchLabel world subject label next := by
  have compared : ∀ other, compareLabel world label.bare next subject other =
      compareLabel world label next subject other := by
    intro other
    cases subject with
    | none => exact ask_bare world label next
    | some value =>
      cases other with
      | none => exact ask_bare world label next
      | some other => rfl
  unfold matchLabel
  simp only [bare_bare, compared]

theorem findLabel_bare (world : World) (subject : Option Int) (clauses : List Tree) (place : Nat)
    (next : Option Nat → Behaviour) :
    findLabel world subject (clauses.map Tree.bare) place next =
      findLabel world subject clauses place next := by
  induction clauses generalizing place with
  | nil => rfl
  | cons clause rest ih =>
    have later := ih (place + 1)
    cases clause with
    | nothing => exact later
    | node id shape below =>
      rw [List.map_cons, bare_node]
      cases shape
      case clause isDefault label statements =>
        cases isDefault with
        | true => exact later
        | false =>
          cases below with
          | nil => exact later
          | cons first others =>
            refine (matchLabel_bare world subject first _).trans ?_
            rw [findLabel]
            congr 1
            funext holds
            rw [later]
      all_goals exact later

theorem defaultPlace?_bare (clauses : List Tree) (place : Nat) :
    defaultPlace? (clauses.map Tree.bare) place = defaultPlace? clauses place := by
  induction clauses generalizing place with
  | nil => rfl
  | cons clause rest ih =>
    have later := ih (place + 1)
    cases clause with
    | nothing => exact later
    | node id shape below =>
      rw [List.map_cons, bare_node]
      cases shape
      case clause isDefault label statements =>
        cases isDefault with
        | true => exact congrArg (fun found => Option.or found (some place)) later
        | false => exact later
      all_goals exact later

theorem select_bare (world : World) (discriminant : Tree) (clauses : List Tree)
    (next : Nat → Behaviour) :
    select world discriminant.bare (clauses.map Tree.bare) next =
      select world discriminant clauses next := by
  have started : startAt (clauses.map Tree.bare) next = startAt clauses next := by
    funext place?
    simp only [startAt, defaultPlace?_bare]
  have selected : ∀ subject, selectWith world discriminant.bare (clauses.map Tree.bare) next subject =
      selectWith world discriminant clauses next subject := by
    intro subject
    cases subject <;> simp only [selectWith, note_bare, findLabel_bare, started]
  unfold select
  simp only [bare_bare, selected]

end Bare

/-! ## Clauses -/

section Clauses
variable (world : World) (limit : Nat)

/-- From its first clause on, a `switch` runs the statements of that clause and goes on. -/
theorem runFrom_zero (clause : Tree) (rest : List Tree) :
    runFrom world limit (clause :: rest) 0 =
      seq (runAll world limit (clauseBody clause)) (runFrom world limit rest 0) := by
  cases clause with
  | nothing => rfl
  | node id shape below =>
    cases shape
    case clause =>
      cases below <;> rfl
    all_goals rfl

theorem runFrom_succ (clause : Tree) (rest : List Tree) (place : Nat) :
    runFrom world limit (clause :: rest) (place + 1) = runFrom world limit rest place := by
  rw [runFrom]

theorem clauseBody_bare (clause : Tree) : clauseBody clause.bare = (clauseBody clause).map Tree.bare := by
  cases clause with
  | nothing => rfl
  | node id shape below =>
    rw [bare_node]
    cases shape
    case clause =>
      cases below <;> rfl
    all_goals rfl

end Clauses

/-! ## Congruence -/

/-- A relation between behaviours that all ways to make behaviours respect.  Only some things
are done. -/
structure Congruence (world : World) (things : Tree → Prop) (related : Behaviour → Behaviour → Prop) :
    Prop where
  done : ∀ completion, related (done completion) (done completion)
  note : ∀ tree, things tree.bare → related (world.note tree) (world.note tree)
  ask : ∀ {tree : Tree} {next next' : Bool → Behaviour},
    (∀ holds, related (next holds) (next' holds)) →
      related (world.ask tree next) (world.ask tree next')
  known : ∀ (tree : Tree) {next next' : Option Int → Behaviour},
    (∀ value?, related (next value?) (next' value?)) →
      related (fun state => next (world.known? state.log tree) state)
        (fun state => next' (world.known? state.log tree) state)
  andThen : ∀ {first first' : Behaviour} {next next' : Completion → Behaviour},
    related first first' → (∀ completion, related (next completion) (next' completion)) →
      related (andThen first next) (andThen first' next')

namespace Congruence

variable {world : World} {things : Tree → Prop} {related : Behaviour → Behaviour → Prop}
  {first first' second second' : Behaviour}

theorem seq (closed : Congruence world things related) (one : related first first')
    (two : related second second') : related (seq first second) (seq first' second') := by
  refine closed.andThen one fun completion => ?_
  split
  · exact two
  · exact closed.done completion

theorem test (closed : Congruence world things related) (tree : Tree) {next next' : Bool → Behaviour}
    (each : ∀ holds, related (next holds) (next' holds)) :
    related (test world tree next) (test world tree next') := by
  induction tree generalizing next next' with
  | nothing => exact each true
  | node id shape below ih =>
    have asked : related (world.ask (.node id shape below) next)
        (world.ask (.node id shape below) next') := closed.ask each
    cases shape
    case unary after operator operand =>
      cases operator
      case exclamation =>
        rcases below with _ | ⟨only, _ | ⟨another, rest⟩⟩
        · exact asked
        · exact ih only List.mem_cons_self fun holds => each !holds
        · exact asked
      all_goals exact asked
    all_goals exact asked

theorem noteIfAny (closed : Congruence world things related) (tree : Tree)
    (thing : things tree.bare) : related (noteIfAny world tree) (noteIfAny world tree) := by
  cases tree with
  | nothing => exact closed.done .normal
  | node id shape below => exact closed.note (.node id shape below) thing

theorem matchLabel (closed : Congruence world things related) (subject : Option Int) (label : Tree)
    {next next' : Bool → Behaviour} (each : ∀ holds, related (next holds) (next' holds)) :
    related (matchLabel world subject label next) (matchLabel world subject label next') := by
  refine closed.known label.bare fun other => ?_
  cases subject with
  | none => exact closed.ask each
  | some value =>
    cases other with
    | none => exact closed.ask each
    | some other => exact each _

theorem findLabel (closed : Congruence world things related) (subject : Option Int) (clauses : List Tree)
    (place : Nat) {next next' : Option Nat → Behaviour}
    (each : ∀ place?, related (next place?) (next' place?)) :
    related (findLabel world subject clauses place next)
      (findLabel world subject clauses place next') := by
  induction clauses generalizing place with
  | nil => exact each none
  | cons clause rest ih =>
    have later := ih (place + 1)
    cases clause with
    | nothing => exact later
    | node id shape below =>
      cases shape
      case clause isDefault label statements =>
        cases isDefault with
        | true => exact later
        | false =>
          cases below with
          | nil => exact later
          | cons first others =>
            refine closed.matchLabel subject first fun holds => ?_
            split
            · exact each (some place)
            · exact later
      all_goals exact later

theorem select (closed : Congruence world things related) (discriminant : Tree)
    (thing : things discriminant.bare) (clauses : List Tree) {next next' : Nat → Behaviour} (each : ∀ place, related (next place) (next' place)) :
    related (select world discriminant clauses next) (select world discriminant clauses next') := by
  have starts : ∀ place?, related (startAt clauses next place?) (startAt clauses next' place?) := by
    intro place?
    unfold startAt
    split
    · exact each _
    · exact closed.done .normal
  refine closed.known discriminant.bare fun subject => ?_
  cases subject with
  | none => exact closed.seq (closed.note discriminant thing) (closed.findLabel none clauses 0 starts)
  | some value => exact closed.findLabel (some value) clauses 0 starts

/-- A loop and itself with the same bound. -/
theorem cycle_same (closed : Congruence world things related) {labels : List String}
    {tests tests' : (Bool → Behaviour) → Behaviour} {body body' update update' : Behaviour}
    (tested : ∀ {next next' : Bool → Behaviour}, (∀ holds, related (next holds) (next' holds)) →
      related (tests next) (tests' next'))
    (bodies : related body body') (updates : related update update') (limit : Nat) :
    related (cycle tests labels body update limit) (cycle tests' labels body' update' limit) := by
  induction limit with
  | zero => exact closed.done .pending
  | succ limit ih =>
    refine tested fun holds => ?_
    split
    · refine closed.andThen bodies fun completion => ?_
      split
      · exact closed.seq updates ih
      · exact closed.done _
    · exact closed.done .normal

/-- A loop and itself with a higher bound, if what is pending is related to anything. -/
theorem cycle (closed : Congruence world things related) {limit limit' : Nat}
    (bounds : limit = limit' ∨ limit ≤ limit' ∧
      ∀ {behaviour behaviour'}, related behaviour behaviour' →
        related (Execution.done .pending) behaviour') {labels : List String}
    {tests tests' : (Bool → Behaviour) → Behaviour} {body body' update update' : Behaviour}
    (tested : ∀ {next next' : Bool → Behaviour}, (∀ holds, related (next holds) (next' holds)) →
      related (tests next) (tests' next'))
    (bodies : related body body') (updates : related update update') :
    related (cycle tests labels body update limit) (cycle tests' labels body' update' limit') := by
  rcases bounds with rfl | ⟨less, pending⟩
  · exact closed.cycle_same tested bodies updates limit
  · induction limit generalizing limit' with
    | zero => exact pending (closed.cycle_same tested bodies updates limit')
    | succ limit ih =>
      cases limit' with
      | zero => exact absurd less (Nat.not_succ_le_zero limit)
      | succ limit' =>
        refine tested fun holds => ?_
        split
        · refine closed.andThen bodies fun completion => ?_
          split
          · exact closed.seq updates (ih (Nat.le_of_succ_le_succ less))
          · exact closed.done _
        · exact closed.done .normal

/-! ### Statements -/

section Run
variable {limit limit' : Nat}

theorem runAll (closed : Congruence world things related) {statements : List Tree}
    (each : ∀ tree ∈ statements, ∀ labels,
      related (run world limit tree labels) (run world limit' tree.bare labels)) :
    related (runAll world limit statements) (runAll world limit' (statements.map Tree.bare)) := by
  induction statements with
  | nil => exact closed.done .normal
  | cons first rest ih =>
    refine closed.seq (each first List.mem_cons_self []) (ih fun tree member => ?_)
    exact each tree (List.mem_cons_of_mem first member)

theorem runFrom (closed : Congruence world things related) {clauses : List Tree}
    (each : ∀ clause ∈ clauses, related (Execution.runAll world limit (clauseBody clause))
      (Execution.runAll world limit' ((clauseBody clause).map Tree.bare))) (place : Nat) :
    related (runFrom world limit clauses place)
      (runFrom world limit' (clauses.map Tree.bare) place) := by
  induction clauses generalizing place with
  | nil => exact closed.done .normal
  | cons clause rest ih =>
    have later := ih fun other member => each other (List.mem_cons_of_mem clause member)
    rw [List.map_cons]
    cases place with
    | zero =>
      rw [runFrom_zero, runFrom_zero, clauseBody_bare]
      exact closed.seq (each clause List.mem_cons_self) (later 0)
    | succ place =>
      rw [runFrom_succ, runFrom_succ]
      exact later place

/-- A statement is related to the same statement without its names and with a higher bound. -/
theorem run_bare (closed : Congruence world things related)
    (bounds : limit = limit' ∨ limit ≤ limit' ∧
      ∀ {behaviour behaviour'}, related behaviour behaviour' →
        related (Execution.done .pending) behaviour') (tree : Tree)
    (done : ∀ part, Tree.Within part tree → things part.bare) :
    (∀ labels, related (run world limit tree labels) (run world limit' tree.bare labels)) ∧
      related (Execution.runAll world limit (clauseBody tree))
        (Execution.runAll world limit' ((clauseBody tree).map Tree.bare)) := by
  induction tree with
  | nothing => exact ⟨fun _ => closed.done .normal, closed.done .normal⟩
  | node id shape below ih =>
    have inner := fun tree (member : tree ∈ below) =>
      ih tree member fun part within => done part (.deeper member within)
    have doneBelow := fun tree (member : tree ∈ below) => done tree (.deeper member .whole)
    have statements : ∀ trees : List Tree, (∀ tree ∈ trees, tree ∈ below) →
        related (Execution.runAll world limit trees)
          (Execution.runAll world limit' (trees.map Tree.bare)) :=
      fun trees inside => closed.runAll fun tree member => (inner tree (inside tree member)).1
    have noted : related (world.note (.node id shape below))
        (world.note (Tree.node id shape below).bare) := by
      rw [note_bare]
      exact closed.note _ (done _ .whole)
    have clause : related (Execution.runAll world limit (clauseBody (.node id shape below)))
        (Execution.runAll world limit' ((clauseBody (.node id shape below)).map Tree.bare)) := by
      refine statements _ fun tree member => ?_
      cases shape
      case clause =>
        cases below with
        | nil => cases member
        | cons first rest => exact List.mem_cons_of_mem first member
      all_goals cases member
    refine ⟨fun labels => ?_, clause⟩
    rw [bare_node] at noted ⊢
    cases shape
    case block => exact statements below fun _ member => member
    case conditionalStatement =>
      rcases below with _ | ⟨condition, _ | ⟨thenBody, _ | ⟨elseBody, _ | ⟨_, _⟩⟩⟩⟩
      case cons.cons.cons.nil =>
        show related (Execution.test world condition _) (Execution.test world condition.bare _)
        rw [test_bare]
        refine closed.test condition fun holds => ?_
        cases holds with
        | true => exact (inner thenBody (by simp)).1 []
        | false => exact (inner elseBody (by simp)).1 []
      all_goals exact noted
    case loop kind _ _ _ _ =>
      rcases below with
        _ | ⟨initializer, _ | ⟨condition, _ | ⟨incrementor, _ | ⟨body, _ | ⟨_, _⟩⟩⟩⟩⟩
      case cons.cons.cons.cons.nil =>
        have tests : ∀ {next next' : Bool → Behaviour},
            (∀ holds, related (next holds) (next' holds)) →
              related (Execution.test world condition next)
                (Execution.test world condition.bare next') := by
          intro next next' each
          rw [test_bare]
          exact closed.test condition each
        have bodies := (inner body (by simp)).1 []
        have updates : ∀ tree ∈ [initializer, condition, incrementor, body],
            related (Execution.noteIfAny world tree) (Execution.noteIfAny world tree.bare) := by
          intro tree member
          rw [noteIfAny_bare]
          exact closed.noteIfAny tree (doneBelow tree member)
        cases kind with
        | doLoop =>
          refine closed.andThen bodies fun completion => ?_
          split
          · exact closed.cycle bounds tests bodies (closed.done .normal)
          · exact closed.done _
        | forLoop =>
          exact closed.seq (updates initializer (by simp))
            (closed.cycle bounds tests bodies (updates incrementor (by simp)))
        | whileLoop =>
          exact closed.seq (updates initializer (by simp))
            (closed.cycle bounds tests bodies (updates incrementor (by simp)))
      all_goals cases kind <;> exact noted
    case forIn =>
      rcases below with _ | ⟨initializer, _ | ⟨expression, _ | ⟨body, _ | ⟨_, _⟩⟩⟩⟩
      case cons.cons.cons.nil =>
        have tests : ∀ {next next' : Bool → Behaviour},
            (∀ holds, related (next holds) (next' holds)) →
              related (world.ask initializer next) (world.ask initializer.bare next') := by
          intro next next' each
          rw [ask_bare]
          exact closed.ask each
        refine closed.seq ?_ (closed.cycle bounds tests ((inner body (by simp)).1 [])
          (closed.done .normal))
        rw [noteIfAny_bare]
        exact closed.noteIfAny expression (doneBelow expression (by simp))
      all_goals exact noted
    case switch =>
      cases below with
      | nil => exact noted
      | cons discriminant clauses =>
        refine closed.andThen ?_ fun completion => closed.done _
        rw [select_bare]
        refine closed.select discriminant (doneBelow discriminant List.mem_cons_self) clauses fun place => ?_
        exact closed.runFrom (fun clause member => (inner clause (List.mem_cons_of_mem _ member)).2)
          place
    case exit => exact closed.seq noted (closed.done _)
    case jump =>
      rcases below with _ | ⟨label, _ | ⟨_, _⟩⟩
      case cons.nil =>
        show related _ (Execution.done _)
        rw [labelText_bare]
        exact closed.done _
      all_goals exact noted
    case labeled =>
      rcases below with _ | ⟨label, _ | ⟨statement, _ | ⟨_, _⟩⟩⟩
      case cons.cons.nil =>
        show related (Execution.andThen (run world limit statement _) _)
          (Execution.andThen (run world limit' statement.bare _) _)
        rw [labelText_bare]
        exact closed.andThen ((inner statement (by simp)).1 _) fun completion => closed.done _
      all_goals exact noted
    case tryStatement =>
      rcases below with _ | ⟨body, _ | ⟨handler, _ | ⟨finalizer, _ | ⟨_, _⟩⟩⟩⟩
      case cons.cons.cons.nil =>
        refine closed.andThen (closed.andThen ((inner body (by simp)).1 []) fun completion => ?_)
          fun completion => closed.seq ((inner finalizer (by simp)).1 []) (closed.done completion)
        split
        · cases handler with
          | nothing => exact closed.done .throws
          | node id shape below => exact (inner (.node id shape below) (by simp)).1 []
        · exact closed.done completion
      all_goals exact noted
    case catchClause =>
      rcases below with _ | ⟨name, _ | ⟨body, _ | ⟨_, _⟩⟩⟩
      case cons.cons.nil => exact (inner body (by simp)).1 []
      all_goals exact noted
    all_goals exact noted

end Run

end Congruence

/-! ## What a run depends on -/

section Runs
variable {world : World} {limit limit' : Nat} {tree other : Tree} {trees others : List Tree}

theorem congruence_eq (world : World) : Congruence world (fun _ => True) Eq where
  done _ := rfl
  note _ _ := rfl
  ask each := by rw [funext each]
  known _ _ _ each := by rw [funext each]
  andThen one two := by rw [one, funext two]

theorem congruence_approximates (world : World) :
    Congruence world (fun _ => True) fun first second => Approximates first second ∧ Adds second where
  done completion := ⟨.refl _, adds_done completion⟩
  note tree _ := ⟨.refl _, adds_note world tree⟩
  ask each := ⟨approximates_ask fun holds => (each holds).1, adds_ask fun holds => (each holds).2⟩
  known _ _ _ each := ⟨fun state => (each _).1 state, fun state => (each _).2 state⟩
  andThen one two := ⟨approximates_andThen one.1 (fun completion => (two completion).1)
    fun completion => (two completion).2, adds_andThen one.2 fun completion => (two completion).2⟩

/-- A run does not depend on the names of nodes. -/
theorem run_bare (tree : Tree) (labels : List String) :
    run world limit tree.bare labels = run world limit tree labels :=
  (((congruence_eq world).run_bare (.inl rfl) tree fun _ _ => trivial).1 labels).symm

theorem runAll_bare (trees : List Tree) :
    runAll world limit (trees.map Tree.bare) = runAll world limit trees :=
  ((congruence_eq world).runAll fun tree _ =>
    ((congruence_eq world).run_bare (.inl rfl) tree fun _ _ => trivial).1).symm

theorem runAll_eq_of_bare (same : trees.map Tree.bare = others.map Tree.bare) :
    runAll world limit trees = runAll world limit others := by
  rw [← runAll_bare, same, runAll_bare]

theorem run_approximates (less : limit ≤ limit') (tree : Tree) (labels : List String) :
    Approximates (run world limit tree labels) (run world limit' tree labels) ∧
      Adds (run world limit' tree labels) := by
  have related := ((congruence_approximates world).run_bare
    (.inr ⟨less, fun both => ⟨approximates_pending both.2, both.2⟩⟩) tree fun _ _ => trivial).1 labels
  rwa [run_bare] at related

theorem runAll_approximates (less : limit ≤ limit') (trees : List Tree) :
    Approximates (runAll world limit trees) (runAll world limit' trees) ∧
      Adds (runAll world limit' trees) := by
  have related := (congruence_approximates world).runAll fun tree (_ : tree ∈ trees) =>
    ((congruence_approximates world).run_bare
      (.inr ⟨less, fun both => ⟨approximates_pending both.2, both.2⟩⟩) tree fun _ _ => trivial).1
  rwa [runAll_bare] at related

end Runs

/-! ## Lists of statements -/

section Lists
variable (world : World) (limit : Nat)

theorem seq_assoc (first second third : Behaviour) :
    seq (seq first second) third = seq first (seq second third) := by
  funext state
  unfold seq andThen
  cases first state with
  | mk completion after => cases completion <;> rfl

theorem seq_done_right (behaviour : Behaviour) : seq behaviour (done .normal) = behaviour := by
  funext state
  unfold seq andThen
  cases behaviour state with
  | mk completion after => cases completion <;> rfl

theorem runAll_append (first second : List Tree) :
    runAll world limit (first ++ second) =
      seq (runAll world limit first) (runAll world limit second) := by
  induction first with
  | nil => rfl
  | cons tree rest ih => rw [List.cons_append, runAll, runAll, ih, seq_assoc]

theorem runAll_singleton (tree : Tree) : runAll world limit [tree] = run world limit tree [] :=
  seq_done_right _

end Lists

end Unflatten.Execution
