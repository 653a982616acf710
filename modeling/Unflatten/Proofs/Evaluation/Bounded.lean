import Unflatten.Proofs.Evaluation.Interpreting
import Unflatten.Proofs.Parser.Grammar

/-! # The bound on the depth of evaluation

The evaluator gives the value of an expression that there is without a bound (`Tree.value`), unless
the part that is evaluated nests too deep.  How deep it nests is recorded by a `Trace`, an evaluation
without a bound as well.

An `Evaluator` keeps the names and the depth in its state, where each expression counts the depth up
and down again.  It leaves both as they were, whether there is a value or an error. -/

set_option autoImplicit false

namespace Unflatten

/-! ## Without a bound -/

namespace Environment

def isBound (environment : Environment) (name : String) : Bool :=
  (environment.evaluateName name).toBool

/-- Evaluates with no bound on the depth. -/
def interpreter (environment : Environment) : Interpreter (Except EvalError Value) where
  give result := result
  find := environment.evaluateName
  ifBound name rest := if environment.isBound name then rest else .ok (.string "undefined")
  next := Except.bind
  enter result := result

end Environment

/-- The value of an expression, however deep it nests. -/
def Tree.value (tree : Tree) (environment : Environment) : Except EvalError Value :=
  tree.interpret environment.interpreter

/-! ## Traces -/

/-- A result, with the number of expressions on the longest way down through those that were
evaluated, and the names whose type was asked for. -/
structure Trace where
  levels : Nat
  asked : List String
  result : Except EvalError Value

namespace Trace

def next (first : Trace) (goOn : Value → Trace) : Trace :=
  match first.result with
  | .ok value =>
    let second := goOn value
    ⟨max first.levels second.levels, first.asked ++ second.asked, second.result⟩
  | .error _ => first

def interpreter (environment : Environment) : Interpreter Trace where
  give result := ⟨0, [], result⟩
  find name := ⟨0, [], environment.evaluateName name⟩
  ifBound name rest :=
    if environment.isBound name then { rest with asked := name :: rest.asked }
    else ⟨0, [name], .ok (.string "undefined")⟩
  next := next
  enter trace := { trace with levels := trace.levels + 1 }

/-- What is left of a result if expressions may nest to some depth only. -/
def cut (trace : Trace) (depth : Nat) : Except EvalError Value :=
  if trace.levels ≤ depth then trace.result else .error (.depthExceeded maxEvaluationDepth)

end Trace

/-- What happens when an expression is evaluated. -/
def Tree.trace (tree : Tree) (environment : Environment) : Trace :=
  tree.interpret (Trace.interpreter environment)

section Trace
variable {store : Store} {tree : Tree} {environment : Environment} {depth : Nat}

theorem Trace.relates_result (environment : Environment) :
    Interpreter.Relates (fun trace result => trace.result = result) (fun _ => True)
      (interpreter environment) environment.interpreter := by
  refine ⟨fun _ _ => rfl, fun _ _ => rfl, ?_, ?_⟩
  · rintro name rest _ - rfl
    simp only [interpreter, Environment.interpreter]
    split <;> rfl
  · rintro first _ goOn goOn' rfl each
    simp only [interpreter, Environment.interpreter, next, Except.bind]
    split
    · rename_i value found
      rw [found]
      exact each value
    · rename_i error found
      rw [found]

/-- The result at the end of a trace is the value without a bound. -/
theorem Tree.result_trace (tree : Tree) (environment : Environment) :
    (tree.trace environment).result = tree.value environment :=
  interpret_relates (fun _ => Trace.relates_result environment) (fun _ _ _ same => same) tree
    (fun _ _ => trivial) 0

theorem Environment.relates_isUnlimited (environment : Environment) :
    Interpreter.Relates (fun result _ => IsUnlimited result) (fun _ => True)
      environment.interpreter environment.interpreter := by
  refine ⟨fun _ unlimited => unlimited, fun name _ => environment.isUnlimited_evaluateName name, ?_, ?_⟩
  · intro name rest _ _ unlimited
    simp only [interpreter]
    split
    · exact unlimited
    · exact isUnlimited_ok _
  · intro first _ goOn _ unlimited each
    cases first with
    | ok value => exact each value
    | error error => exact fun limit same => unlimited limit (by cases same; rfl)

/-- No value without a bound fails for its depth. -/
theorem Tree.isUnlimited_value (tree : Tree) (environment : Environment) :
    IsUnlimited (tree.value environment) :=
  interpret_relates (fun _ => environment.relates_isUnlimited) (fun _ _ _ unlimited => unlimited) tree
    (fun _ _ => trivial) 0

theorem Tree.levels_trace_pos (tree : Tree) (environment : Environment) :
    0 < (tree.trace environment).levels := by
  cases tree with
  | nothing => exact Nat.zero_lt_one
  | node id shape below =>
    rw [trace, interpret_node]
    exact Nat.succ_pos _

namespace Trace

/-- A result for which no expression was entered fits any depth. -/
theorem cut_flat (asked : List String) (result : Except EvalError Value) (depth : Nat) :
    (Trace.mk 0 asked result).cut depth = result := if_pos (Nat.zero_le depth)

theorem cut_enter (trace : Trace) (depth : Nat) :
    ((interpreter environment).enter trace).cut (depth + 1) = trace.cut depth := by
  simp only [interpreter, cut, Nat.add_le_add_iff_right]

theorem cut_next (first : Trace) (goOn : Value → Trace) (depth : Nat) :
    (first.next goOn).cut depth = (first.cut depth).bind fun value => (goOn value).cut depth := by
  by_cases deep : first.levels ≤ depth
  · cases found : first.result with
    | ok value => simp only [next, found, cut, max_le_iff, deep, true_and, if_true, Except.bind]
    | error error => simp only [next, found, cut, deep, if_true, Except.bind]
  · have deeper : ¬ (first.next goOn).levels ≤ depth := by
      unfold next
      split
      · exact fun fits => deep (Nat.le_trans (Nat.le_max_left _ _) fits)
      · exact deep
    simp only [cut, deep, deeper, if_false, Except.bind]

/-- An evaluation that is bounded by some depth and one that is traced. -/
theorem relates_cut (environment : Environment) (depth : Nat) :
    Interpreter.Relates (fun result trace => result = trace.cut depth) (fun _ => True)
      environment.interpreter (interpreter environment) := by
  refine ⟨fun result _ => ?_, fun name _ => ?_, ?_, ?_⟩
  · exact (cut_flat [] result depth).symm
  · exact (cut_flat [] _ depth).symm
  · rintro name _ rest - rfl
    simp only [Environment.interpreter, interpreter]
    split
    · rfl
    · exact (cut_flat [name] _ depth).symm
  · rintro _ first goOn goOn' rfl each
    change (first.cut depth).bind goOn = (first.next goOn').cut depth
    rw [cut_next]
    exact congrArg _ (funext each)

end Trace

/-! ## With a bound -/

theorem Store.UnfoldsTo.identifier? (unfolds : store.UnfoldsTo tree) :
    store.identifier? tree.root = tree.name? := by
  cases unfolds with
  | nothing => rfl
  | @node id shape below found =>
    rw [Tree.root_node, Store.identifier?, found]
    cases shape <;> rfl

theorem evaluateWithin_sequence (store : Store) (environment : Environment) (depth : Nat)
    (items : List Tree) (last : Value) :
    (items.map Tree.root).foldlM (fun _ item => evaluateWithin store environment depth item) last =
      environment.interpreter.sequence
        (Tree.operands (fun part => evaluateWithin store environment depth part.root) items) last := by
  induction items generalizing last with
  | nil => rfl
  | cons item rest ih =>
    rw [List.map_cons, List.foldlM_cons]
    exact bind_congr fun value => ih value

/-- With one level more, an expression is evaluated by its parts. -/
theorem evaluateWithin_node {id : NodeId} {shape : Shape} {below : List Tree}
    (unfolds : store.UnfoldsTo (.node id shape below)) (environment : Environment) (depth : Nat) :
    evaluateWithin store environment (depth + 1) (some id) =
      environment.interpreter.node shape
        (Tree.operands (fun part => evaluateWithin store environment depth part.root) below) := by
  cases unfolds with
  | node found regular roots inner =>
    rw [evaluateWithin, found]
    cases shape
    case literal kind text value => cases kind <;> cases value <;> rfl
    case token kind => cases kind <;> rfl
    case unary isUpdateAfter operator operand =>
      obtain ⟨part, rfl, rfl⟩ := Tree.one_of_roots roots
      cases isUpdateAfter with
      | true => rfl
      | false =>
        have named := (inner part List.mem_cons_self).identifier?
        simp only [named]
        cases operator
        case typeOfKeyword =>
          cases spelled : part.name? with
          | none =>
            simp only [Tree.operands, List.map_cons, List.map_nil, Interpreter.node, spelled]
            rfl
          | some name =>
            have same : (!(environment.evaluateName name).toBool) = !environment.isBound name := rfl
            simp only [Tree.operands, List.map_cons, List.map_nil, Interpreter.node, spelled, same,
              beq_self_eq_true, Bool.true_and]
            cases bound : environment.isBound name
            · exact (if_neg (by rw [bound]; exact Bool.false_ne_true)).symm
            · exact (if_pos bound).symm
        all_goals rfl
    case binary left operator right =>
      obtain ⟨first, second, rfl, rfl, rfl⟩ := Tree.two_of_roots roots
      simp only [Tree.operands, List.map_cons, List.map_nil, Interpreter.node]
      split
      · rfl
      · rfl
    case conditional condition whenTrue whenFalse =>
      obtain ⟨first, second, third, rfl, rfl, rfl, rfl⟩ := Tree.three_of_roots roots
      rfl
    case elements kind items =>
      cases kind
      case sequence =>
        have slots : items = below.map Tree.root := roots
        rw [slots]
        exact evaluateWithin_sequence store environment depth below .undefined
      all_goals rfl
    all_goals rfl

/-- The bounded value is what is left of a trace. -/
theorem evaluateWithin_eq_cut (unfolds : store.UnfoldsTo tree) (environment : Environment)
    (depth : Nat) :
    evaluateWithin store environment depth tree.root = (tree.trace environment).cut depth := by
  induction depth generalizing tree with
  | zero => exact (if_neg (Nat.not_le.mpr (tree.levels_trace_pos environment))).symm
  | succ depth ih =>
    cases tree with
    | nothing => exact (if_pos (Nat.le_add_left 1 depth)).symm
    | node id shape below =>
      have each : ∀ part ∈ below, evaluateWithin store environment depth part.root =
          (part.trace environment).cut depth := by
        intro part member
        cases unfolds with
        | node _ _ _ inner => exact ih (inner part member)
      rw [Tree.root_node, evaluateWithin_node unfolds, Tree.trace, Tree.interpret_node, Trace.cut_enter]
      exact (Trace.relates_cut environment depth).node each (fun _ _ => trivial)
        fun _ _ _ _ => trivial

end Trace

/-! ## Counting the depth -/

/-- What an evaluator keeps from one evaluation to the next. -/
structure Evaluator where
  environment : Environment
  depth : Nat

namespace Evaluator

/-- An expression is evaluated one level down, and when that is done, with or without a value, the
evaluator is a level up again. -/
def deeper (run : Evaluator → Except EvalError Value × Evaluator) (evaluator : Evaluator) :
    Except EvalError Value × Evaluator :=
  if maxEvaluationDepth ≤ evaluator.depth then
    (.error (.depthExceeded maxEvaluationDepth), evaluator)
  else
    let (result, after) := run { evaluator with depth := evaluator.depth + 1 }
    (result, { after with depth := after.depth - 1 })

def interpreter : Interpreter (Evaluator → Except EvalError Value × Evaluator) where
  give result := fun evaluator => (result, evaluator)
  find name := fun evaluator => (evaluator.environment.evaluateName name, evaluator)
  ifBound name rest := fun evaluator =>
    if evaluator.environment.isBound name then rest evaluator
    else (.ok (.string "undefined"), evaluator)
  next first goOn := fun evaluator =>
    match first evaluator with
    | (.ok value, after) => goOn value after
    | (.error error, after) => (.error error, after)
  enter := deeper

/-- The value of an expression, and the evaluator afterwards. -/
def evaluate (evaluator : Evaluator) (tree : Tree) : Except EvalError Value × Evaluator :=
  tree.interpret interpreter evaluator

/-- An evaluator in some depth does what is traced, and is what it was before. -/
def Follows (environment : Environment) (depth : Nat)
    (run : Evaluator → Except EvalError Value × Evaluator) (trace : Trace) : Prop :=
  run ⟨environment, depth⟩ = (trace.cut (maxEvaluationDepth - depth), ⟨environment, depth⟩)

section Follows
variable {environment : Environment} {depth : Nat}
  {run : Evaluator → Except EvalError Value × Evaluator} {trace : Trace}

theorem Follows.deeper (follows : Follows environment (depth + 1) run trace) :
    Follows environment depth (deeper run) ((Trace.interpreter environment).enter trace) := by
  unfold Follows Evaluator.deeper
  split
  · rename_i full
    have none : ¬ ((Trace.interpreter environment).enter trace).levels ≤ 0 :=
      Nat.not_succ_le_zero trace.levels
    rw [Nat.sub_eq_zero_of_le full, Trace.cut, if_neg none]
  · rename_i less
    have left : maxEvaluationDepth - depth = maxEvaluationDepth - (depth + 1) + 1 := by
      simp only at less
      omega
    rw [follows, left, Trace.cut_enter]
    rfl

theorem relates_follows (environment : Environment) (depth : Nat) :
    Interpreter.Relates (Follows environment depth) (fun _ => True) interpreter
      (Trace.interpreter environment) := by
  refine ⟨fun result _ => ?_, fun name _ => ?_, ?_, ?_⟩
  · exact congrArg (·, _) (Trace.cut_flat [] result (maxEvaluationDepth - depth)).symm
  · exact congrArg (·, _) (Trace.cut_flat [] _ (maxEvaluationDepth - depth)).symm
  · intro name rest trace _ follows
    simp only [Follows, interpreter, Trace.interpreter]
    split
    · exact follows
    · exact congrArg (·, _) (Trace.cut_flat [name] _ (maxEvaluationDepth - depth)).symm
  · intro first trace goOn goOn' follows each
    change interpreter.next first goOn ⟨environment, depth⟩ =
      ((trace.next goOn').cut (maxEvaluationDepth - depth), ⟨environment, depth⟩)
    simp only [interpreter]
    rw [follows, Trace.cut_next]
    cases trace.cut (maxEvaluationDepth - depth) with
    | ok value => exact each value
    | error error => rfl

end Follows

/-- The evaluator gives the value within the depth that is left, and is what it was before. -/
theorem evaluate_eq {store : Store} {tree : Tree} (unfolds : store.UnfoldsTo tree)
    (evaluator : Evaluator) :
    evaluator.evaluate tree = (evaluateWithin store evaluator.environment
      (maxEvaluationDepth - evaluator.depth) tree.root, evaluator) := by
  rw [evaluateWithin_eq_cut unfolds]
  exact Tree.interpret_relates (relates_follows evaluator.environment) (fun _ _ _ => Follows.deeper)
    tree (fun _ _ => trivial) evaluator.depth

end Evaluator

/-! ## What is evaluated -/

theorem Trace.relates_eq {environment other : Environment} {known : String → Prop}
    (same : ∀ name, known name → other.value? name = environment.value? name) :
    Interpreter.Relates (fun first second => first = second) known (interpreter other)
      (interpreter environment) := by
  have found : ∀ name, known name → other.evaluateName name = environment.evaluateName name := by
    intro name mentioned
    unfold Environment.evaluateName
    rw [same name mentioned]
  refine ⟨fun _ _ => rfl, fun name mentioned => ?_, ?_, ?_⟩
  · exact congrArg (Trace.mk 0 []) (found name mentioned)
  · rintro name rest _ mentioned rfl
    simp only [interpreter, Environment.isBound, found name mentioned]
    rfl
  · rintro first _ goOn goOn' rfl each
    exact congrArg _ (funext each)

/-- The value depends on the names in the expression only. -/
theorem Tree.trace_congr {tree : Tree} {environment other : Environment}
    (same : ∀ name, tree.Mentions name → other.value? name = environment.value? name) :
    tree.trace other = tree.trace environment :=
  interpret_relates (fun _ => Trace.relates_eq same) (fun _ _ _ => congrArg _) tree
    (fun _ mentioned => mentioned) 0

/-- Evaluation goes too deep, or it gives the value or the error that there is without a bound.  It
goes too deep exactly if the evaluated part of the expression nests as deep as the bound or deeper:
then the longest way down has more expressions.  In any depth, and whatever the result, names and
depth are afterwards what they were before.  Only names in the expression matter. -/
theorem evaluate_refines {store : Store} {tree : Tree} (unfolds : store.UnfoldsTo tree)
    (environment : Environment) :
    (evaluate store environment tree.root = .error (.depthExceeded maxEvaluationDepth) ∨
      evaluate store environment tree.root = tree.value environment) ∧
    (evaluate store environment tree.root = .error (.depthExceeded maxEvaluationDepth) ↔
      maxEvaluationDepth < (tree.trace environment).levels) ∧
    (∀ depth, (Evaluator.mk environment depth).evaluate tree =
      (evaluateWithin store environment (maxEvaluationDepth - depth) tree.root,
        ⟨environment, depth⟩)) ∧
    ∀ other : Environment,
      (∀ name, tree.Mentions name → other.value? name = environment.value? name) →
        evaluate store other tree.root = evaluate store environment tree.root := by
  have cut : ∀ environment, evaluate store environment tree.root =
      (tree.trace environment).cut maxEvaluationDepth :=
    fun environment => evaluateWithin_eq_cut unfolds environment maxEvaluationDepth
  refine ⟨?_, ?_, fun depth => Evaluator.evaluate_eq unfolds ⟨environment, depth⟩, fun other same => ?_⟩
  · rw [cut, ← tree.result_trace, Trace.cut]
    split
    · exact .inr rfl
    · exact .inl rfl
  · rw [cut, Trace.cut]
    split
    · rename_i shallow
      rw [tree.result_trace]
      exact ⟨fun exceeded => absurd exceeded (tree.isUnlimited_value environment _),
        fun deep => absurd shallow (Nat.not_le.mpr deep)⟩
    · rename_i deep
      exact ⟨fun _ => Nat.not_le.mp deep, fun _ => rfl⟩
  · rw [cut, cut, Tree.trace_congr same]

/-- The type of an unbound name is found without a look at the operand: two levels are enough, one is
not, and a binding that another hides is of no consequence. -/
theorem evaluate_type_of_unbound :
    let program := parse "s && typeof t;".toList
    let tree := program.store.treeAt 4 (some 3)
    let environment : Environment := [("s", .string "a")]
    program.store.UnfoldsTo tree ∧ (tree.trace environment).levels = 2 ∧
      evaluate program.store environment tree.root = tree.value environment ∧
      ((tree.value environment).map Value.toText).toOption = some "undefined" ∧
      (Evaluator.mk environment 255).evaluate tree =
        (.error (.depthExceeded maxEvaluationDepth), ⟨environment, 255⟩) ∧
      evaluate program.store [("s", .string "a"), ("s", .null)] tree.root = tree.value environment := by
  intro program tree environment
  have unfolds : program.store.UnfoldsTo tree :=
    (Store.treeAt_isGrown (by decide +kernel)).1.unfoldsTo
  have levels : (tree.trace environment).levels = 2 := by decide +kernel
  obtain ⟨either, exceeds, restored, depends⟩ := evaluate_refines unfolds environment
  have value : evaluate program.store environment tree.root = tree.value environment :=
    either.resolve_left fun exceeded => absurd (exceeds.mp exceeded) (by rw [levels]; decide)
  have shadowed : evaluate program.store [("s", .string "a"), ("s", .null)] tree.root =
      evaluate program.store environment tree.root :=
    depends _ fun name _ => by
      simp only [Environment.value?, environment, List.lookup]
      split <;> rfl
  refine ⟨unfolds, levels, value, by decide +kernel, ?_, shadowed.trans value⟩
  rw [restored, evaluateWithin_eq_cut unfolds, Trace.cut, levels]
  rfl

end Unflatten

/-! ## Evaluation with more names

Whoever asks for a value binds the names that are known, and there are others in a running program.
A value found with some names is found with more of them too, with one exception: the type of a name
without a value is `undefined`, and that of a name that was merely left out may be another. -/

namespace Unflatten

namespace Environment

/-- Some further names have a value.  None of them is one of those that have a value without a
binding. -/
structure Extends (larger smaller : Environment) : Prop where
  keeps : ∀ name value, smaller.value? name = some value → larger.value? name = some value
  added : ∀ name ∈ ["undefined", "NaN", "Infinity"], smaller.value? name = none →
    larger.value? name = none

section Extends
variable {smaller larger : Environment} {name : String}

theorem evaluateName_of_unbound (unbound : smaller.value? name = none)
    (missing : larger.value? name = none) : larger.evaluateName name = smaller.evaluateName name := by
  unfold evaluateName
  rw [unbound, missing]

theorem evaluateName_of_other (unbound : smaller.value? name = none)
    (other : name ∉ ["undefined", "NaN", "Infinity"]) :
    smaller.evaluateName name = .error (.unboundName name) := by
  unfold evaluateName
  rw [unbound]
  simp only
  split
  · exact absurd (by decide) other
  · exact absurd (by decide) other
  · exact absurd (by decide) other
  · rfl

/-- A name that has a value has the same with more names. -/
theorem Extends.evaluateName {value : Value} (further : larger.Extends smaller)
    (found : smaller.evaluateName name = .ok value) : larger.evaluateName name = .ok value := by
  cases bound : smaller.value? name with
  | some value' =>
    have same : smaller.evaluateName name = .ok value' := by
      unfold Environment.evaluateName
      rw [bound]
    unfold Environment.evaluateName
    rw [further.keeps name value' bound, ← found, same]
  | none =>
    by_cases special : name ∈ ["undefined", "NaN", "Infinity"]
    · exact (evaluateName_of_unbound bound (further.added name special bound)).trans found
    · rw [evaluateName_of_other bound special] at found
      cases found

/-- Whether a name has a value is the same with more names, unless it is one of these. -/
theorem Extends.isBound (further : larger.Extends smaller)
    (known : smaller.value? name = none → larger.value? name = none) :
    larger.isBound name = smaller.isBound name := by
  unfold Environment.isBound
  cases found : smaller.evaluateName name with
  | ok value => rw [further.evaluateName found]
  | error error =>
    cases bound : smaller.value? name with
    | none => rw [evaluateName_of_unbound bound (known bound), found]
    | some value =>
      unfold Environment.evaluateName at found
      rw [bound] at found
      cases found

end Extends

end Environment

/-! ## Values that stay -/

section Stays
variable {store : Store} {tree : Tree} {smaller larger : Environment}

/-- A trace that ends with a value stays the same with more names, if the same of the names whose
type it asks for have one. -/
def Trace.Stays (smaller larger : Environment) (first second : Trace) : Prop :=
  (∀ name ∈ first.asked, larger.isBound name = smaller.isBound name) →
    ∀ value, first.result = .ok value → second = first

theorem Trace.relates_stays (further : larger.Extends smaller) :
    Interpreter.Relates (Stays smaller larger) (fun _ => True) (interpreter smaller)
      (interpreter larger) := by
  refine ⟨fun _ _ _ _ _ => rfl, fun name _ _ value found => ?_, ?_, ?_⟩
  · exact congrArg (Trace.mk 0 []) ((further.evaluateName found).trans found.symm)
  · intro name first second _ stays same value found
    cases bound : smaller.isBound name with
    | true =>
      simp only [interpreter, bound, if_true] at same found ⊢
      rw [same name List.mem_cons_self, if_pos bound,
        stays (fun other member => same other (List.mem_cons_of_mem name member)) value found]
    | false =>
      simp only [interpreter, bound, Bool.false_eq_true, if_false] at same ⊢
      rw [same name List.mem_cons_self, bound, if_neg Bool.false_ne_true]
  · intro first second goOn goOn' stays each same value found
    simp only [interpreter, next] at same found ⊢
    cases ended : first.result with
    | error error =>
      rw [ended] at found
      cases ended.symm.trans found
    | ok value' =>
      simp only [ended] at same found
      rw [stays (fun name member => same name (List.mem_append_left _ member)) value' ended, ended]
      simp only
      rw [each value' (fun name member => same name (List.mem_append_right _ member)) value found]

theorem Tree.trace_stays (further : larger.Extends smaller) (tree : Tree) :
    (tree.trace smaller).Stays smaller larger (tree.trace larger) :=
  interpret_relates (fun _ => Trace.relates_stays further)
    (fun _ _ _ stays same value found => congrArg _ (stays same value found)) tree (fun _ _ => trivial) 0

/-- A value that was found with some names is found with more, unless the type of one of those that
were added was asked for. -/
theorem evaluate_extends (unfolds : store.UnfoldsTo tree) (further : larger.Extends smaller)
    (untyped : ∀ name ∈ (tree.trace smaller).asked, smaller.value? name = none →
      larger.value? name = none)
    {value : Value} (decided : evaluate store smaller tree.root = .ok value) :
    evaluate store larger tree.root = .ok value := by
  have cut := fun environment => evaluateWithin_eq_cut unfolds environment maxEvaluationDepth
  have result : (tree.trace smaller).result = .ok value := by
    rw [evaluate, cut, Trace.cut] at decided
    split at decided
    · exact decided
    · cases decided
  have same : tree.trace larger = tree.trace smaller :=
    tree.trace_stays further (fun name asked => further.isBound (untyped name asked)) value result
  rw [← decided, evaluate, evaluate, cut, cut, same]

end Stays

/-- Whether a result is some text. -/
def Value.isText (text : String) : Except EvalError Value → Bool
  | .ok (.string other) => other == text
  | _ => false

theorem Value.eq_of_isText {text : String} {result : Except EvalError Value}
    (same : isText text result = true) : result = .ok (.string text) := by
  unfold isText at same
  split at same
  · rw [eq_of_beq same]
  · cases same

/-- The type of a name that stays unbound is asked for, and a name that is not in the expression is
added. -/
theorem evaluate_extends_by_another :
    let program := parse "s && typeof t;".toList
    let tree := program.store.treeAt 4 (some 3)
    let smaller : Environment := [("s", .string "a")]
    let larger : Environment := smaller ++ [("u", .null)]
    program.store.UnfoldsTo tree ∧ larger.Extends smaller ∧ (tree.trace smaller).asked = ["t"] ∧
      evaluate program.store smaller tree.root = .ok (.string "undefined") ∧
      evaluate program.store larger tree.root = .ok (.string "undefined") := by
  intro program tree smaller larger
  have unfolds : program.store.UnfoldsTo tree :=
    (Store.treeAt_isGrown (by decide +kernel)).1.unfoldsTo
  have further : larger.Extends smaller := by
    refine ⟨fun name value bound => ?_, by decide +kernel⟩
    rw [Environment.value?, List.lookup_append, ← Environment.value?, bound]
    rfl
  have asked : (tree.trace smaller).asked = ["t"] := by decide +kernel
  have decided : evaluate program.store smaller tree.root = .ok (.string "undefined") :=
    Value.eq_of_isText (by decide +kernel)
  refine ⟨unfolds, further, asked, decided, evaluate_extends unfolds further ?_ decided⟩
  rw [asked]
  decide +kernel

/-- A name that has no value with some names may have one with more, and then its type is another. -/
theorem type_of_added_name :
    let program := parse "typeof x;".toList
    Environment.Extends [("x", .number 5)] [] ∧
      evaluate program.store [] (some 1) = .ok (.string "undefined") ∧
      evaluate program.store [("x", .number 5)] (some 1) = .ok (.string "number") := by
  exact ⟨⟨nofun, by decide +kernel⟩, Value.eq_of_isText (by decide +kernel),
    Value.eq_of_isText (by decide +kernel)⟩

end Unflatten
