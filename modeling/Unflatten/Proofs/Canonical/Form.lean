import Unflatten.Proofs.Canonical.Normalizing
import Unflatten.Proofs.Canonical.Weighing
import Unflatten.Proofs.Parser.Grammar

/-! # The canonical form

Where no rule has anything to change, the program is in canonical form, and it stays as it is
however often it is normalized.  A round that reports no change has tried every rule at every
node of the tree, and has left the store alone. -/

set_option autoImplicit false

namespace Unflatten

open Store

/-! ## What is canonical -/

namespace Store

/-- A node is in canonical form: its bodies are blocks, a clause holds one block, a statement is no
expression that could be statements, and no block stands in the list without need. -/
structure IsCanonicalAt (store : Store) (id : NodeId) : Prop where
  bodies : ∀ shape, store.shape? (some id) = some shape → ∀ body ∈ Canonical.bodies shape,
    body.isSome = true → store.satisfies body Shape.isBlock = true
  clause : ∀ isDefault label statements,
    store.shape? (some id) = some (.clause isDefault label statements) →
      ∃ block, statements = [block] ∧ store.satisfies block Shape.isBlock = true
  noSequence : ∀ expression, store.shape? (some id) = some (.expressionStatement expression) →
    ∀ items, store.shape? expression ≠ some (.elements .sequence items)
  noConditional : ∀ expression, store.shape? (some id) = some (.expressionStatement expression) →
    ∀ test whenTrue whenFalse, store.shape? expression ≠ some (.conditional test whenTrue whenFalse)
  noAnd : ∀ expression, store.shape? (some id) = some (.expressionStatement expression) →
    ∀ left right, store.shape? expression ≠ some (.binary left .ampersandAmpersand right)
  test : ∀ test thenBody elseBody,
    store.shape? (some id) = some (.conditionalStatement test thenBody elseBody) →
      (store.position? (some id)).isSome = true →
        ∀ items, store.shape? test ≠ some (.elements .sequence items)
  result : ∀ value, store.shape? (some id) = some (.exit .returns value) →
    (store.position? (some id)).isSome = true →
      ∀ items, store.shape? value ≠ some (.elements .sequence items)
  nested : ∀ shape statements, store.shape? (some id) = some shape → shape.isList = true →
    shape.statements? = some statements → ∀ statement ∈ statements, ∀ inner,
      store.shape? statement = some (.block inner) → ∃ declaring ∈ inner, ∃ declarations,
        store.shape? declaring = some (.declarationList true declarations) ∧
          (store.flags declaring).isBlockScoped = true

/-- All nodes under the root are in canonical form. -/
def IsCanonical (store : Store) (root : NodeId) : Prop :=
  ∀ id ∈ store.descendants (some root), store.IsCanonicalAt id

/-- No rule changes anything at a node of the program. -/
def IsAtRest (store : Store) (root : NodeId) : Prop :=
  ∀ (rule : Rule) (id : NodeId), store.isAttached root (some id) = true →
    (rule.rewrite store id).2 ≠ .changed

section Canonical
variable {store : Store} {root id : NodeId} {tree : Tree}

theorem Taken.still {result : Store × Outcome} {rule : Rule} {settled : Prop}
    (taken : store.Taken result tree rule settled) (unchanged : result.2 ≠ .changed) :
    result.1 = store ∧ settled := by
  rcases taken with ⟨-, -, changed⟩ | ⟨same, -, settles⟩
  · exact absurd changed unchanged
  · exact ⟨same, settles⟩

theorem Stands.isAttached (stands : store.Stands root tree) (inside : id ∈ tree.names) :
    store.isAttached root (some id) = true := by
  rw [stands.isArena.isAttached_iff, ← stands.rooted,
    (stands.holds.descendants_perm stands.nodup).mem_iff]
  exact inside

theorem Stands.mem_descendants_iff (stands : store.Stands root tree) :
    id ∈ store.descendants (some root) ↔ id ∈ tree.names := by
  rw [← stands.rooted]
  exact (stands.holds.descendants_perm stands.nodup).mem_iff

theorem sequenceItems?_eq_none_iff {slot : Slot} : Canonical.sequenceItems? store slot = none ↔
    ∀ items, store.shape? slot ≠ some (.elements .sequence items) := by
  unfold Canonical.sequenceItems?
  split
  · rename_i items found
    exact ⟨(fun impossible => nomatch impossible), fun other => absurd found (other items)⟩
  · rename_i other
    exact ⟨fun _ => other, fun _ => rfl⟩

/-- What stands in an expression statement is a node of the tree, with the statement above it. -/
theorem Stands.statement_above (stands : store.Stands root tree) (inside : id ∈ tree.names)
    {expression : NodeId}
    (found : store.shape? (some id) = some (.expressionStatement (some expression))) :
    expression ∈ tree.names ∧
      Canonical.isExpressionStatement store (store.parent (some expression)) = true := by
  obtain ⟨there, linked⟩ := stands.holds.slot_mem inside found (List.mem_singleton_self _)
  refine ⟨there, ?_⟩
  rw [linked, Canonical.isExpressionStatement, expression?, found]
  rfl

/-- Where no rule has anything to change, everything is canonical. -/
theorem IsAtRest.isCanonicalAt (rest : store.IsAtRest root) (stands : store.Stands root tree)
    (inside : id ∈ tree.names) : store.IsCanonicalAt id := by
  have settled : ∀ (rule : Rule) {id : NodeId}, id ∈ tree.names → rule.IsSettled store id :=
    fun rule id inside =>
      ((rule.rewrite_taken stands inside).still (rest rule id (stands.isAttached inside))).2
  have above := fun {expression : NodeId} => @Stands.statement_above store root id tree stands inside expression
  refine ⟨fun shape found body isBody present => ?_, settled .switchCase inside,
    fun expression found items shaped => ?_, fun expression found test whenTrue whenFalse shaped => ?_,
    fun expression found left right shaped => ?_, fun test thenBody elseBody found position => ?_,
    fun value found position => ?_, fun shape statements found isList has statement listed inner shaped => ?_⟩
  · obtain ⟨child, rfl⟩ := Option.isSome_iff_exists.mp present
    obtain ⟨there, -⟩ := stands.holds.slot_mem inside found (Canonical.bodies_subset shape isBody)
    obtain ⟨part, within, rooted⟩ := Tree.exists_within there
    cases stands.holds.within within with
    | nothing => cases rooted
    | node shaped =>
      cases rooted
      rw [satisfies, shaped]
      exact settled .ifBody inside shape found _ isBody _ shaped
  · cases expression with
    | none => cases shaped
    | some expression =>
      obtain ⟨there, isStatement⟩ := above found
      exact sequenceItems?_eq_none_iff.mp (settled .sequence there isStatement) items shaped
  · cases expression with
    | none => cases shaped
    | some expression =>
      obtain ⟨there, isStatement⟩ := above found
      exact settled .conditionalIf there isStatement test whenTrue whenFalse shaped
  · cases expression with
    | none => cases shaped
    | some expression =>
      obtain ⟨there, isStatement⟩ := above found
      refine settled .logicalIf there isStatement left right ?_
      rw [Canonical.binary?, shaped]
  · refine sequenceItems?_eq_none_iff.mp (settled .ifTestSequence inside position test ?_)
    rw [Canonical.test?, found]
  · exact sequenceItems?_eq_none_iff.mp (settled .returnSequence inside position value found)
  · have keeps := settled .flattenBlock inside shape statements found isList has statement listed
    rw [Canonical.isSpliceable, satisfies, shaped, Option.any_some, Shape.isBlock, Bool.true_and,
      Bool.not_eq_false', Canonical.declaresBlockScoped, Store.statements?, shaped, Option.bind_some,
      Shape.statements?, Option.getD_some, List.any_eq_true] at keeps
    obtain ⟨declaring, member, declares⟩ := keeps
    split at declares
    · rename_i declarations there
      exact ⟨declaring, member, declarations, there, declares⟩
    · cases declares

theorem IsAtRest.isCanonical (rest : store.IsAtRest root) (stands : store.Stands root tree) :
    store.IsCanonical root :=
  fun _ member => rest.isCanonicalAt stands (stands.mem_descendants_iff.mp member)

end Canonical

/-! ## All nodes are visited -/

section Order
variable {store : Store} {root id : NodeId}

theorem mem_order_iff (rule : Rule) :
    id ∈ rule.order store root ↔ id ∈ store.descendants (some root) := by
  unfold Rule.order
  split
  · exact .rfl
  · exact (store.postorderOnto_perm store.depthBound root).mem_iff

end Order

end Store

/-! ## Rounds without a change -/

/-- Whether repeating a step comes to a state where it reports no change, within a limit. -/
def settles {α : Type} (step : α → α × Bool) : (limit : Nat) → α → Bool
  | 0, _ => false
  | limit + 1, state =>
    let (next, changed) := step state
    if changed then settles step limit next else true

theorem untilStable_of_settles {α : Type} {step : α → α × Bool} {property : α → Prop}
    (keeps : ∀ state, property state → property (step state).1) (limit : Nat) (state : α)
    (holds : property state) (settled : settles step limit state = true) :
    ∃ before, property before ∧ step before = ((untilStable step limit state).1, false) := by
  induction limit generalizing state with
  | zero => cases settled
  | succ limit ih =>
    rw [settles] at settled
    rw [untilStable]
    simp only at settled ⊢
    cases changed : (step state).2 with
    | true =>
      rw [changed, if_pos rfl] at settled
      exact ih _ (keeps state holds) settled
    | false =>
      rw [if_neg Bool.false_ne_true]
      exact ⟨state, holds, Prod.ext rfl changed⟩

/-- A step without a change is not repeated. -/
theorem untilStable_of_unchanged {α : Type} {step : α → α × Bool} {limit : Nat} {state : α}
    (positive : 0 < limit) (unchanged : (step state).2 = false) :
    untilStable step limit state = ((step state).1, false) := by
  cases limit with
  | zero => cases positive
  | succ limit =>
    rw [untilStable]
    simp only [unchanged, Bool.false_eq_true, if_false]

/-- Where nothing is reported, the first step has changed nothing. -/
theorem unchanged_of_untilStable {α : Type} {step : α → α × Bool} {limit : Nat} {state : α}
    (positive : 0 < limit) (unchanged : (untilStable step limit state).2 = false) :
    (step state).2 = false := by
  cases limit with
  | zero => cases positive
  | succ limit =>
    rw [untilStable] at unchanged
    cases flag : (step state).2 with
    | false => rfl
    | true =>
      simp only [flag, if_true] at unchanged
      cases unchanged

theorem maxNormalizeIterations_pos : 0 < maxNormalizeIterations := Nat.succ_pos 63

section Folds
variable {α β : Type} {step : α × Bool → β → α × Bool} {same : α → Prop}

/-- If a change is never forgotten and there was none, then there was none at any item. -/
theorem foldl_of_unchanged {quiet : β → Prop}
    (remembers : ∀ state item, (step (state, true) item).2 = true)
    (each : ∀ state item, same state → (step (state, false) item).2 = false →
      same (step (state, false) item).1 ∧ quiet item)
    (items : List β) (state : α) (changed : Bool) (holds : same state)
    (unchanged : (items.foldl step (state, changed)).2 = false) :
    changed = false ∧ same (items.foldl step (state, changed)).1 ∧ ∀ item ∈ items, quiet item := by
  induction items generalizing state changed with
  | nil => exact ⟨unchanged, holds, List.forall_mem_nil _⟩
  | cons item rest ih =>
    rw [List.foldl_cons] at unchanged ⊢
    have remembered : ∀ (items : List β) (state : α), (items.foldl step (state, true)).2 = true := by
      intro items
      induction items with
      | nil => exact fun _ => rfl
      | cons item rest later =>
        intro state
        rw [List.foldl_cons, ← Prod.eta (step (state, true) item), remembers]
        exact later _
    have now : (step (state, changed) item).2 = false := by
      cases flag : (step (state, changed) item).2 with
      | false => rfl
      | true =>
        rw [← Prod.eta (step (state, changed) item), flag, remembered] at unchanged
        cases unchanged
    have before : changed = false := by
      cases changed with
      | false => rfl
      | true => exact absurd ((remembers state item).symm.trans now) Bool.noConfusion
    subst before
    obtain ⟨held, quiet⟩ := each state item holds now
    obtain ⟨-, final, others⟩ := ih _ _ held unchanged
    exact ⟨rfl, final, List.forall_mem_cons.mpr ⟨quiet, others⟩⟩

/-- If no item makes a change, then the fold makes none. -/
theorem foldl_unchanged (items : List β)
    (each : ∀ item ∈ items, ∀ state, same state →
      same (step (state, false) item).1 ∧ (step (state, false) item).2 = false)
    (state : α) (holds : same state) : same (items.foldl step (state, false)).1 ∧
      (items.foldl step (state, false)).2 = false := by
  induction items generalizing state with
  | nil => exact ⟨holds, rfl⟩
  | cons item rest ih =>
    obtain ⟨held, unchanged⟩ := each item List.mem_cons_self state holds
    rw [List.foldl_cons, ← Prod.eta (step (state, false) item), unchanged]
    exact ih (fun other member => each other (List.mem_cons_of_mem _ member)) _ held

end Folds

section Rounds
variable {store : Store} {root : NodeId} {tree : Tree}

namespace Rule

variable {rule : Rule}

/-- A visit without a change leaves the store alone. -/
theorem visit_of_unchanged (stands : store.Stands root tree) {state : Store × Journal}
    (same : state.1 = store) {id : NodeId}
    (unchanged : (rule.visit root (state, false) id).2 = false) :
    (rule.visit root (state, false) id).1.1 = store ∧
      (store.isAttached root (some id) = true → (rule.rewrite store id).2 ≠ .changed) := by
  obtain ⟨current, journal⟩ := state
  cases same
  unfold visit at unchanged ⊢
  simp only at unchanged ⊢
  split at unchanged
  · rename_i attached
    have taken := rule.rewrite_taken stands (stands.mem_of_isAttached attached)
    rw [if_pos attached]
    split at unchanged
    · rename_i outcome
      have other : (rule.rewrite current id).2 ≠ .changed := by rw [outcome]; exact nofun
      simp only [outcome]
      exact ⟨(taken.still other).1, fun _ => nofun⟩
    · cases unchanged
    · rename_i remark outcome
      have other : (rule.rewrite current id).2 ≠ .changed := by rw [outcome]; exact nofun
      simp only [outcome]
      exact ⟨(taken.still other).1, fun _ => nofun⟩
  · rename_i detached
    rw [if_neg detached]
    exact ⟨rfl, fun attached => absurd attached detached⟩

/-- Where a rule has nothing to change, its visits change nothing. -/
theorem visit_unchanged (stands : store.Stands root tree) {state : Store × Journal}
    (same : state.1 = store) {id : NodeId}
    (rest : store.isAttached root (some id) = true → (rule.rewrite store id).2 ≠ .changed) :
    (rule.visit root (state, false) id).1.1 = store ∧
      (rule.visit root (state, false) id).2 = false := by
  obtain ⟨current, journal⟩ := state
  cases same
  unfold visit
  simp only
  split
  · rename_i attached
    have other := rest attached
    have still := (rule.rewrite_taken stands (stands.mem_of_isAttached attached)).still other
    split
    · exact ⟨still.1, rfl⟩
    · rename_i outcome
      exact absurd outcome other
    · exact ⟨still.1, rfl⟩
  · exact ⟨rfl, rfl⟩

theorem visit_remembers (state : Store × Journal) (id : NodeId) :
    (rule.visit root (state, true) id).2 = true := by
  unfold visit
  simp only
  split
  · split <;> rfl
  · rfl

/-- A walk without a change leaves the store alone and has found nothing to change. -/
theorem walk_of_unchanged (stands : store.Stands root tree) {state : Store × Journal}
    (same : state.1 = store) (unchanged : (rule.walk root state).2 = false) :
    (rule.walk root state).1.1 = store ∧
      ∀ id, store.isAttached root (some id) = true → (rule.rewrite store id).2 ≠ .changed := by
  obtain ⟨-, still, visited⟩ := @foldl_of_unchanged _ _ (rule.visit root) (fun state => state.1 = store)
    (fun id => store.isAttached root (some id) = true → (rule.rewrite store id).2 ≠ .changed)
    visit_remembers (fun _ _ same unchanged => visit_of_unchanged stands same unchanged) _ state false
    same unchanged
  refine ⟨still, fun id attached => visited id ?_ attached⟩
  rw [same, mem_order_iff, stands.mem_descendants_iff]
  exact stands.mem_of_isAttached attached

theorem walk_unchanged (stands : store.Stands root tree) {state : Store × Journal}
    (same : state.1 = store) (rest : store.IsAtRest root) :
    (rule.walk root state).1.1 = store ∧ (rule.walk root state).2 = false :=
  @foldl_unchanged _ _ (rule.visit root) (fun state => state.1 = store) _
    (fun id _ _ same => visit_unchanged stands same (rest rule id)) state same

/-- A run without a change is one walk without a change. -/
theorem run_of_unchanged (stands : store.Stands root tree) {state : Store × Journal}
    (same : state.1 = store) (unchanged : (rule.run root state).2 = false) :
    (rule.run root state).1.1 = store ∧
      ∀ id, store.isAttached root (some id) = true → (rule.rewrite store id).2 ≠ .changed := by
  rw [run] at unchanged ⊢
  have first := unchanged_of_untilStable maxNormalizeIterations_pos unchanged
  rw [untilStable_of_unchanged maxNormalizeIterations_pos first]
  exact walk_of_unchanged stands same first

theorem run_unchanged (stands : store.Stands root tree) {state : Store × Journal}
    (same : state.1 = store) (rest : store.IsAtRest root) :
    (rule.run root state).1.1 = store ∧ (rule.run root state).2 = false := by
  obtain ⟨still, unchanged⟩ := @walk_unchanged _ _ _ rule stands state same rest
  rw [run, untilStable_of_unchanged maxNormalizeIterations_pos unchanged]
  exact ⟨still, rfl⟩

end Rule

/-- A round without a change leaves the store alone, at rest. -/
theorem normalizeRound_of_unchanged (stands : store.Stands root tree) {state : Store × Journal}
    (same : state.1 = store) (unchanged : (normalizeRound root state).2 = false) :
    (normalizeRound root state).1.1 = store ∧ store.IsAtRest root := by
  unfold normalizeRound at unchanged ⊢
  obtain ⟨-, still, rest⟩ := @foldl_of_unchanged (Store × Journal) Rule _
    (fun state => state.1 = store)
    (fun rule => ∀ id, store.isAttached root (some id) = true → (rule.rewrite store id).2 ≠ .changed)
    (fun _ _ => rfl) (fun _ _ same unchanged => Rule.run_of_unchanged stands same unchanged)
    Rule.all state false same unchanged
  refine ⟨still, fun rule => rest rule ?_⟩
  cases rule <;> decide

theorem normalizeRound_unchanged (stands : store.Stands root tree) {state : Store × Journal}
    (same : state.1 = store) (rest : store.IsAtRest root) :
    (normalizeRound root state).1.1 = store ∧ (normalizeRound root state).2 = false := by
  unfold normalizeRound
  exact @foldl_unchanged (Store × Journal) Rule _ (fun state => state.1 = store) Rule.all
    (fun _ _ _ same => Rule.run_unchanged stands same rest) state same

/-- A program at rest is normal already. -/
theorem normalize_unchanged (stands : store.Stands root tree) (rest : store.IsAtRest root)
    (journal : Journal) : (normalize root (store, journal)).1.1 = store ∧
      (normalize root (store, journal)).2 = false := by
  obtain ⟨still, unchanged⟩ := @normalizeRound_unchanged _ _ _ stands (store, journal) rfl rest
  rw [normalize, untilStable_of_unchanged maxNormalizeIterations_pos unchanged]
  simp only [still, and_self]

/-- What is normalized until a round changes nothing is at rest, and still stands. -/
theorem untilStable_atRest (stands : store.Stands root tree) (journal : Journal) {limit : Nat}
    (settled : settles (normalizeRound root) limit (store, journal) = true) :
    ∃ final, (untilStable (normalizeRound root) limit (store, journal)).1.1.Stands root final ∧
      (untilStable (normalizeRound root) limit (store, journal)).1.1.IsAtRest root := by
  obtain ⟨before, ⟨final, stood⟩, last⟩ := @untilStable_of_settles _ (normalizeRound root)
    (fun state => ∃ tree, state.1.Stands root tree)
    (fun state ⟨tree, stands⟩ =>
      (normalizeRound_turned state tree stands).remade.imp fun _ => stands.remade)
    limit (store, journal) ⟨tree, stands⟩ settled
  obtain ⟨still, rest⟩ := normalizeRound_of_unchanged stood rfl (congrArg Prod.snd last)
  rw [last] at still
  simp only at still
  rw [still]
  exact ⟨final, stood, rest⟩

end Rounds

/-- A program whose normalization ends with a round that changes nothing is in canonical form, and
normalizing it again changes nothing. -/
theorem normalize_canonical (text : List Char) (journal : Journal)
    (settled : settles (normalizeRound (parse text).root) maxNormalizeIterations
      ((parse text).store, journal) = true) :
    let normal := (normalize (parse text).root ((parse text).store, journal)).1
    normal.1.IsCanonical (parse text).root ∧
      ∀ journal, (normalize (parse text).root (normal.1, journal)).2 = false ∧
        (normalize (parse text).root (normal.1, journal)).1.1 = normal.1 := by
  obtain ⟨tree, stands⟩ := parse_stands text
  obtain ⟨final, stood, rest⟩ := untilStable_atRest stands journal settled
  rw [← normalize] at stood rest
  exact ⟨rest.isCanonical stood, fun journal => (normalize_unchanged stood rest journal).symm⟩

/-- The normalization of `a && b;` settles. -/
theorem conjunction_canonical :
    settles (normalizeRound (parse "a && b;".toList).root) maxNormalizeIterations
        ((parse "a && b;".toList).store, Journal.empty) = true ∧
      (normalize (parse "a && b;".toList).root
        ((parse "a && b;".toList).store, Journal.empty)).1.1.IsCanonical
          (parse "a && b;".toList).root := by
  have settled : settles (normalizeRound (parse "a && b;".toList).root) maxNormalizeIterations
      ((parse "a && b;".toList).store, Journal.empty) = true := by decide +kernel
  exact ⟨settled, (normalize_canonical _ _ settled).1⟩

end Unflatten

/-! ## Normalization converges

Every round that reports a change has taken steps of rules, and each makes the program lighter.  So
as many rounds as the program weighs are enough to come to one that changes nothing, and the program
is then in canonical form.  `maxNormalizeIterations` rounds are enough for what weighs no more than
that, but not for every program: each of them may take one level off a nest of `void`. -/

namespace Unflatten

open Canonical Relation

/-- The steps of rules make a program lighter. -/
theorem Canonical.weight_lt_of_takes {before after : Store × Tree} (taken : TransGen Takes before after) :
    after.2.weight < before.2.weight := by
  induction taken with
  | single step =>
    obtain ⟨rule, takes⟩ := step
    exact takes.replaced.weight_lt
  | tail _ step ih =>
    obtain ⟨rule, takes⟩ := step
    exact Nat.lt_trans takes.replaced.weight_lt ih

section Settling
variable {α : Type} {program : α → Store} {root : NodeId}

/-- What takes a step whenever it reports a change comes to an end. -/
theorem settles_of_turned {step : α → α × Bool}
    (each : ∀ state tree, (program state).Stands root tree →
      Turned Takes program state tree false (step state))
    (limit : Nat) (state : α) (tree : Tree) (stands : (program state).Stands root tree)
    (enough : tree.weight ≤ limit) : settles step limit state = true := by
  induction limit generalizing state tree with
  | zero =>
    have rooted := stands.rooted
    cases tree with
    | nothing => cases rooted
    | node id shape below => exact absurd enough (Nat.not_le_of_gt (Tree.weight_pos id shape below))
  | succ limit ih =>
    obtain ⟨remade, remakes, -, flag⟩ := each state tree stands
    rw [settles]
    simp only
    split
    · rename_i changed
      have lighter := weight_lt_of_takes ((flag changed).resolve_left Bool.false_ne_true)
      exact ih _ remade (stands.remade remakes)
        (Nat.le_of_lt_succ (Nat.lt_of_lt_of_le lighter enough))
    · rfl

/-- More rounds make no difference where fewer settle. -/
theorem untilStable_of_settles_of_le {step : α → α × Bool} {limit more : Nat} {state : α}
    (settled : settles step limit state = true) (le : limit ≤ more) :
    untilStable step more state = untilStable step limit state := by
  induction limit generalizing state more with
  | zero => cases settled
  | succ limit ih =>
    obtain ⟨more, rfl⟩ :=
      Nat.exists_eq_add_one_of_ne_zero (Nat.ne_of_gt (Nat.lt_of_lt_of_le (Nat.succ_pos _) le))
    rw [settles] at settled
    simp only at settled
    rw [untilStable, untilStable]
    simp only
    split
    · rename_i changed
      rw [if_pos changed] at settled
      rw [ih settled (Nat.le_of_succ_le_succ le)]
    · rfl

end Settling

/-- The weight of the program below a node. -/
def Store.weightAt (store : Store) (root : NodeId) : Nat :=
  (store.treeAt store.depthBound (some root)).weight

/-- Every program comes to a round that changes nothing if as many are allowed as it weighs.  It is
in canonical form then, whatever the limit was, and normalizing it again changes nothing. -/
theorem normalizeRound_settles (text : List Char) (journal : Journal) (limit : Nat)
    (enough : (parse text).store.weightAt (parse text).root ≤ limit) :
    let program := ((parse text).store, journal)
    let normal := untilStable (normalizeRound (parse text).root) limit program
    settles (normalizeRound (parse text).root) limit program = true ∧
      normal.1.1.IsCanonical (parse text).root ∧
      (∀ more, limit ≤ more → untilStable (normalizeRound (parse text).root) more program = normal) ∧
      ∀ journal, (normalize (parse text).root (normal.1.1, journal)).2 = false ∧
        (normalize (parse text).root (normal.1.1, journal)).1.1 = normal.1.1 := by
  obtain ⟨tree, stands⟩ := parse_stands text
  rw [Store.weightAt, stands.treeAt_eq] at enough
  have settled := @settles_of_turned _ Prod.fst _ _ normalizeRound_turned limit
    ((parse text).store, journal) tree stands enough
  obtain ⟨final, stood, rest⟩ := untilStable_atRest stands journal settled
  exact ⟨settled, rest.isCanonical stood, fun _ more => untilStable_of_settles_of_le settled more,
    fun journal => (normalize_unchanged stood rest journal).symm⟩

/-- The usual limit is enough for `a && void b();`. -/
theorem discarded_void_settles :
    (parse "a && void b();".toList).store.weightAt (parse "a && void b();".toList).root ≤
        maxNormalizeIterations ∧
      settles (normalizeRound (parse "a && void b();".toList).root) maxNormalizeIterations
        ((parse "a && void b();".toList).store, Journal.empty) = true := by
  have enough : (parse "a && void b();".toList).store.weightAt (parse "a && void b();".toList).root ≤
      maxNormalizeIterations := by decide +kernel
  exact ⟨enough, (normalizeRound_settles _ _ _ enough).1⟩

end Unflatten
