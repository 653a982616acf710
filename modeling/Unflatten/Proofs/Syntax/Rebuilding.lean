import Unflatten.Dispatch.CaseTable
import Unflatten.Proofs.Syntax.Moving
import Unflatten.Proofs.Syntax.Quiet
import Unflatten.Proofs.Syntax.Targets

/-! # Trees taken apart and put together

A pass takes a tree apart, makes nodes around the parts, and gives a node of the tree other
children.  `Rebuilds` says what such work keeps: the trees at the end are made of nodes of the
trees at the beginning and of new ones, and nothing beside them has changed.

The dispatch loops that are known must survive this.  A loop is framed if its body is a block of
declarations and `switch` statements, which no pass adds to (`Store.IsFramed`).  A loop that has
left the tree is spent: the `switch` in its body has left with it (`Store.IsSpent`).  A list of
declarations that has left the tree with a declaration has left with all of them
(`Store.IsEmptied`). -/

set_option autoImplicit false

namespace Unflatten

/-- A statement that stays a statement of its list, or is replaced by its like. -/
def Shape.isSteady : Shape → Bool
  | .declarationList true _ | .switch _ _ => true
  | _ => false

/-- A node whose parts are looked for below it even when it has left the tree. -/
def Shape.isTied : Shape → Bool
  | .loop _ _ _ _ _ | .declarationList _ _ => true
  | _ => false

namespace Store

/-- The body of a loop with a condition. -/
def HasBody (store : Store) (loop body : NodeId) : Prop :=
  ∃ kind initializer condition incrementor,
    store.shape? (some loop) = some (.loop kind initializer condition incrementor (some body))

/-- A body with at most one statement, or with a prelude and a dispatcher. -/
def IsFramedBody (store : Store) (body prelude : NodeId) : Prop :=
  ∃ statements, store.shape? (some body) = some (.block statements) ∧
    (∀ statement ∈ statements, store.satisfies statement Shape.isSteady = true) ∧
    (statements.length ≤ 1 ∨ ∃ dispatcher, statements = [some prelude, dispatcher] ∧
      store.kind? (some prelude) = some .variableStatement)

/-- A loop with such a body. -/
def IsFramed (store : Store) (loop prelude : NodeId) : Prop :=
  ∃ body, store.HasBody loop body ∧ store.IsFramedBody body prelude

/-- A loop outside some trees whose `switch` is outside too. -/
def IsSpent (store : Store) (names : List NodeId) (loop : NodeId) : Prop :=
  ∀ body, store.HasBody loop body → body < store.nodes.size ∧ body ∉ names ∧
    ∀ statement, some statement ∈ store.statementsOf (some body) →
      statement < store.nodes.size ∧
        (store.isSwitch (some statement) = true → statement ∉ names)

/-- A list of declarations that stand outside some trees. -/
def IsEmptied (store : Store) (names : List NodeId) (list : NodeId) : Prop :=
  ∀ isStatement declarations, store.shape? (some list) =
    some (.declarationList isStatement declarations) →
    ∀ child, some child ∈ declarations → child < store.nodes.size ∧ child ∉ names

/-- Some trees become others. -/
structure Rebuilds (store later : Store) (trees built : List Tree) : Prop where
  before : store.HoldsAll trees
  all : later.HoldsAll built
  touches : Touches store later (Tree.namesAll trees)
  names : ∀ id ∈ Tree.namesAll built, id ∈ Tree.namesAll trees ∨ store.nodes.size ≤ id
  links : store.HasTrueLinks → later.HasTrueLinks
  tidy : store.IsTidy → later.IsTidy
  kinds : store.KeepsKinds later
  listed : ∀ id, id ∈ Tree.namesAll trees ∨ store.nodes.size ≤ id → ∀ shape,
    later.shape? (some id) = some shape → ∀ child, some child ∈ shape.slots →
      child < later.nodes.size ∧ (child ∈ Tree.namesAll trees ∨ store.nodes.size ≤ child)
  adopters : ∀ id parent, id < store.nodes.size → later.parent (some id) = some parent →
    store.parent (some id) = some parent ∨
      (parent ∈ Tree.namesAll trees ∨ store.nodes.size ≤ parent)
  framed : ∀ loop ∈ Tree.namesAll built, loop < store.nodes.size →
    ∀ prelude, store.IsFramed loop prelude → later.IsFramed loop prelude
  spent : ∀ loop ∈ Tree.namesAll trees, loop ∉ Tree.namesAll built →
    later.IsSpent (Tree.namesAll built) loop
  emptied : store.HasTrueLinks → ∀ list, list ∈ Tree.namesAll trees ∨ store.nodes.size ≤ list →
    list ∉ Tree.namesAll built → ∀ declaration < store.nodes.size,
    later.parent (some declaration) = some list → later.IsEmptied (Tree.namesAll built) list

end Store

namespace Store

section Kinds
variable {store middle later : Store} {id : NodeId} {slot : Slot} {shape : Shape}
  {removed new : List Slot}

theorem isSteady_iff (shape : Shape) :
    shape.isSteady = true ↔ shape.kind = .variableStatement ∨ shape.kind = .switchStatement := by
  fun_cases Shape.kind shape <;> simp_all [Shape.isSteady]

theorem kind_eq_switchStatement {shape : Shape} (same : shape.kind = .switchStatement) :
    ∃ discriminant clauses, shape = .switch discriminant clauses := by
  fun_cases Shape.kind shape <;> simp_all [Shape.kind]

theorem isSwitch_iff : store.isSwitch slot = true ↔ store.kind? slot = some .switchStatement := by
  rw [isSwitch, discriminant?, kind?]
  cases found : store.shape? slot with
  | none => simp
  | some shape =>
    rw [Option.map_some, Option.some.injEq]
    constructor
    · intro selects
      cases shape
      case switch => rfl
      all_goals cases selects
    · intro same
      obtain ⟨discriminant, clauses, rfl⟩ := kind_eq_switchStatement same
      rfl

theorem isSteady_byKind (first second : Shape) (same : first.kind = second.kind) :
    first.isSteady = second.isSteady := by
  rw [Bool.eq_iff_iff, isSteady_iff, isSteady_iff, same]

theorem KeepsKinds.satisfies_isSteady (kinds : store.KeepsKinds later)
    (steady : store.satisfies slot Shape.isSteady = true) :
    later.satisfies slot Shape.isSteady = true :=
  kinds.satisfies isSteady_byKind steady

/-- What is a `switch` later and was there before was one before. -/
theorem KeepsKinds.isSwitch_before (kinds : store.KeepsKinds later) (bound : id < store.nodes.size)
    (selects : later.isSwitch (some id) = true) : store.isSwitch (some id) = true := by
  obtain ⟨shape, found⟩ := exists_shape? bound
  have kept := kinds id shape.kind (by rw [kind?, found]; rfl)
  rw [isSwitch_iff, kept] at selects
  rw [isSwitch_iff, kind?, found]
  exact selects

end Kinds

section Bodies
variable {store later : Store} {loop body prelude : NodeId} {names more : List NodeId}

theorem HasBody.unique {other : NodeId} (first : store.HasBody loop body)
    (second : store.HasBody loop other) : body = other := by
  obtain ⟨_, _, _, _, found⟩ := first
  obtain ⟨_, _, _, _, there⟩ := second
  rw [found] at there
  cases there
  rfl

/-- Nothing that is left of a spent loop changes. -/
theorem IsSpent.carry (spent : store.IsSpent names loop) (kinds : store.KeepsKinds later)
    (size : store.nodes.size ≤ later.nodes.size) (bound : loop < store.nodes.size)
    (outside : loop ∉ names)
    (shapes : ∀ id, id < store.nodes.size → id ∉ names →
      later.shape? (some id) = store.shape? (some id))
    (fewer : ∀ id ∈ more, id ∈ names ∨ store.nodes.size ≤ id) : later.IsSpent more loop := by
  have apart : ∀ id, id < store.nodes.size → id ∉ names → id ∉ more := by
    intro id old gone there
    rcases fewer id there with inside | beyond
    · exact gone inside
    · exact absurd old (Nat.not_lt_of_le beyond)
  rintro body ⟨kind, initializer, condition, incrementor, found⟩
  rw [shapes loop bound outside] at found
  obtain ⟨old, gone, statements⟩ := spent body ⟨kind, initializer, condition, incrementor, found⟩
  refine ⟨Nat.lt_of_lt_of_le old size, apart body old gone, fun statement listed => ?_⟩
  have same : later.statementsOf (some body) = store.statementsOf (some body) := by
    rw [statementsOf, statementsOf, statements?, statements?, shapes body old gone]
  rw [same] at listed
  obtain ⟨older, dispatches⟩ := statements statement listed
  exact ⟨Nat.lt_of_lt_of_le older size, fun selects =>
    apart statement older (dispatches (kinds.isSwitch_before older selects))⟩

theorem IsFramedBody.carry (framed : store.IsFramedBody body prelude) (kinds : store.KeepsKinds later)
    (same : later.shape? (some body) = store.shape? (some body)) :
    later.IsFramedBody body prelude := by
  obtain ⟨statements, found, steady, short⟩ := framed
  exact ⟨statements, same.trans found,
    fun statement member => kinds.satisfies_isSteady (steady statement member),
    short.imp_right fun ⟨dispatcher, listed, kind⟩ => ⟨dispatcher, listed, kinds _ _ kind⟩⟩

/-- A framed loop stays framed if its body keeps its statements. -/
theorem IsFramed.carry (framed : store.IsFramed loop prelude) (kinds : store.KeepsKinds later)
    (same : ∀ body, store.HasBody loop body → later.HasBody loop body ∧
      later.shape? (some body) = store.shape? (some body)) : later.IsFramed loop prelude := by
  obtain ⟨body, hasBody, isFramed⟩ := framed
  obtain ⟨still, kept⟩ := same body hasBody
  exact ⟨body, still, isFramed.carry kinds kept⟩

theorem Holds.hasBody_mem {tree : Tree} (holds : store.Holds tree) (inside : loop ∈ tree.names)
    (hasBody : store.HasBody loop body) :
    body ∈ tree.names ∧ ∀ statement, some statement ∈ store.statementsOf (some body) →
      statement ∈ tree.names := by
  obtain ⟨kind, initializer, condition, incrementor, found⟩ := hasBody
  have listed : some body ∈ (Shape.loop kind initializer condition incrementor (some body)).slots := by
    simp [Shape.slots]
  obtain ⟨there, -⟩ := holds.slot_mem inside found listed
  refine ⟨there, fun statement listed => ?_⟩
  rw [Store.statementsOf, statements?] at listed
  obtain ⟨shape, shaped⟩ := exists_shape? (holds.lt_size there)
  rw [shaped, Option.bind_some] at listed
  cases has : shape.statements? with
  | none =>
    rw [has] at listed
    cases listed
  | some statements =>
    rw [has] at listed
    exact (holds.slot_mem there shaped (Shape.statements?_subset has listed)).1

end Bodies

namespace Rebuilds

section Steps
variable {store middle later : Store} {trees built parts rest others below : List Tree}
  {id : NodeId} {shape changed : Shape} {tree : Tree} {removed new : List Slot}

theorem hasBody_mem (all : store.HoldsAll trees) {loop body : NodeId}
    (inside : loop ∈ Tree.namesAll trees) (hasBody : store.HasBody loop body) :
    ∃ tree ∈ trees, loop ∈ tree.names ∧ body ∈ tree.names ∧
      ∀ statement, some statement ∈ store.statementsOf (some body) → statement ∈ tree.names := by
  obtain ⟨tree, member, there⟩ := Tree.mem_namesAll.mp inside
  exact ⟨tree, member, there, (all.holds tree member).hasBody_mem there hasBody⟩

/-- What a node of some trees lists stands in the trees. -/
theorem child_mem (all : store.HoldsAll trees) (inside : id ∈ Tree.namesAll trees)
    (found : store.shape? (some id) = some shape) {child : NodeId}
    (listed : some child ∈ shape.slots) : child ∈ Tree.namesAll trees := by
  obtain ⟨tree, member, there⟩ := Tree.mem_namesAll.mp inside
  exact Tree.mem_namesAll.mpr ⟨tree, member, ((all.holds tree member).slot_mem there found listed).1⟩

theorem refl (all : store.HoldsAll trees) : Rebuilds store store trees trees where
  before := all
  all := all
  touches := .refl store _
  names _ inside := .inl inside
  links links := links
  tidy tidy := tidy
  kinds := .refl store
  listed id inside shape found child listed := by
    rcases inside with inside | beyond
    · have there := child_mem all inside found listed
      exact ⟨all.lt_size there, .inl there⟩
    · exact absurd (lt_size_of_shape? found) (Nat.not_lt_of_le beyond)
  adopters _ _ _ linked := .inl linked
  framed _ _ _ _ framed := framed
  spent _ inside outside := absurd inside outside
  emptied _ list inside outside _ _ _ _ _ found := by
    rcases inside with inside | beyond
    · exact absurd inside outside
    · exact absurd (lt_size_of_shape? found) (Nat.not_lt_of_le beyond)

/-- What is old at the end was there in between. -/
theorem mem_of_lt (rebuilds : Rebuilds store later trees built) {id : NodeId}
    (inside : id ∈ Tree.namesAll built) (old : id < store.nodes.size) : id ∈ Tree.namesAll trees :=
  (rebuilds.names id inside).resolve_right (Nat.not_le_of_lt old)

/-- The body of a loop in the trees, and its statements, come from the trees or are new. -/
theorem bodies (rebuilds : Rebuilds store later trees built) {loop body id : NodeId}
    (inside : loop ∈ Tree.namesAll trees) (hasBody : later.HasBody loop body)
    (within : id = body ∨ some id ∈ later.statementsOf (some body)) :
    id ∈ Tree.namesAll trees ∨ store.nodes.size ≤ id := by
  obtain ⟨kind, initializer, condition, incrementor, found⟩ := hasBody
  obtain ⟨bound, origin⟩ := rebuilds.listed loop (.inl inside) _ found body (by simp [Shape.slots])
  rcases within with rfl | listed
  · exact origin
  · obtain ⟨shape, shaped⟩ := exists_shape? bound
    rw [statementsOf, statements?, shaped, Option.bind_some] at listed
    cases has : shape.statements? with
    | none =>
      rw [has] at listed
      cases listed
    | some statements =>
      rw [has] at listed
      exact (rebuilds.listed body origin shape shaped id (Shape.statements?_subset has listed)).2

theorem trans (first : Rebuilds store middle trees parts)
    (second : Rebuilds middle later parts built) : Rebuilds store later trees built := by
  have grows := first.touches.size
  have origin : ∀ {id}, id ∈ Tree.namesAll parts ∨ middle.nodes.size ≤ id →
      id ∈ Tree.namesAll trees ∨ store.nodes.size ≤ id := by
    rintro id (there | beyond)
    · exact first.names id there
    · exact .inr (Nat.le_trans grows beyond)
  have bound : ∀ {id}, id ∈ Tree.namesAll trees → id < middle.nodes.size :=
    fun inside => Nat.lt_of_lt_of_le (first.before.lt_size inside) grows
  refine ⟨first.before, second.all, first.touches.trans second.touches first.names,
    fun id inside => origin (second.names id inside), fun links => second.links (first.links links),
    fun tidy => second.tidy (first.tidy tidy), first.kinds.trans second.kinds, ?_, ?_, ?_, ?_, ?_⟩
  · intro id inside shape found child listed
    by_cases there : id ∈ Tree.namesAll parts ∨ middle.nodes.size ≤ id
    · exact (second.listed id there shape found child listed).imp_right origin
    · rw [not_or, Nat.not_le] at there
      rw [second.touches.shape id there.2 there.1] at found
      exact (first.listed id inside shape found child listed).imp_left fun bound =>
        Nat.lt_of_lt_of_le bound second.touches.size
  · intro id parent old linked
    rcases second.adopters id parent (Nat.lt_of_lt_of_le old grows) linked with before | came
    · exact first.adopters id parent old before
    · exact .inr (origin came)
  · intro loop inside old prelude framed
    have early := Nat.lt_of_lt_of_le old grows
    exact second.framed loop inside early prelude
      (first.framed loop (second.mem_of_lt inside early) old prelude framed)
  · intro loop inside outside
    by_cases there : loop ∈ Tree.namesAll parts
    · exact second.spent loop there outside
    · exact (first.spent loop inside there).carry second.kinds second.touches.size (bound inside)
        there second.touches.shape second.names
  · intro links list inside outside declaration old linked
    by_cases there : list ∈ Tree.namesAll parts ∨ middle.nodes.size ≤ list
    · exact second.emptied (first.links links) list there outside declaration
        (Nat.lt_of_lt_of_le old grows) linked
    · have early := (second.adopters declaration list (Nat.lt_of_lt_of_le old grows)
        linked).resolve_right there
      rw [not_or, Nat.not_le] at there
      intro isStatement declarations found child listed
      rw [second.touches.shape list there.2 there.1] at found
      obtain ⟨older, gone⟩ := first.emptied links list inside there.1 declaration old early
        isStatement declarations found child listed
      refine ⟨Nat.lt_of_lt_of_le older second.touches.size, fun still => ?_⟩
      exact gone (second.mem_of_lt still older)

/-- The same nodes in other trees. -/
theorem regroup (rebuilds : Rebuilds store later trees built) (all : later.HoldsAll parts)
    (same : ∀ id, id ∈ Tree.namesAll parts ↔ id ∈ Tree.namesAll built) :
    Rebuilds store later trees parts := by
  refine ⟨rebuilds.before, all, rebuilds.touches,
    fun id inside => rebuilds.names id ((same id).mp inside), rebuilds.links, rebuilds.tidy,
    rebuilds.kinds, rebuilds.listed, rebuilds.adopters,
    fun loop inside => rebuilds.framed loop ((same loop).mp inside), ?_, ?_⟩
  · intro loop inside outside body hasBody
    obtain ⟨bound, gone, statements⟩ :=
      rebuilds.spent loop inside (fun there => outside ((same loop).mpr there)) body hasBody
    refine ⟨bound, fun there => gone ((same body).mp there), fun statement listed => ?_⟩
    obtain ⟨old, dispatches⟩ := statements statement listed
    exact ⟨old, fun selects there => dispatches selects ((same statement).mp there)⟩
  · intro links list inside outside declaration old linked isStatement declarations found child listed
    exact (rebuilds.emptied links list inside (fun there => outside ((same list).mpr there))
      declaration old linked isStatement declarations found child listed).imp_right
      fun gone there => gone ((same child).mp there)

theorem perm (rebuilds : Rebuilds store later trees built) (perm : built.Perm parts) :
    Rebuilds store later trees parts :=
  rebuilds.regroup (rebuilds.all.perm perm) fun _ => (Tree.namesAll_perm perm).symm.mem_iff

/-- What stands below a node is rebuilt, and the node is given up. -/
theorem leaving (all : store.HoldsAll (.node id shape below :: rest))
    (work : Rebuilds store later (below ++ rest) built)
    (spent : shape.isTied = true → later.IsSpent (Tree.namesAll built) id)
    (emptied : shape.isTied = true → ∀ declaration < store.nodes.size,
      later.parent (some declaration) = some id → later.IsEmptied (Tree.namesAll built) id) :
    Rebuilds store later (.node id shape below :: rest) built := by
  obtain ⟨-, apart⟩ := all.below
  have names : Tree.namesAll (.node id shape below :: rest) = id :: Tree.namesAll (below ++ rest) := by
    rw [Tree.namesAll, Tree.names, List.cons_append, ← Tree.namesAll_append]
  have more : ∀ {name}, name ∈ Tree.namesAll (below ++ rest) ∨ store.nodes.size ≤ name →
      name ∈ Tree.namesAll (.node id shape below :: rest) ∨ store.nodes.size ≤ name := by
    intro name origin
    rw [names]
    exact origin.imp_left (List.mem_cons_of_mem _)
  have less : ∀ {name}, name ≠ id →
      name ∈ Tree.namesAll (.node id shape below :: rest) ∨ store.nodes.size ≤ name →
      name ∈ Tree.namesAll (below ++ rest) ∨ store.nodes.size ≤ name := by
    intro name other origin
    rw [names] at origin
    exact origin.imp_left fun inside => (List.mem_cons.mp inside).resolve_left other
  have bound : id < store.nodes.size := all.lt_size (by rw [names]; exact List.mem_cons_self)
  obtain ⟨found, roots⟩ : store.shape? (some id) = some shape ∧ shape.slots = below.map Tree.root := by
    cases all.holds _ List.mem_cons_self with
    | node found _ roots => exact ⟨found, roots⟩
  have foundLater := (work.touches.shape id bound apart).trans found
  refine ⟨all, work.all, work.touches.mono ?_, fun name inside => more (work.names name inside),
    work.links, work.tidy, work.kinds, fun name inside other shaped child listed => ?_,
    fun name parent old linked => (work.adopters name parent old linked).imp_right more,
    work.framed, fun loop inside outside => ?_,
    fun links list inside outside declaration old linked => ?_⟩
  · rw [names]
    exact List.subset_cons_self _ _
  · by_cases same : name = id
    · rw [same, foundLater] at shaped
      cases shaped
      rw [roots] at listed
      have there : child ∈ Tree.namesAll (below ++ rest) := by
        rw [Tree.namesAll_append]
        exact List.mem_append_left _ (Tree.mem_namesAll_of_root listed)
      exact ⟨Nat.lt_of_lt_of_le (work.before.lt_size there) work.touches.size, more (.inl there)⟩
    · exact (work.listed name (less same inside) other shaped child listed).imp_right more
  · by_cases same : loop = id
    · subst same
      by_cases tied : shape.isTied = true
      · exact spent tied
      · rintro body ⟨kind, initializer, condition, incrementor, shaped⟩
        rw [foundLater] at shaped
        cases shaped
        exact absurd rfl tied
    · rw [names] at inside
      exact work.spent loop ((List.mem_cons.mp inside).resolve_left same) outside
  · by_cases same : list = id
    · subst same
      by_cases tied : shape.isTied = true
      · exact emptied tied declaration old linked
      · intro isStatement declarations shaped
        rw [foundLater] at shaped
        cases shaped
        exact absurd rfl tied
    · exact work.emptied links list (less same inside) outside declaration old linked

/-- A node is taken apart. -/
theorem opening (all : store.HoldsAll (.node id shape below :: rest))
    (free : shape.isTied = false) :
    Rebuilds store store (.node id shape below :: rest) (below ++ rest) := by
  have tied : shape.isTied = true → False := fun tied => Bool.noConfusion (free.symm.trans tied)
  exact leaving all (.refl all.below.1) (fun held => (tied held).elim) fun held => (tied held).elim

/-- A tree is given up. -/
theorem dropping (all : store.HoldsAll (tree :: rest)) : Rebuilds store store (tree :: rest) rest := by
  have split : store.HoldsAll ([tree] ++ rest) := all
  obtain ⟨alone, others, apart⟩ := holdsAll_append.mp split
  have names : ∀ {id}, id ∈ tree.names → id ∈ Tree.namesAll [tree] := fun inside =>
    Tree.mem_namesAll.mpr ⟨tree, List.mem_singleton_self _, inside⟩
  have gone : ∀ {id}, id ∈ Tree.namesAll (tree :: rest) → id ∉ Tree.namesAll rest →
      id ∈ tree.names := by
    intro id inside outside
    rw [Tree.namesAll, List.mem_append] at inside
    exact inside.resolve_right outside
  have holds := all.holds tree List.mem_cons_self
  have still := refl all
  refine ⟨all, others, .refl store _, fun id inside => .inl ?_, still.links, still.tidy, still.kinds,
    still.listed, still.adopters, fun _ _ _ _ framed => framed,
    fun loop inside outside body hasBody => ?_,
    fun _ list inside outside _ _ _ _ _ found child listed => ?_⟩
  · rw [Tree.namesAll]
    exact List.mem_append_right _ inside
  · obtain ⟨there, statements⟩ := holds.hasBody_mem (gone inside outside) hasBody
    refine ⟨holds.lt_size there, apart body (names there), fun statement listed => ?_⟩
    have within := statements statement listed
    exact ⟨holds.lt_size within, fun _ => apart statement (names within)⟩
  · rcases inside with inside | beyond
    · obtain ⟨there, -⟩ := holds.slot_mem (gone inside outside) found listed
      exact ⟨holds.lt_size there, apart child (names there)⟩
    · exact absurd (lt_size_of_shape? found) (Nat.not_lt_of_le beyond)

theorem droppingAll (all : store.HoldsAll trees) : Rebuilds store store trees [] := by
  induction trees with
  | nil => exact .refl all
  | cons tree rest ih =>
    have drop := dropping all
    exact drop.trans (ih drop.all)

/-- An empty slot can be filled with nothing. -/
theorem addNothing (rebuilds : Rebuilds store later trees built) :
    Rebuilds store later trees (.nothing :: built) :=
  { rebuilds with
    all := ⟨List.forall_mem_cons.mpr ⟨.nothing, rebuilds.all.holds⟩, rebuilds.all.nodup⟩ }

/-- A new node is made around trees. -/
theorem adding {flags : Flags} {start stop : Nat} (all : store.HoldsAll (parts ++ rest))
    (slots : shape.slots = parts.map Tree.root) (regular : shape.IsRegular)
    (answers : store.IsTidy → store.Admits shape) :
    Rebuilds store (store.add shape flags start stop).1 (parts ++ rest)
      (.node store.nodes.size shape parts :: rest) := by
  have names : Tree.namesAll (.node store.nodes.size shape parts :: rest) =
      store.nodes.size :: Tree.namesAll (parts ++ rest) := by
    rw [Tree.namesAll, Tree.names, List.cons_append, ← Tree.namesAll_append]
  have keeps := keeps_add store shape flags start stop
  have size := size_add store shape flags start stop
  refine ⟨all, holdsAll_add all slots regular, (touches_add slots).mono ?_, fun id inside => ?_,
    hasTrueLinks_add shape flags start stop,
    fun tidy => isTidy_add flags start stop tidy (answers tidy), keeps.keepsKinds,
    fun id inside other found child listed => ?_, fun id parent old linked => ?_,
    fun loop inside old prelude framed => ?_, fun loop inside outside => ?_,
    fun _ list inside outside _ _ _ _ _ found => ?_⟩
  · rw [Tree.namesAll_append]
    exact List.subset_append_left _ _
  · rw [names] at inside
    rcases List.mem_cons.mp inside with rfl | old
    · exact .inr (Nat.le_refl _)
    · exact .inl old
  · have there : child ∈ Tree.namesAll (parts ++ rest) := by
      rw [shape?_add] at found
      by_cases new : id = store.nodes.size
      · rw [if_pos new] at found
        cases found
        rw [slots] at listed
        rw [Tree.namesAll_append]
        exact List.mem_append_left _ (Tree.mem_namesAll_of_root listed)
      · rw [if_neg new] at found
        refine child_mem all (inside.resolve_right fun beyond => ?_) found listed
        exact absurd (lt_size_of_shape? found) (Nat.not_lt_of_le beyond)
    rw [size]
    exact ⟨Nat.lt_succ_of_lt (all.lt_size there), .inl there⟩
  · rw [parent_add _ _ _ _ _ _ old] at linked
    split at linked
    · cases linked
      exact .inr (.inr (Nat.le_refl _))
    · exact .inl linked
  · rw [names] at inside
    have there := (List.mem_cons.mp inside).resolve_left (Nat.ne_of_lt old)
    refine framed.carry keeps.keepsKinds fun body hasBody => ⟨?_, ?_⟩
    · obtain ⟨kind, initializer, condition, incrementor, found⟩ := hasBody
      exact ⟨kind, initializer, condition, incrementor, keeps _ _ found⟩
    · obtain ⟨tree, member, -, inner, -⟩ := hasBody_mem all there hasBody
      rw [shape?_add, if_neg (Nat.ne_of_lt ((all.holds tree member).lt_size inner))]
  · rw [names] at outside
    exact absurd (List.mem_cons_of_mem _ inside) outside
  · rw [names, List.mem_cons, not_or] at outside
    rw [shape?_add, if_neg outside.1] at found
    rcases inside with inside | beyond
    · exact absurd inside outside.2
    · exact absurd (lt_size_of_shape? found) (Nat.not_lt_of_le beyond)

/-- Other trees stand beside. -/
theorem beside (rebuilds : Rebuilds store later trees built) (all : store.HoldsAll (trees ++ others)) :
    Rebuilds store later (trees ++ others) (built ++ others) := by
  obtain ⟨-, held, apart⟩ := holdsAll_append.mp all
  have alone : ∀ id ∈ Tree.namesAll others, id ∉ Tree.namesAll trees :=
    fun id inside there => apart id there inside
  have distinct : ∀ id, id ∈ Tree.namesAll trees ∨ store.nodes.size ≤ id →
      id ∉ Tree.namesAll others := by
    rintro id (here | beyond) there
    · exact alone id there here
    · exact absurd (held.lt_size there) (Nat.not_lt_of_le beyond)
  have unchanged : ∀ id ∈ Tree.namesAll others, later.shape? (some id) = store.shape? (some id) :=
    fun id inside => rebuilds.touches.shape id (held.lt_size inside) (alone id inside)
  -- a loop beside the trees has its body and its statements beside them
  have same : ∀ loop ∈ Tree.namesAll others, ∀ body, store.HasBody loop body →
      body ∈ Tree.namesAll others ∧ later.HasBody loop body := by
    rintro loop inside body hasBody
    obtain ⟨tree, member, -, there, -⟩ := hasBody_mem held inside hasBody
    obtain ⟨kind, initializer, condition, incrementor, found⟩ := hasBody
    exact ⟨Tree.mem_namesAll.mpr ⟨tree, member, there⟩, kind, initializer, condition, incrementor,
      (unchanged loop inside).trans found⟩
  have more : ∀ {id}, id ∈ Tree.namesAll trees ∨ store.nodes.size ≤ id →
      id ∈ Tree.namesAll (trees ++ others) ∨ store.nodes.size ≤ id := by
    intro id origin
    rw [Tree.namesAll_append]
    exact origin.imp_left (List.mem_append_left _)
  refine ⟨all, holdsAll_append.mpr ⟨rebuilds.all, rebuilds.touches.holdsAll held alone,
    fun id inside => distinct id (rebuilds.names id inside)⟩, rebuilds.touches.mono ?_,
    fun id inside => ?_, rebuilds.links, rebuilds.tidy, rebuilds.kinds,
    fun id inside shape found child listed => ?_,
    fun id parent old linked => (rebuilds.adopters id parent old linked).imp_right more,
    fun loop inside old prelude framed => ?_, fun loop inside outside body hasBody => ?_,
    fun links list inside outside declaration old linked isStatement declarations found child
      listed => ?_⟩
  · rw [Tree.namesAll_append]
    exact List.subset_append_left _ _
  · rw [Tree.namesAll_append, List.mem_append] at inside
    rcases inside with here | there
    · exact more (rebuilds.names id here)
    · rw [Tree.namesAll_append]
      exact .inl (List.mem_append_right _ there)
  · rw [Tree.namesAll_append, List.mem_append] at inside
    rcases inside with (here | there) | beyond
    · exact (rebuilds.listed id (.inl here) shape found child listed).imp_right more
    · rw [unchanged id there] at found
      have inner := child_mem held there found listed
      refine ⟨Nat.lt_of_lt_of_le (held.lt_size inner) rebuilds.touches.size, .inl ?_⟩
      rw [Tree.namesAll_append]
      exact List.mem_append_right _ inner
    · exact (rebuilds.listed id (.inr beyond) shape found child listed).imp_right more
  · rw [Tree.namesAll_append] at inside
    rcases List.mem_append.mp inside with here | there
    · exact rebuilds.framed loop here old prelude framed
    · refine framed.carry rebuilds.kinds fun body hasBody => ?_
      obtain ⟨bodyThere, still⟩ := same loop there body hasBody
      exact ⟨still, unchanged body bodyThere⟩
  · rw [Tree.namesAll_append, List.mem_append] at inside outside
    rw [not_or] at outside
    have here := inside.resolve_right outside.2
    obtain ⟨bound, gone, statements⟩ := rebuilds.spent loop here outside.1 body hasBody
    have apart : ∀ id, id ∉ Tree.namesAll built →
        id = body ∨ some id ∈ later.statementsOf (some body) →
        id ∉ Tree.namesAll (built ++ others) := by
      intro id gone within
      rw [Tree.namesAll_append, List.mem_append, not_or]
      exact ⟨gone, distinct id (rebuilds.bodies here hasBody within)⟩
    refine ⟨bound, apart body gone (.inl rfl), fun statement listed => ?_⟩
    obtain ⟨old, dispatches⟩ := statements statement listed
    exact ⟨old, fun selects => apart statement (dispatches selects) (.inr listed)⟩
  · rw [Tree.namesAll_append, List.mem_append] at inside outside
    rw [not_or] at outside
    have origin : list ∈ Tree.namesAll trees ∨ store.nodes.size ≤ list :=
      inside.imp_left fun there => there.resolve_right outside.2
    obtain ⟨bound, gone⟩ := rebuilds.emptied links list origin outside.1 declaration old linked
      isStatement declarations found child listed
    obtain ⟨-, source⟩ := rebuilds.listed list origin _ found child listed
    refine ⟨bound, ?_⟩
    rw [Tree.namesAll_append, List.mem_append, not_or]
    exact ⟨gone, distinct child source⟩

/-- Some trees are given up and others kept. -/
theorem keeping (all : store.HoldsAll (trees ++ others)) :
    Rebuilds store store (trees ++ others) others :=
  (droppingAll (holdsAll_append.mp all).1).beside all

end Steps

end Rebuilds

end Store

end Unflatten
