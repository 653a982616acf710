import Unflatten.Parser.Statement
import Unflatten.Proofs.Syntax.Standing

/-! # Steps of the parser make trees

A step of the parser is given some trees, which it has made before, and turns them into others:
it makes nodes around them or beside them, and leaves them alone otherwise (`Parser.Turns`).  What
a tree may be used for later is its `Role`, so that each node gets children of the kinds that
belong below it. -/

set_option autoImplicit false

namespace Unflatten

open Store

/-- What a slot holds. -/
inductive Role where
  | any
  /-- Something that can be the body of a loop or a function. -/
  | body
  /-- An expression or a declaration. -/
  | quiet
  deriving DecidableEq, Repr

/-- A slot in a role. -/
abbrev Part := Slot × Role

/-- The role of a node of a shape. -/
def Shape.role (shape : Shape) : Role :=
  if shape.isQuiet then .quiet else if shape.isBody then .body else .any

namespace Role

/-- Whether a slot can play a role; an empty one can play any. -/
def Fits (store : Store) (slot : Slot) : Role → Prop
  | .any => True
  | .body => store.IsBodyAt slot
  | .quiet => store.IsQuietAt slot

section Fits
variable {store later : Store} {slot : Slot} {role : Role} {shape : Shape}

theorem Fits.carry (fits : role.Fits store slot) (kinds : store.KeepsKinds later) :
    role.Fits later slot := by
  cases role with
  | any => trivial
  | body => exact IsBodyAt.carry fits kinds
  | quiet => exact IsQuietAt.carry fits kinds

theorem fits_none : role.Fits store none := by
  cases role with
  | any => trivial
  | body => exact fun _ impossible => nomatch impossible
  | quiet => exact fun _ impossible => nomatch impossible

theorem fits_of_shape? (found : store.shape? slot = some shape) : shape.role.Fits store slot := by
  unfold Shape.role
  split
  · rename_i quiet
    exact isQuietAt_of_shape? found quiet
  · split
    · rename_i body
      exact isBodyAt_of_shape? found body
    · trivial

end Fits

end Role

namespace Parser

/-- Trees in some roles. -/
def Plays (store : Store) (trees : List Tree) (parts : List Part) : Prop :=
  List.Forall₂ (fun tree part => tree.root = part.1 ∧ part.2.Fits store part.1) trees parts

/-- Trees in some roles become trees in others. -/
def Turns {α : Type} (given : List Part) (step : Parser α) (made : α → List Part) : Prop :=
  ∀ state trees, state.store.HoldsAll trees → Plays state.store trees given →
    ∃ built, Rebuilds state.store (step state).2.store trees built ∧
      Plays (step state).2.store built (made (step state).1)

/-- A step that makes no node. -/
def IsSilent {α : Type} (step : Parser α) : Prop :=
  ∀ state, (step state).2.store = state.store

/-- Whatever a step answers has a property. -/
def Answers {α : Type} (step : Parser α) (property : α → Prop) : Prop :=
  ∀ state, property (step state).1

section Plays
variable {store later : Store} {trees others : List Tree} {parts more : List Part}

theorem Plays.carry (plays : Plays store trees parts) (kinds : store.KeepsKinds later) :
    Plays later trees parts :=
  plays.imp fun _ _ fits => fits.imp_right fun fits => fits.carry kinds

theorem Plays.roots (plays : Plays store trees parts) :
    trees.map Tree.root = parts.map Prod.fst := by
  induction plays with
  | nil => rfl
  | cons fits _ ih => rw [List.map_cons, List.map_cons, ih, fits.1]

theorem Plays.fits (plays : Plays store trees parts) {slot : Slot} {role : Role}
    (member : (slot, role) ∈ parts) : role.Fits store slot := by
  induction plays with
  | nil => cases member
  | cons fits _ ih =>
    rcases List.mem_cons.mp member with rfl | later
    · exact fits.2
    · exact ih later

theorem Plays.exists_append (plays : Plays store trees (parts ++ more)) :
    ∃ front back, trees = front ++ back ∧ Plays store front parts ∧ Plays store back more := by
  induction parts generalizing trees with
  | nil => exact ⟨[], trees, rfl, .nil, plays⟩
  | cons part rest ih =>
    cases plays with
    | cons fits plays =>
      obtain ⟨front, back, rfl, first, second⟩ := ih plays
      exact ⟨_ :: front, back, rfl, .cons fits first, second⟩

theorem Plays.append (first : Plays store trees parts) (second : Plays store others more) :
    Plays store (trees ++ others) (parts ++ more) := by
  induction first with
  | nil => exact second
  | cons fits _ ih => exact .cons fits ih

/-- Whatever role a tree plays, it plays any. -/
theorem Plays.unroled {slot : Slot} {role : Role} (plays : Plays store trees [(slot, role)]) :
    Plays store trees [(slot, .any)] := by
  cases plays with
  | cons fits rest => exact .cons ⟨fits.1, trivial⟩ rest

end Plays

section Silent
variable {α β : Type} {step : Parser α} {next : α → Parser β}

theorem isSilent_pure (result : α) : IsSilent (pure result : Parser α) := fun _ => rfl

theorem IsSilent.bind (first : IsSilent step) (rest : ∀ result, IsSilent (next result)) :
    IsSilent (step >>= next) := fun state =>
  (rest (step state).1 (step state).2).trans (first state)

theorem IsSilent.ite {condition : Prop} [Decidable condition] {first second : Parser α}
    (one : IsSilent first) (two : IsSilent second) :
    IsSilent (if condition then first else second) := by
  split
  · exact one
  · exact two

theorem IsSilent.discarded (silent : IsSilent step) : IsSilent (discard step) := silent

theorem isSilent_token : IsSilent token := fun _ => rfl

theorem isSilent_at? (kind : TokenKind) : IsSilent (at? kind) := fun _ => rfl

theorem isSilent_position : IsSilent position := fun _ => rfl

theorem isSilent_tokenEnd : IsSilent tokenEnd := fun _ => rfl

theorem isSilent_value : IsSilent value := fun _ => rfl

theorem isSilent_lineBreakBefore : IsSilent lineBreakBefore := fun _ => rfl

theorem isSilent_lastEnd : IsSilent lastEnd := fun _ => rfl

theorem isSilent_inHead : IsSilent inHead := fun _ => rfl

theorem isSilent_inFunction : IsSilent inFunction := fun _ => rfl

theorem isSilent_satisfies (slot : Slot) (test : Shape → Bool) : IsSilent (satisfies slot test) :=
  fun _ => rfl

theorem isSilent_limit : IsSilent limit := fun _ => rfl

theorem isSilent_advance : IsSilent advance := fun _ => rfl

theorem isSilent_rescanSlash : IsSilent rescanSlash := fun _ => rfl

theorem isSilent_peek : IsSilent peek := fun _ => rfl

theorem isSilent_canEndStatement : IsSilent canEndStatement := fun _ => rfl

theorem isSilent_reportAt (start length : Nat) (cause : SyntaxError.Cause) :
    IsSilent (reportAt start length cause) := by
  intro state
  unfold reportAt
  split <;> rfl

theorem isSilent_report (cause : SyntaxError.Cause) : IsSilent (report cause) :=
  isSilent_position.bind fun _ => isSilent_tokenEnd.bind fun _ => isSilent_reportAt _ _ cause

theorem isSilent_accept (kind : TokenKind) : IsSilent (accept kind) :=
  (isSilent_at? kind).bind fun _ =>
    .ite (isSilent_advance.bind fun _ => isSilent_pure _) (isSilent_pure _)

theorem isSilent_expect (kind : TokenKind) : IsSilent (expect kind) :=
  (isSilent_accept kind).bind fun _ =>
    .ite (isSilent_pure _) ((isSilent_report _).bind fun _ => isSilent_pure _)

/-- A token that must be there and is of no further use. -/
theorem isSilent_skip (kind : TokenKind) : IsSilent (discard (expect kind)) :=
  (isSilent_expect kind).discarded

theorem isSilent_endStatement : IsSilent endStatement :=
  (isSilent_accept .semicolon).bind fun _ => .ite (isSilent_pure _) <|
    isSilent_canEndStatement.bind fun _ => .ite (isSilent_pure _) <|
      isSilent_skip .semicolon

theorem isSilent_atClose (close : TokenKind) : IsSilent (atClose close) :=
  isSilent_token.bind fun _ => isSilent_pure _

end Silent

section Answers
variable {α β σ : Type} {step : Parser α} {next : α → Parser β} {property : β → Prop}

theorem Answers.pure {result : β} (holds : property result) :
    Answers (Pure.pure result : Parser β) property := fun _ => holds

theorem Answers.bind (rest : ∀ result, Answers (next result) property) :
    Answers (step >>= next) property := fun state => rest (step state).1 (step state).2

theorem Answers.ite {condition : Prop} [Decidable condition] {first second : Parser β}
    (one : Answers first property) (two : Answers second property) :
    Answers (if condition then first else second) property := by
  split
  · exact one
  · exact two

/-- What each repetition keeps holds in the end. -/
theorem answers_repeatStep {property : σ → Prop} {step : σ → Parser (σ × Bool)}
    (each : ∀ result, property result → Answers (step result) fun next => property next.1)
    (fuel : Nat) (result : σ) (holds : property result) :
    Answers (repeatStep step fuel result) property := by
  induction fuel generalizing result with
  | zero => exact .pure holds
  | succ fuel ih =>
    intro state
    have next := each result holds state
    exact Answers.ite (ih _ next) (.pure next) (step result state).2

theorem answers_repeatWhile {property : σ → Prop} {initial : σ} {step : σ → Parser (σ × Bool)}
    (each : ∀ result, property result → Answers (step result) fun next => property next.1)
    (holds : property initial) : Answers (repeatWhile initial step) property :=
  .bind fun fuel => answers_repeatStep each fuel initial holds

end Answers

/-! ## Steps one after the other -/

section Turns
variable {α β σ : Type} {given held others mid : List Part} {step : Parser α} {next : α → Parser β}
  {made : α → List Part} {final : β → List Part}

theorem Turns.bind (first : Turns given step made)
    (rest : ∀ result, Turns (made result) (next result) final) :
    Turns given (step >>= next) final := by
  intro state trees all plays
  obtain ⟨built, work, plays'⟩ := first state trees all plays
  obtain ⟨last, work', plays''⟩ := rest (step state).1 (step state).2 built work.all plays'
  exact ⟨last, work.trans work', plays''⟩

/-- What is known of the result of a step may be used behind it. -/
theorem Turns.bindKnowing {property : α → Prop} (first : Turns given step made)
    (known : Answers step property)
    (rest : ∀ result, property result → Turns (made result) (next result) final) :
    Turns given (step >>= next) final := by
  intro state trees all plays
  obtain ⟨built, work, plays'⟩ := first state trees all plays
  obtain ⟨last, work', plays''⟩ :=
    rest (step state).1 (known state) (step state).2 built work.all plays'
  exact ⟨last, work.trans work', plays''⟩

theorem turns_pure {result : α} (same : given = made result) : Turns given (pure result) made := by
  intro state trees all plays
  exact ⟨trees, .refl all, same ▸ plays⟩

/-- Trees that are not touched stand in front. -/
theorem Turns.behind (turns : Turns given step made) (held : List Part) :
    Turns (held ++ given) step fun result => held ++ made result := by
  intro state trees all plays
  obtain ⟨front, back, rfl, first, second⟩ := plays.exists_append
  obtain ⟨-, there, -⟩ := holdsAll_append.mp all
  obtain ⟨built, work, plays'⟩ := turns state back there second
  have all' : state.store.HoldsAll (back ++ front) := all.perm List.perm_append_comm
  refine ⟨front ++ built, ?_, (first.carry work.kinds).append plays'⟩
  exact ((work.beside all').permBefore List.perm_append_comm).perm List.perm_append_comm

/-- A step makes trees beside those that are there. -/
theorem Turns.andThen (first : Turns [] step made)
    (rest : ∀ result, Turns (held ++ made result) (next result) final) :
    Turns held (step >>= next) final := by
  have beside := first.behind held
  rw [List.append_nil] at beside
  exact beside.bind rest

/-- A step uses the trees made last. -/
theorem Turns.onto (first : Turns given step made)
    (rest : ∀ result, Turns (held ++ made result) (next result) final) :
    Turns (held ++ given) (step >>= next) final :=
  (first.behind held).bind rest

theorem IsSilent.turns (silent : IsSilent step) (same : ∀ result, made result = given) :
    Turns given step made := by
  intro state trees all plays
  rw [silent state]
  exact ⟨trees, .refl all, same _ ▸ plays⟩

theorem IsSilent.andThen (silent : IsSilent step) (rest : ∀ result, Turns held (next result) final) :
    Turns held (step >>= next) final :=
  Turns.bind (silent.turns fun _ => rfl) rest

theorem Turns.ite {condition : Prop} [Decidable condition] {first second : Parser α}
    (one : condition → Turns given first made) (two : ¬condition → Turns given second made) :
    Turns given (if condition then first else second) made := by
  split
  · exact one ‹_›
  · exact two ‹_›

theorem Turns.either {first second : Parser α} {condition : Bool} (one : Turns given first made)
    (two : Turns given second made) : Turns given (if condition then first else second) made :=
  .ite (fun _ => one) fun _ => two

theorem Turns.perm (turns : Turns given step made) (perm : given.Perm others) :
    Turns others step made := by
  intro state trees all plays
  obtain ⟨parts, plays', moved⟩ := List.perm_comp_forall₂ perm plays.flip
  obtain ⟨built, work, plays''⟩ := turns state parts (all.perm moved.symm) plays'.flip
  exact ⟨built, work.permBefore moved, plays''⟩

theorem Turns.congr {other : α → List Part} (turns : Turns given step made)
    (same : ∀ result, made result = other result) : Turns given step other := by
  rw [← funext same]
  exact turns

theorem Turns.outsideHead (turns : Turns given step made) : Turns given (outsideHead step) made :=
  fun state trees all plays => turns { state with inHead := false } trees all plays

theorem Turns.insideHead (turns : Turns given step made) : Turns given (insideHead step) made :=
  fun state trees all plays => turns { state with inHead := true } trees all plays

theorem Turns.insideFunction (turns : Turns given step made) :
    Turns given (insideFunction step) made :=
  fun state trees all plays => turns { state with inHead := false, inFunction := true } trees all plays

/-- What plays a role plays none in particular. -/
theorem Turns.anywhere {step : Parser Slot} {role : Role}
    (turns : Turns given step fun slot => [(slot, role)]) :
    Turns given step fun slot => [(slot, .any)] := by
  intro state trees all plays
  obtain ⟨built, work, plays'⟩ := turns state trees all plays
  exact ⟨built, work, plays'.unroled⟩

/-- A slot is left empty. -/
theorem Turns.absent (front back : List Part) (role : Role)
    (turns : Turns (front ++ (none, role) :: back) step made) : Turns (front ++ back) step made := by
  have moved : Turns ((none, role) :: (front ++ back)) step made := turns.perm List.perm_middle
  intro state trees all plays
  obtain ⟨built, work, plays'⟩ := moved state (.nothing :: trees)
    ⟨List.forall_mem_cons.mpr ⟨.nothing, all.holds⟩, all.nodup⟩ (.cons ⟨rfl, Role.fits_none⟩ plays)
  exact ⟨built, (Rebuilds.refl all).addNothing.trans work, plays'⟩

theorem turns_none (role : Role) : Turns [] (pure none) fun slot : Slot => [(slot, role)] :=
  Turns.absent [] [] role (turns_pure rfl)

/-- A tree is not used. -/
theorem Turns.without {part : Part} (turns : Turns given step made) :
    Turns (part :: given) step made := by
  intro state trees all plays
  cases plays with
  | cons _ plays =>
    have drops := Rebuilds.dropping all
    obtain ⟨built, work, plays'⟩ := turns state _ drops.all plays
    exact ⟨built, drops.trans work, plays'⟩

theorem Turns.withoutLast {part : Part} (turns : Turns given step made) :
    Turns (given ++ [part]) step made :=
  turns.without.perm (List.perm_append_singleton part given).symm

/-- What is quiet may be a body. -/
theorem Turns.asBody {step : Parser Slot}
    (turns : Turns given step fun slot => [(slot, .quiet)]) :
    Turns given step fun slot => [(slot, .body)] := by
  intro state trees all plays
  obtain ⟨built, work, plays'⟩ := turns state trees all plays
  refine ⟨built, work, ?_⟩
  cases plays' with
  | cons fits rest =>
    cases rest
    exact .cons ⟨fits.1, IsQuietAt.isBodyAt fits.2⟩ .nil

theorem turns_repeatStep (holding : σ → List Part) {step : σ → Parser (σ × Bool)}
    (each : ∀ state, Turns (holding state) (step state) fun result => holding result.1)
    (fuel : Nat) (state : σ) : Turns (holding state) (repeatStep step fuel state) holding := by
  induction fuel generalizing state with
  | zero => exact turns_pure rfl
  | succ fuel ih => exact (each state).bind fun result => .ite (fun _ => ih result.1) fun _ => turns_pure rfl

theorem turns_repeatWhile (holding : σ → List Part) {step : σ → Parser (σ × Bool)} (initial : σ)
    (each : ∀ state, Turns (holding state) (step state) fun result => holding result.1) :
    Turns (holding initial) (repeatWhile initial step) holding :=
  isSilent_limit.andThen fun fuel => turns_repeatStep holding each fuel initial

end Turns

/-! ## Nodes -/

/-- What a node of a shape needs of the trees below it. -/
structure Suits (shape : Shape) (given : List Part) : Prop where
  slots : shape.slots = given.map Prod.fst
  regular : shape.IsRegular
  quiet : ∀ slot ∈ shape.quietSlots, (slot, .quiet) ∈ given
  body : ∀ slot ∈ shape.bodySlots, (slot, .body) ∈ given
  full : shape.isHollow = false

section Nodes
variable {given : List Part} {shape : Shape}

theorem Suits.of_other (slots : shape.slots = given.map Prod.fst)
    (other : ∀ kind initializer condition incrementor body,
      shape ≠ .loop kind initializer condition incrementor body)
    (quiet : ∀ slot ∈ shape.quietSlots, (slot, .quiet) ∈ given)
    (body : ∀ slot ∈ shape.bodySlots, (slot, .body) ∈ given)
    (full : shape.isHollow = false) : Suits shape given :=
  ⟨slots, Shape.isRegular_of_not_isLoop other, quiet, body, full⟩

theorem Suits.turns_nodeAt (suits : Suits shape given) (flags : Flags) (start stop : Nat) :
    Turns given (nodeAt shape flags start stop) fun slot => [(slot, shape.role)] := by
  intro state trees all plays
  have slots : shape.slots = trees.map Tree.root := suits.slots.trans plays.roots.symm
  have all' : state.store.HoldsAll (trees ++ []) := by rwa [List.append_nil]
  have work : Rebuilds state.store (state.store.add shape flags start stop).1 (trees ++ [])
      [.node state.store.nodes.size shape trees] :=
    .adding all' slots suits.regular fun _ =>
      ⟨fun child listed => plays.fits (suits.quiet _ listed) child rfl,
        fun child listed => plays.fits (suits.body _ listed) child rfl, suits.full,
        suits.regular⟩
  rw [List.append_nil] at work
  refine ⟨_, work, .cons ⟨rfl, Role.fits_of_shape? ?_⟩ .nil⟩
  exact (shape?_add state.store shape flags start stop _).trans (if_pos rfl)

theorem Suits.turns_flagged (suits : Suits shape given) (flags : Flags) (start : Nat) :
    Turns given (flagged shape flags start) fun slot => [(slot, shape.role)] :=
  isSilent_lastEnd.andThen fun stop => suits.turns_nodeAt flags start stop

theorem Suits.turns_node (suits : Suits shape given) (start : Nat) :
    Turns given (node shape start) fun slot => [(slot, shape.role)] :=
  suits.turns_flagged Flags.none start

end Nodes

end Parser

end Unflatten
