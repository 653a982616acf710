import Unflatten.Proofs.Parser.Phrases
import Unflatten.Proofs.Syntax.Copying
import Unflatten.Proofs.Token.Lexemes

/-! # Steps that take lexemes

A parser with some lexemes ahead (`Parser.Ahead`) that takes the first of them comes to slots
that stand for trees, with the others ahead (`Parser.Arrives`), unless it reports that something
nests too deep.  Errors stay, so nothing needs to be known behind that report (`Parser.DeepOr`). -/

set_option autoImplicit false

namespace Unflatten

namespace Store

mutual

/-- A slot stands for a tree, whatever the names of the nodes are. -/
def Resembles (store : Store) (slot : Slot) : Tree → Prop
  | .nothing => slot = none
  | .node _ shape below => ∃ found, store.shape? slot = some found ∧
      found.withSlots [] = shape.withSlots [] ∧ store.ResemblesAll found.slots below

/-- Slots stand for trees, one for one. -/
def ResemblesAll (store : Store) : List Slot → List Tree → Prop
  | [], [] => True
  | slot :: slots, tree :: trees => store.Resembles slot tree ∧ store.ResemblesAll slots trees
  | _, _ => False

end

section Resembles
variable {store later : Store} {slot : Slot} {tree : Tree} {slots others : List Slot} {trees rest : List Tree}

theorem Resembles.isNone_eq (resembles : store.Resembles slot tree) (some : tree.root.isSome = true) :
    slot.isNone = false := by
  cases tree with
  | nothing => cases some
  | node id shape below =>
    obtain ⟨found, there, -⟩ := resembles
    cases slot with
    | none => cases there
    | some => rfl

theorem ResemblesAll.imp (resembles : store.ResemblesAll slots trees)
    (each : ∀ tree ∈ trees, ∀ slot, store.Resembles slot tree → later.Resembles slot tree) :
    later.ResemblesAll slots trees := by
  induction trees generalizing slots with
  | nil =>
    cases slots with
    | nil => trivial
    | cons => cases resembles
  | cons tree trees ih =>
    cases slots with
    | nil => cases resembles
    | cons slot slots =>
      obtain ⟨first, others⟩ := resembles
      exact ⟨each tree List.mem_cons_self slot first,
        ih others fun other member => each other (List.mem_cons_of_mem tree member)⟩

/-- What a slot stands for stays when nodes are added. -/
theorem Resembles.mono (keeps : store.Keeps later) (resembles : store.Resembles slot tree) :
    later.Resembles slot tree := by
  induction tree generalizing slot with
  | nothing => exact resembles
  | node id shape below ih =>
    obtain ⟨found, there, same, each⟩ := resembles
    exact ⟨found, keeps.shape? there, same, each.imp fun tree member _ => ih tree member⟩

theorem ResemblesAll.mono (keeps : store.Keeps later) (resembles : store.ResemblesAll slots trees) :
    later.ResemblesAll slots trees := resembles.imp fun _ _ _ => Resembles.mono keeps

theorem ResemblesAll.append (first : store.ResemblesAll slots trees)
    (second : store.ResemblesAll others rest) : store.ResemblesAll (slots ++ others) (trees ++ rest) := by
  induction trees generalizing slots with
  | nil =>
    cases slots with
    | nil => exact second
    | cons => cases first
  | cons tree trees ih =>
    cases slots with
    | nil => cases first
    | cons slot slots => exact ⟨first.1, ih first.2⟩

theorem ResemblesAll.last (resembles : store.ResemblesAll (slots ++ [slot]) (trees ++ [tree])) :
    store.Resembles slot tree := by
  induction trees generalizing slots with
  | nil =>
    cases slots with
    | nil => exact resembles.1
    | cons first slots => cases slots <;> cases resembles.2
  | cons first trees ih =>
    cases slots with
    | nil => cases trees <;> cases resembles.2
    | cons => exact ih resembles.2

/-- The tree that a slot holds is the tree it stands for, but for the names. -/
theorem Resembles.bare_eq {held : Tree} (resembles : store.Resembles held.root tree)
    (holds : store.Holds held) : held.bare = tree.bare := by
  induction tree generalizing held with
  | nothing =>
    cases holds with
    | nothing => rfl
    | node => cases resembles
  | node id shape below ih =>
    obtain ⟨found, there, same, each⟩ := resembles
    cases holds with
    | nothing => cases there
    | @node id' shape' below' found' _ roots _ inner =>
      cases found'.symm.trans there
      have all : ∀ {inside : List Tree}, (∀ tree ∈ inside, store.Holds tree) →
          store.ResemblesAll (inside.map Tree.root) below → inside.map Tree.bare = below.map Tree.bare := by
        clear each
        induction below with
        | nil =>
          intro inside _ each
          cases inside with
          | nil => rfl
          | cons => cases each
        | cons tree trees later =>
          intro inside inner each
          cases inside with
          | nil => cases each
          | cons first others =>
            obtain ⟨firstHolds, inner⟩ := List.forall_mem_cons.mp inner
            rw [List.map_cons, List.map_cons, ih tree List.mem_cons_self each.1 firstHolds,
              later (fun tree member _ => ih tree (List.mem_cons_of_mem _ member)) inner each.2]
      rw [Tree.bare, Tree.bare, same, Tree.bareAll_eq, Tree.bareAll_eq, all inner (roots ▸ each)]

end Resembles

end Store

namespace Parser

/-! ## What is ahead -/

/-- The parser has reported that something nests too deep. -/
def IsDeep (s : ParserState) : Prop := ∃ error ∈ s.errors, error.cause = .nestingTooDeep

/-- The parser has read that something nests too deep, or it comes to a certain answer and state. -/
def DeepOr {α : Type} (post : α → ParserState → Prop) (outcome : α × ParserState) : Prop :=
  IsDeep outcome.2 ∨ post outcome.1 outcome.2

/-- Some lexemes are ahead of a parser that has reported nothing. -/
structure Ahead (lexemes : List Lexeme) (s : ParserState) : Prop where
  feeds : s.lexer.Feeds lexemes
  clean : s.errors = #[]
  outside : s.inHead = false
  room : lexemes.length < s.limit

/-- The parser has come from a store to slots that stand for trees, with some lexemes ahead. -/
structure Arrives (store : Store) (others : List Lexeme) (slots : List Slot) (trees : List Tree)
    (s : ParserState) : Prop where
  ahead : Ahead others s
  keeps : store.Keeps s.store
  resembles : s.store.ResemblesAll slots trees

/-- With some lexemes ahead, a step takes the first of them and makes slots that stand for trees. -/
def Takes {α : Type} (step : Parser α) (made : α → List Slot) (trees : List Tree)
    (lexemes others : List Lexeme) : Prop :=
  ∀ s, Ahead (lexemes ++ others) s →
    DeepOr (fun result => Arrives s.store others (made result) trees) (step s)

/-- The one slot that a step makes. -/
abbrev single (slot : Slot) : List Slot := [slot]

section Steps
variable {α β : Type} {lexeme : Lexeme} {lexemes others : List Lexeme} {s : ParserState} {store : Store}
  {slots : List Slot} {trees : List Tree} {step : Parser α} {next : α → Parser β} {kind : TokenKind}
  {mid : α → ParserState → Prop} {post : β → ParserState → Prop} {made : α → List Slot}

theorem IsDeep.keep (deep : IsDeep s) (keeps : KeepsErrors step) : IsDeep (step s).2 := by
  obtain ⟨error, there, cause⟩ := deep
  exact ⟨error, keeps s error there, cause⟩

theorem Ahead.kind_eq (ahead : Ahead (lexeme :: others) s) : s.lexer.kind = lexeme.kind := ahead.feeds.2.1

theorem Ahead.value_eq (ahead : Ahead (lexeme :: others) s) : s.lexer.value = lexeme.value := ahead.feeds.2.2.1

theorem Ahead.sameLine (ahead : Ahead (lexeme :: others) s) : s.lexer.lineBreakBefore = false :=
  ahead.feeds.2.2.2.1

theorem Ahead.advance (ahead : Ahead (lexeme :: others) s) : Ahead others (advance s).2 :=
  ⟨ahead.feeds.2.2.2.2, ahead.clean, ahead.outside, Nat.lt_of_succ_lt ahead.room⟩

/-- Before the first node there is nothing to resemble. -/
theorem Ahead.start (ahead : Ahead others s) : Arrives s.store others [] [] s := ⟨ahead, .refl _, trivial⟩

theorem Arrives.advance (arrives : Arrives store (lexeme :: others) slots trees s) :
    Arrives store others slots trees (advance s).2 :=
  ⟨arrives.ahead.advance, arrives.keeps, arrives.resembles⟩

/-- The slot of a node is filled. -/
theorem Arrives.isNone_eq {slot : Slot} {tree : Tree}
    (arrives : Arrives store others (slots ++ [slot]) (trees ++ [tree]) s)
    (some : tree.root.isSome = true) : ¬slot.isNone = true := by
  rw [arrives.resembles.last.isNone_eq some]
  exact Bool.false_ne_true

/-- A step behind others. -/
theorem Arrives.andThen {middle : ParserState} {slots' : List Slot} {trees' : List Tree}
    (first : Arrives store lexemes slots trees middle)
    (second : Arrives middle.store others slots' trees' s) :
    Arrives store others (slots ++ slots') (trees ++ trees') s :=
  ⟨second.ahead, first.keeps.trans second.keeps, (first.resembles.mono second.keeps).append second.resembles⟩

/-- The slots become those of a new node. -/
theorem Arrives.nodeAt {id : NodeId} (arrives : Arrives store others slots trees s) (shape : Shape)
    {shape' : Shape} (filled : shape.slots = slots) (same : shape.withSlots [] = shape'.withSlots [])
    (flags : Flags)
    (start stop : Nat) : Arrives store others [(nodeAt shape flags start stop s).1] [.node id shape' trees]
      (nodeAt shape flags start stop s).2 := by
  have keeps : s.store.Keeps (s.store.add shape flags start stop).1 := Store.keeps_add s.store shape flags start stop
  have ahead := arrives.ahead
  refine ⟨⟨ahead.feeds, ahead.clean, ahead.outside, ahead.room⟩, arrives.keeps.trans keeps,
    ⟨shape, ?_, same, ?_⟩, trivial⟩
  · exact (Store.shape?_add s.store shape flags start stop _).trans (if_pos rfl)
  · rw [filled]
    exact arrives.resembles.mono keeps

/-! ## One step after another -/

theorem DeepOr.bind (first : DeepOr mid (step s)) (keeps : ∀ result, KeepsErrors (next result))
    (rest : ∀ result s', mid result s' → DeepOr post (next result s')) : DeepOr post ((step >>= next) s) := by
  rcases first with deep | holds
  · exact .inl (deep.keep (keeps _))
  · exact rest _ _ holds

theorem DeepOr.imp {post' : β → ParserState → Prop} {outcome : β × ParserState} (holds : DeepOr post' outcome)
    (implies : ∀ result s', post' result s' → post result s') : DeepOr post outcome :=
  Or.imp_right (implies _ _) holds

/-- A step that takes lexemes puts its slots behind those that are there. -/
theorem Takes.then {made : α → List Slot} {trees' : List Tree} (takes : Takes step made trees' lexemes others)
    (arrives : Arrives store (lexemes ++ others) slots trees s) (keeps : ∀ result, KeepsErrors (next result))
    (rest : ∀ result s', Arrives store others (slots ++ made result) (trees ++ trees') s' →
      DeepOr post (next result s')) : DeepOr post ((step >>= next) s) :=
  (takes s arrives.ahead).bind keeps fun result s' further => rest result s' (arrives.andThen further)

theorem Looks.go (looks : Looks step) (rest : DeepOr post (next (step s).1 s)) :
    DeepOr post ((step >>= next) s) := by
  rwa [bind_apply, looks s]

theorem deepOr_token {next : TokenKind → Parser β} (here : s.lexer.kind = kind)
    (rest : DeepOr post (next kind s)) : DeepOr post ((token >>= next) s) :=
  looks_token.go (by subst here; exact rest)

theorem deepOr_at? {next : Bool → Parser β} {found : Bool} (here : (s.lexer.kind == kind) = found)
    (rest : DeepOr post (next found s)) : DeepOr post ((at? kind >>= next) s) := by
  subst here
  exact rest

theorem DeepOr.ite_pos {condition : Prop} [Decidable condition] {one two : Parser β} (yes : condition)
    (rest : DeepOr post (one s)) : DeepOr post ((if condition then one else two) s) := by
  rwa [if_pos yes]

theorem DeepOr.ite_neg {condition : Prop} [Decidable condition] {one two : Parser β} (no : ¬condition)
    (rest : DeepOr post (two s)) : DeepOr post ((if condition then one else two) s) := by
  rwa [if_neg no]

theorem accept_here (here : s.lexer.kind = kind) : accept kind s = (true, (advance s).2) := by
  have found : (s.lexer.kind == kind) = true := beq_iff_eq.mpr here
  rw [accept, bind_apply]
  change (if (s.lexer.kind == kind) = true then _ else _ : Parser Bool) s = _
  rw [found]
  rfl

theorem accept_other (other : s.lexer.kind ≠ kind) : accept kind s = (false, s) := by
  have missing : (s.lexer.kind == kind) = false := beq_eq_false_iff_ne.mpr other
  rw [accept, bind_apply]
  change (if (s.lexer.kind == kind) = true then _ else _ : Parser Bool) s = _
  rw [missing]
  rfl

theorem skip_here (here : s.lexer.kind = kind) : discard (expect kind) s = ((), (advance s).2) := by
  change ((), (expect kind s).2) = _
  rw [expect, bind_apply, accept_here here]
  rfl

theorem deepOr_advance {next : Unit → Parser β} (rest : DeepOr post (next () (advance s).2)) :
    DeepOr post ((advance >>= next) s) := rest

theorem deepOr_accept {next : Bool → Parser β} (here : s.lexer.kind = kind)
    (rest : DeepOr post (next true (advance s).2)) : DeepOr post ((accept kind >>= next) s) := by
  rwa [bind_apply, accept_here here]

theorem deepOr_skip {next : Unit → Parser β} (here : s.lexer.kind = kind)
    (rest : DeepOr post (next () (advance s).2)) : DeepOr post ((discard (expect kind) >>= next) s) := by
  rwa [bind_apply, skip_here here]

theorem deepOr_missing {next : Bool → Parser β} (other : s.lexer.kind ≠ kind)
    (rest : DeepOr post (next false s)) : DeepOr post ((accept kind >>= next) s) := by
  rwa [bind_apply, accept_other other]

/-- Outside of the head of a loop nothing changes. -/
theorem Takes.outsideHead (takes : Takes step made trees lexemes others) :
    Takes (outsideHead step) made trees lexemes others := by
  intro s ahead
  have same : { s with inHead := false } = s := by rw [← ahead.outside]
  have outcome : Parser.outsideHead step s = ((step s).1, { (step s).2 with inHead := false }) := by
    change ((step { s with inHead := false }).1, { (step { s with inHead := false }).2 with inHead := s.inHead }) = _
    rw [same, ahead.outside]
  rw [outcome]
  refine (takes s ahead).imp_right fun arrives => ?_
  have further := arrives.ahead
  exact ⟨⟨further.feeds, further.clean, rfl, further.room⟩, arrives.keeps, arrives.resembles⟩

/-! ## Errors stay -/

theorem keepsErrors_nodeAt (shape : Shape) (flags : Flags) (start stop : Nat) :
    KeepsErrors (nodeAt shape flags start stop) := fun _ _ there => there

theorem keepsErrors_flagged (shape : Shape) (flags : Flags) (start : Nat) :
    KeepsErrors (flagged shape flags start) := fun _ _ there => there

theorem keepsErrors_node (shape : Shape) (start : Nat) : KeepsErrors (node shape start) :=
  keepsErrors_flagged shape Flags.none start

theorem looks_at? (kind : TokenKind) : Looks (at? kind) := fun _ => rfl

theorem keepsErrors_accept (kind : TokenKind) : KeepsErrors (accept kind) :=
  (looks_at? kind).keepsErrors.bind fun _ => keepsErrors_ite
    (keepsErrors_advance.bind fun _ => keepsErrors_pure true) (keepsErrors_pure false)

theorem keepsErrors_skip (kind : TokenKind) : KeepsErrors (discard (expect kind)) :=
  KeepsErrors.bind ((keepsErrors_accept kind).bind fun _ => keepsErrors_ite (keepsErrors_pure true)
    ((keepsErrors_report _).bind fun _ => keepsErrors_pure false)) fun _ => keepsErrors_pure ()

theorem KeepsErrors.outsideHead (keeps : KeepsErrors step) : KeepsErrors (outsideHead step) :=
  fun s => keeps { s with inHead := false }

theorem keepsErrors_repeatStep {σ : Type} {turn : σ → Parser (σ × Bool)}
    (each : ∀ found, KeepsErrors (turn found))
    (fuel : Nat) (found : σ) : KeepsErrors (repeatStep turn fuel found) := by
  induction fuel generalizing found with
  | zero => exact keepsErrors_pure found
  | succ fuel ih =>
    exact (each found).bind fun result => keepsErrors_ite (ih result.1) (keepsErrors_pure result.1)

theorem keepsErrors_repeatWhile {σ : Type} {turn : σ → Parser (σ × Bool)}
    (each : ∀ found, KeepsErrors (turn found)) (initial : σ) :
    KeepsErrors (repeatWhile initial turn) :=
  looks_limit.keepsErrors.bind fun fuel => keepsErrors_repeatStep each fuel initial

theorem keepsErrors_grammar (depth : Nat) (goal : Goal) : KeepsErrors (grammar depth goal) := by
  have goals := grammar_makesPhrases [] depth
  cases goal with
  | statement => exact goals.statement.keeps
  | assignment => exact goals.assignment.keeps
  | prefixed => exact goals.prefixed.keeps

end Steps

/-! ## Repetition -/

section Repetition
variable {s : ParserState} {σ : Type} {turn : σ → Parser (σ × Bool)} {found : σ} {fuel : Nat}
    {post : σ → ParserState → Prop}

/-- A turn that others follow. -/
theorem DeepOr.again {mid : σ × Bool → ParserState → Prop} (once : DeepOr mid (turn found s))
    (keeps : ∀ found, KeepsErrors (turn found)) (rest : ∀ result s', mid result s' →
      result.2 = true ∧ DeepOr post (repeatStep turn fuel result.1 s')) : DeepOr post 
    (repeatStep turn (fuel + 1) found s) := by
  rcases once with deep | holds
  · refine .inl ?_
    rw [repeatStep, bind_apply]
    exact deep.keep (keepsErrors_ite (keepsErrors_repeatStep keeps fuel _) (keepsErrors_pure _))
  · obtain ⟨more, further⟩ := rest _ _ holds
    rwa [repeatStep_more more]

/-- The last turn. -/
theorem DeepOr.last (once : DeepOr (fun result s' => result.2 = false ∧ post result.1 s') (turn found s))
    (keeps : ∀ found, KeepsErrors (turn found)) : DeepOr post (repeatStep turn (fuel + 1) found s) := by
  rw [repeatStep, bind_apply]
  rcases once with deep | ⟨ends, holds⟩
  · exact .inl (deep.keep (keepsErrors_ite (keepsErrors_repeatStep keeps fuel _) (keepsErrors_pure _)))
  · dsimp only
    rw [ends]
    exact .inr holds

end Repetition

/-! ## Tokens -/

section Tokens
variable {lexeme : Lexeme} {others : List Lexeme} {s : ParserState} {store : Store} {slots : List Slot}
  {trees : List Tree} {id : NodeId}

/-- A node that ends with the token read last. -/
theorem Arrives.node (arrives : Arrives store others slots trees s) (shape : Shape) {shape' : Shape}
    (filled : shape.slots = slots) (same : shape.withSlots [] = shape'.withSlots []) (start : Nat) :
    Arrives store others [(node shape start s).1] [.node id shape' trees] (node shape start s).2 :=
  arrives.nodeAt shape filled same Flags.none start s.lastEnd

/-- A token becomes an identifier, whatever it is. -/
theorem takes_identifier : Takes identifier single [.node id (.identifier lexeme.value) []] [lexeme] others := by
  intro s ahead
  have same : Shape.identifier s.lexer.value = .identifier lexeme.value := congrArg _ ahead.value_eq
  exact .inr (ahead.start.advance.nodeAt _ rfl (congrArg (Shape.withSlots · []) same) Flags.none _ _)

/-- A token becomes a literal. -/
theorem takes_literal (kind : LiteralKind) (read : String → Option Float) :
    Takes (literal kind read) single [.node id (.literal kind lexeme.value (read lexeme.value)) []] [lexeme]
      others := by
  intro s ahead
  have value : s.lexer.value = lexeme.value := ahead.value_eq
  have same : Shape.literal kind s.lexer.value (read s.lexer.value) =
      .literal kind lexeme.value (read lexeme.value) := by rw [value]
  exact .inr (ahead.start.advance.nodeAt _ rfl (congrArg (Shape.withSlots · []) same) Flags.none _ _)

end Tokens

end Parser

end Unflatten
