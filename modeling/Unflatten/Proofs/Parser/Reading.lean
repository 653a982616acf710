import Unflatten.Proofs.Parser.Progress
import Unflatten.Proofs.Parser.Stretch

/-! # Steps that read

A step that makes pieces (`Parser.Makes`) either reports an error or goes over a stretch of tokens
and leaves pieces behind.  Inside of a step the stretch begins at an earlier state
(`Parser.Reads`): pieces are put behind those that are there, and a node takes the slots of all of
them.  Errors stay, so nothing needs to be known behind one. -/

set_option autoImplicit false

namespace Unflatten

namespace Parser

/-- A step that drops no errors. -/
def KeepsErrors {α : Type} (step : Parser α) : Prop := ∀ s, ∀ error ∈ s.errors, error ∈ (step s).2.errors

/-- At a token of some kind, a step reports an error or goes over a stretch and leaves pieces. -/
structure Makes {α : Type} (text : List Char) (here : TokenKind → Prop) (step : Parser α)
    (made : α → List Piece) : Prop where
  keeps : KeepsErrors step
  makes : ∀ s, IsClean text s → here s.lexer.kind →
    (step s).2.errors ≠ #[] ∨ Stretch text s (step s).2 (made (step s).1)

/-- On a stretch that has left some pieces, at a token of some kind, a step reports an error or
comes to a certain answer and state. -/
structure Reads {α : Type} (text : List Char) (first : ParserState) (here : TokenKind → Prop)
    (given : List Piece) (step : Parser α) (post : α → ParserState → Prop) : Prop where
  keeps : KeepsErrors step
  reads : ∀ s, Stretch text first s given → here s.lexer.kind →
    (step s).2.errors ≠ #[] ∨ post (step s).1 (step s).2

/-- A token at least, and the node of a phrase. -/
abbrev phrase (slot : Slot) : List Piece := [.token, .slot slot]

/-- The stretch goes on and leaves other pieces. -/
def Leaves {α : Type} (text : List Char) (first : ParserState) (made : α → List Piece) (result : α)
    (s : ParserState) : Prop := Stretch text first s (made result)

/-- A step that changes nothing. -/
def Looks {α : Type} (step : Parser α) : Prop := ∀ s, (step s).2 = s

section Combinators
variable {text : List Char} {first middle : ParserState} {here here' : TokenKind → Prop}
  {given held : List Piece} {α β σ : Type} {step : Parser α} {next : α → Parser β}
  {made : α → List Piece} {final : β → List Piece} {post : β → ParserState → Prop} {post' : α → ParserState → Prop}

theorem KeepsErrors.bind (one : KeepsErrors step) (rest : ∀ result, KeepsErrors (next result)) :
    KeepsErrors (step >>= next) := fun s error there => rest _ _ error (one s error there)

/-- Behind an error there is one. -/
theorem KeepsErrors.reported (keeps : KeepsErrors step) {s : ParserState} (some : s.errors ≠ #[]) :
    (step s).2.errors ≠ #[] := by
  obtain ⟨error, there⟩ := Array.exists_mem_of_ne_empty s.errors some
  exact Array.ne_empty_of_mem (keeps s error there)

theorem Looks.keepsErrors (looks : Looks step) : KeepsErrors step := fun s _ there => by rwa [looks s]

theorem keepsErrors_pure (result : β) : KeepsErrors (pure result : Parser β) := fun _ _ there => there

theorem keepsErrors_ite {condition : Prop} [Decidable condition] {one two : Parser β}
    (then_ : KeepsErrors one) (else_ : KeepsErrors two) :
    KeepsErrors (if condition then one else two) := by
  split
  · exact then_
  · exact else_

/-- Inside of a step, the stretch begins where the step does. -/
theorem Makes.intro (reads : ∀ first, Reads text first here [] step (Leaves text first made)) :
    Makes text here step made :=
  ⟨fun s => (reads s).keeps s, fun s clean at_ => (reads s).reads s (.refl clean) at_⟩

/-- The place where a step begins is where its nodes will start. -/
theorem Makes.position {next : Nat → Parser β}
    (reads : ∀ first : ParserState, Reads text first here [] (next first.lexer.start.offset)
      (Leaves text first final)) : Makes text here (Parser.position >>= next) final :=
  ⟨fun s => (reads s).keeps s, fun s clean at_ => (reads s).reads s (.refl clean) at_⟩

/-- Nothing is known of the token. -/
theorem Reads.anywhere (reads : Reads text first Anything given step (Leaves text first made)) :
    Reads text first here given step (Leaves text first made) :=
  ⟨reads.keeps, fun s stretch _ => reads.reads s stretch trivial⟩

theorem reads_pure {result : β}
    (holds : ∀ s, Stretch text first s given → here s.lexer.kind → post result s) :
    Reads text first here given (pure result) post :=
  ⟨keepsErrors_pure result, fun s stretch at_ => .inr (holds s stretch at_)⟩

/-- A step ends with the pieces that are there, but for tokens and empty slots. -/
theorem reads_done {result : β} (same : Piece.nodes given = Piece.nodes (final result))
    (taken : Piece.token ∈ final result → Piece.token ∈ given) :
    Reads text first here given (pure result) (Leaves text first final) :=
  reads_pure fun _ stretch _ => stretch.forget same taken

theorem Reads.bind (one : Reads text first here given step (Leaves text first made))
    (rest : ∀ result, Reads text first Anything (made result) (next result) post) :
    Reads text first here given (step >>= next) post := by
  refine ⟨one.keeps.bind fun result => (rest result).keeps, fun s stretch at_ => ?_⟩
  rcases one.reads s stretch at_ with error | stretch'
  · exact .inl ((rest _).keeps.reported error)
  · exact (rest _).reads _ stretch' trivial

/-- A step puts its pieces behind those that are there. -/
theorem Makes.after (makes : Makes text here step made) :
    Reads text first here held step (Leaves text first fun result => held ++ made result) := by
  refine ⟨makes.keeps, fun s stretch at_ => ?_⟩
  exact (makes.makes s stretch.clean at_).imp_right stretch.trans

/-- A step at fewer kinds of token. -/
theorem Makes.fits (makes : Makes text here' step made) (fits : ∀ kind, here kind → here' kind) :
    Makes text here step made := ⟨makes.keeps, fun s clean at_ => makes.makes s clean (fits _ at_)⟩

theorem Makes.andThen (makes : Makes text here' step made) (fits : ∀ kind, here kind → here' kind)
    (rest : ∀ result, Reads text first Anything (held ++ made result) (next result) post) :
    Reads text first here held (step >>= next) post := (makes.fits fits).after.bind rest

/-- A step at a token whose kind has been looked at. -/
theorem Makes.ofKind {kind : TokenKind} (makes : Makes text here' step made) (fits : here' kind) :
    Makes text (fun k => here k ∧ k = kind) step made := makes.fits fun _ at_ => at_.2 ▸ fits

theorem Makes.thenAt {kind : TokenKind} (makes : Makes text here' step made) (fits : here' kind)
    (rest : ∀ result, Reads text first Anything (held ++ made result) (next result) post) :
    Reads text first (fun k => here k ∧ k = kind) held (step >>= next) post :=
  (makes.ofKind fits).after.bind rest

theorem Makes.endAt {kind : TokenKind} (makes : Makes text here' step made) (fits : here' kind) :
    Reads text first (fun k => here k ∧ k = kind) [] step (Leaves text first made) :=
  (makes.ofKind fits).after

/-- The token is of the kind asked for. -/
theorem Makes.thenFound {kind : TokenKind} {found : Bool} (makes : Makes text here' step made)
    (yes : found = true) (fits : here' kind)
    (rest : ∀ result, Reads text first Anything (held ++ made result) (next result) post) :
    Reads text first (fun k => here k ∧ (k == kind) = found) held (step >>= next) post :=
  makes.andThen (fun _ at_ => eq_of_beq (at_.2.trans yes) ▸ fits) rest

/-- A step that may stand at any token. -/
theorem Makes.then (makes : Makes text Anything step made)
    (rest : ∀ result, Reads text first Anything (held ++ made result) (next result) post) :
    Reads text first here held (step >>= next) post := makes.andThen (fun _ _ => trivial) rest

theorem Reads.ite {condition : Prop} [Decidable condition] {one two : Parser β}
    (yes : condition → Reads text first here given one post)
    (no : ¬condition → Reads text first here given two post) :
    Reads text first here given (if condition then one else two) post := by
  split
  · exact yes ‹_›
  · exact no ‹_›

theorem Looks.then (looks : Looks step) (rest : ∀ result, Reads text first here given (next result) post) :
    Reads text first here given (step >>= next) post := by
  refine ⟨looks.keepsErrors.bind fun result => (rest result).keeps, fun s stretch at_ => ?_⟩
  rw [bind_apply, looks s]
  exact (rest _).reads s stretch at_

/-- The kind of the token is known. -/
theorem reads_token {next : TokenKind → Parser β}
    (rest : ∀ kind, Reads text first (fun k => here k ∧ k = kind) given (next kind) post) :
    Reads text first here given (token >>= next) post :=
  ⟨fun s => (rest s.lexer.kind).keeps s, fun s stretch at_ =>
    (rest s.lexer.kind).reads s stretch ⟨at_, rfl⟩⟩

theorem reads_at? {kind : TokenKind} {next : Bool → Parser β}
    (rest : ∀ found, Reads text first (fun k => here k ∧ (k == kind) = found) given (next found) post) :
    Reads text first here given (at? kind >>= next) post :=
  ⟨fun s => (rest (s.lexer.kind == kind)).keeps s, fun s stretch at_ =>
    (rest (s.lexer.kind == kind)).reads s stretch ⟨at_, rfl⟩⟩

/-- The bound on repetitions allows at least one. -/
theorem reads_limit {next : Nat → Parser β} (keeps : KeepsErrors (next 0))
    (rest : ∀ bound, Reads text first here given (next (bound + 1)) post) :
    Reads text first here given (limit >>= next) post := by
  refine ⟨fun s => ?_, fun s stretch at_ => ?_⟩
  · rw [bind_apply]
    change ∀ error ∈ s.errors, error ∈ (next s.limit s).2.errors
    cases s.limit with
    | zero => exact keeps s
    | succ bound => exact (rest bound).keeps s
  · have positive := stretch.clean.limit
    rw [bind_apply]
    change (next s.limit s).2.errors ≠ #[] ∨ post (next s.limit s).1 (next s.limit s).2
    obtain ⟨bound, same⟩ := Nat.exists_eq_succ_of_ne_zero (Nat.ne_of_gt positive)
    rw [same]
    exact (rest bound).reads s stretch at_

theorem report_errors (cause : SyntaxError.Cause) (s : ParserState) : (report cause s).2.errors ≠ #[] := by
  change (reportAt _ _ cause s).2.errors ≠ #[]
  unfold reportAt
  split
  · rename_i reported
    intro none
    rw [none] at reported
    cases reported
  · exact Array.push_ne_empty

theorem keepsErrors_report (cause : SyntaxError.Cause) : KeepsErrors (report cause) := by
  intro s error there
  change error ∈ (reportAt _ _ cause s).2.errors
  unfold reportAt
  split
  · exact there
  · exact Array.mem_push_of_mem _ there

/-- Behind an error there is nothing to show. -/
theorem reads_report {cause : SyntaxError.Cause} {next : Unit → Parser β}
    (keeps : KeepsErrors (next ())) : Reads text first here given (report cause >>= next) post :=
  ⟨(keepsErrors_report cause).bind fun _ => keeps, fun s _ _ => .inl (keeps.reported (report_errors cause s))⟩

/-- In the middle of a step, a new stretch begins. -/
theorem reads_position {next : Nat → Parser β}
    (rest : ∀ middle : ParserState, Reads text middle here [] (next middle.lexer.start.offset)
      fun result s => Stretch text first middle given → post result s) :
    Reads text first here given (Parser.position >>= next) post := by
  refine ⟨fun s => (rest s).keeps s, fun s stretch at_ => ?_⟩
  exact ((rest s).reads s (.refl stretch.clean) at_).imp_right fun holds => holds stretch

/-- The new stretch ends, and its pieces are put behind those before it. -/
theorem Reads.within (reads : Reads text first here (held ++ given) step post') :
    Reads text middle here given step fun result s =>
      Stretch text first middle held → post' result s := by
  refine ⟨reads.keeps, fun s stretch at_ => ?_⟩
  by_cases outer : Stretch text first middle held
  · exact (reads.reads s (outer.trans stretch) at_).imp_right fun holds _ => holds
  · exact .inr fun also => absurd also outer

/-- What else was left behind may be forgotten, and so may empty slots. -/
theorem Reads.forget (reads : Reads text first here held step post')
    (same : Piece.nodes given = Piece.nodes held) (taken : Piece.token ∈ held → Piece.token ∈ given) :
    Reads text first here given step post' :=
  ⟨reads.keeps, fun s stretch => reads.reads s (stretch.forget same taken)⟩

theorem Makes.forget {made' : α → List Piece} (makes : Makes text here step made)
    (same : ∀ result, Piece.nodes (made result) = Piece.nodes (made' result))
    (taken : ∀ result, Piece.token ∈ made' result → Piece.token ∈ made result) :
    Makes text here step made' :=
  ⟨makes.keeps, fun s clean at_ => (makes.makes s clean at_).imp_right fun stretch =>
    stretch.forget (same _) (taken _)⟩

/-- The context in which the parser reads says nothing of what it has read. -/
theorem Stretch.context {s s' : ParserState} {pieces : List Piece} {head function head' function' : Bool}
    (stretch : Stretch text { s with inHead := head, inFunction := function } s' pieces) :
    Stretch text s { s' with inHead := head', inFunction := function' } pieces :=
  have clean := stretch.clean
  ⟨stretch.begun, ⟨clean.lexer, clean.last, clean.place, clean.limit, clean.nested, clean.starts⟩,
    stretch.leads, stretch.later, stretch.lasts, stretch.comments,
    fun taken => ⟨(stretch.took taken).last, (stretch.took taken).beyond⟩, stretch.line, stretch.shows⟩

theorem IsClean.context {s : ParserState} (head function : Bool) (clean : IsClean text s) :
    IsClean text { s with inHead := head, inFunction := function } :=
  ⟨clean.lexer, clean.last, clean.place, clean.limit, clean.nested, clean.starts⟩

theorem Makes.outsideHead (makes : Makes text here step made) :
    Makes text here (Parser.outsideHead step) made :=
  ⟨fun s => makes.keeps { s with inHead := false }, fun s clean at_ =>
    (makes.makes { s with inHead := false } (clean.context false s.inFunction) at_).imp_right fun stretch =>
      stretch.context⟩

theorem Makes.insideHead (makes : Makes text here step made) :
    Makes text here (Parser.insideHead step) made :=
  ⟨fun s => makes.keeps { s with inHead := true }, fun s clean at_ =>
    (makes.makes { s with inHead := true } (clean.context true s.inFunction) at_).imp_right fun stretch =>
      stretch.context⟩

theorem Makes.insideFunction (makes : Makes text here step made) :
    Makes text here (Parser.insideFunction step) made :=
  ⟨fun s => makes.keeps { s with inHead := false, inFunction := true }, fun s clean at_ =>
    (makes.makes { s with inHead := false, inFunction := true } (clean.context false true) at_).imp_right
      fun stretch => stretch.context⟩

theorem reads_repeatStep (holding : σ → List Piece) {step : σ → Parser (σ × Bool)}
    (each : ∀ found, Reads text first Anything (holding found) (step found)
      (Leaves text first fun result => holding result.1)) (fuel : Nat) (found : σ) :
    Reads text first Anything (holding found) (repeatStep step fuel found) (Leaves text first holding) := by
  induction fuel generalizing found with
  | zero => exact reads_done rfl id
  | succ fuel ih =>
    exact (each found).bind fun result => .ite (fun _ => ih result.1) fun _ => reads_done rfl id

theorem looks_limit : Looks limit := fun _ => rfl

theorem reads_repeatWhile (holding : σ → List Piece) {step : σ → Parser (σ × Bool)} (initial : σ)
    (each : ∀ found, Reads text first Anything (holding found) (step found)
      (Leaves text first fun result => holding result.1)) :
    Reads text first Anything (holding initial) (repeatWhile initial step) (Leaves text first holding) :=
  looks_limit.then fun fuel => reads_repeatStep holding each fuel initial

theorem Makes.discarded {pieces : List Piece} (makes : Makes text here step fun _ => pieces) :
    Makes text here (discard step) fun _ => pieces := ⟨makes.keeps, makes.makes⟩

end Combinators

/-! ## Tokens -/

section Tokens
variable {text : List Char} {first : ParserState} {here : TokenKind → Prop} {given : List Piece} {β : Type}
  {post : β → ParserState → Prop}

theorem looks_position : Looks Parser.position := fun _ => rfl

theorem looks_lineBreakBefore : Looks lineBreakBefore := fun _ => rfl

theorem looks_inHead : Looks inHead := fun _ => rfl

theorem looks_inFunction : Looks inFunction := fun _ => rfl

theorem looks_satisfies (slot : Slot) (test : Shape → Bool) : Looks (satisfies slot test) := fun _ => rfl

theorem looks_canEndStatement : Looks canEndStatement := fun _ => rfl

theorem looks_atClose (close : TokenKind) : Looks (atClose close) := fun _ => rfl

theorem looks_token : Looks token := fun _ => rfl

theorem looks_peek : Looks peek := fun s => by
  change { s with lexer := s.lexer.scan.restore s.lexer.save } = s
  rw [s.lexer.restore_scan]

/-- A mark: what no node of its own shows. -/
def IsMark (kind : TokenKind) : Prop := kind.isShown = false

theorem keepsErrors_advance : KeepsErrors advance := fun _ _ there => there

theorem makes_advance : Makes text IsMark advance fun _ => [.token] :=
  ⟨keepsErrors_advance, fun _ clean mark => .inr (stretch_behind clean clean.lexer.same mark id)⟩

theorem makes_accept {kind : TokenKind} (mark : kind.isShown = false) :
    Makes text Anything (accept kind) fun found => if found then [.token] else [] := by
  refine .intro fun first => reads_at? fun found => .ite (fun yes => ?_) fun _ => ?_
  · exact makes_advance.thenFound yes mark fun _ => reads_done rfl id
  · exact reads_done rfl id

/-- What follows an optional token need not know whether it was there. -/
theorem makes_option {kind : TokenKind} (mark : kind.isShown = false) :
    Makes text Anything (accept kind) fun _ => [] :=
  have made : Makes text Anything (accept kind) fun found => if found then [.token] else [] :=
    makes_accept mark
  made.forget (fun found => by cases found <;> rfl) fun _ => (nomatch ·)

theorem makes_expect {kind : TokenKind} (mark : kind.isShown = false) :
    Makes text Anything (expect kind) fun _ => [.token] := by
  refine .intro fun first => (makes_accept mark).then fun found => ?_
  cases found with
  | true => exact reads_done rfl id
  | false => exact reads_report (keepsErrors_pure false)

/-- A missing token is an error. -/
theorem reads_expect {kind : TokenKind} (mark : kind.isShown = false) {next : Bool → Parser β}
    (keeps : KeepsErrors (next false)) (rest : Reads text first Anything (given ++ [.token]) (next true) post) :
    Reads text first here given (expect kind >>= next) post := by
  have split : expect kind >>= next = accept kind >>= fun found => if found then next true else
      report (.expected kind) >>= fun _ => next false := by
    rw [expect, bind_assoc]
    refine congrArg _ (funext fun found => ?_)
    cases found <;> rfl
  rw [split]
  refine (makes_accept mark).then fun found => ?_
  cases found with
  | true => exact rest
  | false => exact reads_report keeps

/-- A token that must be there and is of no further use. -/
theorem makes_skip {kind : TokenKind} (mark : kind.isShown = false) :
    Makes text Anything (discard (expect kind)) fun _ => [.token] := (makes_expect mark).discarded

theorem makes_endStatement : Makes text Anything endStatement fun _ => [] := by
  refine .intro fun first => (makes_option rfl).then fun found => .ite (fun _ => reads_done rfl id) fun _ =>
    looks_canEndStatement.then fun ends => .ite (fun _ => reads_done rfl id) fun _ => ?_
  have skipped : Makes text Anything (discard (expect .semicolon)) fun _ => [.token] := makes_skip rfl
  exact skipped.then fun _ => reads_done rfl (nomatch ·)

/-! ## Nodes -/

theorem reads_flagged {shape : Shape} (flags : Flags) (slots : Piece.slots given = shape.visible)
    (taken : Piece.token ∈ given) (compound : shape.isCompound = true) :
    Reads text first here given (flagged shape flags first.lexer.start.offset)
      (Leaves text first phrase) :=
  ⟨fun _ _ there => there, fun _ stretch _ => .inr (stretch.node flags slots taken compound)⟩

theorem reads_node {shape : Shape} (slots : Piece.slots given = shape.visible)
    (taken : Piece.token ∈ given) (compound : shape.isCompound = true) :
    Reads text first here given (node shape first.lexer.start.offset)
      (Leaves text first phrase) :=
  reads_flagged Flags.none slots taken compound

theorem isShown_of_mem_keywords : ∀ kind ∈ TokenKind.keywords, kind.isShown = false := by decide

/-- A name, which may be a reserved word. -/
theorem makes_identifier :
    Makes text (·.isIdentifierOrKeyword = true) identifier phrase := by
  refine ⟨fun _ _ there => there, fun s clean word => .inr ?_⟩
  have on := clean.lexer
  refine stretch_leaf (.identifier s.lexer.value) Flags.none clean on.same id rfl on.leads.offset_le
    (Nat.le_refl _) on.cursorIsIn.isBoundary ?_
  obtain ⟨value, kind⟩ := on.word word
  rw [Shape.token?, on.stretch_eq, ← value, Lexer.token]
  cases reserved : TokenKind.keyword? s.lexer.value with
  | none =>
    rw [reserved] at kind
    rw [show s.lexer.kind = .identifier from kind]
    rfl
  | some keyword =>
    rw [reserved] at kind
    have member := List.mem_of_find?_eq_some reserved
    rw [show s.lexer.kind = keyword from kind, isShown_of_mem_keywords keyword member]
    rfl

theorem makes_literal (kind : LiteralKind) (read : String → Option Float) :
    Makes text (· = kind.token) (literal kind read) phrase := by
  refine ⟨fun _ _ there => there, fun s clean same => .inr ?_⟩
  have on := clean.lexer
  refine stretch_leaf (.literal kind s.lexer.value (read s.lexer.value)) Flags.none clean on.same id rfl
    on.leads.offset_le (Nat.le_refl _) on.cursorIsIn.isBoundary ?_
  rw [Shape.token?_literal, same, kind.isShown_token, if_pos rfl, Lexer.token, same]

theorem makes_pattern : Makes text (fun kind => kind = .slash ∨ kind = .slashEquals) (do
    rescanSlash
    let start ← Parser.position
    let text ← value
    let stop ← tokenEnd
    advance
    nodeAt (.literal .pattern text none) Flags.none start stop) phrase := by
  refine ⟨fun _ _ there => there, fun s clean slash => .inr ?_⟩
  obtain ⟨on, start, kind, -⟩ := clean.lexer.rescanSlash slash
  have reread := clean.lexer.anew slash
  have order := on.leads.offset_le
  have leaf := stretch_leaf (.literal .pattern s.lexer.rescanSlash.value none) Flags.none clean reread
    (fun _ ended => by rw [kind] at ended; cases ended) rfl (start ▸ order) (Nat.le_refl _)
    on.cursorIsIn.isBoundary (by rw [Shape.token?_literal, kind, ← start, Lexer.token, kind]; rfl)
  rw [← start] at leaf
  exact leaf

/-- One of the keywords that are operands. -/
theorem makes_keyword : Makes text IsMark (do
    let start ← Parser.position
    let kind ← token
    let stop ← tokenEnd
    advance
    nodeAt (.token kind) Flags.none start stop) phrase := by
  refine ⟨fun _ _ there => there, fun s clean mark => .inr ?_⟩
  have on := clean.lexer
  refine stretch_leaf (.token s.lexer.kind) Flags.none clean on.same id rfl on.leads.offset_le
    (Nat.le_refl _) on.cursorIsIn.isBoundary ?_
  rw [show s.lexer.kind.isShown = false from mark]
  rfl

/-- A hole in an array stands in front of its comma. -/
theorem makes_hole : Makes text IsMark (do
    let place ← Parser.position
    let hole ← nodeAt .omitted Flags.none place place
    advance
    return hole) phrase := by
  refine ⟨fun _ _ there => there, fun s clean mark => .inr ?_⟩
  have on := clean.lexer
  refine stretch_leaf .omitted Flags.none clean on.same id rfl (Nat.le_refl _) on.leads.offset_le
    on.start.isBoundary ?_
  rw [show s.lexer.kind.isShown = false from mark]
  rfl

theorem reads_hole {next : Slot → Parser β} (mark : ∀ kind, here kind → IsMark kind)
    (rest : ∀ hole, Reads text first Anything (given ++ phrase hole) (next hole) post) :
    Reads text first here given (do
      let place ← Parser.position
      let hole ← nodeAt .omitted Flags.none place place
      advance
      next hole) post := makes_hole.andThen mark rest

end Tokens

end Parser

end Unflatten
