import Unflatten.Printer.Statement
import Unflatten.Proofs.Printer.Insertions
import Unflatten.Proofs.Syntax.Quiet

/-! # Printing with comments and without

Both ways of printing a program write the same, but for the comments: each printing function keeps
two pages on track (`Page.Tracks`).  Comments are written before statements in a list, which begin
at the start of a line.  A statement elsewhere is no file, so no list of statements begins within a
line (`Printing.Begins`). -/

set_option autoImplicit false

namespace Unflatten

namespace Printing

/-- Printing without comments. -/
abbrev bare (store : Store) (options : PrinterOptions) (source : Source) : Printing :=
  ⟨store, { options with removeComments := true }, some source⟩

/-- Printing with comments. -/
abbrev commented (store : Store) (options : PrinterOptions) (source : Source) : Printing :=
  ⟨store, { options with removeComments := false }, some source⟩

/-- A program whose comments can be put before statements: they are ordered, and none reaches over
the start of a node. -/
structure Places (store : Store) (source : Source) : Prop where
  ordered : Lexer.AreOrdered source.text source.comments (Text.byteCount source.text)
  starts : ∀ slot node, store.node? slot = some node → CommentRange.Spares source.comments node.start
  tidy : store.IsTidy

/-- A statement begins a line, or is no file. -/
def Begins (store : Store) (slot : Slot) (page : Page) : Prop :=
  page.writer.atLineStart = true ∨ store.kind? slot ≠ some .sourceFile

/-- Nodes are printed with comments as they are without. -/
structure Agrees (store : Store) (source : Source) (plain full : Emit) : Prop where
  expression : ∀ least slot {p q : Page}, p.Tracks source q →
    (plain (.expression least) slot p).Tracks source (full (.expression least) slot q)
  statement : ∀ slot {p q : Page}, Begins store slot p → p.Tracks source q →
    (plain .statement slot p).Tracks source (full .statement slot q)

section Begins
variable {store : Store} {slot : Slot} {page : Page}

theorem begins_of_isBodyAt (body : store.IsBodyAt slot) : Begins store slot page := by
  refine .inr fun file => ?_
  obtain ⟨shape, found, kind⟩ := Option.map_eq_some_iff.mp file
  cases slot with
  | none => cases found
  | some child =>
    have isBody := body child rfl
    rw [Store.satisfies, found, Option.any_some, Shape.isBody, kind] at isBody
    cases isBody

theorem begins_of_admits {shape : Shape} (admits : store.Admits shape) (listed : slot ∈ shape.bodySlots) :
    Begins store slot page := begins_of_isBodyAt fun child same => admits.body child (same ▸ listed)

theorem begins_of_quiet {shape : Shape} (admits : store.Admits shape) (listed : slot ∈ shape.quietSlots) :
    Begins store slot page :=
  begins_of_isBodyAt (Store.IsQuietAt.isBodyAt fun child same => admits.quiet child (same ▸ listed))

theorem begins_of_shape {shape : Shape} (found : store.shape? slot = some shape)
    (other : shape.kind ≠ .sourceFile) : Begins store slot page := by
  refine .inr fun file => other ?_
  rw [Store.kind?, found] at file
  exact Option.some_inj.mp file

theorem begins_of_isBlock (block : store.satisfies slot Shape.isBlock = true) : Begins store slot page := by
  obtain ⟨shape, found, isBlock⟩ := (Option.any_eq_true _ _).mp block
  refine begins_of_shape found ?_
  cases shape <;> cases isBlock
  exact (nomatch ·)

end Begins

/-! ## Questions to the store -/

section Questions
variable (store : Store) (options options' : PrinterOptions) (source? source?' : Option Source)

theorem startsLikeStatement_eq (depth : Nat) (slot : Slot) :
    startsLikeStatement ⟨store, options, source?⟩ depth slot =
      startsLikeStatement ⟨store, options', source?'⟩ depth slot := by
  induction depth generalizing slot with
  | zero => rfl
  | succ depth ih => simp only [startsLikeStatement, ih]

theorem containsIn_eq (depth : Nat) (id : NodeId) :
    containsIn ⟨store, options, source?⟩ depth id = containsIn ⟨store, options', source?'⟩ depth id := by
  induction depth generalizing id with
  | zero => rfl
  | succ depth ih => simp only [containsIn, ih]

theorem startsWithCall_eq (depth : Nat) (slot : Slot) :
    startsWithCall ⟨store, options, source?⟩ depth slot =
      startsWithCall ⟨store, options', source?'⟩ depth slot := by
  induction depth generalizing slot with
  | zero => rfl
  | succ depth ih => simp only [startsWithCall, ih]

end Questions

/-! ## Expressions -/

section Expressions
variable {store : Store} (options : PrinterOptions) {source : Source} {emit emit' : Emit} {p q : Page}

theorem Agrees.anyExpression (agrees : Agrees store source emit emit') (slot : Slot)
    (tracks : p.Tracks source q) : (emit.anyExpression slot p).Tracks source (emit'.anyExpression slot q) :=
  agrees.expression _ slot tracks

theorem Agrees.item (agrees : Agrees store source emit emit') (slot : Slot)
    (tracks : p.Tracks source q) : (emit.item slot p).Tracks source (emit'.item slot q) :=
  agrees.expression _ slot tracks

theorem Agrees.parenthesized (agrees : Agrees store source emit emit') (slot : Slot)
    (tracks : p.Tracks source q) : (emit.parenthesized slot p).Tracks source (emit'.parenthesized slot q) :=
  (agrees.anyExpression slot (tracks.write "(")).write ")"

theorem tracks_commaList {print print' : Slot → Page → Page}
    (each : ∀ slot (p q : Page), p.Tracks source q → (print slot p).Tracks source (print' slot q))
    (slots : List Slot) (tracks : p.Tracks source q) :
    (Emit.commaList print slots p).Tracks source (Emit.commaList print' slots q) := by
  cases slots with
  | nil => exact tracks
  | cons first rest =>
    have more : ∀ (rest : List Slot) {p q : Page}, p.Tracks source q →
        (rest.foldl (fun page slot => print slot (page.write ", ")) p).Tracks source
          (rest.foldl (fun page slot => print' slot (page.write ", ")) q) := by
      intro rest
      induction rest with
      | nil => exact fun tracks => tracks
      | cons slot rest ih => exact fun tracks => ih (each slot _ _ (tracks.write ", "))
    exact more rest (each first _ _ tracks)

theorem tracks_propertyLines (agrees : Agrees store source emit emit') (slots : List Slot)
    (tracks : p.Tracks source q) : (propertyLines emit slots p).Tracks source (propertyLines emit' slots q) := by
  induction slots generalizing p q with
  | nil => exact tracks
  | cons first rest ih =>
    cases rest with
    | nil => exact (agrees.item first tracks).newLine
    | cons second rest => exact ih ((agrees.item first tracks).write ",").newLine

theorem tracks_identifier (store : Store) (slot : Slot) (tracks : p.Tracks source q) :
    (Page.identifier (bare store options source) slot p).Tracks source
      (Page.identifier (commented store options source) slot q) := by
  unfold Page.identifier
  dsimp only
  cases store.identifier? slot with
  | some text => exact tracks.write text
  | none => exact tracks

theorem tracks_expressionNode (agrees : Agrees store source emit emit') {shape : Shape} (flags : Flags)
    (admits : store.Admits shape) (tracks : p.Tracks source q) :
    ((bare store options source).expressionNode emit shape flags p).Tracks source
      ((commented store options source).expressionNode emit' shape flags q) := by
  cases shape with
  | identifier text => exact tracks.write text
  | literal kind text value => cases kind <;> exact tracks.write _
  | token kind => cases kind <;> first | exact tracks.write _ | exact tracks
  | elements kind items =>
    cases kind with
    | sequence => exact tracks_commaList (fun slot _ _ => agrees.item slot) items tracks
    | array =>
      have listed := tracks_commaList (fun slot _ _ => agrees.item slot) items (tracks.write "[")
      exact (Page.Tracks.ite (fun _ => listed.write ",") fun _ => listed).write "]"
    | object =>
      have lines := tracks_propertyLines agrees items (tracks.write "\x7b").newLine.indented
      have listed := tracks_commaList (fun slot _ _ => agrees.item slot) items (tracks.write "\x7b ")
      exact .ite (fun _ => tracks.write _) fun _ =>
        .ite (fun _ => lines.dedented.write "\x7d") fun _ => listed.write " \x7d"
  | binary left operator right =>
    exact agrees.expression _ right
      (((agrees.expression _ left tracks).space.write operator.text).space)
  | conditional condition whenTrue whenFalse =>
    exact agrees.item whenFalse ((agrees.item whenTrue
      ((agrees.expression _ condition tracks).write " ? ")).write " : ")
  | unary isUpdateAfter operator operand =>
    cases isUpdateAfter with
    | true => exact (agrees.expression _ operand tracks).write operator.text
    | false =>
      have written := tracks.write operator.text
      exact agrees.expression _ operand (.ite (fun _ => written.space) fun _ => written)
  | call isNew callee arguments =>
    cases isNew with
    | false =>
      exact (tracks_commaList (fun slot _ _ => agrees.item slot) arguments
        ((agrees.expression _ callee tracks).write "(")).write ")"
    | true =>
      have opened := tracks.write "new "
      unfold expressionNode
      simp only [startsWithCall_eq store { options with removeComments := true }
        { options with removeComments := false } (some source) (some source)]
      exact (tracks_commaList (fun slot _ _ => agrees.item slot) arguments (Page.Tracks.write (.ite
        (fun _ => agrees.parenthesized callee opened) fun _ => agrees.expression _ callee opened) "(")).write ")"
  | access isIndexed object property =>
    cases isIndexed with
    | true => exact (agrees.anyExpression property ((agrees.expression _ object tracks).write "[")).write "]"
    | false =>
      exact tracks_identifier options store property (Page.Tracks.write (.ite
        (fun _ => agrees.parenthesized object tracks) fun _ => agrees.expression _ object tracks) ".")
  | propertyAssignment name initializer =>
    exact agrees.item initializer ((agrees.expression _ name tracks).write ": ")
  | function isExpression name parameters body =>
    cases isExpression with
    | false => exact tracks
    | true =>
      have named := (tracks_identifier options store name (tracks.write "function").space).write "("
      have listed := tracks_commaList (fun slot _ _ => tracks_identifier options store slot) parameters named
      exact agrees.statement body (begins_of_admits admits List.mem_cons_self) (listed.write ") ")
  | _ => exact tracks

theorem tracks_expression (agrees : Agrees store source emit emit') (least : Nat) (node : Node)
    (admits : store.Admits node.shape) (tracks : p.Tracks source q) :
    ((bare store options source).expression emit least node p).Tracks source
      ((commented store options source).expression emit' least node q) := by
  unfold expression
  split
  · exact (tracks_expressionNode options agrees node.flags admits (tracks.write "(")).write ")"
  · exact tracks_expressionNode options agrees node.flags admits tracks

end Expressions

/-! ## Statements -/

section Statements
variable {store : Store} (options : PrinterOptions) {source : Source} {emit emit' : Emit} {p q : Page}

/-- The comments before a statement at the start of a line. -/
theorem tracks_leadingComments (places : Places store source) (slot : Slot)
    (start : p.writer.atLineStart = true) (tracks : p.Tracks source q) :
    (p.leadingComments (bare store options source) slot).Tracks source
      (q.leadingComments (commented store options source) slot) ∧
      (p.leadingComments (bare store options source) slot).writer.atLineStart = true := by
  have same : p.leadingComments (bare store options source) slot = p := by
    unfold Page.leadingComments Page.commentsUpTo
    split
    · rfl
    · split
      · rfl
      · simp
  rw [same]
  refine ⟨?_, start⟩
  unfold Page.leadingComments
  cases found : store.node? slot with
  | none => exact tracks
  | some node =>
    change Page.Tracks source p (if node.start = 0 ∧ node.stop = 0 then q
      else q.commentsUpTo (commented store options source) node.start)
    split
    · exact tracks
    · exact tracks.commentsUpTo places.ordered (Nat.le_refl _) start (places.starts slot node found) rfl rfl

/-- Statements in a list begin their lines and end them. -/
theorem tracks_statementLines (places : Places store source) (agrees : Agrees store source emit emit')
    (slots : List Slot) (start : p.writer.atLineStart = true) (tracks : p.Tracks source q) :
    ((bare store options source).statementLines emit slots p).Tracks source
      ((commented store options source).statementLines emit' slots q) ∧
      ((bare store options source).statementLines emit slots p).writer.atLineStart = true := by
  induction slots generalizing p q with
  | nil => exact ⟨tracks, start⟩
  | cons slot rest ih =>
    obtain ⟨before, started⟩ := tracks_leadingComments options places slot start tracks
    exact ih (Page.newLine_atLineStart _) (agrees.statement slot (.inl started) before).newLine

theorem tracks_braced (places : Places store source) (agrees : Agrees store source emit emit')
    (slots : List Slot) (tracks : p.Tracks source q) :
    ((bare store options source).braced emit slots p).Tracks source
      ((commented store options source).braced emit' slots q) :=
  .ite (fun _ => tracks.write _) fun _ => (tracks_statementLines options places agrees slots
    (Page.newLine_indented_atLineStart _) (tracks.write _).newLine.indented).1.dedented.write _

theorem tracks_asBlock (agrees : Agrees store source emit emit') (slot : Slot) (tracks : p.Tracks source q) :
    ((bare store options source).asBlock emit slot p).Tracks source
      ((commented store options source).asBlock emit' slot q) :=
  .ite (fun block => agrees.statement slot (begins_of_isBlock block) tracks) fun _ =>
    (agrees.statement slot (.inl (Page.newLine_indented_atLineStart _))
      (tracks.write _).newLine.indented).newLine.dedented.write _

theorem tracks_embedded (agrees : Agrees store source emit emit') (slot : Slot) (tracks : p.Tracks source q) :
    ((bare store options source).embedded emit slot p).Tracks source
      ((commented store options source).embedded emit' slot q) :=
  .ite (fun block => agrees.statement slot (begins_of_isBlock block) tracks.space) fun _ =>
    .ite (fun _ => tracks.write _) fun _ => (agrees.statement slot (.inl (Page.newLine_indented_atLineStart _))
      tracks.newLine.indented).dedented

theorem tracks_headExpression (agrees : Agrees store source emit emit') {print print' : Slot → Page → Page}
    (each : ∀ slot (p q : Page), p.Tracks source q → (print slot p).Tracks source (print' slot q))
    (slot : Slot) (tracks : p.Tracks source q) :
    ((bare store options source).headExpression emit print slot p).Tracks source
      ((commented store options source).headExpression emit' print' slot q) := by
  unfold headExpression
  simp only [containsIn_eq store { options with removeComments := true }
    { options with removeComments := false } (some source) (some source)]
  exact .ite (fun _ => agrees.parenthesized slot tracks) fun _ => each slot _ _ tracks

theorem tracks_declaration {print print' : Slot → Page → Page}
    (each : ∀ slot (p q : Page), p.Tracks source q → (print slot p).Tracks source (print' slot q))
    (slot : Slot) (tracks : p.Tracks source q) :
    ((bare store options source).declaration print slot p).Tracks source
      ((commented store options source).declaration print' slot q) := by
  unfold declaration
  cases store.shape? slot with
  | none => exact tracks
  | some shape =>
    cases shape with
    | declaration name initializer =>
      have named := tracks_identifier options store name tracks
      exact .ite (fun _ => each initializer _ _ (named.write " = ")) fun _ => named
    | _ => exact tracks

theorem tracks_declarations (agrees : Agrees store source emit emit') (inHead : Bool) (flags : Flags)
    (slots : List Slot) (tracks : p.Tracks source q) :
    ((bare store options source).declarations emit inHead flags slots p).Tracks source
      ((commented store options source).declarations emit' inHead flags slots q) := by
  have keyword := (tracks.write (if flags.isConst then "const" else if flags.isLet then "let" else "var")).space
  have item : ∀ slot (p q : Page), p.Tracks source q →
      (emit.item slot p).Tracks source (emit'.item slot q) := fun slot _ _ => agrees.item slot
  cases inHead with
  | true => exact tracks_commaList (fun slot _ _ => tracks_declaration options (fun slot _ _ =>
      tracks_headExpression options agrees item slot) slot) slots keyword
  | false => exact tracks_commaList (fun slot _ _ => tracks_declaration options item slot) slots keyword

theorem tracks_loopHead (agrees : Agrees store source emit emit') (slot : Slot) (tracks : p.Tracks source q) :
    ((bare store options source).loopHead emit slot p).Tracks source
      ((commented store options source).loopHead emit' slot q) := by
  have head := tracks_headExpression options agrees
    (fun slot _ _ => agrees.anyExpression slot) slot tracks
  unfold loopHead
  cases store.node? slot with
  | none => exact tracks
  | some node =>
    obtain ⟨shape, flags, start, stop, parent⟩ := node
    cases shape with
    | declarationList isStatement slots =>
      cases isStatement with
      | true => exact head
      | false => exact tracks_declarations options agrees true flags slots tracks
    | _ => exact head

theorem tracks_headPart (agrees : Agrees store source emit emit') (slot : Slot) (tracks : p.Tracks source q) :
    (headPart emit slot p).Tracks source (headPart emit' slot q) :=
  .ite (fun _ => agrees.anyExpression slot tracks.space) fun _ => tracks

theorem tracks_clause (places : Places store source) (agrees : Agrees store source emit emit')
    (isDefault : Bool) (label : Slot) (slots : List Slot) (tracks : p.Tracks source q) :
    ((bare store options source).clause emit isDefault label slots p).Tracks source
      ((commented store options source).clause emit' isDefault label slots q) := by
  have head : Page.Tracks source
      (if isDefault then p.write "default:" else (emit.anyExpression label (p.write "case ")).write ":")
      (if isDefault then q.write "default:" else (emit'.anyExpression label (q.write "case ")).write ":") :=
    .ite (fun _ => tracks.write _) fun _ => (agrees.anyExpression label (tracks.write _)).write _
  have lines := (tracks_statementLines options places agrees slots
    (Page.newLine_indented_atLineStart _) head.newLine.indented).1.dedented
  unfold clause
  match slots with
  | [] => exact head
  | [only] => exact .ite (fun block => agrees.statement only (begins_of_isBlock block) head.space) fun _ => lines
  | _ :: _ :: _ => exact lines

theorem tracks_keywordStatement (keyword : String) {print print' : Slot → Page → Page}
    (each : ∀ slot (p q : Page), p.Tracks source q → (print slot p).Tracks source (print' slot q))
    (slot : Slot) (tracks : p.Tracks source q) :
    (keywordStatement keyword print slot p).Tracks source (keywordStatement keyword print' slot q) :=
  (Page.Tracks.ite (fun _ => each slot _ _ (tracks.write keyword).space) fun _ => tracks.write keyword).write _

theorem tracks_statement (places : Places store source) (agrees : Agrees store source emit emit')
    (node : Node) (admits : store.Admits node.shape)
    (begins : p.writer.atLineStart = true ∨ node.shape.kind ≠ .sourceFile) (tracks : p.Tracks source q) :
    ((bare store options source).statement emit node p).Tracks source
      ((commented store options source).statement emit' node q) := by
  obtain ⟨shape, flags, start, stop, parent⟩ := node
  have identifier := fun slot {p q : Page} (tracks : p.Tracks source q) => tracks_identifier options store slot tracks
  cases shape with
  | file text slots =>
    exact (tracks_statementLines options places agrees slots (begins.resolve_right fun other => other rfl) tracks).1
  | block slots => exact tracks_braced options places agrees slots tracks
  | emptyStatement => exact tracks.write _
  | debuggerStatement => exact tracks.write _
  | expressionStatement expression =>
    unfold statement
    simp only [startsLikeStatement_eq store { options with removeComments := true }
      { options with removeComments := false } (some source) (some source)]
    exact (Page.Tracks.ite (fun _ => agrees.parenthesized expression tracks) fun _ =>
      agrees.anyExpression expression tracks).write _
  | declarationList isStatement slots =>
    have listed := tracks_declarations options agrees false flags slots tracks
    cases isStatement with
    | true => exact listed.write _
    | false => exact listed
  | declaration name initializer =>
    have named := identifier name tracks
    exact .ite (fun _ => agrees.item initializer (named.write " = ")) fun _ => named
  | function isExpression name parameters body =>
    have expressed : store.Admits (.function true name parameters body) := ⟨admits.quiet, admits.body, rfl, .refl _⟩
    exact tracks_expressionNode options agrees flags expressed tracks
  | conditionalStatement test thenBody elseBody =>
    have tested := (agrees.anyExpression test (tracks.write "if (")).write ")"
    have first := (tracks_asBlock options agrees thenBody tested.space).write " else "
    refine .ite (fun _ => tracks_embedded options agrees thenBody tested) fun _ => ?_
    have otherwise := tracks_asBlock options agrees elseBody first
    cases found : store.shape? elseBody with
    | none => simpa only [found] using otherwise
    | some shape =>
      cases shape with
      | conditionalStatement =>
        simpa only [found] using agrees.statement elseBody (begins_of_shape found (nomatch ·)) first
      | _ => simpa only [found] using otherwise
  | loop kind initializer condition incrementor body =>
    cases kind with
    | forLoop =>
      have head := (tracks_loopHead options agrees initializer (tracks.write "for (")).write ";"
      exact tracks_embedded options agrees body ((tracks_headPart agrees incrementor
        ((tracks_headPart agrees condition head).write ";")).write ")")
    | whileLoop =>
      exact tracks_embedded options agrees body ((agrees.anyExpression condition (tracks.write "while (")).write ")")
    | doLoop =>
      have done := tracks_embedded options agrees body (tracks.write "do")
      exact (agrees.anyExpression condition (Page.Tracks.write
        (.ite (fun _ => done.space) fun _ => done.newLine) "while (")).write ");"
  | forIn initializer expression body =>
    have head := agrees.statement initializer (begins_of_quiet admits List.mem_cons_self) (tracks.write "for (")
    exact tracks_embedded options agrees body ((agrees.anyExpression expression (head.write " in ")).write ")")
  | switch discriminant clauses =>
    have head := (agrees.anyExpression discriminant (tracks.write "switch (")).write ") \x7b"
    exact (tracks_statementLines options places agrees clauses (Page.newLine_indented_atLineStart _)
      head.newLine.indented).1.dedented.write _
  | clause isDefault label slots => exact tracks_clause options places agrees isDefault label slots tracks
  | jump kind label =>
    cases kind <;> exact tracks_keywordStatement _ (fun slot _ _ => identifier slot) label tracks
  | exit kind expression =>
    cases kind <;> exact tracks_keywordStatement _ (fun slot _ _ => agrees.anyExpression slot) expression tracks
  | tryStatement body handler finalizer =>
    have tried := agrees.statement body (begins_of_admits admits List.mem_cons_self) (tracks.write "try ")
    have caught := agrees.statement handler (begins_of_admits admits (List.mem_cons_of_mem _ List.mem_cons_self))
      tried.space
    have handled : Page.Tracks source
        (if handler.isSome then emit .statement handler (emit .statement body (p.write "try ")).space
          else emit .statement body (p.write "try "))
        (if handler.isSome then emit' .statement handler (emit' .statement body (q.write "try ")).space
          else emit' .statement body (q.write "try ")) := .ite (fun _ => caught) fun _ => tried
    exact .ite (fun _ => agrees.statement finalizer (begins_of_admits admits
      (List.mem_cons_of_mem _ (List.mem_cons_of_mem _ List.mem_cons_self))) (handled.write _)) fun _ => handled
  | catchClause name body =>
    exact agrees.statement body (begins_of_admits admits List.mem_cons_self)
      ((identifier name (tracks.write "catch (")).write ") ")
  | labeled label body =>
    exact agrees.statement body (begins_of_admits admits List.mem_cons_self)
      ((identifier label tracks).write ": ")
  | _ => exact tracks_expression options agrees _ _ admits tracks

/-- Whatever is printed, its comments can be put between. -/
theorem agrees_node (places : Places store source) (depth : Nat) :
    Agrees store source ((bare store options source).node depth) ((commented store options source).node depth) := by
  induction depth with
  | zero => exact ⟨fun _ _ _ _ tracks => tracks, fun _ _ _ _ tracks => tracks⟩
  | succ depth ih =>
    have admitted : ∀ slot node, store.node? slot = some node → store.Admits node.shape := by
      intro slot node found
      cases slot with
      | none => cases found
      | some id => exact places.tidy id node.shape (by rw [Store.shape?, found, Option.map_some])
    refine ⟨fun least slot p q tracks => ?_, fun slot p q begins tracks => ?_⟩
    · simp only [node]
      cases found : store.node? slot with
      | none => exact tracks
      | some node => exact tracks_expression options ih least node (admitted slot node found) tracks
    · simp only [node]
      cases found : store.node? slot with
      | none => exact tracks
      | some node =>
        refine tracks_statement options places ih node (admitted slot node found)
          (begins.imp_right fun other file => ?_) tracks
        exact other (by rw [Store.kind?, Store.shape?, found, Option.map_some, Option.map_some, file])

end Statements

end Printing

/-- Comments up to a position are done when they have been written. -/
theorem Page.le_commentsDone {printing : Printing} {source : Source} (position : Nat)
    (here : printing.source? = some source) (keeps : printing.options.removeComments = false) (page : Page) :
    position ≤ (page.commentsUpTo printing position).commentsDone := by
  unfold Page.commentsUpTo
  rw [here]
  simp only [keeps, Bool.false_or, decide_eq_true_eq]
  split
  · assumption
  · exact Nat.le_refl _

/-- A program is printed with its comments as it is without them, but for a line for each comment,
all of them once and in order. -/
theorem Store.print_comments {store : Store} {source : Source} {root : NodeId} {statements : List Slot}
    (places : Printing.Places store source) (small : Text.byteCount source.text ≤ Page.endOfSource)
    (file : store.shape? (some root) = some (.file source statements)) (options : PrinterOptions) :
    ∃ insertions rest, insertions.map (·.comment) = source.comments.toList ∧
      (store.print { options with removeComments := true } (some root)).toList =
        Insertion.without insertions rest ∧
      (store.print { options with removeComments := false } (some root)).toList =
        Insertion.together source.text insertions rest := by
  obtain ⟨node, found, shaped⟩ := Option.map_eq_some_iff.mp file
  obtain ⟨shape, flags, start, stop, parent⟩ := node
  obtain rfl : shape = .file source statements := shaped
  have begun := Page.tracks_empty places.ordered options.indentWidth
  obtain ⟨listed, line⟩ := Printing.tracks_statementLines options places
    (Printing.agrees_node options places store.nodes.size) statements rfl begun
  -- behind the last statement no comment is left out
  have behind : CommentRange.Spares source.comments Page.endOfSource := fun comment member =>
    .inl (Nat.le_trans (places.ordered.before comment member) small)
  have written := listed.commentsUpTo places.ordered (Nat.le_refl _) line behind
    (show (Printing.commented store options source).source? = some source from rfl) rfl
  obtain ⟨-, -, -, insertions, rest, without, together, taken⟩ := written.newLine.shows
  have done := Page.le_commentsDone Page.endOfSource
    (show (Printing.commented store options source).source? = some source from rfl) rfl
    ((Printing.commented store options source).statementLines ((Printing.commented store options source).node
      store.nodes.size) statements (Page.empty options.indentWidth))
  have all := CommentRange.countBefore_limit places.ordered (Nat.le_trans small done)
  refine ⟨insertions, rest, ?_, ?_, ?_⟩
  · refine (taken.trans (congrArg (fun count => source.comments.toList.take count) all)).trans ?_
    rw [← Array.length_toList, List.take_length]
  · rw [← without]
    simp only [Store.print, file, Store.depthBound, Printing.node, found, Page.remainingComments]
    rfl
  · rw [← together]
    simp only [Store.print, file, Store.depthBound, Printing.node, found, Page.remainingComments]
    rfl

end Unflatten
