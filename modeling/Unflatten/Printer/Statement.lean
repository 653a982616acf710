import Unflatten.Printer.Expression

/-! # Printing statements

Every statement stands on a line of its own with the comments before it.  Blocks open
on the line of their header; any other body stands on the next line, one level deeper.
Both branches of an `if` with an `else` are put in braces, so that no inner `if` can
capture the `else`. -/

set_option autoImplicit false

namespace Unflatten

namespace Printing

/-- Statements, each on its own line behind its comments. -/
def statementLines (printing : Printing) (emit : Emit) (statements : List Slot) (page : Page) :
    Page :=
  statements.foldl (fun page statement =>
    (emit .statement statement (page.leadingComments printing statement)).newLine) page

/-- Statements in braces. -/
def braced (printing : Printing) (emit : Emit) (statements : List Slot) (page : Page) : Page :=
  if statements.isEmpty then page.write "\x7b\x7d"
  else
    let page := (page.write "\x7b").newLine.indented
    (printing.statementLines emit statements page).dedented.write "\x7d"

/-- Whether a slot holds a block. -/
def isBlock (printing : Printing) (slot : Slot) : Bool :=
  printing.store.satisfies slot Shape.isBlock

/-- A statement in braces: a block has its own. -/
def asBlock (printing : Printing) (emit : Emit) (slot : Slot) (page : Page) : Page :=
  if printing.isBlock slot then emit .statement slot page
  else
    let page := (page.write "\x7b").newLine.indented
    (emit .statement slot page).newLine.dedented.write "\x7d"

/-- The body of a loop or of an `if` without `else`. -/
def embedded (printing : Printing) (emit : Emit) (slot : Slot) (page : Page) : Page :=
  if printing.isBlock slot then emit .statement slot page.space
  else if slot.isNone || printing.store.kind? slot == some .emptyStatement then page.write ";"
  else (emit .statement slot page.newLine.indented).dedented

/-- Whether a statement that starts with this expression would start with `function` or
an opening brace. -/
def startsLikeStatement (printing : Printing) : (depth : Nat) → Slot → Bool
  | 0, _ => false
  | depth + 1, slot =>
    match printing.store.shape? slot with
    | some (.function true _ _ _) | some (.elements .object _) => true
    | some (.binary left _ _) => printing.startsLikeStatement depth left
    | some (.conditional condition _ _) => printing.startsLikeStatement depth condition
    | some (.elements .sequence (first :: _)) => printing.startsLikeStatement depth first
    | some (.call false callee _) => printing.startsLikeStatement depth callee
    | some (.access _ object _) => printing.startsLikeStatement depth object
    | some (.unary true _ operand) => printing.startsLikeStatement depth operand
    | _ => false

/-- Whether the operator `in` occurs in an expression, outside function expressions. -/
def containsIn (printing : Printing) : (depth : Nat) → NodeId → Bool
  | 0, _ => false
  | depth + 1, id =>
    match printing.store.shape? (some id) with
    | some (.function true _ _ _) => false
    | some (.binary _ .inKeyword _) => true
    | some shape => shape.children.any fun child => printing.containsIn depth child
    | none => false

/-- An expression in the head of a `for` loop, where a bare `in` would be misread. -/
def headExpression (printing : Printing) (emit : Emit)
    (unguarded : Slot → Page → Page) (slot : Slot) (page : Page) : Page :=
  if slot.any fun id => printing.containsIn printing.store.depthBound id then
    emit.parenthesized slot page
  else unguarded slot page

/-- A name with its initializer. -/
def declaration (printing : Printing) (printInitializer : Slot → Page → Page) (slot : Slot)
    (page : Page) : Page :=
  match printing.store.shape? slot with
  | some (.declaration name initializer) =>
    let page := Page.identifier printing name page
    if initializer.isSome then printInitializer initializer (page.write " = ") else page
  | _ => page

/-- Declarations behind their keyword. -/
def declarations (printing : Printing) (emit : Emit) (inHead : Bool) (flags : Flags)
    (slots : List Slot) (page : Page) : Page :=
  let keyword := if flags.isConst then "const" else if flags.isLet then "let" else "var"
  let initializer :=
    if inHead then printing.headExpression emit emit.item else emit.item
  Emit.commaList (printing.declaration initializer) slots (page.write keyword).space

/-- The initializer of a `for` loop. -/
def loopHead (printing : Printing) (emit : Emit) (slot : Slot) (page : Page) : Page :=
  match printing.store.node? slot with
  | none => page
  | some node =>
    match node.shape with
    | .declarationList false slots => printing.declarations emit true node.flags slots page
    | _ => printing.headExpression emit emit.anyExpression slot page

/-- A part of a loop's head behind a semicolon. -/
def headPart (emit : Emit) (slot : Slot) (page : Page) : Page :=
  if slot.isSome then emit.anyExpression slot page.space else page

/-- A clause of a `switch`.  A clause that holds one block opens it on its own line. -/
def clause (printing : Printing) (emit : Emit) (isDefault : Bool) (label : Slot)
    (statements : List Slot) (page : Page) : Page :=
  let page :=
    if isDefault then page.write "default:"
    else (emit.anyExpression label (page.write "case ")).write ":"
  match statements with
  | [] => page
  | [only] =>
    if printing.isBlock only then emit .statement only page.space
    else (printing.statementLines emit statements page.newLine.indented).dedented
  | _ => (printing.statementLines emit statements page.newLine.indented).dedented

/-- A keyword with an operand or without. -/
def keywordStatement (keyword : String) (printOperand : Slot → Page → Page) (operand : Slot)
    (page : Page) : Page :=
  let page := page.write keyword
  (if operand.isSome then printOperand operand page.space else page).write ";"

/-- Prints a node as a statement.  What is no statement is printed as an expression. -/
def statement (printing : Printing) (emit : Emit) (node : Node) (page : Page) : Page :=
  match node.shape with
  | .file _ statements => printing.statementLines emit statements page
  | .block statements => printing.braced emit statements page
  | .emptyStatement => page.write ";"
  | .expressionStatement expression =>
    let page :=
      if printing.startsLikeStatement printing.store.depthBound expression then
        emit.parenthesized expression page
      else emit.anyExpression expression page
    page.write ";"
  | .declarationList true slots => (printing.declarations emit false node.flags slots page).write ";"
  | .declarationList false slots => printing.declarations emit false node.flags slots page
  | .declaration name initializer =>
    let page := Page.identifier printing name page
    if initializer.isSome then emit.item initializer (page.write " = ") else page
  | .function _ name parameters body =>
    printing.expressionNode emit (.function true name parameters body) node.flags page
  | .conditionalStatement test thenBody elseBody =>
    let page := (emit.anyExpression test (page.write "if (")).write ")"
    if elseBody.isNone then printing.embedded emit thenBody page
    else
      let page := (printing.asBlock emit thenBody page.space).write " else "
      match printing.store.shape? elseBody with
      | some (.conditionalStatement _ _ _) => emit .statement elseBody page
      | _ => printing.asBlock emit elseBody page
  | .loop .forLoop initializer condition incrementor body =>
    let page := (printing.loopHead emit initializer (page.write "for (")).write ";"
    let page := (headPart emit condition page).write ";"
    let page := (headPart emit incrementor page).write ")"
    printing.embedded emit body page
  | .loop .whileLoop _ condition _ body =>
    let page := (emit.anyExpression condition (page.write "while (")).write ")"
    printing.embedded emit body page
  | .loop .doLoop _ condition _ body =>
    let page := printing.embedded emit body (page.write "do")
    let page := if printing.isBlock body then page.space else page.newLine
    (emit.anyExpression condition (page.write "while (")).write ");"
  | .forIn initializer expression body =>
    let page := (emit .statement initializer (page.write "for (")).write " in "
    let page := (emit.anyExpression expression page).write ")"
    printing.embedded emit body page
  | .switch discriminant clauses =>
    let page := (emit.anyExpression discriminant (page.write "switch (")).write ") \x7b"
    (printing.statementLines emit clauses page.newLine.indented).dedented.write "\x7d"
  | .clause isDefault label statements => printing.clause emit isDefault label statements page
  | .jump .breaks label => keywordStatement "break" (Page.identifier printing) label page
  | .jump .continues label => keywordStatement "continue" (Page.identifier printing) label page
  | .exit .returns expression => keywordStatement "return" emit.anyExpression expression page
  | .exit .throws expression => keywordStatement "throw" emit.anyExpression expression page
  | .tryStatement body handler finalizer =>
    let page := emit .statement body (page.write "try ")
    let page := if handler.isSome then emit .statement handler page.space else page
    if finalizer.isSome then emit .statement finalizer (page.write " finally ") else page
  | .catchClause name body =>
    let page := (Page.identifier printing name (page.write "catch (")).write ") "
    emit .statement body page
  | .labeled label body =>
    emit .statement body ((Page.identifier printing label page).write ": ")
  | .debuggerStatement => page.write "debugger;"
  | _ => printing.expression emit Precedence.comma node page

/-- Prints the node of a slot; nothing prints nothing. -/
def node (printing : Printing) : (depth : Nat) → Emit
  | 0, _, _, page => page
  | depth + 1, mode, slot, page =>
    match printing.store.node? slot with
    | none => page
    | some found =>
      match mode with
      | .statement => printing.statement (printing.node depth) found page
      | .expression least => printing.expression (printing.node depth) least found page

end Printing

/-- The text of a tree: of a whole file with its comments, or of any single node. -/
def Store.print (store : Store) (options : PrinterOptions) (root : Slot) : String :=
  let source? := match store.shape? root with
    | some (.file source _) => some source
    | _ => none
  let printing : Printing := ⟨store, options, source?⟩
  let page := printing.node store.depthBound .statement root (Page.empty options.indentWidth)
  (page.remainingComments printing).newLine.writer.output

end Unflatten
