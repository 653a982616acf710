import Unflatten.Printer.Statement
import Unflatten.Proofs.Printer.Spelling

/-! # Expressions are written as they are spelled

What is printed for an expression of names, literals and operators is one of its texts
(`Printing.writes_plain`): parentheses, spaces and commas stand where `Spells` demands them.
Printed as a statement, such an expression is followed by a semicolon (`Store.print_sentence`). -/

set_option autoImplicit false

namespace Unflatten

/-! ## Pages -/

namespace Page
variable {page : Page} {first second : List Char}

/-- Adds characters. -/
def put (page : Page) (text : List Char) : Page := page.write (String.ofList text)

theorem put_nil : page.put [] = page := rfl

theorem write_eq_put (text : String) : page.write text = page.put text.toList := by
  rw [put, String.ofList_toList]

/-- Where something is added, the line has begun. -/
theorem put_cons (c : Char) (text : List Char) : page.put (c :: text) =
    { page with writer := { page.writer.beginLine with
        output := page.writer.beginLine.output ++ String.ofList (c :: text) } } := by
  have filled : ¬(String.ofList (c :: text)).isEmpty = true := by
    simp [String.isEmpty_iff]
  rw [put, write, Writer.write, if_neg filled]

theorem atLineStart_beginLine (writer : Writer) : writer.beginLine.atLineStart = false := by
  unfold Writer.beginLine
  split
  · rfl
  · exact Bool.eq_false_iff.mpr ‹_›

theorem put_put : (page.put first).put second = page.put (first ++ second) := by
  cases first with
  | nil => rfl
  | cons c first =>
    cases second with
    | nil => rw [put_nil, List.append_nil]
    | cons d second =>
      have begun : ∀ output : String, ({ page.writer.beginLine with output := output } : Writer).beginLine =
          { page.writer.beginLine with output := output } := by
        intro output
        rw [Writer.beginLine, if_neg]
        simp only [atLineStart_beginLine, Bool.false_eq_true, not_false_eq_true]
      rw [List.cons_append, put_cons, put_cons, put_cons, begun, String.append_assoc, ← String.ofList_append]
      rfl

theorem space_eq_put : page.space = page.put [' '] := by
  rw [put_cons]
  exact congrArg (fun output => ({ page with writer := { page.writer.beginLine with output := output } } : Page))
    (String.push_eq_append ' ')

/-- A line at the margin. -/
theorem output_line (width : Nat) {text : List Char} (filled : text ≠ []) :
    ((Page.empty width).put text).newLine.writer.output = String.ofList (text ++ ['\n']) := by
  obtain ⟨c, text, rfl⟩ := List.exists_cons_of_ne_nil filled
  have margin : (Writer.empty width).beginLine.output = "" := by
    simp [Writer.beginLine, Writer.empty, Writer.indent]
  have ended : ((empty width).put (c :: text)).newLine.writer.output =
      ((Writer.empty width).beginLine.output ++ String.ofList (c :: text)).push '\n' := by
    rw [put_cons]
    rfl
  rw [ended, margin, String.empty_append, String.push_eq_append, String.ofList_append]
  rfl

end Page

/-! ## Precedence -/

section Precedence
variable {operator : TokenKind} {own : Nat}

theorem expressionPrecedence_of_binary (operates : operator.binaryPrecedence? = some own) :
    operator.expressionPrecedence = own := by
  cases operator <;> cases operates <;> rfl

theorem expressionPrecedence_of_assignment (assigns : operator.isAssignment = true) :
    operator.expressionPrecedence = Precedence.assignment := by
  cases operator <;> first | rfl | cases assigns

theorem operandPrecedence_of_binary (operates : operator.binaryPrecedence? = some own) :
    Printing.operandPrecedence operator = (if operator = .asteriskAsterisk then Precedence.update else own,
      if operator = .asteriskAsterisk then own else own + 1) := by
  cases operator <;> cases operates <;> rfl

theorem operandPrecedence_of_assignment (assigns : operator.isAssignment = true) :
    Printing.operandPrecedence operator = (Precedence.member, Precedence.assignment) := by
  cases operator <;> first | rfl | cases assigns

end Precedence

/-- Only a number is spelled with digits alone. -/
theorem Spells.exists_number {tree : Tree} {least : Nat} {text : List Char} {lexemes : List Lexeme}
    (spells : Spells tree least text lexemes) (digits : text.all Char.isDigit = true) :
    ∃ id value, tree = .node id (.literal .number value (Number.readLiteral value)) [] ∧
      value.toList.all Char.isDigit = true := by
  have each : ∀ c ∈ text, c.isDigit = true := List.all_eq_true.mp digits
  have mark : ∀ {c : Char}, c ∈ text → c.isDigit = false → False := fun member other => by
    rw [each _ member] at other
    cases other
  cases spells with
  | number => exact ⟨_, _, rfl, digits⟩
  | identifier isName =>
    obtain ⟨first, more, listed, starts, -⟩ := isName
    refine (mark (c := first) (by rw [listed]; exact List.mem_cons_self) (Bool.eq_false_iff.mpr fun digit => ?_)).elim
    rw [isIdentifierStart_of_isDigit digit] at starts
    cases starts
  | token word =>
    simp only [List.mem_cons, List.not_mem_nil, or_false] at word
    rcases word with rfl | rfl | rfl | rfl <;> cases digits
  | string asciiOnly =>
    rw [quote, String.toList_ofList] at digits
    cases digits
  | grouped | array | construct => cases digits
  | property => exact (mark (c := '.') (by simp) rfl).elim
  | element => exact (mark (c := '[') (by simp) rfl).elim
  | call => exact (mark (c := '(') (by simp) rfl).elim
  | behind _ operates =>
    rcases operates with rfl | rfl
    · exact (mark (c := '+') (by simp [TokenKind.text]) rfl).elim
    · exact (mark (c := '-') (by simp [TokenKind.text]) rfl).elim
  | @before _ operator _ _ _ _ _ _ operates =>
    cases operator <;> first
      | exact absurd operates Bool.false_ne_true
      | cases digits
  | binary | assignment | conditional => exact (mark (c := ' ') (by simp) rfl).elim
  | @sequence _ _ items _ _ several =>
    match items, several with
    | first :: second :: rest, _ =>
      exact (mark (c := ',') (by rw [Spelling.listText_cons_cons]; simp) rfl).elim

namespace Printing

open Precedence TokenKind

section Writing
variable {printing : Printing} {depth : Nat} {id : NodeId} {shape : Shape} {below : List Tree}
    {text : List Char}
  {lexemes : List Lexeme} {operator : TokenKind} {own least : Nat} {left right operand callee object index
    condition whenTrue whenFalse : Tree}

/-- The node of a tree is written as one of the texts of the tree, whatever its place demands. -/
def Writes (printing : Printing) (depth : Nat) (tree : Tree) : Prop :=
  ∀ least, ∃ text lexemes, Spells tree least text lexemes ∧
    ∀ page, printing.node depth (.expression least) tree.root page = page.put text

/-- A node that binds looser than its place demands is written in parentheses. -/
theorem writes_node (found : printing.store.shape? (some id) = some shape)
    (spells : Spells (.node id shape below) shape.precedence text lexemes)
    (written : ∀ flags page, printing.expressionNode (printing.node depth) shape flags page = page.put text) :
    Writes printing (depth + 1) (.node id shape below) := by
  obtain ⟨node, there, rfl⟩ := Option.map_eq_some_iff.mp found
  intro least
  have printed : ∀ page, printing.node (depth + 1) (.expression least) (some id) page =
      printing.expression (printing.node depth) least node page := fun page => by rw [Printing.node, there]
  by_cases loose : node.shape.precedence < least
  · refine ⟨_, _, .grouped (spells.weaken (Nat.zero_le _)), fun page => ?_⟩
    rw [Tree.root, printed, expression, if_pos loose, written, Page.write_eq_put, Page.write_eq_put, Page.put_put,
      Page.put_put]
    rfl
  · refine ⟨_, _, spells.weaken (Nat.le_of_not_lt loose), fun page => ?_⟩
    rw [Tree.root, printed, expression, if_neg loose, written]

/-! ## Operands -/

theorem le_leastFor (operator : TokenKind) (slot : Slot) (small : least ≤ Precedence.primary) :
    least ≤ printing.leastFor operator slot least := by
  unfold leastFor
  split
  · exact small
  · exact small
  · exact Nat.le_refl _

theorem writes_binary (operates : operator.binaryPrecedence? = some own)
    (leftWrites : Writes printing depth left)
    (rightWrites : Writes printing depth right)
    (found : printing.store.shape? (some id) = some (.binary left.root operator right.root)) :
    Writes printing (depth + 1) (.node id (.binary left.root operator right.root) [left, right]) := by
  have small := (bounds_of_binaryPrecedence? operates).2
  obtain ⟨leftText, leftLexemes, leftSpells, leftWritten⟩ := leftWrites
    (printing.leastFor operator left.root (if operator = .asteriskAsterisk then update else own))
  obtain ⟨rightText, rightLexemes, rightSpells, rightWritten⟩ := rightWrites
    (printing.leastFor operator right.root (if operator = .asteriskAsterisk then own else own + 1))
  refine writes_node found (.binary operates (Nat.le_of_eq (expressionPrecedence_of_binary operates)) leftSpells
    (le_leastFor operator _ ?_) rightSpells (le_leastFor operator _ ?_)) fun flags page => ?_
  · split
    · decide
    · exact Nat.le_trans small (by decide)
  · split
    · exact Nat.le_trans small (by decide)
    · exact Nat.le_trans (Nat.succ_le_succ small) (by decide)
  · simp only [expressionNode, operandPrecedence_of_binary operates, leftWritten, rightWritten, Page.space_eq_put,
      Page.write_eq_put, Page.put_put, List.append_assoc, List.cons_append, List.nil_append]

theorem writes_assignment (assigns : operator.isAssignment = true) (target : left.isAssignable = true)
    (leftWrites : Writes printing depth left) (rightWrites : Writes printing depth right)
    (found : printing.store.shape? (some id) = some (.binary left.root operator right.root)) :
    Writes printing (depth + 1) (.node id (.binary left.root operator right.root) [left, right]) := by
  obtain ⟨leftText, leftLexemes, leftSpells, leftWritten⟩ := leftWrites
    (printing.leastFor operator left.root member)
  obtain ⟨rightText, rightLexemes, rightSpells, rightWritten⟩ := rightWrites
    (printing.leastFor operator right.root Precedence.assignment)
  refine writes_node found (.assignment assigns (Nat.le_of_eq (expressionPrecedence_of_assignment assigns)) target
    (leftSpells.weaken (le_leastFor operator _ (by decide))) (rightSpells.weaken (le_leastFor operator _ (by decide))))
    fun flags page => ?_
  simp only [expressionNode, operandPrecedence_of_assignment assigns, leftWritten, rightWritten, Page.space_eq_put,
    Page.write_eq_put, Page.put_put, List.append_assoc, List.cons_append, List.nil_append]

theorem writes_conditional (writes : Writes printing depth condition)
    (trueWrites : Writes printing depth whenTrue)
    (falseWrites : Writes printing depth whenFalse)
    (found : printing.store.shape? (some id) = some (.conditional condition.root whenTrue.root whenFalse.root)) :
    Writes printing (depth + 1)
      (.node id (.conditional condition.root whenTrue.root whenFalse.root) [condition, whenTrue, whenFalse]) := by
  obtain ⟨text, lexemes, spells, written⟩ := writes coalesce
  obtain ⟨trueText, trueLexemes, trueSpells, trueWritten⟩ := trueWrites Precedence.assignment
  obtain ⟨falseText, falseLexemes, falseSpells, falseWritten⟩ := falseWrites Precedence.assignment
  refine writes_node found (.conditional (Nat.le_refl _) spells trueSpells falseSpells) fun flags page => ?_
  simp only [expressionNode, Emit.item, written, trueWritten, falseWritten, Page.write_eq_put, Page.put_put,
    List.append_assoc]
  rfl

theorem mem_joins {c : Char} (joins : c ∈ operator.joins) : operator = .plus ∧ c ∈ ['+', '='] ∨
    operator = .minus ∧ c ∈ ['-', '='] ∨ operator = .exclamation ∧ c ∈ ['='] := by
  cases operator <;> first
    | exact .inl ⟨rfl, joins⟩
    | exact .inr (.inl ⟨rfl, joins⟩)
    | exact .inr (.inr ⟨rfl, joins⟩)
    | cases joins

/-- A sign in front of an operand that starts with a sign it would join. -/
theorem signsJoin_of_head {inner : TokenKind} {slot other : Slot} {c : Char}
    (operates : Parser.isPrefixOperator inner = true) (head : inner.text.toList.head? = some c)
    (joins : c ∈ operator.joins) (found : printing.store.shape? slot = some (.unary false inner other)) :
    printing.signsJoin operator slot = true := by
  unfold signsJoin
  rw [found]
  rcases mem_joins joins with ⟨rfl, mark⟩ | ⟨rfl, mark⟩ | ⟨rfl, mark⟩
  all_goals
    cases inner <;> first
      | rfl
      | exact absurd operates Bool.false_ne_true
      | obtain rfl := Option.some.inj head; exact absurd mark (by decide)

theorem writes_before (operates : Parser.isPrefixOperator operator = true) (plain : operand.IsPlain)
    (holds : printing.store.Holds operand) (writes : Writes printing depth operand)
    (found : printing.store.shape? (some id) = some (.unary false operator operand.root)) :
    Writes printing (depth + 1) (.node id (.unary false operator operand.root) [operand]) := by
  obtain ⟨text, lexemes, spells, written⟩ := writes unary
  have apart : (operator.isKeyword || printing.signsJoin operator operand.root) = false →
      operator.isKeyword = false ∧ ∀ c ∈ text.head?, c ∉ operator.joins := by
    intro close
    obtain ⟨noKeyword, noJoin⟩ := Bool.or_eq_false_iff.mp close
    refine ⟨noKeyword, fun c here joins => ?_⟩
    have mark : c ∈ ['+', '-', '='] := by
      have listed := mem_joins joins
      simp only [List.mem_cons, List.not_mem_nil, or_false] at listed ⊢
      tauto
    obtain ⟨_, inner, slot, below, rfl, head, -⟩ := spells.head (Nat.le_refl _) here mark
    cases holds with
    | node there =>
      cases plain with
      | before innerOperates =>
        exact absurd (signsJoin_of_head innerOperates head joins there) (Bool.eq_false_iff.mp noJoin)
  refine writes_node found (.before (Nat.le_refl _) operates spells _ apart) fun flags page => ?_
  rw [expressionNode]
  split
  · simp only [written, Page.space_eq_put, Page.write_eq_put, Page.put_put, List.append_assoc, List.cons_append,
      List.nil_append]
  · simp only [written, Page.write_eq_put, Page.put_put]

theorem writes_behind (operates : operator = .plusPlus ∨ operator = .minusMinus)
    (writes : Writes printing depth operand)
    (found : printing.store.shape? (some id) = some (.unary true operator operand.root)) :
    Writes printing (depth + 1) (.node id (.unary true operator operand.root) [operand]) := by
  obtain ⟨text, lexemes, spells, written⟩ := writes member
  refine writes_node found (.behind (Nat.le_refl _) operates spells) fun flags page => ?_
  rw [expressionNode, written, Page.write_eq_put, Page.put_put]

/-! ## Members -/

theorem identifier_eq {slot : Slot} {name : String}
    (found : printing.store.shape? slot = some (.identifier name))
    (page : Page) : Page.identifier printing slot page = page.put name.toList := by
  rw [Page.identifier, Store.identifier?, found]
  exact Page.write_eq_put name

theorem parenthesized_eq {slot : Slot} {text : List Char}
    (written : ∀ page, printing.node depth (.expression Precedence.comma) slot page = page.put text) (page : Page) :
    Emit.parenthesized (printing.node depth) slot page = page.put ('(' :: (text ++ [')'])) := by
  rw [Emit.parenthesized, Emit.anyExpression, written, Page.write_eq_put, Page.write_eq_put, Page.put_put, Page.put_put]
  rfl

theorem writes_property {nameId : NodeId} {name : String} (isName : IsName name)
    (holds : printing.store.Holds object) (writes : Writes printing depth object)
    (found : printing.store.shape? (some id) = some (.access false object.root (some nameId)))
    (named : printing.store.shape? (some nameId) = some (.identifier name)) :
    Writes printing (depth + 1) (.node id (.access false object.root (some nameId))
      [object, .node nameId (.identifier name) []]) := by
  -- a number of digits only stands in parentheses, so that the point does not become a part of it
  obtain ⟨text, lexemes, bound, spells, tight, pointed, written⟩ : ∃ text lexemes bound,
      Spells object bound text lexemes ∧ member ≤ bound ∧ text.all Char.isDigit = false ∧ ∀ page,
        (if printing.store.satisfies object.root Shape.isDigitsOnly
          then Emit.parenthesized (printing.node depth) object.root page
          else printing.node depth (.expression member) object.root page) = page.put text := by
    by_cases digits : printing.store.satisfies object.root Shape.isDigitsOnly = true
    · obtain ⟨text, lexemes, spells, written⟩ := writes Precedence.comma
      refine ⟨_, _, member, .grouped spells, Nat.le_refl _, rfl, fun page => ?_⟩
      rw [if_pos digits, parenthesized_eq written]
    · obtain ⟨text, lexemes, spells, written⟩ := writes member
      refine ⟨text, lexemes, member, spells, Nat.le_refl _, Bool.eq_false_iff.mpr fun all => ?_, fun page => ?_⟩
      · obtain ⟨_, _, rfl, each⟩ := spells.exists_number all
        cases holds with
        | node there =>
          refine digits ?_
          change (printing.store.shape? (some _)).any Shape.isDigitsOnly = true
          rw [there]
          exact each
      · rw [if_neg digits, written]
  refine writes_node found (.property (Nat.le_refl _) spells tight pointed isName) fun flags page => ?_
  rw [expressionNode, written, Page.write_eq_put, Page.put_put, identifier_eq named, Page.put_put, List.append_assoc]
  rfl

theorem writes_element (writes : Writes printing depth object) (indexWrites : Writes printing depth index)
    (found : printing.store.shape? (some id) = some (.access true object.root index.root)) :
    Writes printing (depth + 1) (.node id (.access true object.root index.root) [object, index]) := by
  obtain ⟨text, lexemes, spells, written⟩ := writes member
  obtain ⟨inner, innerLexemes, innerSpells, innerWritten⟩ := indexWrites Precedence.comma
  refine writes_node found (.element (Nat.le_refl _) spells innerSpells) fun flags page => ?_
  rw [expressionNode, Emit.anyExpression, written]
  simp only [innerWritten, Page.write_eq_put, Page.put_put, List.append_assoc]
  rfl

/-! ## Lists -/

/-- Texts with a comma between neighbours. -/
def rowText : List Spelling → List Char
  | [] => []
  | first :: rest => first.text ++ rest.flatMap fun item => ',' :: ' ' :: item.text

/-- A hole in the end is followed by one more comma. -/
theorem listText_eq (items : List Spelling) : Spelling.listText items =
    rowText items ++ if items.getLast?.any fun last => last.tree.isHole then [','] else [] := by
  induction items with
  | nil => rfl
  | cons first rest ih =>
    cases rest with
    | nil =>
      rw [rowText, List.flatMap_nil, List.append_nil]
      rfl
    | cons second rest =>
      rw [Spelling.listText_cons_cons, ih, List.getLast?_cons_cons, rowText, rowText, List.flatMap_cons]
      simp only [List.append_assoc, List.cons_append]

theorem listText_eq_rowText {items : List Spelling} (noHoles : ∀ item ∈ items, item.tree.isHole = false) :
    Spelling.listText items = rowText items := by
  have noLast : items.getLast?.any (fun last => last.tree.isHole) = false := by
    cases here : items.getLast? with
    | none => rfl
    | some last => exact noHoles last (List.mem_of_getLast? here)
  rw [listText_eq, noLast, if_neg Bool.false_ne_true, List.append_nil]

theorem commaList_eq {items : List Spelling} {printItem : Slot → Page → Page}
    (each : ∀ item ∈ items, ∀ page, printItem item.tree.root page = page.put item.text) (page : Page) :
    Emit.commaList printItem (items.map fun item => item.tree.root) page = page.put (rowText items) := by
  have others : ∀ (rest : List Spelling) (page : Page),
      (∀ item ∈ rest, ∀ page, printItem item.tree.root page = page.put item.text) →
      (rest.map fun item => item.tree.root).foldl (fun page slot => printItem slot (page.write ", ")) page =
        page.put (rest.flatMap fun item => ',' :: ' ' :: item.text) := by
    intro rest
    induction rest with
    | nil => exact fun page _ => Page.put_nil.symm
    | cons item rest ih =>
      intro page each
      obtain ⟨first, each⟩ := List.forall_mem_cons.mp each
      rw [List.map_cons, List.foldl_cons, ih _ each, first, Page.write_eq_put, Page.put_put, Page.put_put,
        List.flatMap_cons]
      rfl
  cases items with
  | nil => exact Page.put_nil.symm
  | cons item rest =>
    obtain ⟨first, each⟩ := List.forall_mem_cons.mp each
    rw [List.map_cons, Emit.commaList, others rest _ each, first, Page.put_put, rowText]

/-- An item of a list is written as its text. -/
structure IsWritten (printing : Printing) (depth : Nat) (item : Spelling) : Prop where
  spells : item.tree.isHole = false → Spells item.tree Precedence.assignment item.text item.lexemes
  hole : item.tree.isHole = true → item.text = [] ∧ item.lexemes = []
  written : ∀ page, Emit.item (printing.node depth) item.tree.root page = page.put item.text

/-- A hole is written as nothing. -/
theorem node_hole (found : printing.store.shape? (some id) = some .omitted) (page : Page) :
    printing.node depth (.expression Precedence.assignment) (some id) page = page := by
  cases depth with
  | zero => rfl
  | succ depth =>
    obtain ⟨node, there, omitted⟩ := Option.map_eq_some_iff.mp found
    rw [Printing.node, there]
    change printing.expression _ _ node page = page
    rw [expression, omitted, if_neg (by decide)]
    rfl

theorem exists_items {trees : List Tree} (holds : ∀ tree ∈ trees, printing.store.Holds tree)
    (each : ∀ tree ∈ trees, tree.isHole = false → Writes printing depth tree) :
    ∃ items : List Spelling, items.map Spelling.tree = trees ∧ ∀ item ∈ items, IsWritten printing depth item := by
  induction trees with
  | nil => exact ⟨[], rfl, List.forall_mem_nil _⟩
  | cons tree trees ih =>
    obtain ⟨firstHolds, holds⟩ := List.forall_mem_cons.mp holds
    obtain ⟨first, each⟩ := List.forall_mem_cons.mp each
    obtain ⟨items, rfl, written⟩ := ih holds each
    cases hole : tree.isHole with
    | true =>
      refine ⟨⟨tree, [], []⟩ :: items, rfl, List.forall_mem_cons.mpr ⟨⟨fun no => ?_, fun _ => ⟨rfl, rfl⟩, fun page => ?_⟩,
        written⟩⟩
      · rw [hole] at no
        cases no
      · obtain ⟨id, same⟩ := Tree.exists_of_isHole hole
        cases firstHolds with
        | nothing => cases same
        | node there =>
          cases same
          exact (node_hole there page).trans Page.put_nil.symm
    | false =>
      obtain ⟨text, lexemes, spells, firstWritten⟩ := first hole Precedence.assignment
      refine ⟨⟨tree, text, lexemes⟩ :: items, rfl, List.forall_mem_cons.mpr ⟨⟨fun _ => spells, fun yes => ?_,
        firstWritten⟩, written⟩⟩
      rw [hole] at yes
      cases yes

theorem omitted_of_kind (kind : shape.kind = .omittedExpression) : shape = .omitted := by
  unfold Shape.kind at kind
  split at kind <;> first
    | rfl
    | cases kind
    | split at kind <;> cases kind

/-- Only a hole has the kind of one. -/
theorem kind?_eq_omitted {tree : Tree} (holds : printing.store.Holds tree) :
    (printing.store.kind? tree.root == some .omittedExpression) = tree.isHole := by
  cases holds with
  | nothing => rfl
  | @node id shape below found regular roots links inner =>
    change ((printing.store.shape? (some id)).map (·.kind) == some .omittedExpression) = _
    rw [found, Bool.eq_iff_iff, beq_iff_eq]
    refine ⟨fun kind => ?_, fun hole => ?_⟩
    · obtain rfl := omitted_of_kind (Option.some.inj kind)
      rw [List.map_eq_nil_iff.mp roots.symm]
      rfl
    · obtain ⟨_, same⟩ := Tree.exists_of_isHole hole
      cases same
      rfl

theorem writes_array {items : List Spelling} (holds : ∀ item ∈ items, printing.store.Holds item.tree)
    (each : ∀ item ∈ items, IsWritten printing depth item)
    (found : printing.store.shape? (some id) = some (.elements .array (items.map fun item => item.tree.root))) :
    Writes printing (depth + 1)
      (.node id (.elements .array (items.map fun item => item.tree.root)) (items.map Spelling.tree)) := by
  refine writes_node found (.array (fun item member => (each item member).spells)
    fun item member => (each item member).hole) fun flags page => ?_
  have last : ((items.map fun item => item.tree.root).getLast?.any fun last =>
      printing.store.kind? last == some .omittedExpression) = items.getLast?.any fun last => last.tree.isHole := by
    rw [List.getLast?_map, Option.any_map]
    cases here : items.getLast? with
    | none => rfl
    | some last => exact kind?_eq_omitted (holds last (List.mem_of_getLast? here))
  rw [expressionNode, last, commaList_eq fun item member => (each item member).written, listText_eq]
  split
  · simp only [Page.write_eq_put, Page.put_put, List.append_assoc]
    rfl
  · simp only [Page.write_eq_put, Page.put_put, List.append_assoc, List.nil_append]
    rfl

/-- Items without holes, with commas between them. -/
theorem commaList_eq_listText {items : List Spelling} (each : ∀ item ∈ items, IsWritten printing depth item)
    (noHoles : ∀ item ∈ items, item.tree.isHole = false) (page : Page) :
    Emit.commaList (Emit.item (printing.node depth)) (items.map fun item => item.tree.root) page =
      page.put (Spelling.listText items) := by
  rw [commaList_eq (fun item member => (each item member).written), listText_eq_rowText noHoles]

theorem writes_sequence {items : List Spelling} (several : 2 ≤ items.length)
    (each : ∀ item ∈ items, IsWritten printing depth item) (noHoles : ∀ item ∈ items, item.tree.isHole = false)
    (found : printing.store.shape? (some id) = some (.elements .sequence (items.map fun item => item.tree.root))) :
    Writes printing (depth + 1)
      (.node id (.elements .sequence (items.map fun item => item.tree.root)) (items.map Spelling.tree)) := by
  refine writes_node found (.sequence (Nat.le_refl _) several
    (fun item member => (each item member).spells (noHoles item member)) noHoles) fun flags page => ?_
  rw [expressionNode, commaList_eq_listText each noHoles]

theorem writes_call {items : List Spelling} (writes : Writes printing depth callee)
    (each : ∀ item ∈ items, IsWritten printing depth item) (noHoles : ∀ item ∈ items, item.tree.isHole = false)
    (found : printing.store.shape? (some id) =
      some (.call false callee.root (items.map fun item => item.tree.root))) :
    Writes printing (depth + 1)
      (.node id (.call false callee.root (items.map fun item => item.tree.root)) (callee :: items.map Spelling.tree)) := by
  obtain ⟨text, lexemes, spells, written⟩ := writes member
  refine writes_node found (.call (Nat.le_refl _) spells
    (fun item member => (each item member).spells (noHoles item member)) noHoles) fun flags page => ?_
  rw [expressionNode, written, commaList_eq_listText each noHoles]
  simp only [Page.write_eq_put, Page.put_put, List.append_assoc]
  rfl

/-- The printer finds the call that a chain of members starts with. -/
theorem startsWithCall_eq_tree {tree : Tree} (holds : printing.store.Holds tree) :
    ∀ {depth : Nat}, tree.height ≤ depth → printing.startsWithCall depth tree.root = tree.startsWithCall := by
  induction holds with
  | nothing =>
    intro depth _
    cases depth <;> rfl
  | @node id shape below found regular roots links inner ih =>
    intro depth deep
    obtain ⟨depth, rfl⟩ := Nat.exists_eq_succ_of_ne_zero (Nat.ne_zero_of_lt deep)
    rw [Tree.root, startsWithCall, found]
    cases shape with
    | call isNew => cases isNew <;> rfl
    | access isElement object property =>
      obtain ⟨first, second, rfl⟩ : ∃ first second, below = [first, second] := by
        rcases below with _ | ⟨first, _ | ⟨second, _ | ⟨third, rest⟩⟩⟩ <;> cases roots
        exact ⟨first, second, rfl⟩
      cases roots
      exact ih first List.mem_cons_self (Nat.le_of_lt_succ
        (Nat.lt_of_lt_of_le (Tree.height_lt_node List.mem_cons_self) deep))
    | _ => rfl

theorem writes_construct {items : List Spelling} (holds : printing.store.Holds callee)
    (deep : callee.height ≤ printing.store.depthBound) (writes : Writes printing depth callee)
    (each : ∀ item ∈ items, IsWritten printing depth item) (noHoles : ∀ item ∈ items, item.tree.isHole = false)
    (found : printing.store.shape? (some id) =
      some (.call true callee.root (items.map fun item => item.tree.root))) :
    Writes printing (depth + 1)
      (.node id (.call true callee.root (items.map fun item => item.tree.root)) (callee :: items.map Spelling.tree)) := by
  -- a call in the callee stands in parentheses, so that it does not take the arguments
  obtain ⟨text, lexemes, bound, spells, calm, written⟩ : ∃ text lexemes bound,
      Spells callee bound text lexemes ∧ (bound = primary ∨ bound = member ∧ callee.startsWithCall = false) ∧
        ∀ page, (if printing.startsWithCall printing.store.depthBound callee.root
          then Emit.parenthesized (printing.node depth) callee.root page
          else printing.node depth (.expression member) callee.root page) = page.put text := by
    rw [startsWithCall_eq_tree holds deep]
    cases starts : callee.startsWithCall with
    | true =>
      obtain ⟨text, lexemes, spells, written⟩ := writes Precedence.comma
      exact ⟨_, _, primary, .grouped spells, .inl rfl, parenthesized_eq written⟩
    | false =>
      obtain ⟨text, lexemes, spells, written⟩ := writes member
      exact ⟨text, lexemes, member, spells, .inr ⟨rfl, rfl⟩, written⟩
  refine writes_node found (.construct (Nat.le_refl _) spells calm
    (fun item member => (each item member).spells (noHoles item member)) noHoles) fun flags page => ?_
  rw [expressionNode, written, commaList_eq_listText each noHoles]
  simp only [Page.write_eq_put, Page.put_put, List.append_assoc]
  rfl

/-! ## Operands without operators -/

theorem writes_identifier {name : String} (isName : IsName name) (free : keyword? name = none)
    (found : printing.store.shape? (some id) = some (.identifier name)) :
    Writes printing (depth + 1) (.node id (.identifier name) []) :=
  writes_node found (.identifier isName free) fun _ _ => Page.write_eq_put name

theorem writes_token {kind : TokenKind} (word : kind ∈ [thisKeyword, trueKeyword, falseKeyword, nullKeyword])
    (found : printing.store.shape? (some id) = some (.token kind)) :
    Writes printing (depth + 1) (.node id (.token kind) []) := by
  refine writes_node found (.token word) fun flags page => ?_
  simp only [List.mem_cons, List.not_mem_nil, or_false] at word
  rcases word with rfl | rfl | rfl | rfl <;> exact Page.write_eq_put _

theorem writes_number {digits : String} (filled : digits.toList ≠ [])
    (each : ∀ c ∈ digits.toList, c.isDigit = true)
    (found : printing.store.shape? (some id) = some (.literal .number digits (Number.readLiteral digits))) :
    Writes printing (depth + 1) (.node id (.literal .number digits (Number.readLiteral digits)) []) := by
  refine writes_node found (.number filled each) fun flags page => ?_
  have shown : ¬digits.isEmpty = true := fun empty => filled (by rw [String.isEmpty_iff.mp empty]; rfl)
  rw [expressionNode, if_neg shown, Page.write_eq_put]

theorem writes_string {value : String}
    (found : printing.store.shape? (some id) = some (.literal .string value none)) :
    Writes printing (depth + 1) (.node id (.literal .string value none) []) :=
  writes_node found (.string !printing.options.minimalEscape) fun _ _ => Page.write_eq_put _

/-! ## All expressions -/

/-- A tree of the store that the printer reaches the leaves of. -/
structure Covers (printing : Printing) (depth : Nat) (tree : Tree) : Prop where
  holds : printing.store.Holds tree
  deep : tree.height ≤ depth
  bounded : tree.height ≤ printing.store.depthBound

theorem Covers.inside (covers : Covers printing depth (.node id shape below)) :
    ∃ lower, depth = lower + 1 ∧ printing.store.shape? (some id) = some shape ∧
      shape.slots = below.map Tree.root ∧ ∀ tree ∈ below, Covers printing lower tree := by
  obtain ⟨lower, rfl⟩ := Nat.exists_eq_succ_of_ne_zero (Nat.ne_zero_of_lt covers.deep)
  cases covers.holds with
  | node found regular roots links inner =>
    refine ⟨lower, rfl, found, roots, fun tree member => ?_⟩
    have less : tree.height < (Tree.node id shape below).height := Tree.height_lt_node member
    exact ⟨inner tree member, Nat.le_of_lt_succ (Nat.lt_of_lt_of_le less covers.deep),
      Nat.le_of_lt (Nat.lt_of_lt_of_le less covers.bounded)⟩

theorem isHole_of_isPlain {tree : Tree} (plain : tree.IsPlain) : tree.isHole = false := by
  cases plain <;> rfl

/-- An expression of names, literals and operators is written as it is spelled. -/
theorem writes_plain {tree : Tree} (plain : tree.IsPlain) :
    ∀ {depth : Nat}, Covers printing depth tree → Writes printing depth tree := by
  induction plain with
  | identifier isName free =>
    intro depth covers
    obtain ⟨lower, rfl, found, -⟩ := covers.inside
    exact writes_identifier isName free found
  | token word =>
    intro depth covers
    obtain ⟨lower, rfl, found, -⟩ := covers.inside
    exact writes_token word found
  | number filled digits =>
    intro depth covers
    obtain ⟨lower, rfl, found, -⟩ := covers.inside
    exact writes_number filled digits found
  | string =>
    intro depth covers
    obtain ⟨lower, rfl, found, -⟩ := covers.inside
    exact writes_string found
  | array items ih =>
    intro depth covers
    obtain ⟨lower, rfl, found, roots, inside⟩ := covers.inside
    obtain ⟨spelled, rfl, written⟩ := exists_items (fun tree member => (inside tree member).holds)
      fun tree member solid => ih tree member solid (inside tree member)
    obtain rfl := roots.trans List.map_map
    exact writes_array (fun item member => (inside _ (List.mem_map_of_mem member)).holds) written found
  | sequence several items ih =>
    intro depth covers
    obtain ⟨lower, rfl, found, roots, inside⟩ := covers.inside
    obtain ⟨spelled, rfl, written⟩ := exists_items (fun tree member => (inside tree member).holds)
      fun tree member _ => ih tree member (inside tree member)
    obtain rfl := roots.trans List.map_map
    rw [List.length_map] at several
    exact writes_sequence several written (fun item member => isHole_of_isPlain (items _ (List.mem_map_of_mem member)))
      found
  | before operates plain ih =>
    intro depth covers
    obtain ⟨lower, rfl, found, roots, inside⟩ := covers.inside
    cases roots
    have operand := inside _ List.mem_cons_self
    exact writes_before operates plain operand.holds (ih operand) found
  | behind operates plain ih =>
    intro depth covers
    obtain ⟨lower, rfl, found, roots, inside⟩ := covers.inside
    cases roots
    exact writes_behind operates (ih (inside _ List.mem_cons_self)) found
  | binary operates left_plain right_plain ihLeft ihRight =>
    intro depth covers
    obtain ⟨lower, rfl, found, roots, inside⟩ := covers.inside
    obtain ⟨own, operates⟩ := Option.isSome_iff_exists.mp operates
    cases roots
    exact writes_binary operates (ihLeft (inside _ List.mem_cons_self))
      (ihRight (inside _ (List.mem_cons_of_mem _ List.mem_cons_self))) found
  | assignment assigns target left_plain right_plain ihLeft ihRight =>
    intro depth covers
    obtain ⟨lower, rfl, found, roots, inside⟩ := covers.inside
    cases roots
    exact writes_assignment assigns target (ihLeft (inside _ List.mem_cons_self))
      (ihRight (inside _ (List.mem_cons_of_mem _ List.mem_cons_self))) found
  | conditional plain true_plain false_plain ih ihTrue ihFalse =>
    intro depth covers
    obtain ⟨lower, rfl, found, roots, inside⟩ := covers.inside
    cases roots
    exact writes_conditional (ih (inside _ List.mem_cons_self))
      (ihTrue (inside _ (List.mem_cons_of_mem _ List.mem_cons_self)))
      (ihFalse (inside _ (List.mem_cons_of_mem _ (List.mem_cons_of_mem _ List.mem_cons_self)))) found
  | @call _ isNew _ _ _ _ callee_plain plain ih ihEach =>
    intro depth covers
    obtain ⟨lower, rfl, found, roots, inside⟩ := covers.inside
    obtain ⟨callee, passed⟩ := List.forall_mem_cons.mp inside
    obtain ⟨spelled, rfl, written⟩ := exists_items (fun tree member => (passed tree member).holds)
      fun tree member _ => ihEach tree member (passed tree member)
    obtain ⟨rfl, slots⟩ := List.cons.inj roots
    obtain rfl := slots.trans List.map_map
    have noHoles : ∀ item ∈ spelled, item.tree.isHole = false := fun item member =>
      isHole_of_isPlain (plain _ (List.mem_map_of_mem member))
    cases isNew with
    | false => exact writes_call (ih callee) written noHoles found
    | true => exact writes_construct callee.holds callee.bounded (ih callee) written noHoles found
  | property plain isName ih =>
    intro depth covers
    obtain ⟨lower, rfl, found, roots, inside⟩ := covers.inside
    cases roots
    have object := inside _ List.mem_cons_self
    obtain ⟨_, _, named, -⟩ := (inside _ (List.mem_cons_of_mem _ List.mem_cons_self)).inside
    exact writes_property isName object.holds (ih object) found named
  | element plain index_plain ih ihIndex =>
    intro depth covers
    obtain ⟨lower, rfl, found, roots, inside⟩ := covers.inside
    cases roots
    exact writes_element (ih (inside _ List.mem_cons_self))
      (ihIndex (inside _ (List.mem_cons_of_mem _ List.mem_cons_self))) found

/-! ## Statements -/

/-- No expression of names, literals and operators starts like a function or a block. -/
theorem startsLikeStatement_eq_false {tree : Tree} (plain : tree.IsPlain) : ∀ {depth : Nat},
    printing.store.Holds tree → printing.startsLikeStatement depth tree.root = false := by
  induction plain with
  | identifier | token | number | string | array | before =>
    intro depth holds
    cases depth with
    | zero => rfl
    | succ depth =>
      cases holds with
      | node found =>
        rw [Tree.root, startsLikeStatement, found]
  | @sequence _ slots below several items ih =>
    intro depth holds
    cases depth with
    | zero => rfl
    | succ depth =>
      cases holds with
      | node found regular roots links inner =>
        rw [Tree.root, startsLikeStatement, found]
        match below, slots, roots with
        | [], [], _ => rfl
        | first :: rest, slot :: slots, roots =>
          obtain ⟨rfl, -⟩ := List.cons.inj roots
          exact ih first List.mem_cons_self (inner _ List.mem_cons_self)
  | @call _ isNew _ _ _ _ callee_plain plain ih =>
    intro depth holds
    cases depth with
    | zero => rfl
    | succ depth =>
      cases holds with
      | node found regular roots links inner =>
        rw [Tree.root, startsLikeStatement, found]
        obtain ⟨rfl, -⟩ := List.cons.inj roots
        cases isNew with
        | false => exact ih (inner _ List.mem_cons_self)
        | true => rfl
  | behind _ _ ih | binary _ _ _ ih | assignment _ _ _ _ ih | conditional _ _ _ ih | property _ _ ih
  | element _ _ ih =>
    intro depth holds
    cases depth with
    | zero => rfl
    | succ depth =>
      cases holds with
      | node found regular roots links inner =>
        cases roots
        rw [Tree.root, startsLikeStatement, found]
        exact ih (inner _ List.mem_cons_self)

end Writing

end Printing

/-- An expression as a statement is printed as it is spelled, with a semicolon behind it. -/
theorem Store.print_sentence {store : Store} {id : NodeId} {slot : Slot} {tree : Tree}
    (holds : store.Holds (.node id (.expressionStatement slot) [tree])) (nodup : tree.names.Nodup)
    (plain : tree.IsPlain) (options : PrinterOptions) :
    ∃ text lexemes, Spells tree Precedence.comma text lexemes ∧
      store.print options (some id) = String.ofList (text ++ [';', '\n']) := by
  cases holds with
  | node found regular roots links inner =>
    obtain ⟨node, there, shape⟩ := Option.map_eq_some_iff.mp found
    have held := inner tree List.mem_cons_self
    obtain rfl : slot = tree.root := by
      cases roots
      rfl
    have high : tree.height ≤ store.nodes.size := held.height_le nodup
    have covers : Printing.Covers ⟨store, options, none⟩ store.nodes.size tree :=
      ⟨held, high, Nat.le_succ_of_le high⟩
    obtain ⟨text, lexemes, spells, written⟩ := Printing.writes_plain plain covers Precedence.comma
    have calm : Printing.startsLikeStatement ⟨store, options, none⟩ store.depthBound tree.root = false :=
      Printing.startsLikeStatement_eq_false plain held
    have printed : Printing.node ⟨store, options, none⟩ store.depthBound .statement (some id)
        (Page.empty options.indentWidth) = (Page.empty options.indentWidth).put (text ++ [';']) := by
      rw [Store.depthBound, Printing.node, there]
      change Printing.statement _ _ node _ = _
      rw [Printing.statement, shape]
      change Page.write (if Printing.startsLikeStatement ⟨store, options, none⟩ store.depthBound tree.root
        then _ else _) _ = _
      rw [calm, if_neg Bool.false_ne_true, Emit.anyExpression, written, Page.write_eq_put, Page.put_put]
      rfl
    have line : store.print options (some id) =
        ((Page.empty options.indentWidth).put (text ++ [';'])).newLine.writer.output := by
      rw [← printed, Store.print, found]
      rfl
    refine ⟨text, lexemes, spells, ?_⟩
    rw [line, Page.output_line _ (List.append_ne_nil_of_right_ne_nil _ (List.cons_ne_nil _ _)), List.append_assoc]
    rfl

end Unflatten
