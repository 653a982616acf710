import Unflatten.Number.Numeral
import Unflatten.Parser.Expression
import Unflatten.Proofs.Syntax.Tree
import Unflatten.Proofs.Token.Quoting
import Unflatten.Proofs.Token.Words

/-! # How expressions are spelled

`Tree.IsPlain` says which trees are expressions of names, literals and operators.  `Spells` is
the grammar of their texts: it relates a tree and the least precedence that its place demands to
a text, and to the lexemes that the text is read as (`Spells.tokens`). -/

set_option autoImplicit false

namespace Unflatten

namespace Tree

/-- A hole of an array. -/
def isHole : Tree → Bool
  | .node _ .omitted [] => true
  | _ => false

theorem exists_of_isHole {tree : Tree} (hole : tree.isHole = true) : ∃ id, tree = .node id .omitted [] := by
  unfold isHole at hole
  split at hole
  · exact ⟨_, rfl⟩
  · cases hole

/-- Something that can be assigned to. -/
def isAssignable : Tree → Bool
  | .node _ shape _ => Parser.isAssignable shape
  | .nothing => false

/-- Whether a chain of member accesses starts with a call. -/
def startsWithCall : Tree → Bool
  | .node _ (.call false _ _) _ => true
  | .node _ (.access _ _ _) (object :: _) => object.startsWithCall
  | _ => false

/-- An expression of names, literals and operators. -/
inductive IsPlain : Tree → Prop
  | identifier {id : NodeId} {text : String} (name : IsName text)
      (free : TokenKind.keyword? text = none) : IsPlain (.node id (.identifier text) [])
  | token {id : NodeId} {kind : TokenKind}
      (word : kind ∈ [.thisKeyword, .trueKeyword, .falseKeyword, .nullKeyword]) :
      IsPlain (.node id (.token kind) [])
  | number {id : NodeId} {text : String} (filled : text.toList ≠ [])
      (digits : ∀ c ∈ text.toList, c.isDigit = true) :
      IsPlain (.node id (.literal .number text (Number.readLiteral text)) [])
  | string {id : NodeId} {text : String} : IsPlain (.node id (.literal .string text none) [])
  | array {id : NodeId} {slots : List Slot} {below : List Tree}
      (items : ∀ item ∈ below, item.isHole = false → IsPlain item) :
      IsPlain (.node id (.elements .array slots) below)
  | sequence {id : NodeId} {slots : List Slot} {below : List Tree} (several : 2 ≤ below.length)
      (items : ∀ item ∈ below, IsPlain item) : IsPlain (.node id (.elements .sequence slots) below)
  | before {id : NodeId} {operator : TokenKind} {slot : Slot} {operand : Tree}
      (operates : Parser.isPrefixOperator operator = true) (plain : IsPlain operand) :
      IsPlain (.node id (.unary false operator slot) [operand])
  | behind {id : NodeId} {operator : TokenKind} {slot : Slot} {operand : Tree}
      (operates : operator = .plusPlus ∨ operator = .minusMinus) (plain : IsPlain operand) :
      IsPlain (.node id (.unary true operator slot) [operand])
  | binary {id : NodeId} {operator : TokenKind} {first second : Slot} {left right : Tree}
      (operates : operator.binaryPrecedence?.isSome = true) (left_plain : IsPlain left)
      (right_plain : IsPlain right) : IsPlain (.node id (.binary first operator second) [left, right])
  | assignment {id : NodeId} {operator : TokenKind} {first second : Slot} {left right : Tree}
      (assigns : operator.isAssignment = true) (target : left.isAssignable = true)
      (left_plain : IsPlain left) (right_plain : IsPlain right) :
      IsPlain (.node id (.binary first operator second) [left, right])
  | conditional {id : NodeId} {first second third : Slot} {condition whenTrue whenFalse : Tree}
      (condition_plain : IsPlain condition) (true_plain : IsPlain whenTrue)
      (false_plain : IsPlain whenFalse) :
      IsPlain (.node id (.conditional first second third) [condition, whenTrue, whenFalse])
  | call {id : NodeId} {isNew : Bool} {slot : Slot} {slots : List Slot} {callee : Tree}
      {passed : List Tree} (callee_plain : IsPlain callee) (plain : ∀ item ∈ passed, IsPlain item) :
      IsPlain (.node id (.call isNew slot slots) (callee :: passed))
  | property {id nameId : NodeId} {first second : Slot} {object : Tree} {name : String}
      (plain : IsPlain object) (isName : IsName name) :
      IsPlain (.node id (.access false first second) [object, .node nameId (.identifier name) []])
  | element {id : NodeId} {first second : Slot} {object index : Tree} (plain : IsPlain object)
      (index_plain : IsPlain index) : IsPlain (.node id (.access true first second) [object, index])

end Tree

/-- A tree with its text and the lexemes that the text is read as. -/
structure Spelling where
  tree : Tree
  text : List Char
  lexemes : List Lexeme

namespace Spelling

/-- Texts with a comma between neighbours; a hole in the end needs one more. -/
def listText : List Spelling → List Char
  | [] => []
  | [last] => last.text ++ if last.tree.isHole then [','] else []
  | first :: rest => first.text ++ ',' :: ' ' :: listText rest

/-- The lexemes of such a list. -/
def listLexemes : List Spelling → List Lexeme
  | [] => []
  | [last] => last.lexemes ++ if last.tree.isHole then [TokenKind.comma.lexeme] else []
  | first :: rest => first.lexemes ++ TokenKind.comma.lexeme :: listLexemes rest

theorem listText_cons_cons (first second : Spelling) (rest : List Spelling) :
    listText (first :: second :: rest) = first.text ++ ',' :: ' ' :: listText (second :: rest) := rfl

theorem listLexemes_cons_cons (first second : Spelling) (rest : List Spelling) :
    listLexemes (first :: second :: rest) =
      first.lexemes ++ TokenKind.comma.lexeme :: listLexemes (second :: rest) := rfl

end Spelling

theorem bounds_of_binaryPrecedence? {kind : TokenKind} {own : Nat}
    (operates : kind.binaryPrecedence? = some own) :
    Precedence.coalesce ≤ own ∧ own ≤ Precedence.exponentiation := by
  cases kind <;> cases operates <;> decide

open Precedence TokenKind

/-- The text of a tree in a place that demands a least precedence, and its lexemes. -/
inductive Spells : Tree → Nat → List Char → List Lexeme → Prop
  | identifier {id : NodeId} {name : String} {least : Nat} (isName : IsName name)
      (free : keyword? name = none) :
      Spells (.node id (.identifier name) []) least name.toList [⟨.identifier, name⟩]
  | token {id : NodeId} {kind : TokenKind} {least : Nat}
      (word : kind ∈ [.thisKeyword, .trueKeyword, .falseKeyword, .nullKeyword]) :
      Spells (.node id (.token kind) []) least kind.text.toList [kind.lexeme]
  | number {id : NodeId} {digits : String} {least : Nat}
      (filled : digits.toList ≠ []) (each : ∀ c ∈ digits.toList, c.isDigit = true) :
      Spells (.node id (.literal .number digits (Number.readLiteral digits)) []) least
        digits.toList [⟨.numericLiteral, digits⟩]
  | string {id : NodeId} {value : String} {least : Nat} (asciiOnly : Bool) :
      Spells (.node id (.literal .string value none) []) least (quote value asciiOnly).toList
        [⟨.stringLiteral, value⟩]
  | grouped {tree : Tree} {least : Nat} {text : List Char} {lexemes : List Lexeme}
      (inside : Spells tree Precedence.comma text lexemes) :
      Spells tree least ('(' :: (text ++ [')'])) (openParen.lexeme :: (lexemes ++ [closeParen.lexeme]))
  | array {id : NodeId} {slots : List Slot} {items : List Spelling} {least : Nat}
      (each : ∀ item ∈ items, item.tree.isHole = false →
        Spells item.tree Precedence.assignment item.text item.lexemes)
      (holes : ∀ item ∈ items, item.tree.isHole = true → item.text = [] ∧ item.lexemes = []) :
      Spells (.node id (.elements .array slots) (items.map Spelling.tree)) least
        ('[' :: (Spelling.listText items ++ [']']))
        (openBracket.lexeme :: (Spelling.listLexemes items ++ [closeBracket.lexeme]))
  | property {id nameId : NodeId} {first second : Slot} {object : Tree} {name : String}
      {least bound : Nat} {text : List Char} {lexemes : List Lexeme}
      (fits : least ≤ member) (inside : Spells object bound text lexemes) (tight : member ≤ bound)
      (pointed : text.all Char.isDigit = false) (isName : IsName name) :
      Spells (.node id (.access false first second) [object, .node nameId (.identifier name) []])
        least (text ++ '.' :: name.toList)
        (lexemes ++ [dot.lexeme, ⟨(keyword? name).getD .identifier, name⟩])
  | element {id : NodeId} {first second : Slot} {object index : Tree} {least : Nat}
      {text inner : List Char} {lexemes innerLexemes : List Lexeme} (fits : least ≤ member)
      (inside : Spells object member text lexemes)
      (argument : Spells index Precedence.comma inner innerLexemes) :
      Spells (.node id (.access true first second) [object, index]) least
        (text ++ '[' :: (inner ++ [']']))
        (lexemes ++ openBracket.lexeme :: (innerLexemes ++ [closeBracket.lexeme]))
  | call {id : NodeId} {slot : Slot} {slots : List Slot} {callee : Tree} {items : List Spelling}
      {least : Nat} {text : List Char} {lexemes : List Lexeme} (fits : least ≤ member)
      (inside : Spells callee member text lexemes)
      (each : ∀ item ∈ items, Spells item.tree Precedence.assignment item.text item.lexemes)
      (noHoles : ∀ item ∈ items, item.tree.isHole = false) :
      Spells (.node id (.call false slot slots) (callee :: items.map Spelling.tree)) least
        (text ++ '(' :: (Spelling.listText items ++ [')']))
        (lexemes ++ openParen.lexeme :: (Spelling.listLexemes items ++ [closeParen.lexeme]))
  | construct {id : NodeId} {slot : Slot} {slots : List Slot} {callee : Tree} {items : List Spelling}
      {least bound : Nat} {text : List Char} {lexemes : List Lexeme} (fits : least ≤ member)
      (inside : Spells callee bound text lexemes)
      (calm : bound = primary ∨ bound = member ∧ callee.startsWithCall = false)
      (each : ∀ item ∈ items, Spells item.tree Precedence.assignment item.text item.lexemes)
      (noHoles : ∀ item ∈ items, item.tree.isHole = false) :
      Spells (.node id (.call true slot slots) (callee :: items.map Spelling.tree)) least
        (newKeyword.text.toList ++ ' ' :: (text ++ '(' :: (Spelling.listText items ++ [')'])))
        (newKeyword.lexeme :: (lexemes ++
          openParen.lexeme :: (Spelling.listLexemes items ++ [closeParen.lexeme])))
  | behind {id : NodeId} {operator : TokenKind} {slot : Slot} {operand : Tree} {least : Nat}
      {text : List Char} {lexemes : List Lexeme} (fits : least ≤ update)
      (operates : operator = .plusPlus ∨ operator = .minusMinus)
      (inside : Spells operand member text lexemes) :
      Spells (.node id (.unary true operator slot) [operand]) least (text ++ operator.text.toList)
        (lexemes ++ [operator.lexeme])
  | before {id : NodeId} {operator : TokenKind} {slot : Slot} {operand : Tree} {least : Nat}
      {text : List Char} {lexemes : List Lexeme} (fits : least ≤ unary)
      (operates : Parser.isPrefixOperator operator = true)
      (inside : Spells operand unary text lexemes) (spaced : Bool)
      (apart : spaced = false → operator.isKeyword = false ∧ ∀ c ∈ text.head?, c ∉ operator.joins) :
      Spells (.node id (.unary false operator slot) [operand]) least
        (operator.text.toList ++ if spaced then ' ' :: text else text) (operator.lexeme :: lexemes)
  | binary {id : NodeId} {operator : TokenKind} {first second : Slot} {left right : Tree}
      {least own leftBound rightBound : Nat} {leftText rightText : List Char}
      {leftLexemes rightLexemes : List Lexeme} (operates : operator.binaryPrecedence? = some own)
      (fits : least ≤ own) (leftInside : Spells left leftBound leftText leftLexemes)
      (leftTight : (if operator = .asteriskAsterisk then update else own) ≤ leftBound)
      (rightInside : Spells right rightBound rightText rightLexemes)
      (rightTight : (if operator = .asteriskAsterisk then own else own + 1) ≤ rightBound) :
      Spells (.node id (.binary first operator second) [left, right]) least
        (leftText ++ ' ' :: (operator.text.toList ++ ' ' :: rightText))
        (leftLexemes ++ operator.lexeme :: rightLexemes)
  | conditional {id : NodeId} {first second third : Slot} {condition whenTrue whenFalse : Tree}
      {least : Nat} {text trueText falseText : List Char}
      {lexemes trueLexemes falseLexemes : List Lexeme} (fits : least ≤ Precedence.conditional)
      (inside : Spells condition coalesce text lexemes)
      (trueInside : Spells whenTrue Precedence.assignment trueText trueLexemes)
      (falseInside : Spells whenFalse Precedence.assignment falseText falseLexemes) :
      Spells (.node id (.conditional first second third) [condition, whenTrue, whenFalse]) least
        (text ++ ' ' :: '?' :: ' ' :: (trueText ++ ' ' :: ':' :: ' ' :: falseText))
        (lexemes ++ question.lexeme :: (trueLexemes ++ colon.lexeme :: falseLexemes))
  | assignment {id : NodeId} {operator : TokenKind} {first second : Slot} {left right : Tree}
      {least : Nat} {leftText rightText : List Char} {leftLexemes rightLexemes : List Lexeme}
      (assigns : operator.isAssignment = true) (fits : least ≤ Precedence.assignment)
      (target : left.isAssignable = true) (leftInside : Spells left member leftText leftLexemes)
      (rightInside : Spells right Precedence.assignment rightText rightLexemes) :
      Spells (.node id (.binary first operator second) [left, right]) least
        (leftText ++ ' ' :: (operator.text.toList ++ ' ' :: rightText))
        (leftLexemes ++ operator.lexeme :: rightLexemes)
  | sequence {id : NodeId} {slots : List Slot} {items : List Spelling} {least : Nat}
      (fits : least ≤ Precedence.comma) (several : 2 ≤ items.length)
      (each : ∀ item ∈ items, Spells item.tree Precedence.assignment item.text item.lexemes)
      (noHoles : ∀ item ∈ items, item.tree.isHole = false) :
      Spells (.node id (.elements .sequence slots) (items.map Spelling.tree)) least
        (Spelling.listText items) (Spelling.listLexemes items)

namespace Spells
variable {tree : Tree} {least weaker : Nat} {text rest : List Char} {lexemes others : List Lexeme}

/-- What fits a place fits one that demands less. -/
theorem weaken (spells : Spells tree least text lexemes) (weaker_le : weaker ≤ least) :
    Spells tree weaker text lexemes := by
  cases spells with
  | identifier isName free => exact .identifier isName free
  | token word => exact .token word
  | number filled each => exact .number filled each
  | string asciiOnly => exact .string asciiOnly
  | grouped inside => exact .grouped inside
  | array each holes => exact .array each holes
  | property fits inside tight pointed isName =>
    exact .property (Nat.le_trans weaker_le fits) inside tight pointed isName
  | element fits inside argument => exact .element (Nat.le_trans weaker_le fits) inside argument
  | call fits inside each noHoles => exact .call (Nat.le_trans weaker_le fits) inside each noHoles
  | construct fits inside calm each noHoles =>
    exact .construct (Nat.le_trans weaker_le fits) inside calm each noHoles
  | behind fits operates inside => exact .behind (Nat.le_trans weaker_le fits) operates inside
  | before fits operates inside spaced apart =>
    exact .before (Nat.le_trans weaker_le fits) operates inside spaced apart
  | binary operates fits leftInside leftTight rightInside rightTight =>
    exact .binary operates (Nat.le_trans weaker_le fits) leftInside leftTight rightInside rightTight
  | conditional fits inside trueInside falseInside =>
    exact .conditional (Nat.le_trans weaker_le fits) inside trueInside falseInside
  | assignment assigns fits target leftInside rightInside =>
    exact .assignment assigns (Nat.le_trans weaker_le fits) target leftInside rightInside
  | sequence fits several each noHoles =>
    exact .sequence (Nat.le_trans weaker_le fits) several each noHoles

/-- No expression has an empty text. -/
theorem filled (spells : Spells tree least text lexemes) : text ≠ [] := by
  induction spells with
  | identifier isName =>
    obtain ⟨first, others, listed, -⟩ := isName
    rw [listed]
    exact List.cons_ne_nil _ _
  | @token _ kind _ word =>
    simp only [List.mem_cons, List.not_mem_nil, or_false] at word
    rcases word with rfl | rfl | rfl | rfl <;> exact List.cons_ne_nil _ _
  | number filled => exact filled
  | string asciiOnly => exact (reads_quote _ asciiOnly []).filled
  | grouped | array => exact List.cons_ne_nil _ _
  | property | element | call | binary | conditional | assignment =>
    exact List.append_ne_nil_of_right_ne_nil _ (List.cons_ne_nil _ _)
  | construct => exact List.cons_ne_nil _ _
  | behind _ _ _ ih => exact List.append_ne_nil_of_left_ne_nil ih _
  | @before _ operator _ _ _ _ _ _ operates _ spaced _ ih =>
    refine List.append_ne_nil_of_right_ne_nil _ ?_
    split
    · exact List.cons_ne_nil _ _
    · exact ih
  | @sequence _ _ items _ _ several each _ ih =>
    rcases items with _ | ⟨first, _ | ⟨second, rest⟩⟩
    · cases several
    · exact absurd several (by simp)
    · exact List.append_ne_nil_of_right_ne_nil _ (List.cons_ne_nil _ _)

/-- An operand starts with a sign or with `=` only if it has an operator before it. -/
theorem head (spells : Spells tree least text lexemes) (tight : unary ≤ least) {c : Char}
    (here : c ∈ text.head?) (mark : c ∈ ['+', '-', '=']) : ∃ id operator slot below,
      tree = .node id (.unary false operator slot) below ∧ operator.text.toList.head? = some c ∧
        least ≤ unary := by
  have noLetter : isIdentifierStart c = false := by
    simp only [List.mem_cons, List.not_mem_nil, or_false] at mark
    rcases mark with rfl | rfl | rfl <;> decide
  have noDigit : c.isDigit = false := by
    simp only [List.mem_cons, List.not_mem_nil, or_false] at mark
    rcases mark with rfl | rfl | rfl <;> rfl
  -- what stands in front of a member access or a call has no operator before it
  have noMember : ∀ {object : Tree} {bound : Nat}, member ≤ bound →
      ¬∃ id operator slot below, object = .node id (.unary false operator slot) below ∧
        operator.text.toList.head? = some c ∧ bound ≤ unary := by
    rintro object bound member_le ⟨_, _, _, _, -, -, bound_le⟩
    exact absurd (Nat.le_trans member_le bound_le) (by decide)
  induction spells with
  | identifier isName =>
    obtain ⟨first, others, listed, starts, -⟩ := isName
    rw [listed] at here
    cases here
    rw [starts] at noLetter
    cases noLetter
  | @token _ kind _ word =>
    simp only [List.mem_cons, List.not_mem_nil, or_false] at word
    rcases word with rfl | rfl | rfl | rfl <;> cases here <;> exact absurd mark (by decide)
  | @number _ digits _ filled each =>
    have digit := each c (List.mem_of_mem_head? here)
    rw [digit] at noDigit
    cases noDigit
  | @string _ value _ asciiOnly =>
    rw [show (quote value asciiOnly).toList = _ from String.toList_ofList] at here
    cases here
    exact absurd mark (by decide)
  | grouped | array | construct =>
    cases here
    exact absurd mark (by decide)
  | property _ inside tight' _ _ ih =>
    rw [List.head?_append_of_ne_nil _ inside.filled] at here
    exact absurd (ih (Nat.le_trans (by decide) tight') here) (noMember tight')
  | element _ inside _ ih | call _ inside _ _ ih | behind _ _ inside ih =>
    rw [List.head?_append_of_ne_nil _ inside.filled] at here
    exact absurd (ih (by decide) here) (noMember (Nat.le_refl _))
  | @before id operator slot operand _ _ _ fits operates _ spaced _ _ =>
    have spelled : operator.text.toList ≠ [] := by
      intro empty
      cases operator <;> first
        | exact absurd operates Bool.false_ne_true
        | exact absurd empty (List.cons_ne_nil _ _)
    rw [List.head?_append_of_ne_nil _ spelled] at here
    exact ⟨_, _, _, _, rfl, here, fits⟩
  | @binary _ operator _ _ _ _ _ own _ _ _ _ _ _ operates fits =>
    have small := (bounds_of_binaryPrecedence? operates).2
    exact absurd (Nat.le_trans tight (Nat.le_trans fits small)) (by decide)
  | conditional fits | assignment _ fits | sequence fits =>
    exact absurd (Nat.le_trans tight fits) (by decide)

end Spells

/-! ## The text is read as the lexemes -/

namespace Tokens
variable {kind : TokenKind} {text rest : List Char} {others : List Lexeme}

/-- A bracket or another mark of one character. -/
theorem mark (c : Char) (kind : TokenKind) (standsAlone : kind.standsAlone = true)
    (spelled : kind.text.toList = [c]) (tokens : Tokens rest others) :
    Tokens (c :: rest) (kind.lexeme :: others) := by
  have reads : kind.lexeme.Reads kind.text.toList rest := reads_alone standsAlone
  rw [spelled] at reads
  exact .word reads tokens

/-- An operator between two spaces. -/
theorem operator (operates : kind.isSpaced = true ∨ kind.isKeyword = true)
    (tokens : Tokens rest others) :
    Tokens (' ' :: (kind.text.toList ++ ' ' :: rest)) (kind.lexeme :: others) := by
  refine .space (.word ?_ (.space tokens))
  rcases operates with spaced | keyword
  · exact reads_spaced spaced
  · refine reads_keyword keyword fun c here => ?_
    cases here
    exact List.mem_cons_self

/-- An operator in front of its operand. -/
theorem before (operates : Parser.isPrefixOperator kind = true) {spaced : Bool}
    (apart : spaced = false → kind.isKeyword = false ∧ ∀ c ∈ text.head?, c ∉ kind.joins)
    (filled : text ≠ []) (tokens : Tokens (text ++ rest) others) :
    Tokens (kind.text.toList ++ ((if spaced then ' ' :: text else text) ++ rest))
      (kind.lexeme :: others) := by
  obtain ⟨c, tail, rfl⟩ := List.exists_cons_of_ne_nil filled
  have sign : kind = .plus ∨ kind = .minus ∨ kind = .exclamation ∨ kind.standsAlone = true ∨
      kind.isKeyword = true := by
    cases kind <;> first
      | exact absurd operates Bool.false_ne_true
      | decide
  cases spaced with
  | true =>
    refine .word ?_ (.space tokens)
    rcases sign with plus | minus | not | alone | keyword
    · exact reads_sign (.inl plus) (by rw [plus]; decide)
    · exact reads_sign (.inr (.inl minus)) (by rw [minus]; decide)
    · exact reads_sign (.inr (.inr not)) (by rw [not]; decide)
    · exact reads_alone alone
    · exact reads_keyword keyword fun c here => by cases here; exact List.mem_cons_self
  | false =>
    obtain ⟨noKeyword, noJoin⟩ := apart rfl
    refine .word ?_ tokens
    rcases sign with plus | minus | not | alone | keyword
    · exact reads_sign (.inl plus) (noJoin c rfl)
    · exact reads_sign (.inr (.inl minus)) (noJoin c rfl)
    · exact reads_sign (.inr (.inr not)) (noJoin c rfl)
    · exact reads_alone alone
    · rw [keyword] at noKeyword
      cases noKeyword

end Tokens

/-- What may follow the text of an expression: a point only behind an operand that is no number. -/
def Follows (least : Nat) (text rest : List Char) : Prop :=
  ∀ c ∈ rest.head?, c ∈ numberStops ∨ c = '.' ∧ member ≤ least ∧ text.all Char.isDigit = false

theorem Follows.of_mem {least : Nat} {text rest : List Char} {c : Char} (stop : c ∈ numberStops) :
    Follows least text (c :: rest) := fun other here => by
  cases here
  exact .inl stop

theorem Follows.of_goesOn {least : Nat} {text rest : List Char} (goesOn : GoesOn rest numberStops) :
    Follows least text rest := fun c here => .inl (goesOn c here)

/-- In a place that demands less than a member access no point follows. -/
theorem Follows.loose {least : Nat} {text rest : List Char} (follows : Follows least text rest)
    (small : least < member) : GoesOn rest numberStops := fun c here =>
  (follows c here).resolve_right fun point => absurd point.2.1 (Nat.not_le_of_lt small)

theorem Follows.stops {least : Nat} {text rest : List Char} (follows : Follows least text rest) :
    GoesOn rest Unflatten.stops := by
  intro c here
  rcases follows c here with stop | ⟨rfl, -⟩
  · exact numberStops_subset_stops stop
  · decide

/-- Items are read one after the other. -/
theorem Spelling.tokens {items : List Spelling} {rest : List Char} {others : List Lexeme}
    (each : ∀ item ∈ items, item.tree.isHole = false → ∀ {rest : List Char} {others : List Lexeme},
      Tokens rest others → GoesOn rest numberStops → Tokens (item.text ++ rest) (item.lexemes ++ others))
    (holes : ∀ item ∈ items, item.tree.isHole = true → item.text = [] ∧ item.lexemes = [])
    (tokens : Tokens rest others) (goesOn : GoesOn rest numberStops) :
    Tokens (listText items ++ rest) (listLexemes items ++ others) := by
  induction items with
  | nil => exact tokens
  | cons first items ih =>
    obtain ⟨firstEach, each⟩ := List.forall_mem_cons.mp each
    obtain ⟨firstHole, holes⟩ := List.forall_mem_cons.mp holes
    cases items with
    | nil =>
      cases hole : first.tree.isHole with
      | true =>
        obtain ⟨noText, noLexemes⟩ := firstHole hole
        rw [listText, listLexemes, hole, noText, noLexemes]
        exact tokens.mark ',' .comma rfl rfl
      | false =>
        rw [listText, listLexemes, hole, if_neg Bool.false_ne_true, if_neg Bool.false_ne_true,
          List.append_nil, List.append_nil]
        exact firstEach hole tokens goesOn
    | cons second items =>
      have next : Tokens (',' :: ' ' :: (listText (second :: items) ++ rest))
          (comma.lexeme :: (listLexemes (second :: items) ++ others)) :=
        (Tokens.space (ih each holes)).mark ',' .comma rfl rfl
      rw [listText_cons_cons, listLexemes_cons_cons, List.append_assoc, List.append_assoc]
      cases hole : first.tree.isHole with
      | true =>
        obtain ⟨noText, noLexemes⟩ := firstHole hole
        rw [noText, noLexemes]
        exact next
      | false => exact firstEach hole next (.of_mem (by decide))

/-- Arguments in their parentheses. -/
theorem arguments_tokens {items : List Spelling} {rest : List Char} {others : List Lexeme}
    (noHoles : ∀ item ∈ items, item.tree.isHole = false)
    (each : ∀ item ∈ items, ∀ {rest : List Char} {others : List Lexeme}, Tokens rest others →
      Follows Precedence.assignment item.text rest → Tokens (item.text ++ rest) (item.lexemes ++ others))
    (tokens : Tokens rest others) :
    Tokens ('(' :: (Spelling.listText items ++ ')' :: rest))
      (openParen.lexeme :: (Spelling.listLexemes items ++ closeParen.lexeme :: others)) := by
  have listed := Spelling.tokens (fun item member _ _ _ tokens goesOn => each item member tokens (.of_goesOn goesOn))
    (fun item member hole => by rw [noHoles item member] at hole; cases hole)
    (tokens.mark ')' .closeParen rfl rfl) (.of_mem (by decide))
  exact listed.mark '(' .openParen rfl rfl

namespace Spells
variable {tree : Tree} {least : Nat} {text : List Char} {lexemes : List Lexeme}

/-- The text of an expression is read as its lexemes. -/
theorem tokens (spells : Spells tree least text lexemes) : ∀ {rest : List Char} {others : List Lexeme},
    Tokens rest others → Follows least text rest → Tokens (text ++ rest) (lexemes ++ others) := by
  induction spells with
  | identifier isName free =>
    intro rest others tokens follows
    have reads := isName.reads follows.stops
    rw [free] at reads
    exact .word reads tokens
  | @token _ kind _ word =>
    intro rest others tokens follows
    have keyword : kind.isKeyword = true := by
      simp only [List.mem_cons, List.not_mem_nil, or_false] at word
      rcases word with rfl | rfl | rfl | rfl <;> rfl
    exact .word (reads_keyword keyword follows.stops) tokens
  | @number _ digits _ filled each =>
    intro rest others tokens follows
    have goesOn : GoesOn rest numberStops := by
      intro c here
      rcases follows c here with stop | ⟨-, -, pointed⟩
      · exact stop
      · rw [List.all_eq_true.mpr each] at pointed
        cases pointed
    have reads := reads_digits filled each goesOn
    rw [String.ofList_toList] at reads
    exact .word reads tokens
  | string asciiOnly =>
    intro rest others tokens _
    exact .word (reads_quote _ asciiOnly rest) tokens
  | grouped _ ih =>
    intro rest others tokens _
    have close := tokens.mark ')' .closeParen rfl rfl
    have whole := (ih close (.of_mem (by decide))).mark '(' .openParen rfl rfl
    simpa using whole
  | @array _ _ items _ _ holes ih =>
    intro rest others tokens _
    have close := tokens.mark ']' .closeBracket rfl rfl
    have listed := Spelling.tokens (fun item member hole _ _ tokens goesOn =>
      ih item member hole tokens (.of_goesOn goesOn)) holes close (.of_mem (by decide))
    have whole := listed.mark '[' .openBracket rfl rfl
    simpa using whole
  | property _ _ tight pointed isName ih =>
    intro rest others tokens follows
    obtain ⟨first, more, listed, starts, -⟩ := id isName
    have noDigit : first.isDigit = false := by
      refine Bool.eq_false_iff.mpr fun digit => ?_
      rw [isIdentifierStart_of_isDigit digit] at starts
      cases starts
    have named := Tokens.word (isName.reads follows.stops) tokens
    rw [listed, List.cons_append] at named
    have point : Tokens ('.' :: first :: (more ++ rest)) _ := .word (reads_dot noDigit) named
    have whole := ih point fun c here => by
      cases here
      exact .inr ⟨rfl, tight, pointed⟩
    rw [listed]
    simpa using whole
  | element _ _ _ ih argument =>
    intro rest others tokens _
    have close := tokens.mark ']' .closeBracket rfl rfl
    have inner := (argument close (.of_mem (by decide))).mark '[' .openBracket rfl rfl
    have whole := ih inner (.of_mem (by decide))
    simpa using whole
  | call _ _ _ noHoles ih each =>
    intro rest others tokens _
    have passed := arguments_tokens noHoles each tokens
    have whole := ih passed (.of_mem (by decide))
    simpa using whole
  | construct _ _ _ _ noHoles ih each =>
    intro rest others tokens _
    have passed := arguments_tokens noHoles each tokens
    have callee := Tokens.space (ih passed (.of_mem (by decide)))
    have whole := Tokens.word (reads_keyword (show newKeyword.isKeyword = true from rfl) (.of_mem (by decide))) callee
    simpa using whole
  | @behind _ operator _ _ _ _ _ _ operates _ ih =>
    intro rest others tokens _
    have alone : operator.standsAlone = true := by rcases operates with rfl | rfl <;> rfl
    have sign : ∀ c ∈ (operator.text.toList ++ rest).head?, c ∈ numberStops := by
      rcases operates with rfl | rfl <;> exact fun c here => by cases here; decide
    have whole := ih (.word (reads_alone alone) tokens) (.of_goesOn sign)
    simpa using whole
  | before fits operates inside spaced apart ih =>
    intro rest others tokens follows
    have operand := ih tokens (.of_goesOn (follows.loose (Nat.lt_of_le_of_lt fits (by decide))))
    have whole := operand.before operates apart inside.filled
    simpa using whole
  | @binary _ operator _ _ _ _ _ own _ _ _ _ _ _ operates fits _ _ _ _ ihLeft ihRight =>
    intro rest others tokens follows
    have small : own < member := Nat.lt_of_le_of_lt (bounds_of_binaryPrecedence? operates).2 (by decide)
    have right := ihRight tokens (.of_goesOn (follows.loose (Nat.lt_of_le_of_lt fits small)))
    have spaced : operator.isSpaced = true ∨ operator.isKeyword = true := by
      cases operator <;> cases operates <;> decide
    have whole := ihLeft (right.operator spaced) (.of_mem (by decide))
    simpa using whole
  | conditional fits _ _ _ ih ihTrue ihFalse =>
    intro rest others tokens follows
    have otherwise := ihFalse tokens (.of_goesOn (follows.loose (Nat.lt_of_le_of_lt fits (by decide))))
    have colon : Tokens (' ' :: ':' :: ' ' :: _) _ := otherwise.operator (.inl rfl : colon.isSpaced = true ∨ _)
    have question : Tokens (' ' :: '?' :: ' ' :: _) _ :=
      (ihTrue colon (.of_mem (by decide))).operator (.inl rfl : question.isSpaced = true ∨ _)
    have whole := ih question (.of_mem (by decide))
    simpa using whole
  | assignment assigns fits _ _ _ ihLeft ihRight =>
    intro rest others tokens follows
    have right := ihRight tokens (.of_goesOn (follows.loose (Nat.lt_of_le_of_lt fits (by decide))))
    have spaced := right.operator (.inl (by rw [isSpaced, assigns]; rfl))
    have whole := ihLeft spaced (.of_mem (by decide))
    simpa using whole
  | sequence fits _ _ noHoles ih =>
    intro rest others tokens follows
    exact Spelling.tokens (fun item member _ _ _ tokens goesOn => ih item member tokens (.of_goesOn goesOn))
      (fun item member hole => by rw [noHoles item member] at hole; cases hole) tokens
      (follows.loose (Nat.lt_of_le_of_lt fits (by decide)))

end Spells

end Unflatten
