import Unflatten.Proofs.Token.Places

/-! # Tokens one after the other

A `Lexeme` is what the parser sees of a token: its kind and its value.  `Lexeme.Reads` says that
a word in front of a text is read as a lexeme, whatever the place is, and `Tokens` that a text is
a row of such words with spaces between them.  A lexer before a text feeds its lexemes to whoever
scans on (`Tokens.feeds`). -/

set_option autoImplicit false

namespace Unflatten

/-- What the parser sees of a token. -/
structure Lexeme where
  kind : TokenKind
  value : String

/-- A punctuator or keyword. -/
def TokenKind.lexeme (kind : TokenKind) : Lexeme := ⟨kind, if kind.isKeyword then kind.text else ""⟩

/-- In front of a text a word is read as a lexeme, and no more than the word. -/
structure Lexeme.Reads (lexeme : Lexeme) (word rest : List Char) : Prop where
  filled : word ≠ []
  bare : ∀ offset, (Cursor.mk (word ++ rest) offset).triviaAt? = none
  read : ∀ offset, ∃ after, after.rest = rest ∧
    (Cursor.mk (word ++ rest) offset).tokenAt = ⟨lexeme.kind, after, lexeme.value, none⟩

/-- A line of words, with the lexemes they are read as. -/
inductive Tokens : List Char → List Lexeme → Prop
  | finish : Tokens ['\n'] []
  | space {text : List Char} {lexemes : List Lexeme} (tokens : Tokens text lexemes) :
      Tokens (' ' :: text) lexemes
  | word {word text : List Char} {lexeme : Lexeme} {lexemes : List Lexeme}
      (reads : lexeme.Reads word text) (tokens : Tokens text lexemes) :
      Tokens (word ++ text) (lexeme :: lexemes)

/-- Nothing has been collected. -/
structure Lexer.IsFresh (lexer : Lexer) : Prop where
  keepTrivia : lexer.keepTrivia = false
  comments : lexer.comments = #[]
  errors : lexer.errors = #[]

/-- The lexer stands at the first of some lexemes and reaches the others one by one; behind them
the text ends. -/
def Lexer.Feeds (lexer : Lexer) : List Lexeme → Prop
  | [] => lexer.IsFresh ∧ lexer.kind = .endOfFile
  | first :: rest => lexer.IsFresh ∧ lexer.kind = first.kind ∧ lexer.value = first.value ∧
      lexer.lineBreakBefore = false ∧ lexer.scan.Feeds rest

theorem Lexer.Feeds.isFresh {lexer : Lexer} {lexemes : List Lexeme} (feeds : lexer.Feeds lexemes) :
    lexer.IsFresh := by
  cases lexemes with
  | nil => exact feeds.1
  | cons => exact feeds.1

/-! ## Cursors -/

namespace Cursor
variable {inClass : Char → Bool} {word rest : List Char}

theorem rest_skipWhile (cursor : Cursor) (inClass : Char → Bool) :
    (cursor.skipWhile inClass).rest = cursor.rest.dropWhile inClass := by
  have all : ∀ (text : List Char) (offset : Nat),
      (skipWhile.go inClass text offset).rest = text.dropWhile inClass := by
    intro text
    induction text with
    | nil => exact fun _ => rfl
    | cons c text ih =>
      intro offset
      rw [skipWhile.go, List.dropWhile_cons]
      split
      · exact ih _
      · rfl
  exact all _ _

/-- A word of a class is skipped, if what follows is not of the class. -/
theorem skipWhile_append (each : ∀ c ∈ word, inClass c = true)
    (stops : ∀ c ∈ rest.head?, inClass c = false) (offset : Nat) :
    (Cursor.mk (word ++ rest) offset).skipWhile inClass = ⟨rest, offset + Text.byteCount word⟩ := by
  have all : ∀ offset, skipWhile.go inClass (word ++ rest) offset = ⟨rest, offset + Text.byteCount word⟩ := by
    induction word with
    | nil =>
      intro offset
      cases rest with
      | nil => rfl
      | cons c rest =>
        rw [List.nil_append, skipWhile.go, stops c rfl]
        rfl
    | cons c word ih =>
      intro offset
      obtain ⟨here, later⟩ := List.forall_mem_cons.mp each
      rw [List.cons_append, skipWhile.go, if_pos here, ih later, Text.byteCount_cons, Nat.add_assoc]
  exact all offset

/-- The text of a word that is skipped. -/
theorem textTo_append (word rest : List Char) (offset : Nat) :
    (Cursor.mk (word ++ rest) offset).textTo ⟨rest, offset + Text.byteCount word⟩ = word := by
  rw [textTo, Nat.add_sub_cancel_left, Text.takeBytes_append]

end Cursor

/-! ## Scanning -/

theorem isAsciiBlank_of_bare {c : Char} {rest : List Char} {offset : Nat}
    (bare : (Cursor.mk (c :: rest) offset).triviaAt? = none) : isAsciiBlank c = false := by
  by_contra blank
  simp only [isAsciiBlank, Bool.not_eq_false, Bool.or_eq_true, beq_iff_eq] at blank
  rcases blank with ((rfl | rfl) | rfl) | rfl <;> cases bare

/-- No word starts with a space. -/
theorem Lexeme.Reads.dropWhile_eq {lexeme : Lexeme} {word rest : List Char}
    (reads : lexeme.Reads word rest) : (word ++ rest).dropWhile isAsciiBlank = word ++ rest := by
  obtain ⟨c, word, rfl⟩ := List.exists_cons_of_ne_nil reads.filled
  have solid := isAsciiBlank_of_bare (reads.bare 0)
  exact List.dropWhile_cons_of_neg (by rw [solid]; exact Bool.false_ne_true)

namespace Lexer
variable {lexer : Lexer} {trivia : Trivia}

theorem settle_of_none (bare : lexer.cursor.triviaAt? = none) : lexer.settle = lexer.read := by
  rw [settle]
  split
  · rfl
  · rename_i found
    rw [bare] at found
    cases found

theorem settle_of_some (skips : lexer.keepTrivia = false)
    (here : lexer.cursor.triviaAt? = some trivia) : lexer.settle = (lexer.pass trivia).settle := by
  rw [settle]
  split
  · rename_i missing
    rw [here] at missing
    cases missing
  · rename_i other found
    obtain rfl : other = trivia := Option.some.inj (found.symm.trans here)
    simp only [skips, Bool.false_eq_true, if_false]
    split <;> rfl

end Lexer

namespace Tokens
variable {text : List Char} {lexemes : List Lexeme}

/-- There are no more lexemes than characters. -/
theorem length_le (tokens : Tokens text lexemes) : lexemes.length ≤ text.length := by
  induction tokens with
  | finish => exact Nat.zero_le 1
  | space _ ih => exact Nat.le_succ_of_le ih
  | word reads _ ih =>
    have filled := List.length_pos_iff.mpr reads.filled
    rw [List.length_append, List.length_cons]
    omega

end Tokens

namespace Lexer
variable {lexer : Lexer}

/-- The spaces in front of a token are passed. -/
theorem exists_settle_eq (clean : lexer.IsFresh) :
    ∃ reader : Lexer, reader.IsFresh ∧ reader.lineBreakBefore = lexer.lineBreakBefore ∧
      reader.cursor.rest = lexer.cursor.rest.dropWhile isAsciiBlank ∧ lexer.settle = reader.settle := by
  cases here : lexer.cursor.rest with
  | nil => exact ⟨lexer, clean, rfl, here, rfl⟩
  | cons c rest =>
    by_cases blank : isAsciiBlank c = true
    · have spaces : lexer.cursor.triviaAt? =
          some ⟨some .whitespace, lexer.cursor.step.skipWhile isAsciiBlank, false, none, none⟩ := by
        simp only [isAsciiBlank, Bool.or_eq_true, beq_iff_eq] at blank
        unfold Cursor.triviaAt?
        rw [here]
        rcases blank with ((rfl | rfl) | rfl) | rfl <;> rfl
      have passed := settle_of_some clean.keepTrivia spaces
      refine ⟨_, ?_, ?_, ?_, passed⟩
      · exact ⟨clean.keepTrivia, congrArg (· ++ #[]) clean.comments, congrArg (· ++ #[]) clean.errors⟩
      · exact Bool.or_false _
      · rw [List.dropWhile_cons_of_pos blank]
        refine (Cursor.rest_skipWhile _ _).trans ?_
        rw [Cursor.step, here]
    · exact ⟨lexer, clean, rfl, by rw [List.dropWhile_cons_of_neg blank, here], rfl⟩

end Lexer

namespace Tokens
variable {text : List Char} {lexemes : List Lexeme}

theorem settle_feeds (tokens : Tokens text lexemes) : ∀ lexer : Lexer, lexer.IsFresh →
    lexer.lineBreakBefore = false → lexer.cursor.rest = text.dropWhile isAsciiBlank →
    lexer.settle.Feeds lexemes := by
  induction tokens with
  | finish =>
    intro lexer clean _ here
    have newLine : lexer.cursor.triviaAt? =
        some ⟨some .newLine, lexer.cursor.step, true, none, none⟩ := by
      unfold Cursor.triviaAt?
      rw [here]
      rfl
    have ended : lexer.cursor.step.rest = [] := by
      rw [Cursor.step, here]
      rfl
    have bare : lexer.cursor.step.triviaAt? = none := by
      unfold Cursor.triviaAt?
      rw [ended]
    rw [Lexer.settle_of_some clean.keepTrivia newLine, Lexer.settle_of_none bare]
    have last : lexer.cursor.step.tokenAt = ⟨.endOfFile, lexer.cursor.step, "", none⟩ := by
      unfold Cursor.tokenAt
      rw [ended]
    refine ⟨⟨clean.keepTrivia, ?_, ?_⟩, congrArg ReadToken.kind last⟩
    · exact congrArg (· ++ #[]) clean.comments
    · change lexer.errors ++ #[] ++ lexer.cursor.step.tokenAt.error?.toArray = #[]
      rw [last, clean.errors]
      rfl
  | space _ ih => exact ih
  | @word word text lexeme lexemes reads tokens ih =>
    intro lexer clean unbroken here
    rw [reads.dropWhile_eq] at here
    have place : lexer.cursor = ⟨word ++ text, lexer.cursor.offset⟩ := by rw [← here]
    obtain ⟨after, behind, token⟩ := reads.read lexer.cursor.offset
    rw [← place] at token
    have clean' : lexer.read.IsFresh := by
      refine ⟨clean.keepTrivia, clean.comments, ?_⟩
      change lexer.errors ++ lexer.cursor.tokenAt.error?.toArray = #[]
      rw [token, clean.errors]
      rfl
    have started : ({ lexer.read with
        fullStart := lexer.read.cursor.offset, lineBreakBefore := false, value := "" } : Lexer).IsFresh :=
      ⟨clean'.keepTrivia, clean'.comments, clean'.errors⟩
    obtain ⟨reader, clean'', unbroken', solid, same⟩ := Lexer.exists_settle_eq started
    have next : lexer.read.cursor.rest = text := (congrArg (·.after.rest) token).trans behind
    rw [Lexer.settle_of_none (place ▸ reads.bare _)]
    refine ⟨clean', congrArg ReadToken.kind token, congrArg ReadToken.value token, unbroken, ?_⟩
    rw [Lexer.scan, same]
    exact ih reader clean'' unbroken' (solid.trans (congrArg _ next))

/-- A lexer before a text feeds its lexemes. -/
theorem feeds {lexer : Lexer} (tokens : Tokens text lexemes) (clean : lexer.IsFresh)
    (here : lexer.cursor.rest = text) : lexer.scan.Feeds lexemes := by
  have started : ({ lexer with
      fullStart := lexer.cursor.offset, lineBreakBefore := false, value := "" } : Lexer).IsFresh :=
    ⟨clean.keepTrivia, clean.comments, clean.errors⟩
  obtain ⟨reader, clean', unbroken, solid, same⟩ := Lexer.exists_settle_eq started
  rw [Lexer.scan, same]
  exact tokens.settle_feeds reader clean' unbroken (here ▸ solid)

end Tokens

end Unflatten
