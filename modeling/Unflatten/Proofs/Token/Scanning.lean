import Unflatten.Proofs.Token.Places

/-! # What a scan keeps

A scan goes on from the place behind the token and collects the comments on its way
(`Lexer.ScansTo`).  A lexer on a text (`Lexer.IsOn`) stands at a token of it or at its end, and the
comments it has collected stand before the token, one behind the other.  So scanning ahead and
going back changes nothing (`Lexer.restore_scan`). -/

set_option autoImplicit false

namespace Unflatten

/-! ## Trivia and tokens -/

/-- A stretch of trivia is not empty, and if it is a comment, then all of it is. -/
theorem Cursor.leadsBeyond_triviaAt? {cursor : Cursor} {trivia : Trivia}
    (here : cursor.triviaAt? = some trivia) : cursor.LeadsBeyond trivia.after ∧
      ∀ comment ∈ trivia.comment?, comment.start = cursor.offset ∧
        comment.stop = trivia.after.offset ∧ ∃ rest, cursor.rest = '/' :: rest := by
  have bound := length_triviaAt?_lt here
  have solid : ∀ kind after lineBreak error, cursor.LeadsTo after →
      cursor.LeadsTo (Trivia.mk kind after lineBreak none error).after ∧
        ∀ comment ∈ (Trivia.mk kind after lineBreak none error).comment?,
          comment.start = cursor.offset ∧ comment.stop = after.offset ∧ ∃ rest, cursor.rest = '/' :: rest :=
    fun _ _ _ _ leads => ⟨leads, by simp⟩
  suffices leads : cursor.LeadsTo trivia.after ∧ ∀ comment ∈ trivia.comment?,
      comment.start = cursor.offset ∧ comment.stop = trivia.after.offset ∧
        ∃ rest, cursor.rest = '/' :: rest from
    ⟨⟨leads.1, bound⟩, leads.2⟩
  unfold triviaAt? at here
  split at here
  · cases here
  · rename_i body opening
    cases here
    refine ⟨leadsTo_skipWhile _ _, fun comment same => ?_⟩
    cases Option.mem_some.mp same
    exact ⟨rfl, rfl, _, opening⟩
  · rename_i body opening
    cases here
    have opened : cursor.LeadsTo ⟨body, cursor.offset + 2⟩ := ⟨['/', '*'], opening, rfl⟩
    refine ⟨opened.trans (leadsTo_skipBlockComment _ _), fun comment same => ?_⟩
    cases Option.mem_some.mp same
    exact ⟨rfl, rfl, _, opening⟩
  · split at here
    · cases here
      exact solid _ _ _ _ (leadsTo_step _)
    · split at here
      · cases here
        exact solid _ _ _ _ ((leadsTo_step _).trans (leadsTo_skipWhile _ _))
      · split at here
        · cases here
          exact solid _ _ _ _ (leadsTo_step _)
        · split at here
          · cases here
            exact solid _ _ _ _ (leadsTo_step _)
          · cases here

namespace TokenKind

/-- A kind with one spelling that is no word. -/
def isMark (kind : TokenKind) : Bool :=
  kind != .endOfFile && kind != .identifier && !kind.isKeyword

theorem isKeyword_of_keyword? {word : String} {kind : TokenKind} (found : keyword? word = some kind) :
    kind.isKeyword = true :=
  (isKeyword_iff_mem_keywords kind).mpr (List.mem_of_find?_eq_some found)

/-- A word is an identifier or a keyword, and so it is no end of a text. -/
theorem keyword?_getD_ne_endOfFile (word : String) : (keyword? word).getD .identifier ≠ .endOfFile := by
  cases found : keyword? word with
  | none => decide
  | some kind =>
    intro ended
    have keyword := isKeyword_of_keyword? found
    rw [show kind = .endOfFile from ended] at keyword
    cases keyword

theorem isMark_of_mem_punctuators :
    ∀ entry ∈ punctuators, entry.1 ≠ [] ∧ entry.2.isMark = true := by
  decide

end TokenKind

/-- What is read at a place: a token of at least one character, unless the text ends there. -/
structure ReadToken.IsAt (token : ReadToken) (cursor : Cursor) : Prop where
  ended : token.kind = .endOfFile ↔ cursor.rest = []
  leads : cursor.LeadsTo token.after
  beyond : cursor.rest ≠ [] → cursor.LeadsBeyond token.after
  /-- A word is its text, and it is a keyword if the text is one. -/
  word : token.kind.isIdentifierOrKeyword = true →
    token.value = String.ofList (cursor.textTo token.after) ∧
      token.kind = (TokenKind.keyword? token.value).getD .identifier

theorem ReadToken.isAt_of_isMark {token : ReadToken} {cursor : Cursor} {c : Char} {rest : List Char}
    (here : cursor.rest = c :: rest) (mark : token.kind.isMark = true)
    (beyond : cursor.LeadsBeyond token.after) : token.IsAt cursor := by
  obtain ⟨kind, after, value, error⟩ := token
  simp only [TokenKind.isMark, Bool.and_eq_true, bne_iff_ne, Bool.not_eq_true'] at mark
  obtain ⟨⟨more, noName⟩, noKeyword⟩ := mark
  refine ⟨⟨fun ended => absurd ended more, fun ended => ?_⟩, beyond.leads, fun _ => beyond,
    fun word => ?_⟩
  · rw [here] at ended
    cases ended
  · simp [TokenKind.isIdentifierOrKeyword, noName, noKeyword] at word

theorem Cursor.tokenAt_isAt (cursor : Cursor) : cursor.tokenAt.IsAt cursor := by
  unfold tokenAt
  split
  · rename_i ended
    exact ⟨⟨fun _ => ended, fun _ => rfl⟩, .refl _, fun some => absurd ended some,
      fun word => nomatch word⟩
  · rename_i c rest here
    split
    · exact ReadToken.isAt_of_isMark here rfl
        ((leadsBeyond_step here).thenTo (leadsTo_readString _ _ _))
    · split
      · rename_i opens
        exact ReadToken.isAt_of_isMark here rfl (leadsBeyond_skipNumber here opens)
      · split
        · rename_i text kind found
          obtain ⟨filled, mark⟩ :=
            TokenKind.isMark_of_mem_punctuators _ (List.mem_of_find?_eq_some found)
          obtain ⟨first, others, rfl⟩ := List.exists_cons_of_ne_nil filled
          exact ReadToken.isAt_of_isMark here mark
            ((leadsBeyond_step here).thenTo (leadsTo_advance _ _))
        · split
          · rename_i starts
            have part : isIdentifierPart c = true := by rw [isIdentifierPart, starts, Bool.true_or]
            have beyond := leadsBeyond_skipWhile here part
            refine ⟨⟨fun ended => ?_, fun ended => ?_⟩, beyond.leads, fun _ => beyond,
              fun _ => ⟨rfl, rfl⟩⟩
            · exact absurd ended (TokenKind.keyword?_getD_ne_endOfFile _)
            · rw [here] at ended
              cases ended
          · exact ReadToken.isAt_of_isMark here rfl (leadsBeyond_step here)

namespace Lexer

/-! ## One scan -/

/-- A lexer goes on to a later place and collects the comments on the way. -/
structure ScansTo (lexer later : Lexer) : Prop where
  keepTrivia : later.keepTrivia = lexer.keepTrivia
  leads : lexer.cursor.LeadsTo later.start
  comments : ∃ found : Array CommentRange, later.comments = lexer.comments ++ found ∧
    ∀ comment ∈ found, lexer.cursor.offset ≤ comment.start
  errors : ∃ found, later.errors = lexer.errors ++ found

theorem scansTo_settle (lexer : Lexer) : lexer.ScansTo lexer.settle := by
  have passed : ∀ {lexer later : Lexer} {trivia : Trivia}, lexer.cursor.triviaAt? = some trivia →
      (lexer.pass trivia).ScansTo later → lexer.ScansTo later := by
    intro lexer later trivia here scans
    obtain ⟨beyond, comment⟩ := Cursor.leadsBeyond_triviaAt? here
    obtain ⟨found, comments, behind⟩ := scans.comments
    obtain ⟨causes, errors⟩ := scans.errors
    refine ⟨scans.keepTrivia, beyond.leads.trans scans.leads,
      ⟨trivia.comment?.toArray ++ found, ?_, fun range member => ?_⟩,
      ⟨trivia.error?.toArray ++ causes, ?_⟩⟩
    · rw [comments, pass, Array.append_assoc]
    · rcases Array.mem_append.mp member with first | later
      · exact Nat.le_of_eq (comment range (Option.mem_toArray.mp first)).1.symm
      · exact Nat.le_trans beyond.leads.offset_le (behind range later)
    · rw [errors, pass, Array.append_assoc]
  fun_induction settle lexer with
  | case1 lexer here =>
    exact ⟨rfl, .refl _, ⟨#[], rfl, by simp⟩, ⟨_, rfl⟩⟩
  | case2 lexer trivia here kind found keeps =>
    obtain ⟨beyond, comment⟩ := Cursor.leadsBeyond_triviaAt? here
    refine ⟨rfl, .refl _, ⟨_, rfl, fun range member => ?_⟩, ⟨_, rfl⟩⟩
    exact Nat.le_of_eq (comment range (Option.mem_toArray.mp member)).1.symm
  | case3 lexer trivia here kind found skips ih => exact passed here ih
  | case4 lexer trivia here found ih => exact passed here ih

theorem scansTo_scan (lexer : Lexer) : lexer.ScansTo lexer.scan := by
  obtain ⟨keepTrivia, leads, comments, errors⟩ := scansTo_settle
    { lexer with fullStart := lexer.cursor.offset, lineBreakBefore := false, value := "" }
  exact ⟨keepTrivia, leads, comments, errors⟩

/-- Scanning ahead and going back changes nothing. -/
theorem restore_scan (lexer : Lexer) : lexer.scan.restore lexer.save = lexer := by
  obtain ⟨keepTrivia, -, ⟨found, comments, -⟩, ⟨causes, errors⟩⟩ := lexer.scansTo_scan
  obtain ⟨keeps, fullStart, start, cursor, kind, value, lineBreak, ranges, reported⟩ := lexer
  simp only at keepTrivia comments errors
  simp [restore, save, keepTrivia, comments, errors]

/-! ## On a text -/

/-- Comments of a text that stand one behind the other, up to an offset. -/
structure AreOrdered (text : List Char) (comments : Array CommentRange) (limit : Nat) : Prop where
  order : comments.toList.Pairwise fun first second => first.stop ≤ second.start
  filled : ∀ comment ∈ comments, comment.start < comment.stop
  before : ∀ comment ∈ comments, comment.stop ≤ limit
  slash : ∀ comment ∈ comments, ∃ rest, Text.dropBytes comment.start text = '/' :: rest

/-- A lexer that can scan on: the comments it has collected stand before its place. -/
structure IsReady (text : List Char) (lexer : Lexer) : Prop where
  skips : lexer.keepTrivia = false
  cursor : lexer.cursor.IsIn text
  comments : AreOrdered text lexer.comments lexer.cursor.offset

/-- A lexer at a token of a text, or at its end. -/
structure IsOn (text : List Char) (lexer : Lexer) : Prop where
  skips : lexer.keepTrivia = false
  start : lexer.start.IsIn text
  comments : AreOrdered text lexer.comments lexer.start.offset
  ended : lexer.kind = .endOfFile ↔ lexer.start.rest = []
  leads : lexer.start.LeadsTo lexer.cursor
  beyond : lexer.kind ≠ .endOfFile → lexer.start.LeadsBeyond lexer.cursor
  word : lexer.kind.isIdentifierOrKeyword = true →
    lexer.value = String.ofList (lexer.start.textTo lexer.cursor) ∧
      lexer.kind = (TokenKind.keyword? lexer.value).getD .identifier

section Text
variable {text : List Char} {lexer : Lexer} {limit later : Nat} {comments : Array CommentRange}

theorem AreOrdered.mono (ordered : AreOrdered text comments limit) (le : limit ≤ later) :
    AreOrdered text comments later :=
  ⟨ordered.order, ordered.filled, fun comment member => Nat.le_trans (ordered.before comment member) le,
    ordered.slash⟩

theorem AreOrdered.push (ordered : AreOrdered text comments limit) {comment : CommentRange}
    (behind : limit ≤ comment.start) (filled : comment.start < comment.stop)
    (slash : ∃ rest, Text.dropBytes comment.start text = '/' :: rest) :
    AreOrdered text (comments ++ #[comment]) comment.stop := by
  have cases : ∀ other ∈ comments ++ #[comment], other ∈ comments ∨ other = comment :=
    fun other member => (Array.mem_append.mp member).imp_right Array.mem_singleton.mp
  refine ⟨?_, fun other member => ?_, fun other member => ?_, fun other member => ?_⟩
  · rw [Array.toList_append, List.pairwise_append]
    refine ⟨ordered.order, List.pairwise_singleton _ _, fun first member second last => ?_⟩
    rw [List.mem_singleton.mp last]
    exact Nat.le_trans (ordered.before first (Array.mem_toList_iff.mp member)) behind
  · rcases cases other member with old | rfl
    · exact ordered.filled other old
    · exact filled
  · rcases cases other member with old | rfl
    · have before := ordered.before other old
      omega
    · exact Nat.le_refl _
  · rcases cases other member with old | rfl
    · exact ordered.slash other old
    · exact slash

theorem IsReady.pass (ready : IsReady text lexer) {trivia : Trivia}
    (here : lexer.cursor.triviaAt? = some trivia) : IsReady text (lexer.pass trivia) := by
  obtain ⟨beyond, comment⟩ := Cursor.leadsBeyond_triviaAt? here
  refine ⟨ready.skips, ready.cursor.then beyond.leads, ?_⟩
  change AreOrdered text (lexer.comments ++ trivia.comment?.toArray) trivia.after.offset
  cases found : trivia.comment? with
  | none =>
    simpa using ready.comments.mono beyond.leads.offset_le
  | some range =>
    obtain ⟨start, stop, rest, here⟩ := comment range found
    rw [← stop]
    refine ready.comments.push (Nat.le_of_eq start.symm) (by rw [start, stop]; exact beyond.offset_lt) ⟨rest, ?_⟩
    rw [start, ← ready.cursor.rest_eq, here]

theorem IsReady.settle (ready : IsReady text lexer) : IsOn text lexer.settle := by
  fun_induction Lexer.settle lexer with
  | case1 lexer here =>
    obtain ⟨ended, leads, beyond, word⟩ := lexer.cursor.tokenAt_isAt
    exact ⟨ready.skips, ready.cursor, ready.comments, ended, leads,
      fun more => beyond fun bare => more (ended.mpr bare), word⟩
  | case2 lexer trivia here kind found keeps =>
    rw [ready.skips] at keeps
    cases keeps
  | case3 lexer trivia here kind found skips ih => exact ih (ready.pass here)
  | case4 lexer trivia here found ih => exact ih (ready.pass here)

theorem IsReady.scan (ready : IsReady text lexer) : IsOn text lexer.scan := by
  have started : IsReady text
      { lexer with fullStart := lexer.cursor.offset, lineBreakBefore := false, value := "" } :=
    ⟨ready.skips, ready.cursor, ready.comments⟩
  exact started.settle

theorem isReady_ofText (text : List Char) : IsReady text (ofText text false) :=
  ⟨rfl, .refl _, ⟨.nil, by simp [ofText], by simp [ofText], by simp [ofText]⟩⟩

theorem IsOn.isReady (on : IsOn text lexer) : IsReady text lexer :=
  ⟨on.skips, on.start.then on.leads, on.comments.mono on.leads.offset_le⟩

theorem IsOn.scan (on : IsOn text lexer) : IsOn text lexer.scan := on.isReady.scan

theorem IsOn.cursorIsIn (on : IsOn text lexer) : lexer.cursor.IsIn text := on.start.then on.leads

/-- Behind a token a scan comes to a later place. -/
theorem IsOn.scan_beyond (on : IsOn text lexer) (more : lexer.kind ≠ .endOfFile) :
    lexer.start.LeadsBeyond lexer.scan.start :=
  (on.beyond more).thenTo lexer.scansTo_scan.leads

theorem IsOn.scan_leads (on : IsOn text lexer) : lexer.start.LeadsTo lexer.scan.start :=
  on.leads.trans lexer.scansTo_scan.leads

/-- At the end a scan stays at the end. -/
theorem IsOn.scan_ended (on : IsOn text lexer) (ended : lexer.kind = .endOfFile) :
    lexer.scan.start = lexer.start ∧ lexer.scan.kind = .endOfFile := by
  have bare := on.ended.mp ended
  obtain ⟨front, rest, offset⟩ := on.scan_leads
  rw [bare] at rest
  obtain ⟨rfl, last⟩ := List.append_eq_nil_iff.mp rest.symm
  have same : lexer.scan.start = lexer.start := by
    have parts : lexer.scan.start = ⟨[], lexer.start.offset⟩ := by
      rw [← last, ← Nat.add_zero lexer.start.offset]
      exact congrArg (Cursor.mk _) offset
    rw [parts, ← bare]
  exact ⟨same, on.scan.ended.mpr (same ▸ bare)⟩

/-! ## Regular expressions -/

/-- A slash that is read anew starts where it was and ends behind its first character. -/
theorem IsOn.rescanSlash (on : IsOn text lexer) (slash : lexer.kind = .slash ∨ lexer.kind = .slashEquals) :
    IsOn text lexer.rescanSlash ∧ lexer.rescanSlash.start = lexer.start ∧
      lexer.rescanSlash.kind = .regularExpressionLiteral ∧
      lexer.rescanSlash.comments = lexer.comments := by
  have more : lexer.kind ≠ .endOfFile := by rcases slash with same | same <;> rw [same] <;> decide
  obtain ⟨c, rest, here⟩ := List.exists_cons_of_ne_nil fun bare => more (on.ended.mpr bare)
  have beyond := (Cursor.leadsBeyond_step here).thenTo ((Cursor.leadsTo_readPattern false
    lexer.start.step.rest lexer.start.step.offset).trans (Cursor.leadsTo_skipWhile _ isIdentifierPart))
  rw [Lexer.rescanSlash, if_pos slash]
  refine ⟨⟨on.skips, on.start, on.comments, ⟨(nomatch ·), fun bare => ?_⟩,
    beyond.leads, fun _ => beyond, (nomatch ·)⟩, rfl, rfl, rfl⟩
  exact absurd (on.ended.mpr bare) more

end Text

end Lexer

end Unflatten

/-! ## The tokens of a text

A `Token` is a kind with a stretch of the source and a value.  `Lexer.tokens` lists those that
scanning finds to the end of the text.  The parser goes through the same tokens, but may read a
slash as a regular expression (`Lexer.Passes`); as long as it does not, it passes the tokens that
scanning finds (`Lexer.Passes.words_eq`). -/

namespace Unflatten

/-- A token where it stands. -/
structure Token where
  kind : TokenKind
  start : Nat
  stop : Nat
  value : String
  deriving DecidableEq, Repr

namespace TokenKind

/-- A name, a number or a string. -/
def isWord : TokenKind → Bool
  | .identifier | .numericLiteral | .stringLiteral => true
  | _ => false

/-- A token with a node of its own in the tree, besides keywords. -/
def isShown (kind : TokenKind) : Bool := kind.isWord || kind == .regularExpressionLiteral

end TokenKind

namespace Lexer

/-- The token the lexer stands at. -/
def token (lexer : Lexer) : Token :=
  ⟨lexer.kind, lexer.start.offset, lexer.cursor.offset, lexer.value⟩

/-- At every token but the last a scan leaves less text. -/
theorem length_settle_lt (lexer : Lexer) (more : lexer.settle.kind ≠ .endOfFile) :
    lexer.settle.cursor.length < lexer.cursor.length := by
  fun_induction settle lexer with
  | case1 lexer here =>
    exact (lexer.cursor.tokenAt_isAt.beyond fun bare => more (lexer.cursor.tokenAt_isAt.ended.mpr bare)).less
  | case2 lexer trivia here kind found keeps => exact Cursor.length_triviaAt?_lt here
  | case3 lexer trivia here kind found skips ih =>
    exact Nat.lt_trans (ih more) (Cursor.length_triviaAt?_lt here)
  | case4 lexer trivia here found ih => exact Nat.lt_trans (ih more) (Cursor.length_triviaAt?_lt here)

theorem length_scan_lt (lexer : Lexer) (more : lexer.scan.kind ≠ .endOfFile) :
    lexer.scan.cursor.length < lexer.cursor.length :=
  length_settle_lt { lexer with fullStart := lexer.cursor.offset, lineBreakBefore := false, value := "" }
    more

/-- The tokens behind the present one, up to the end of the text. -/
def tokens (lexer : Lexer) : List Token :=
  if lexer.scan.kind = .endOfFile then [] else lexer.scan.token :: lexer.scan.tokens
  termination_by lexer.cursor.length
  decreasing_by exact lexer.length_scan_lt ‹_›

/-- The way from a token to a later one, with the tokens passed on it. -/
inductive Passes (first : Lexer) : List Token → Lexer → Prop
  | stay : Passes first [] first
  | scan {tokens : List Token} {lexer : Lexer} (passes : Passes first tokens lexer) :
      Passes first (tokens ++ [lexer.token]) lexer.scan
  /-- A slash is read as a regular expression. -/
  | rescan {tokens : List Token} {lexer : Lexer} (passes : Passes first tokens lexer)
      (slash : lexer.kind = .slash ∨ lexer.kind = .slashEquals) :
      Passes first (tokens ++ [lexer.rescanSlash.token]) lexer.rescanSlash.scan

section Passes
variable {first middle lexer : Lexer} {passed others : List Token} {text : List Char}

theorem Passes.trans (one : first.Passes passed middle) (two : middle.Passes others lexer) :
    first.Passes (passed ++ others) lexer := by
  induction two with
  | stay => rwa [List.append_nil]
  | scan _ ih =>
    rw [← List.append_assoc]
    exact ih.scan
  | rescan _ slash ih =>
    rw [← List.append_assoc]
    exact ih.rescan slash

theorem Passes.isOn (passes : first.Passes passed lexer) (on : IsOn text first) : IsOn text lexer := by
  induction passes with
  | stay => exact on
  | scan _ ih => exact ih.scan
  | rescan _ slash ih => exact (ih.rescanSlash slash).1.scan

/-- The names, numbers and strings from the present token on. -/
def words (lexer : Lexer) : List Token :=
  (if lexer.kind = .endOfFile then [] else lexer.token :: lexer.tokens).filter (·.kind.isWord)

/-- A scan leaves the present token behind. -/
theorem IsOn.words_scan (on : IsOn text lexer) :
    lexer.words = [lexer.token].filter (·.kind.isWord) ++ lexer.scan.words := by
  unfold words
  by_cases ended : lexer.kind = .endOfFile
  · rw [if_pos ended, if_pos (on.scan_ended ended).2, List.filter_singleton]
    simp [token, ended, TokenKind.isWord]
  · rw [if_neg ended, tokens, ← List.filter_append]
    split <;> rfl

/-- Without regular expressions the names, numbers and strings on the way are those that scanning
finds. -/
theorem Passes.words_eq (passes : first.Passes passed lexer) (on : IsOn text first)
    (plain : ∀ token ∈ passed, token.kind ≠ .regularExpressionLiteral) :
    first.words = passed.filter (·.kind.isWord) ++ lexer.words := by
  induction passes with
  | stay => rfl
  | scan passes ih =>
    rw [List.filter_append, List.append_assoc, ← (passes.isOn on).words_scan]
    exact ih fun token member => plain token (List.mem_append_left _ member)
  | rescan passes slash ih =>
    have kind := ((passes.isOn on).rescanSlash slash).2.2.1
    exact absurd kind (plain _ (List.mem_append_right _ (List.mem_singleton_self _)))

end Passes

end Lexer

end Unflatten
