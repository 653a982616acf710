import Unflatten.Proofs.Token.Trivia

/-! # The tokens cover the text

Between two scans a slash may be read anew (`Lexer.Move`).  Whatever the moves were, the next scan
starts where the last token ended, passes over blanks and comments only (`Lexer.IsGap`) and reads
at least one character, unless the text ends there.  So the end of a text is reached after at most
one scan more than it has bytes. -/

set_option autoImplicit false

namespace Unflatten

/-- A word is no mark. -/
theorem TokenKind.isMark_keyword?_getD (word : String) :
    ((keyword? word).getD .identifier).isMark = false := by
  cases found : keyword? word with
  | none => rfl
  | some kind => rw [Option.getD_some, isMark, isKeyword_of_keyword? found, Bool.not_true, Bool.and_false]

/-- A slash is read as `/` or as `/=`. -/
theorem Cursor.tokenAt_slash {cursor : Cursor} {token : ReadToken} (read : cursor.tokenAt = token)
    (slash : token.kind = .slash ∨ token.kind = .slashEquals) :
    ∃ mark, (mark = ['/'] ∨ mark = ['/', '=']) ∧ mark <+: cursor.rest ∧
      token.after = cursor.advance mark.length := by
  have marks : ∀ entry ∈ punctuators, entry.2 = .slash ∨ entry.2 = .slashEquals →
      entry.1 = ['/'] ∨ entry.1 = ['/', '='] := by decide
  have mark : token.kind.isMark = true ∧ token.kind ≠ .stringLiteral ∧ token.kind ≠ .numericLiteral ∧
      token.kind ≠ .unknown := by
    rcases slash with same | same <;> rw [same] <;> decide
  obtain ⟨mark, noString, noNumber, known⟩ := mark
  unfold tokenAt at read
  split at read
  · subst read
    cases mark
  · split at read
    · subst read
      exact absurd rfl noString
    · split at read
      · subst read
        exact absurd rfl noNumber
      · split at read
        · rename_i text kind found
          subst read
          have starts := List.find?_some found
          exact ⟨text, marks _ (List.mem_of_find?_eq_some found) slash,
            List.isPrefixOf_iff_prefix.mp starts, rfl⟩
        · split at read
          · subst read
            rw [TokenKind.isMark_keyword?_getD] at mark
            cases mark
          · subst read
            exact absurd rfl known

namespace Lexer

/-- What a scan passes over in front of a token: blanks and comments, or only spacing beyond ASCII
if the lexer keeps trivia. -/
def IsGap : (keepTrivia : Bool) → (gap rest : List Char) → Prop
  | false, gap, rest => IsTrivia gap rest
  | true, gap, _ => ∀ c ∈ gap, isFarSpacing c = true

/-- A lexer comes to the next token of its text. -/
structure Settles (lexer settled : Lexer) : Prop where
  fullStart : settled.fullStart = lexer.fullStart
  gap : ∃ gap, lexer.cursor.rest = gap ++ settled.start.rest ∧
    settled.start.offset = lexer.cursor.offset + Text.byteCount gap ∧
    IsGap lexer.keepTrivia gap settled.start.rest
  ended : settled.kind = .endOfFile → settled.start.rest = []
  leads : settled.start.LeadsTo settled.cursor
  beyond : settled.kind ≠ .endOfFile → settled.start.LeadsBeyond settled.cursor
  slash : settled.kind = .slash ∨ settled.kind = .slashEquals →
    settled.cursor.LeadsTo settled.rescanSlash.cursor

section Settling
variable {lexer : Lexer} {trivia : Trivia}

/-- A slash that is read anew ends no earlier. -/
theorem leadsTo_rescanSlash {mark : List Char} (isMark : mark = ['/'] ∨ mark = ['/', '='])
    (here : mark <+: lexer.start.rest) (after : lexer.cursor = lexer.start.advance mark.length)
    (slash : lexer.kind = .slash ∨ lexer.kind = .slashEquals) :
    lexer.cursor.LeadsTo lexer.rescanSlash.cursor := by
  rw [rescanSlash, if_pos slash]
  refine .trans ?_ (Cursor.leadsTo_skipWhile _ isIdentifierPart)
  rw [after]
  obtain ⟨text, here⟩ := here
  rcases isMark with rfl | rfl
  · exact Cursor.leadsTo_readPattern false _ _
  · have equals : lexer.start.step.rest = '=' :: text := by
      rw [Cursor.step, ← here]
      rfl
    have behind : lexer.start.step.step = ⟨text, lexer.start.step.offset + 1⟩ := by
      rw [Cursor.step, equals]
      rfl
    change lexer.start.step.step.LeadsTo _
    rw [equals, behind]
    exact Cursor.leadsTo_readPattern false text _

theorem settles_read (lexer : Lexer) : lexer.Settles lexer.read := by
  obtain ⟨ended, leads, beyond, -⟩ := lexer.cursor.tokenAt_isAt
  refine ⟨rfl, ⟨[], rfl, rfl, ?_⟩, ended.mp, leads, fun more => beyond fun bare => more (ended.mpr bare),
    fun slash => ?_⟩
  · cases lexer.keepTrivia with
    | false => exact .done
    | true => exact fun _ => (nomatch ·)
  · obtain ⟨mark, isMark, here, after⟩ := Cursor.tokenAt_slash rfl slash
    exact leadsTo_rescanSlash isMark here after slash

/-- Trivia that the lexer passes over lengthens the gap in front of the token. -/
theorem IsGap.pass {keepTrivia : Bool} {gap rest : List Char} (isGap : IsGap keepTrivia gap rest)
    (here : lexer.cursor.triviaAt? = some trivia) (behind : trivia.after.rest = gap ++ rest)
    (skipped : keepTrivia = true → trivia.kind? = none) :
    IsGap keepTrivia (lexer.cursor.textTo trivia.after ++ gap) rest := by
  have whole := (Cursor.leadsBeyond_triviaAt? here).1.leads.rest_eq
  cases keepTrivia with
  | false =>
    obtain ⟨front, split, isTrivia⟩ := IsTrivia.pass here behind isGap
    rwa [← List.append_cancel_right (split.symm.trans whole)]
  | true =>
    have spaces : ∀ c ∈ lexer.cursor.textTo trivia.after, isFarSpacing c = true := by
      rcases Cursor.triviaAt?_cases here with ⟨_, -, -, kind⟩ | ⟨_, -, -, kind⟩ | ⟨blanks, split, -, far⟩
      · rw [skipped rfl] at kind
        cases kind
      · rw [skipped rfl] at kind
        cases kind
      · rw [← List.append_cancel_right (split.symm.trans whole)]
        exact far (skipped rfl)
    exact List.forall_mem_append.mpr ⟨spaces, isGap⟩

theorem Settles.pass {settled : Lexer} (here : lexer.cursor.triviaAt? = some trivia)
    (skipped : lexer.keepTrivia = true → trivia.kind? = none)
    (settles : (lexer.pass trivia).Settles settled) : lexer.Settles settled := by
  obtain ⟨fullStart, ⟨gap, rest, offset, isGap⟩, ended, leads, beyond, slash⟩ := settles
  have passed := (Cursor.leadsBeyond_triviaAt? here).1.leads
  have split := passed.rest_eq
  refine ⟨fullStart, ⟨_, ?_, ?_, IsGap.pass isGap here rest skipped⟩, ended, leads, beyond, slash⟩
  · rw [List.append_assoc, ← rest]
    exact split
  · obtain ⟨front, same, stop⟩ := passed
    rw [← List.append_cancel_right (same.symm.trans split), Text.byteCount_append, ← Nat.add_assoc, ← stop]
    exact offset

theorem settles_settle (lexer : Lexer) : lexer.Settles lexer.settle := by
  fun_induction settle lexer with
  | case1 lexer here => exact lexer.settles_read
  | case2 lexer trivia here kind found keeps =>
    have beyond := (Cursor.leadsBeyond_triviaAt? here).1
    have apart : ∀ kind ∈ Cursor.triviaKinds, kind ≠ .endOfFile ∧ ¬(kind = .slash ∨ kind = .slashEquals) := by
      decide
    obtain ⟨more, noSlash⟩ := apart kind (Cursor.mem_triviaKinds here found)
    refine ⟨rfl, ⟨[], rfl, rfl, ?_⟩, fun ended => absurd ended more, beyond.leads, fun _ => beyond,
      fun slash => absurd slash noSlash⟩
    rw [keeps]
    exact fun _ unkept => by cases unkept
  | case3 lexer trivia here kind found skips ih =>
    exact .pass here (fun keeps => absurd keeps skips) ih
  | case4 lexer trivia here found ih => exact .pass here (fun _ => found) ih

/-- Where only a gap is left, some of it is passed over. -/
theorem IsGap.exists_triviaAt? {keepTrivia : Bool} {cursor : Cursor}
    (gap : IsGap keepTrivia cursor.rest []) (more : cursor.rest ≠ []) :
    ∃ trivia, cursor.triviaAt? = some trivia ∧ (keepTrivia = true → trivia.kind? = none) ∧
      IsGap keepTrivia trivia.after.rest [] := by
  cases keepTrivia with
  | false =>
    obtain ⟨trivia, found, later⟩ := IsTrivia.exists_triviaAt? gap more
    exact ⟨trivia, found, (nomatch ·), later⟩
  | true =>
    obtain ⟨c, rest, filled⟩ := List.exists_cons_of_ne_nil more
    obtain ⟨far, later⟩ := List.forall_mem_cons.mp (show ∀ d ∈ c :: rest, _ from filled ▸ gap)
    obtain ⟨lineBreak, found⟩ := Cursor.triviaAt?_of_isFarSpacing filled far
    refine ⟨_, found, fun _ => rfl, ?_⟩
    rw [Cursor.step, filled]
    exact later

/-- Where only a gap is left, the end of the text is found. -/
theorem settle_ended (gap : IsGap lexer.keepTrivia lexer.cursor.rest []) :
    lexer.settle.kind = .endOfFile := by
  have step : ∀ {lexer : Lexer} {trivia : Trivia}, lexer.cursor.triviaAt? = some trivia →
      IsGap lexer.keepTrivia lexer.cursor.rest [] →
      (lexer.keepTrivia = true → trivia.kind? = none) ∧ IsGap lexer.keepTrivia trivia.after.rest [] := by
    intro lexer trivia here gap
    have more : lexer.cursor.rest ≠ [] := fun bare => by
      have less := Cursor.length_triviaAt?_lt here
      rw [Cursor.length, Cursor.length, bare] at less
      exact absurd less (Nat.not_lt_zero _)
    obtain ⟨passed, found, later⟩ := gap.exists_triviaAt? more
    cases here.symm.trans found
    exact later
  fun_induction settle lexer with
  | case1 lexer here =>
    refine lexer.cursor.tokenAt_isAt.ended.mpr ?_
    by_contra more
    obtain ⟨passed, found, -⟩ := gap.exists_triviaAt? more
    cases here.symm.trans found
  | case2 lexer trivia here kind found keeps =>
    rw [(step here gap).1 keeps] at found
    cases found
  | case3 lexer trivia here kind found skips ih => exact ih (step here gap).2
  | case4 lexer trivia here found ih => exact ih (step here gap).2

theorem settles_scan (lexer : Lexer) :
    Settles { lexer with fullStart := lexer.cursor.offset, lineBreakBefore := false, value := "" } lexer.scan :=
  settles_settle _

/-- A scan finds the end of the text exactly where only a gap is left. -/
theorem scan_ended : lexer.scan.kind = .endOfFile ↔ IsGap lexer.keepTrivia lexer.cursor.rest [] := by
  refine ⟨fun ended => ?_, fun gap => settle_ended gap⟩
  obtain ⟨gap, rest, -, isGap⟩ := lexer.settles_scan.gap
  have bare := lexer.settles_scan.ended ended
  rw [bare] at rest isGap
  have whole : lexer.cursor.rest = gap := rest.trans (List.append_nil gap)
  rw [whole]
  exact isGap

end Settling

/-! ## Moves -/

/-- What may be done at a token: to scan on, or to read a slash anew. -/
inductive Move where
  | scan
  | rescan
  deriving DecidableEq, Repr

/-- The lexer after a move. -/
def move (lexer : Lexer) : Move → Lexer
  | .scan => lexer.scan
  | .rescan => lexer.rescanSlash

/-- The lexer after some moves. -/
def run (lexer : Lexer) (moves : List Move) : Lexer := moves.foldl move lexer

/-- A lexer that stands in a text after some scans. -/
structure HasRun (text : List Char) (keepTrivia : Bool) (scans : Nat) (lexer : Lexer) : Prop where
  keepTrivia : lexer.keepTrivia = keepTrivia
  cursor : lexer.cursor.IsIn text
  slash : lexer.kind = .slash ∨ lexer.kind = .slashEquals →
    lexer.cursor.LeadsTo lexer.rescanSlash.cursor
  ended : lexer.kind = .endOfFile → lexer.cursor.rest = []
  /-- Until the end is found, every scan has read a byte. -/
  scans : lexer.kind ≠ .endOfFile → scans ≤ lexer.cursor.offset

section Moves
variable {text : List Char} {keepTrivia : Bool} {scans : Nat} {lexer : Lexer}

theorem hasRun_ofText (text : List Char) (keepTrivia : Bool) :
    HasRun text keepTrivia 0 (ofText text keepTrivia) :=
  ⟨rfl, .refl _, (by rintro (same | same) <;> cases same), (nomatch ·), fun _ => Nat.zero_le _⟩

theorem HasRun.scan (run : HasRun text keepTrivia scans lexer) :
    HasRun text keepTrivia (scans + 1) lexer.scan := by
  obtain ⟨-, -, ended, leads, beyond, slash⟩ := lexer.settles_scan
  have before := lexer.scansTo_scan.leads
  refine ⟨lexer.scansTo_scan.keepTrivia.trans run.keepTrivia, run.cursor.then (before.trans leads), slash,
    fun last => ?_, fun more => ?_⟩
  · have bare := ended last
    obtain ⟨front, rest, -⟩ := leads
    rw [bare] at rest
    exact (List.append_eq_nil_iff.mp rest.symm).2
  · have unended : lexer.kind ≠ .endOfFile := fun last => more <| scan_ended.mpr <| by
      rw [run.ended last]
      cases lexer.keepTrivia with
      | false => exact .done
      | true => exact fun _ => (nomatch ·)
    have less := (before.thenBeyond (beyond more)).offset_lt
    have known := run.scans unended
    omega

theorem HasRun.rescan (run : HasRun text keepTrivia scans lexer) :
    HasRun text keepTrivia scans lexer.rescanSlash := by
  by_cases slash : lexer.kind = .slash ∨ lexer.kind = .slashEquals
  · have leads := run.slash slash
    have unended : lexer.kind ≠ .endOfFile := by
      rcases slash with same | same <;> rw [same] <;> decide
    have known := run.scans unended
    have kind : lexer.rescanSlash.kind = .regularExpressionLiteral := by rw [rescanSlash, if_pos slash]
    have keeps : lexer.rescanSlash.keepTrivia = lexer.keepTrivia := by rw [rescanSlash, if_pos slash]
    refine ⟨keeps.trans run.keepTrivia, run.cursor.then leads, fun again => ?_, fun last => ?_,
      fun _ => Nat.le_trans known leads.offset_le⟩
    · rw [kind] at again
      rcases again with same | same <;> cases same
    · rw [kind] at last
      cases last
  · rw [rescanSlash, if_neg slash]
    exact run

theorem HasRun.run (moves : List Move) (hasRun : HasRun text keepTrivia scans lexer) :
    HasRun text keepTrivia (scans + moves.count .scan) (lexer.run moves) := by
  induction moves generalizing scans lexer with
  | nil => exact hasRun
  | cons move moves ih =>
    cases move with
    | scan =>
      rw [List.count_cons_self, Nat.add_comm (moves.count _), ← Nat.add_assoc]
      exact ih hasRun.scan
    | rescan =>
      rw [List.count_cons_of_ne (by decide)]
      exact ih hasRun.rescan

end Moves

/-- Whatever the moves were, the next scan starts where the last token ended, passes over a gap and
reads on, unless only a gap is left; all places lie between two characters.  More scans than the
text has bytes come to its end. -/
theorem scan_tiles (text : List Char) (keepTrivia : Bool) (moves : List Move) :
    let lexer := (ofText text keepTrivia).run moves
    let next := lexer.scan
    (next.fullStart = lexer.cursor.offset ∧ next.fullStart ≤ next.start.offset ∧
        next.start.offset ≤ next.cursor.offset ∧ next.cursor.offset ≤ Text.byteCount text) ∧
      (Text.IsBoundary text next.fullStart ∧ Text.IsBoundary text next.start.offset ∧
        Text.IsBoundary text next.cursor.offset) ∧
      (∃ gap, Text.dropBytes next.fullStart text = gap ++ Text.dropBytes next.start.offset text ∧
        next.start.offset = next.fullStart + Text.byteCount gap ∧
        IsGap keepTrivia gap (Text.dropBytes next.start.offset text)) ∧
      (next.kind ≠ .endOfFile → lexer.cursor.offset < next.cursor.offset) ∧
      (next.kind = .endOfFile ↔ IsGap keepTrivia (Text.dropBytes lexer.cursor.offset text) []) ∧
      (Text.byteCount text < moves.count .scan → lexer.kind = .endOfFile) := by
  intro lexer next
  have run : HasRun text keepTrivia (0 + moves.count .scan) lexer := (hasRun_ofText text keepTrivia).run moves
  obtain ⟨full, ⟨gap, rest, offset, isGap⟩, -, leads, beyond, -⟩ := lexer.settles_scan
  have before := lexer.scansTo_scan.leads
  have start : next.start.IsIn text := run.cursor.then before
  have stop : next.cursor.IsIn text := start.then leads
  have fullStart : next.fullStart = lexer.cursor.offset := full
  refine ⟨⟨fullStart, ?_, leads.offset_le, stop.isBoundary.le⟩,
    ⟨fullStart ▸ run.cursor.isBoundary, start.isBoundary, stop.isBoundary⟩, ⟨gap, ?_, ?_, ?_⟩,
    fun more => (before.thenBeyond (beyond more)).offset_lt, ?_, fun many => ?_⟩
  · rw [fullStart]
    exact before.offset_le
  · rw [fullStart, ← run.cursor.rest_eq, ← start.rest_eq]
    exact rest
  · rw [fullStart]
    exact offset
  · rw [← start.rest_eq, ← run.keepTrivia]
    exact isGap
  · rw [← run.cursor.rest_eq, ← run.keepTrivia]
    exact scan_ended
  · by_contra more
    have reached := run.scans more
    have inside := run.cursor.isBoundary.le
    omega

/-- A blank is only a gap, but where trivia is kept it is a token. -/
theorem scan_keeps_blank : ¬((ofText [' '] true).scan.kind = .endOfFile ↔ IsTrivia [' '] []) := by
  intro same
  have blank : IsTrivia [' '] [] := .spacing (by decide) .done
  have ended := scan_ended.mp (same.mpr blank)
  exact absurd (ended ' ' List.mem_cons_self) (by decide)

end Lexer

end Unflatten
