import Unflatten.Proofs.Token.Scanning
import Unflatten.Proofs.Token.Lexemes

/-! # Blanks and comments

`IsTrivia` is the grammar of what may stand between two tokens.  What the lexer passes over is of
this form (`Cursor.isTrivia_triviaAt?`), and a text of this form is passed to its end
(`IsTrivia.triviaAt?`). -/

set_option autoImplicit false

namespace Unflatten

/-- A blank of any kind, a line end or a byte order mark. -/
def isSpacing (c : Char) : Bool := Text.isBlank c || c == '\ufeff'

/-- Spacing beyond ASCII. -/
def isFarSpacing (c : Char) : Bool := decide (c.toNat ≥ 0x80) && isSpacing c

/-- The mark that closes a block comment. -/
def blockClose : List Char := ['*', '/']

/-- Blanks and comments in front of a text.  A line comment goes on to a line end or to the end of
the text, and a block comment to the first mark that closes it. -/
inductive IsTrivia : (trivia rest : List Char) → Prop
  | done {rest : List Char} : IsTrivia [] rest
  | spacing {c : Char} {trivia rest : List Char} (spacing : isSpacing c = true)
      (more : IsTrivia trivia rest) : IsTrivia (c :: trivia) rest
  | line {body trivia rest : List Char} (oneLine : ∀ c ∈ body, isLineEnd c = false)
      (ends : ∀ c ∈ (trivia ++ rest).head?, isLineEnd c = true) (more : IsTrivia trivia rest) :
      IsTrivia ('/' :: '/' :: (body ++ trivia)) rest
  | block {body trivia rest : List Char} (first : ¬blockClose <:+: body ++ ['*'])
      (more : IsTrivia trivia rest) : IsTrivia ('/' :: '*' :: (body ++ blockClose ++ trivia)) rest
  /-- In the end of a text a block comment may lack its closing mark. -/
  | unclosed {body : List Char} (never : ¬blockClose <:+: body) : IsTrivia ('/' :: '*' :: body) []

section Spacing
variable {c : Char}

theorem isLineEnd_eq : isLineEnd c = true ↔ c = '\n' ∨ c = '\r' := by
  rw [isLineEnd, Bool.or_eq_true, beq_iff_eq, beq_iff_eq]

theorem isSpacing_of_isLineEnd (ends : isLineEnd c = true) : isSpacing c = true := by
  rcases isLineEnd_eq.mp ends with rfl | rfl <;> decide

theorem isSpacing_of_isAsciiBlank (blank : isAsciiBlank c = true) : isSpacing c = true := by
  simp only [isAsciiBlank, Bool.or_eq_true, beq_iff_eq] at blank
  rcases blank with ((rfl | rfl) | rfl) | rfl <;> decide

/-- Spacing ends a line, is a blank of ASCII, or stands beyond ASCII. -/
theorem isSpacing_cases (spacing : isSpacing c = true) :
    isLineEnd c = true ∨ isAsciiBlank c = true ∨ isFarSpacing c = true := by
  by_cases far : c.toNat ≥ 0x80
  · exact .inr (.inr (by rw [isFarSpacing, decide_eq_true far, spacing]; rfl))
  · have near : ∀ code : Fin 0x80, isSpacing (Char.ofNat code) = true →
        isLineEnd (Char.ofNat code) = true ∨ isAsciiBlank (Char.ofNat code) = true := by decide
    have known := near ⟨c.toNat, Nat.lt_of_not_le far⟩
    rw [Char.ofNat_toNat] at known
    exact (known spacing).imp_right .inl

theorem isSpacing_of_isFarSpacing (far : isFarSpacing c = true) : isSpacing c = true :=
  (Bool.and_eq_true_iff.mp far).2

theorem isSpacing_ne_slash (spacing : isSpacing c = true) : c ≠ '/' := by
  rintro rfl
  exact absurd spacing (by decide)

theorem isFarSpacing_apart (far : isFarSpacing c = true) :
    isLineEnd c = false ∧ isAsciiBlank c = false := by
  rw [isFarSpacing, Bool.and_eq_true, decide_eq_true_eq] at far
  have apart : ∀ other : Char, other.toNat < 0x80 → c ≠ other := by
    rintro other near rfl
    exact absurd far.1 (Nat.not_le_of_lt near)
  constructor
  · rw [isLineEnd, Bool.or_eq_false_iff, beq_eq_false_iff_ne, beq_eq_false_iff_ne]
    exact ⟨apart _ (by decide), apart _ (by decide)⟩
  · simp only [isAsciiBlank, Bool.or_eq_false_iff, beq_eq_false_iff_ne]
    exact ⟨⟨⟨apart _ (by decide), apart _ (by decide)⟩, apart _ (by decide)⟩, apart _ (by decide)⟩

end Spacing

namespace Cursor
variable {text rest body : List Char} {offset : Nat} {cursor : Cursor} {trivia : Trivia}

/-! ## Block comments -/

/-- A block comment goes on to the first mark that closes it, or to the end of the text. -/
theorem skipBlockComment_cases (text : List Char) (offset : Nat) :
    (∃ body, text = body ++ blockClose ++ (skipBlockComment text offset).1.rest ∧
        ¬blockClose <:+: body ++ ['*']) ∨
      (skipBlockComment text offset).1.rest = [] ∧ ¬blockClose <:+: text := by
  fun_induction skipBlockComment text offset with
  | case1 => exact .inr ⟨rfl, by decide⟩
  | case2 rest offset => exact .inl ⟨[], rfl, by decide⟩
  | case3 c rest offset open_ ih =>
    rcases ih with ⟨body, split, first⟩ | ⟨ended, never⟩
    · refine .inl ⟨c :: body, congrArg (c :: ·) split, fun closes => ?_⟩
      rw [List.cons_append, List.infix_cons_iff] at closes
      refine closes.elim (fun here => ?_) first
      obtain ⟨rfl, slash⟩ := List.cons_prefix_cons.mp here
      cases body with
      | nil => exact absurd slash (by decide)
      | cons d body =>
        obtain ⟨rfl, -⟩ := List.cons_prefix_cons.mp slash
        exact open_ _ rfl split
    · refine .inr ⟨ended, fun closes => ?_⟩
      rw [List.infix_cons_iff] at closes
      refine closes.elim (fun here => ?_) never
      obtain ⟨rfl, tail, rfl⟩ := List.cons_prefix_cons.mp here
      exact open_ _ rfl rfl

/-- A block comment ends at the first mark that closes it. -/
theorem skipBlockComment_append (first : ¬blockClose <:+: body ++ ['*']) :
    (skipBlockComment (body ++ blockClose ++ rest) offset).1.rest = rest := by
  induction body generalizing offset with
  | nil => rfl
  | cons c body ih =>
    rw [List.cons_append, List.infix_cons_iff, not_or] at first
    have open_ : ∀ tail, c = '*' → body ++ blockClose ++ rest = '/' :: tail → False := by
      rintro tail rfl same
      refine first.1 (List.cons_prefix_cons.mpr ⟨rfl, ?_⟩)
      cases body with
      | nil => cases same
      | cons d body =>
        cases same
        exact ⟨body ++ ['*'], rfl⟩
    rw [List.cons_append, List.cons_append, skipBlockComment]
    · exact ih first.2
    · exact open_

/-- An open block comment goes on to the end of the text. -/
theorem skipBlockComment_unclosed (never : ¬blockClose <:+: text) :
    (skipBlockComment text offset).1.rest = [] := by
  rcases skipBlockComment_cases text offset with ⟨body, split, -⟩ | ⟨ended, -⟩
  · refine absurd ?_ never
    rw [split]
    exact ⟨body, (skipBlockComment text offset).1.rest, rfl⟩
  · exact ended

/-! ## What the lexer passes over -/

/-- What is passed over is a line comment, a block comment or a row of blanks. -/
theorem triviaAt?_cases (here : cursor.triviaAt? = some trivia) :
    (∃ body, cursor.rest = '/' :: '/' :: body ∧
        trivia.after.rest = body.dropWhile (fun c => !isLineEnd c) ∧ trivia.kind?.isSome = true) ∨
      (∃ body, cursor.rest = '/' :: '*' :: body ∧
        trivia.after.rest = (skipBlockComment body (cursor.offset + 2)).1.rest ∧
          trivia.kind?.isSome = true) ∨
      ∃ blanks, cursor.rest = blanks ++ trivia.after.rest ∧ (∀ c ∈ blanks, isSpacing c = true) ∧
        (trivia.kind? = none → ∀ c ∈ blanks, isFarSpacing c = true) := by
  unfold triviaAt? at here
  split at here
  · cases here
  · rename_i body opening
    cases here
    refine .inl ⟨body, opening, ?_, rfl⟩
    rw [rest_skipWhile, opening]
    rfl
  · rename_i body opening
    cases here
    exact .inr (.inl ⟨body, opening, rfl, rfl⟩)
  · rename_i c rest _ _ opening
    have stepped : cursor.step.rest = rest := by rw [step, opening]
    have single : ∀ {after : Cursor}, after.rest = rest → cursor.rest = [c] ++ after.rest :=
      fun same => by rw [same, opening]; rfl
    refine .inr (.inr ?_)
    split at here
    · rename_i ends
      cases here
      exact ⟨[c], single stepped, by simpa using isSpacing_of_isLineEnd ends,
        fun unkept => by cases unkept⟩
    · split at here
      · rename_i blank
        cases here
        refine ⟨c :: rest.takeWhile isAsciiBlank, ?_, ?_, fun unkept => by cases unkept⟩
        · rw [rest_skipWhile, stepped, List.cons_append, List.takeWhile_append_dropWhile, opening]
        · exact List.forall_mem_cons.mpr ⟨isSpacing_of_isAsciiBlank blank, fun d member =>
            isSpacing_of_isAsciiBlank (List.mem_takeWhile_imp member)⟩
      · split at here
        · rename_i separator
          cases here
          have far : isFarSpacing c = true := by rcases separator with rfl | rfl <;> decide
          exact ⟨[c], single stepped, by simpa using isSpacing_of_isFarSpacing far, fun _ => by simpa using far⟩
        · split at here
          · rename_i beyond
            cases here
            have spacing : isSpacing c = true := by
              rw [isSpacing, Bool.or_eq_true, beq_iff_eq]
              exact beyond.2
            have far : isFarSpacing c = true := by
              rw [isFarSpacing, decide_eq_true beyond.1, spacing]
              rfl
            exact ⟨[c], single stepped, by simpa using spacing, fun _ => by simpa using far⟩
          · cases here

/-- The kinds of trivia that is kept. -/
def triviaKinds : List TokenKind := [.singleLineComment, .multiLineComment, .newLine, .whitespace]

theorem mem_triviaKinds {kind : TokenKind} (here : cursor.triviaAt? = some trivia)
    (found : trivia.kind? = some kind) : kind ∈ triviaKinds := by
  have known : ∀ kind? ∈ trivia.kind?, kind? ∈ triviaKinds := by
    unfold triviaAt? at here
    split at here
    · cases here
    · cases here
      simp [triviaKinds]
    · cases here
      simp [triviaKinds]
    · split at here
      · cases here
        simp [triviaKinds]
      · split at here
        · cases here
          simp [triviaKinds]
        · split at here
          · cases here
            exact fun _ => (nomatch ·)
          · split at here
            · cases here
              exact fun _ => (nomatch ·)
            · cases here
  exact known kind found

/-- No blank is left standing. -/
theorem exists_triviaAt?_of_isSpacing {c : Char} (here : cursor.rest = c :: rest)
    (spacing : isSpacing c = true) : ∃ trivia, cursor.triviaAt? = some trivia := by
  rw [← Option.isSome_iff_exists]
  unfold triviaAt?
  split
  · rename_i bare
    rw [here] at bare
    cases bare
  · rfl
  · rfl
  · rename_i d _ _ _ same
    obtain rfl : c = d := (List.cons.inj (here.symm.trans same)).1
    split
    · rfl
    · rename_i inLine
      split
      · rfl
      · rename_i notNear
        split
        · rfl
        · obtain ⟨beyond, blank⟩ := Bool.and_eq_true_iff.mp
            (((isSpacing_cases spacing).resolve_left inLine).resolve_left notNear)
          rw [isSpacing, Bool.or_eq_true, beq_iff_eq] at blank
          rw [if_pos ⟨of_decide_eq_true beyond, blank⟩]
          rfl

/-- Spacing beyond ASCII is passed over one by one and has no kind. -/
theorem triviaAt?_of_isFarSpacing {c : Char} (here : cursor.rest = c :: rest)
    (far : isFarSpacing c = true) :
    ∃ lineBreak, cursor.triviaAt? = some ⟨none, cursor.step, lineBreak, none, none⟩ := by
  have noSlash := isSpacing_ne_slash (isSpacing_of_isFarSpacing far)
  obtain ⟨inLine, notNear⟩ := isFarSpacing_apart far
  obtain ⟨beyond, blank⟩ := Bool.and_eq_true_iff.mp far
  rw [isSpacing, Bool.or_eq_true, beq_iff_eq] at blank
  unfold triviaAt?
  rw [here]
  split
  · cases ‹_ = []›
  · exact absurd (List.cons.inj ‹_›).1 noSlash
  · exact absurd (List.cons.inj ‹_›).1 noSlash
  · rename_i same
    obtain ⟨rfl, rfl⟩ := List.cons.inj same
    rw [inLine, notNear, if_neg Bool.false_ne_true, if_neg Bool.false_ne_true]
    split
    · exact ⟨true, rfl⟩
    · rw [if_pos ⟨of_decide_eq_true beyond, blank⟩]
      exact ⟨false, rfl⟩

end Cursor

/-! ## Stretches of trivia -/

section Stretches
variable {front text more rest blanks trivia : List Char} {cursor : Cursor} {passed : Trivia}

/-- A row of blanks in front of trivia. -/
theorem IsTrivia.append_blanks (more : IsTrivia trivia rest)
    (each : ∀ c ∈ blanks, isSpacing c = true) : IsTrivia (blanks ++ trivia) rest := by
  induction blanks with
  | nil => exact more
  | cons c blanks ih =>
    obtain ⟨here, later⟩ := List.forall_mem_cons.mp each
    exact .spacing here (ih later)

/-- Trivia without blanks that stand in front of it. -/
theorem IsTrivia.of_append_blanks (isTrivia : IsTrivia (blanks ++ trivia) rest)
    (each : ∀ c ∈ blanks, isSpacing c = true) : IsTrivia trivia rest := by
  induction blanks with
  | nil => exact isTrivia
  | cons c blanks ih =>
    obtain ⟨here, later⟩ := List.forall_mem_cons.mp each
    refine ih ?_ later
    generalize whole : c :: blanks ++ trivia = text at isTrivia
    cases isTrivia with
    | done => cases whole
    | spacing _ more =>
      obtain ⟨rfl, rfl⟩ := List.cons.inj whole
      exact more
    | line => exact absurd (List.cons.inj whole).1 (isSpacing_ne_slash here)
    | block => exact absurd (List.cons.inj whole).1 (isSpacing_ne_slash here)
    | unclosed => exact absurd (List.cons.inj whole).1 (isSpacing_ne_slash here)

/-- What is passed over is trivia in front of trivia. -/
theorem IsTrivia.pass (here : cursor.triviaAt? = some passed) (split : passed.after.rest = more ++ rest)
    (later : IsTrivia more rest) :
    ∃ front, cursor.rest = front ++ passed.after.rest ∧ IsTrivia (front ++ more) rest := by
  rcases Cursor.triviaAt?_cases here with ⟨body, opening, after, -⟩ | ⟨body, opening, after, -⟩ |
    ⟨blanks, opening, each, -⟩
  · refine ⟨'/' :: '/' :: body.takeWhile (fun c => !isLineEnd c), ?_, .line (fun c member => ?_) ?_ later⟩
    · rw [opening, after, List.cons_append, List.cons_append, List.takeWhile_append_dropWhile]
    · simpa using List.mem_takeWhile_imp member
    · intro c first
      have stops := List.head?_dropWhile_not (fun c => !isLineEnd c) body
      rw [← after, split, first] at stops
      simpa using stops
  · rcases Cursor.skipBlockComment_cases body (cursor.offset + 2) with ⟨inner, closed, first⟩ |
      ⟨ended, never⟩
    · refine ⟨'/' :: '*' :: (inner ++ blockClose), ?_, .block first later⟩
      rw [opening, after, List.cons_append, List.cons_append, ← closed]
    · rw [after, ended] at split
      obtain ⟨rfl, rfl⟩ := List.append_eq_nil_iff.mp split.symm
      refine ⟨'/' :: '*' :: body, ?_, ?_⟩
      · rw [after, ended, List.append_nil, opening]
      · rw [List.append_nil]
        exact .unclosed never
  · exact ⟨blanks, opening, later.append_blanks each⟩

/-- Where only trivia is left, the lexer passes over some of it. -/
theorem IsTrivia.exists_triviaAt? (isTrivia : IsTrivia cursor.rest []) (more : cursor.rest ≠ []) :
    ∃ passed, cursor.triviaAt? = some passed ∧ IsTrivia passed.after.rest [] := by
  obtain ⟨text, offset⟩ := cursor
  simp only at isTrivia more
  cases isTrivia with
  | done => exact absurd rfl more
  | @spacing c text _ spacing later =>
    obtain ⟨passed, here⟩ :=
      Cursor.exists_triviaAt?_of_isSpacing (rfl : Cursor.rest ⟨c :: text, offset⟩ = c :: text) spacing
    refine ⟨passed, here, ?_⟩
    have noSlash := isSpacing_ne_slash spacing
    rcases Cursor.triviaAt?_cases here with ⟨_, opening, -⟩ | ⟨_, opening, -⟩ | ⟨blanks, opening, each, -⟩
    · exact absurd (List.cons.inj opening).1 noSlash
    · exact absurd (List.cons.inj opening).1 noSlash
    · have whole : IsTrivia (blanks ++ passed.after.rest) [] := opening ▸ IsTrivia.spacing spacing later
      exact whole.of_append_blanks each
  | @line body trivia _ oneLine ends later =>
    refine ⟨_, rfl, ?_⟩
    have behind : (body ++ trivia).dropWhile (fun c => !isLineEnd c) = trivia := by
      rw [List.dropWhile_append_of_pos (fun c member => by rw [oneLine c member]; rfl)]
      cases trivia with
      | nil => rfl
      | cons c trivia =>
        exact List.dropWhile_cons_of_neg (by rw [ends c rfl]; exact Bool.false_ne_true)
    change IsTrivia (Cursor.skipWhile ⟨'/' :: '/' :: (body ++ trivia), offset⟩ _).rest []
    rw [Cursor.rest_skipWhile]
    change IsTrivia ((body ++ trivia).dropWhile _) []
    rw [behind]
    exact later
  | @block body trivia _ first later =>
    refine ⟨_, rfl, ?_⟩
    change IsTrivia (Cursor.skipBlockComment _ _).1.rest []
    rw [Cursor.skipBlockComment_append first]
    exact later
  | unclosed never =>
    refine ⟨_, rfl, ?_⟩
    change IsTrivia (Cursor.skipBlockComment _ _).1.rest []
    rw [Cursor.skipBlockComment_unclosed never]
    exact .done

end Stretches

end Unflatten
