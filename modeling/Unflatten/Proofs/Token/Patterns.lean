import Unflatten.Proofs.Token.Tiling

/-! # Regular expressions

Which slash closes a regular expression depends on all that stands before it: an odd number of
backslashes escapes the next character (`Pattern.Escapes`), and between brackets that are not
escaped a slash closes nothing (`Pattern.LeavesClass`).  The reader keeps one bit of this and looks
at every character once.  It finds the first slash that is free, or stops at a line end that is not
escaped or at the end of the text (`Pattern.Stops`).  An escaped line end does not stop it, so such a
pattern runs over more than one line (`Lexer.escaped_line_end_read`). -/

set_option autoImplicit false

namespace Unflatten

namespace Pattern

/-- An odd number of backslashes ends the text, so the next character is escaped. -/
def Escapes (front : List Char) : Prop := (front.reverse.takeWhile (· == '\\')).length % 2 = 1

/-- A character class has been opened and has not been closed. -/
def LeavesClass (front : List Char) : Prop :=
  ∃ before inside, front = before ++ '[' :: inside ∧ ¬Escapes before ∧
    ∀ part rest, inside = part ++ ']' :: rest → Escapes (before ++ '[' :: part)

/-- A slash behind the text is neither escaped nor in a character class. -/
def IsFree (front : List Char) : Prop := ¬Escapes front ∧ ¬LeavesClass front

/-- Each slash of the text is escaped or in a character class, and each line end is escaped. -/
def IsBody (body : List Char) : Prop :=
  ∀ front c back, body = front ++ c :: back →
    (c = '/' → ¬IsFree front) ∧ (isLineEnd c = true → Escapes front)

section Texts
variable {front body rest : List Char} {c : Char}

theorem not_escapes_nil : ¬Escapes [] := by simp [Escapes]

theorem escapes_concat : Escapes (front ++ [c]) ↔ c = '\\' ∧ ¬Escapes front := by
  unfold Escapes
  rw [List.reverse_append, List.reverse_singleton, List.singleton_append, List.takeWhile_cons]
  by_cases slash : c = '\\'
  · simp only [slash, beq_self_eq_true, if_true, List.length_cons, true_and]
    omega
  · simp [slash]

/-- What escapes the next character ends in a backslash. -/
theorem Escapes.exists_concat (escapes : Escapes front) : ∃ before, front = before ++ ['\\'] := by
  rcases List.eq_nil_or_concat front with rfl | ⟨before, last, rfl⟩
  · exact absurd escapes not_escapes_nil
  · rw [List.concat_eq_append, escapes_concat] at escapes
    exact ⟨before, by rw [List.concat_eq_append, escapes.1]⟩

theorem not_leavesClass_nil : ¬LeavesClass [] := by
  rintro ⟨before, inside, same, -⟩
  simp at same

/-- A class is opened by a bracket and closed by another one, unless they are escaped. -/
theorem leavesClass_concat : LeavesClass (front ++ [c]) ↔
    (c = '[' ∧ ¬Escapes front) ∨ (LeavesClass front ∧ (c = ']' → Escapes front)) := by
  constructor
  · rintro ⟨before, inside, same, free, inClass⟩
    rcases List.eq_nil_or_concat inside with rfl | ⟨inside, last, rfl⟩
    · obtain ⟨rfl, bracket⟩ := List.append_inj' same rfl
      exact .inl ⟨List.head_eq_of_cons_eq bracket, free⟩
    · have split : front ++ [c] = (before ++ '[' :: inside) ++ [last] := by simpa using same
      obtain ⟨rfl, final⟩ := List.append_inj' split rfl
      cases final
      refine .inr ⟨⟨before, inside, rfl, free, fun part rest found => ?_⟩, fun closing => ?_⟩
      · exact inClass part (rest ++ [c]) (by simp [found])
      · exact inClass inside [] (by rw [closing, List.concat_eq_append])
  · rintro (⟨rfl, free⟩ | ⟨⟨before, inside, rfl, free, inClass⟩, closing⟩)
    · exact ⟨front, [], rfl, free, by simp⟩
    · refine ⟨before, inside ++ [c], by simp, free, fun part rest found => ?_⟩
      rcases List.eq_nil_or_concat rest with rfl | ⟨rest, last, rfl⟩
      · obtain ⟨rfl, bracket⟩ := List.append_inj' found rfl
        exact closing (List.head_eq_of_cons_eq bracket)
      · have split : inside ++ [c] = (part ++ ']' :: rest) ++ [last] := by simpa using found
        obtain ⟨rfl, -⟩ := List.append_inj' split rfl
        exact inClass part rest rfl

/-- An escaped character neither opens nor closes a class. -/
theorem leavesClass_escaped (unescaped : ¬Escapes front) :
    LeavesClass (front ++ ['\\'] ++ [c]) ↔ LeavesClass front := by
  have escapes : Escapes (front ++ ['\\']) := escapes_concat.mpr ⟨rfl, unescaped⟩
  rw [leavesClass_concat, leavesClass_concat]
  simp [escapes]

theorem isBody_nil : IsBody [] := by
  intro front c back same
  simp at same

theorem IsBody.concat (isBody : IsBody body) (slash : c = '/' → ¬IsFree body)
    (lineEnd : isLineEnd c = true → Escapes body) : IsBody (body ++ [c]) := by
  intro front d back same
  rcases List.eq_nil_or_concat back with rfl | ⟨back, last, rfl⟩
  · obtain ⟨rfl, final⟩ := List.append_inj' same rfl
    cases final
    exact ⟨slash, lineEnd⟩
  · have split : body ++ [c] = (front ++ d :: back) ++ [last] := by simpa using same
    obtain ⟨rfl, -⟩ := List.append_inj' split rfl
    exact isBody front d back rfl

theorem IsBody.backslash (isBody : IsBody body) : IsBody (body ++ ['\\']) :=
  isBody.concat (fun same => nomatch same) fun lineEnd => nomatch lineEnd

/-- Whatever an unescaped backslash stands before belongs to the body. -/
theorem IsBody.escaped (isBody : IsBody body) (unescaped : ¬Escapes body) :
    IsBody (body ++ ['\\'] ++ [c]) := by
  have escapes : Escapes (body ++ ['\\']) := escapes_concat.mpr ⟨rfl, unescaped⟩
  exact isBody.backslash.concat (fun _ free => free.1 escapes) fun _ => escapes

/-- Without a backslash before a line end the body is one line. -/
theorem IsBody.oneLine (isBody : IsBody body)
    (unescaped : ∀ c, isLineEnd c = true → ¬['\\', c] <:+: body) : ∀ c ∈ body, isLineEnd c = false := by
  intro c member
  by_contra ends
  rw [Bool.not_eq_false] at ends
  obtain ⟨front, back, rfl⟩ := List.append_of_mem member
  obtain ⟨before, rfl⟩ := ((isBody front c back rfl).2 ends).exists_concat
  exact unescaped c ends ⟨before, back, by simp⟩

/-- What stands before a free slash, without another one before it, is no part of a longer body, and
no line end breaks it off. -/
theorem IsBody.not_open {after : List Char} {more : List Char} (whole : body ++ '/' :: rest = more ++ after)
    (closed : IsBody body) (free : IsFree body) (isOpen : IsBody more)
    (ended : ∀ c ∈ after.head?, isLineEnd c = true ∧ ¬Escapes more) : False := by
  rcases List.append_eq_append_iff.mp whole with ⟨gap, rfl, split⟩ | ⟨gap, rfl, split⟩
  · cases gap with
    | nil =>
      rw [List.nil_append] at split
      have lineEnd := (ended '/' (by rw [← split]; rfl)).1
      cases lineEnd
    | cons c gap =>
      obtain ⟨rfl, -⟩ := List.cons.inj split
      exact (isOpen body '/' gap rfl).1 rfl free
  · cases gap with
    | nil =>
      rw [List.nil_append] at split
      have lineEnd := (ended '/' (by rw [split]; rfl)).1
      cases lineEnd
    | cons c gap =>
      obtain ⟨lineEnd, unescaped⟩ := ended c (by rw [split]; rfl)
      exact unescaped ((closed more c gap rfl).2 lineEnd)

end Texts

/-! ## The reader -/

/-- Behind some text that was read, the reader goes on and stops: behind the first free slash, or in
front of a line end that is not escaped, or at the end of the text. -/
inductive Stops (read : List Char) (offset : Nat) : (text : List Char) → Cursor × Bool → Prop
  | closed {more after : List Char} (isBody : IsBody (read ++ more)) (free : IsFree (read ++ more)) :
      Stops read offset (more ++ '/' :: after) (⟨after, offset + Text.byteCount more + 1⟩, true)
  | broken {more after : List Char} (isBody : IsBody (read ++ more))
      (ended : ∀ c ∈ after.head?, isLineEnd c = true ∧ ¬Escapes (read ++ more)) :
      Stops read offset (more ++ after) (⟨after, offset + Text.byteCount more⟩, false)

section Reading
variable {read text : List Char} {offset : Nat} {c : Char} {stop : Cursor × Bool}

theorem Stops.cons (stops : Stops (read ++ [c]) (offset + c.utf8Size) text stop) :
    Stops read offset (c :: text) stop := by
  have bytes : ∀ more, offset + c.utf8Size + Text.byteCount more = offset + Text.byteCount (c :: more) := by
    intro more
    rw [Text.byteCount_cons, Nat.add_assoc]
  cases stops with
  | closed isBody free =>
    rw [List.append_assoc, List.singleton_append] at isBody free
    rw [bytes]
    exact .closed isBody free
  | broken isBody ended =>
    rw [List.append_assoc, List.singleton_append] at isBody ended
    rw [bytes]
    exact .broken isBody ended

/-- The flag says whether a class is open, and no character is looked at while it is escaped. -/
theorem stops_readPattern {inClass : Bool} (isBody : IsBody read) (unescaped : ¬Escapes read)
    (open_iff : inClass = true ↔ LeavesClass read) :
    Stops read offset text (Cursor.readPattern inClass text offset) := by
  fun_induction Cursor.readPattern inClass text offset generalizing read with
  | case1 inClass offset =>
    exact @Stops.broken read offset [] [] (by simpa using isBody) (by simp)
  | case2 inClass offset =>
    exact @Stops.broken read offset ['\\'] [] isBody.backslash (by simp)
  | case3 inClass offset c more ih =>
    have later : ¬Escapes (read ++ ['\\'] ++ [c]) := by
      rw [escapes_concat, escapes_concat]
      tauto
    exact .cons (.cons (ih (isBody.escaped unescaped) later
      (open_iff.trans (leavesClass_escaped unescaped).symm)))
  | case4 inClass c rest offset _ lineEnd =>
    apply @Stops.broken read offset [] _ (by simpa using isBody)
    intro d first
    cases first
    rw [List.append_nil]
    exact ⟨isLineEnd_eq.mpr lineEnd, unescaped⟩
  | case5 inClass c rest offset _ _ closes =>
    simp only [Bool.and_eq_true, Bool.not_eq_true', decide_eq_true_eq] at closes
    obtain ⟨rfl, outside⟩ := closes
    have free : IsFree read := ⟨unescaped, fun inside => by simp [open_iff.mpr inside] at outside⟩
    exact @Stops.closed read offset [] _ (by simpa using isBody) (by simpa using free)
  | case6 inClass c rest offset plain noEnd stays ih =>
    apply Stops.cons
    apply ih
    · apply isBody.concat
      · rintro rfl free
        exact free.2 (open_iff.mp (by simpa using stays))
      · intro lineEnd
        exact absurd (isLineEnd_eq.mp lineEnd) noEnd
    · rw [escapes_concat]
      tauto
    · rw [leavesClass_concat, ← open_iff]
      simp [unescaped]

end Reading

end Pattern

namespace Lexer
open Pattern

/-! ## Slashes read anew -/

/-- A state that a lexer on a text can be brought to.  It goes back to states it has been in, to any
of them and as often as wanted, and its comments may be taken away. -/
inductive IsReached (text : List Char) (keepTrivia : Bool) : Lexer → Prop
  | start : IsReached text keepTrivia (ofText text keepTrivia)
  | scan {lexer : Lexer} (reached : IsReached text keepTrivia lexer) :
      IsReached text keepTrivia lexer.scan
  | rescanSlash {lexer : Lexer} (reached : IsReached text keepTrivia lexer) :
      IsReached text keepTrivia lexer.rescanSlash
  | restore {lexer earlier : Lexer} (reached : IsReached text keepTrivia lexer)
      (saved : IsReached text keepTrivia earlier) : IsReached text keepTrivia (lexer.restore earlier.save)
  | takeComments {lexer : Lexer} (reached : IsReached text keepTrivia lexer) :
      IsReached text keepTrivia { lexer with comments := #[] }

/-- A lexer stands in a text, and if its token is read as a slash, it starts with one. -/
structure Points (text : List Char) (lexer : Lexer) : Prop where
  start : lexer.start.IsIn text
  leads : lexer.start.LeadsTo lexer.cursor
  slash : lexer.kind = .slash ∨ lexer.kind = .slashEquals → ∃ source, lexer.start.rest = '/' :: source

section Points
variable {text : List Char} {keepTrivia : Bool} {lexer : Lexer}

theorem exists_slash_settle (lexer : Lexer)
    (slash : lexer.settle.kind = .slash ∨ lexer.settle.kind = .slashEquals) :
    ∃ source, lexer.settle.start.rest = '/' :: source := by
  fun_induction settle lexer with
  | case1 lexer here =>
    obtain ⟨mark, isMark, ⟨source, starts⟩, -⟩ := Cursor.tokenAt_slash rfl slash
    refine ⟨mark.tail ++ source, ?_⟩
    change lexer.cursor.rest = _
    rw [← starts]
    rcases isMark with rfl | rfl <;> rfl
  | case2 lexer trivia here kind found keeps =>
    have apart : ∀ kind ∈ Cursor.triviaKinds, ¬(kind = .slash ∨ kind = .slashEquals) := by decide
    exact absurd slash (apart kind (Cursor.mem_triviaKinds here found))
  | case3 lexer trivia here kind found skips ih => exact ih slash
  | case4 lexer trivia here found ih => exact ih slash

theorem Points.scan (points : lexer.Points text) : lexer.scan.Points text := by
  refine ⟨?_, lexer.settles_scan.leads, exists_slash_settle _⟩
  exact (points.start.then points.leads).then lexer.scansTo_scan.leads

/-- The reader of a pattern, and of the flags behind it, only goes forward. -/
theorem start_leadsTo_rescanSlash (slash : lexer.kind = .slash ∨ lexer.kind = .slashEquals) :
    lexer.start.LeadsTo lexer.rescanSlash.cursor := by
  rw [Lexer.rescanSlash, if_pos slash]
  have body := Cursor.leadsTo_readPattern false lexer.start.step.rest lexer.start.step.offset
  exact lexer.start.leadsTo_step.trans (body.trans (Cursor.leadsTo_skipWhile _ isIdentifierPart))

theorem Points.rescanSlash (points : lexer.Points text) : lexer.rescanSlash.Points text := by
  by_cases slash : lexer.kind = .slash ∨ lexer.kind = .slashEquals
  · have leads := start_leadsTo_rescanSlash slash
    rw [Lexer.rescanSlash, if_pos slash] at leads ⊢
    exact ⟨points.start, leads, fun again => by simp at again⟩
  · rw [Lexer.rescanSlash, if_neg slash]
    exact points

theorem IsReached.points (reached : IsReached text keepTrivia lexer) : lexer.Points text := by
  induction reached with
  | start => exact ⟨.refl _, .refl _, fun slash => by simp [ofText] at slash⟩
  | scan _ ih => exact ih.scan
  | rescanSlash _ ih => exact ih.rescanSlash
  | restore _ _ _ saved => exact ⟨saved.start, saved.leads, saved.slash⟩
  | takeComments _ ih => exact ⟨ih.start, ih.leads, ih.slash⟩

end Points

section Rescan
variable {lexer : Lexer} {source after : List Char} {offset : Nat}

/-- Behind a slash that closes a pattern, the flags belong to the token. -/
theorem text_rescanSlash {body : List Char} (slash : lexer.kind = .slash ∨ lexer.kind = .slashEquals)
    (here : lexer.start.rest = '/' :: (body ++ '/' :: after))
    (read : Cursor.readPattern false lexer.start.step.rest lexer.start.step.offset = (⟨after, offset⟩, true)) :
    lexer.rescanSlash.errors = lexer.errors ∧ lexer.rescanSlash.value = lexer.rescanSlash.text ∧
      lexer.rescanSlash.text.toList = '/' :: body ++ '/' :: after.takeWhile isIdentifierPart := by
  have whole := (start_leadsTo_rescanSlash slash).rest_eq
  rw [Lexer.rescanSlash, if_pos slash] at whole
  rw [Lexer.text, Lexer.rescanSlash, if_pos slash]
  simp only [read, if_true, true_and] at whole ⊢
  rw [Cursor.rest_skipWhile, here] at whole
  have split : '/' :: (body ++ '/' :: after) =
      ('/' :: body ++ '/' :: after.takeWhile isIdentifierPart) ++ after.dropWhile isIdentifierPart := by
    simp
  rw [String.toList_ofList]
  exact (List.append_cancel_right (split.symm.trans whole)).symm

/-- Where the pattern breaks off, the stretch up to there is reported. -/
theorem errors_rescanSlash {body : List Char} (slash : lexer.kind = .slash ∨ lexer.kind = .slashEquals)
    (here : lexer.start.rest = '/' :: source)
    (read : Cursor.readPattern false lexer.start.step.rest lexer.start.step.offset =
      (⟨after, lexer.start.step.offset + Text.byteCount body⟩, false)) :
    lexer.rescanSlash.errors =
      lexer.errors.push ⟨lexer.start.offset, 1 + Text.byteCount body, .unterminatedPattern⟩ := by
  have stepped : lexer.start.step.offset = lexer.start.offset + 1 := by
    rw [Cursor.step, here]
    rfl
  have length : lexer.start.step.offset + Text.byteCount body - lexer.start.offset =
      1 + Text.byteCount body := by omega
  rw [Lexer.rescanSlash, if_pos slash]
  simp only [read, length]
  exact if_neg Bool.false_ne_true

end Rescan

/-- A slash that is read anew is a regular expression up to the first slash that is neither escaped
nor in a character class, with the flags behind it; an error tells that there is no such slash before
a line end that is not escaped.  So the body is one line unless a backslash stands before a line
end. -/
theorem slash_read_anew {text : List Char} {keepTrivia : Bool} {lexer : Lexer}
    (reached : IsReached text keepTrivia lexer) (slash : lexer.kind = .slash ∨ lexer.kind = .slashEquals) :
    let token := lexer.rescanSlash
    ∃ source, Text.dropBytes lexer.start.offset text = '/' :: source ∧
      (token.kind = .regularExpressionLiteral ∧ token.start = lexer.start) ∧
      (token.errors = lexer.errors ↔
        ∃ body rest, source = body ++ '/' :: rest ∧ IsBody body ∧ IsFree body) ∧
      ((∃ body rest, source = body ++ rest ∧ IsBody body ∧
          (∀ c ∈ rest.head?, isLineEnd c = true ∧ ¬Escapes body) ∧
          token.errors =
            lexer.errors.push ⟨lexer.start.offset, 1 + Text.byteCount body, .unterminatedPattern⟩) ∨
        ∃ body flags rest, source = body ++ '/' :: (flags ++ rest) ∧ IsBody body ∧ IsFree body ∧
          (∀ c ∈ flags, isIdentifierPart c = true) ∧ (∀ c ∈ rest.head?, isIdentifierPart c = false) ∧
          token.errors = lexer.errors ∧ token.value = token.text ∧
          token.text.toList = '/' :: body ++ '/' :: flags ∧
          ((∀ c, isLineEnd c = true → ¬['\\', c] <:+: body) → ∀ c ∈ body, isLineEnd c = false)) := by
  intro token
  have points := reached.points
  obtain ⟨source, here⟩ := points.slash slash
  have kept : token.kind = .regularExpressionLiteral ∧ token.start = lexer.start := by
    simp only [token, Lexer.rescanSlash, if_pos slash, and_self]
  have behind : lexer.start.step.rest = source := by rw [Cursor.step, here]
  have stops : Stops [] lexer.start.step.offset source
      (Cursor.readPattern false lexer.start.step.rest lexer.start.step.offset) := by
    rw [behind]
    exact stops_readPattern isBody_nil not_escapes_nil (by simp [not_leavesClass_nil])
  refine ⟨source, by rw [← points.start.rest_eq, here], kept, ?_⟩
  generalize found : Cursor.readPattern false lexer.start.step.rest lexer.start.step.offset = stop at stops
  cases stops with
  | @closed body after isBody free =>
    rw [List.nil_append] at isBody free
    obtain ⟨errors, value, word⟩ := text_rescanSlash slash here found
    refine ⟨⟨fun _ => ⟨body, after, rfl, isBody, free⟩, fun _ => errors⟩, .inr ?_⟩
    refine ⟨body, after.takeWhile isIdentifierPart, after.dropWhile isIdentifierPart, ?_, isBody, free,
      fun c member => List.mem_takeWhile_imp member, fun c first => ?_, errors, value, word, isBody.oneLine⟩
    · rw [List.takeWhile_append_dropWhile]
    · have stopped := List.head?_dropWhile_not isIdentifierPart after
      rw [Option.mem_def.mp first] at stopped
      simpa using stopped
  | @broken body after isBody ended =>
    rw [List.nil_append] at isBody ended
    have errors := errors_rescanSlash slash here found
    refine ⟨⟨fun same => ?_, ?_⟩, .inl ⟨body, after, rfl, isBody, ended, errors⟩⟩
    · have sizes := congrArg Array.size (errors.symm.trans same)
      rw [Array.size_push] at sizes
      omega
    · rintro ⟨closing, rest, whole, closed, free⟩
      exact (closed.not_open whole.symm free isBody ended).elim

/-- One slash of this body stands in a class and one behind a backslash. -/
theorem guarded_slashes_read :
    let text := "/[/]\\/b/gi;".toList
    let lexer := (ofText text false).scan
    IsReached text false lexer ∧ lexer.kind = .slash ∧
      lexer.rescanSlash.text.toList = '/' :: "[/]\\/b".toList ++ '/' :: "gi".toList ∧
      ∃ body rest, "[/]\\/b/gi;".toList = body ++ '/' :: rest ∧ IsBody body ∧ IsFree body := by
  intro text lexer
  have reached : IsReached text false lexer := .scan .start
  have kind : lexer.kind = .slash := by decide +kernel
  have opening : Text.dropBytes lexer.start.offset text = '/' :: "[/]\\/b/gi;".toList := by decide +kernel
  have silent : lexer.rescanSlash.errors = lexer.errors := by decide +kernel
  obtain ⟨source, here, -, closes, -⟩ := slash_read_anew reached (.inl kind)
  cases opening.symm.trans here
  exact ⟨reached, kind, by decide +kernel, closes.mp silent⟩

/-- Behind a backslash a line end is read as part of the body, and nothing is reported. -/
theorem escaped_line_end_read :
    let lexer := (ofText "/\\\n/g".toList false).scan
    lexer.kind = .slash ∧ lexer.rescanSlash.errors = #[] ∧
      lexer.rescanSlash.text.toList = '/' :: ['\\', '\n'] ++ '/' :: ['g'] := by
  decide +kernel

end Lexer

end Unflatten
