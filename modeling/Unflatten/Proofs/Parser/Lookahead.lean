import Unflatten.Parser.State
import Unflatten.Proofs.Token.Scanning

/-! # Looking ahead

A snapshot holds the present token, but of the comments and errors only how many there are.  That
is enough because whatever is scanned afterwards only adds to them (`Lexer.Extends`), and so does
going back to a snapshot that was taken later (`Snapshot.IsLater`).  So going back undoes all that
was scanned, however often it went back and forth (`looking_ahead_undone`). -/

set_option autoImplicit false

namespace Unflatten

namespace Lexer

/-- A lexer keeps what another one has collected, and may have collected more. -/
structure Extends (first later : Lexer) : Prop where
  keepTrivia : later.keepTrivia = first.keepTrivia
  comments : ∃ found, later.comments = first.comments ++ found
  errors : ∃ found, later.errors = first.errors ++ found

/-- A snapshot was taken with no fewer comments and errors than a lexer has. -/
structure Snapshot.IsLater (first : Lexer) (snapshot : Snapshot) : Prop where
  comments : first.comments.size ≤ snapshot.commentCount
  errors : first.errors.size ≤ snapshot.errorCount

section Extends
variable {first middle later : Lexer} {snapshot : Snapshot}

theorem Extends.refl (lexer : Lexer) : lexer.Extends lexer :=
  ⟨rfl, ⟨#[], Array.append_empty.symm⟩, ⟨#[], Array.append_empty.symm⟩⟩

theorem Extends.trans (one : first.Extends middle) (two : middle.Extends later) :
    first.Extends later := by
  obtain ⟨keeps, ⟨comments, listed⟩, ⟨errors, reported⟩⟩ := one
  obtain ⟨keepsToo, ⟨comments', listed'⟩, ⟨errors', reported'⟩⟩ := two
  refine ⟨keepsToo.trans keeps, ⟨comments ++ comments', ?_⟩, ⟨errors ++ errors', ?_⟩⟩
  · rw [listed', listed, Array.append_assoc]
  · rw [reported', reported, Array.append_assoc]

theorem extends_scan (lexer : Lexer) : lexer.Extends lexer.scan := by
  obtain ⟨keeps, -, ⟨comments, listed, -⟩, errors⟩ := lexer.scansTo_scan
  exact ⟨keeps, ⟨comments, listed⟩, errors⟩

theorem extends_rescanSlash (lexer : Lexer) : lexer.Extends lexer.rescanSlash := by
  unfold rescanSlash
  split
  · refine ⟨rfl, ⟨#[], Array.append_empty.symm⟩, ?_⟩
    dsimp only
    split
    · exact ⟨#[], Array.append_empty.symm⟩
    · exact ⟨#[_], Array.push_eq_append⟩
  · exact .refl lexer

theorem Extends.isLater_save (ahead : first.Extends later) : later.save.IsLater first := by
  obtain ⟨-, ⟨comments, listed⟩, ⟨errors, reported⟩⟩ := ahead
  constructor
  · change first.comments.size ≤ later.comments.size
    rw [listed, Array.size_append]
    exact Nat.le_add_right _ _
  · change first.errors.size ≤ later.errors.size
    rw [reported, Array.size_append]
    exact Nat.le_add_right _ _

/-- What is cut off behind the first items of a list that was added to keeps those items. -/
theorem exists_take_append {α : Type} (front back : Array α) {count : Nat} (many : front.size ≤ count) :
    ∃ kept, (front ++ back).take count = front ++ kept := by
  refine ⟨back.take (count - front.size), ?_⟩
  apply Array.ext'
  simp only [Array.take_eq_extract, Array.toList_extract, Array.toList_append, List.extract_eq_take_drop,
    List.drop_zero, Nat.sub_zero]
  rw [List.take_append, List.take_of_length_le (by simpa using many)]
  simp

theorem Extends.restore (ahead : first.Extends later) (behind : snapshot.IsLater first) :
    first.Extends (later.restore snapshot) := by
  obtain ⟨keeps, ⟨comments, listed⟩, ⟨errors, reported⟩⟩ := ahead
  refine ⟨keeps, ?_, ?_⟩
  · change ∃ found, later.comments.take snapshot.commentCount = first.comments ++ found
    rw [listed]
    exact exists_take_append _ _ behind.comments
  · change ∃ found, later.errors.take snapshot.errorCount = first.errors ++ found
    rw [reported]
    exact exists_take_append _ _ behind.errors

/-- Whatever has been added, going back to the first state takes it away. -/
theorem Extends.restore_save (ahead : first.Extends later) : later.restore first.save = first := by
  obtain ⟨keeps, ⟨comments, listed⟩, ⟨errors, reported⟩⟩ := ahead
  obtain ⟨keepTrivia, fullStart, start, cursor, kind, value, lineBreak, ranges, causes⟩ := first
  simp only at keeps listed reported
  simp [Lexer.restore, save, keeps, listed, reported]

end Extends

/-! ## Trials -/

/-- A lexer with the snapshots that have been taken and not been gone back to, last one first. -/
structure Trial where
  lexer : Lexer
  snapshots : List Snapshot

/-- What may be tried at a token.  Going back leads to the snapshot taken last and drops it. -/
inductive Trial.Step where
  | scan
  | rescan
  | save
  | restore
  deriving DecidableEq, Repr

namespace Trial

/-- The trial after a step; without a snapshot there is nothing to go back to. -/
def step (trial : Trial) : Step → Trial
  | .scan => { trial with lexer := trial.lexer.scan }
  | .rescan => { trial with lexer := trial.lexer.rescanSlash }
  | .save => { trial with snapshots := trial.lexer.save :: trial.snapshots }
  | .restore =>
    match trial.snapshots with
    | [] => trial
    | snapshot :: earlier => ⟨trial.lexer.restore snapshot, earlier⟩

/-- The trial after some steps. -/
def run (trial : Trial) (steps : List Step) : Trial := steps.foldl step trial

/-- A trial that a lexer has led to: all it holds came after the lexer. -/
structure IsAfter (first : Lexer) (trial : Trial) : Prop where
  ahead : first.Extends trial.lexer
  later : ∀ snapshot ∈ trial.snapshots, snapshot.IsLater first

section After
variable {first : Lexer} {trial : Trial}

theorem IsAfter.step (after : trial.IsAfter first) (step : Step) : (trial.step step).IsAfter first := by
  obtain ⟨ahead, later⟩ := after
  cases step with
  | scan => exact ⟨ahead.trans (extends_scan _), later⟩
  | rescan => exact ⟨ahead.trans (extends_rescanSlash _), later⟩
  | save =>
    refine ⟨ahead, fun snapshot member => ?_⟩
    rcases List.mem_cons.mp member with rfl | earlier
    · exact ahead.isLater_save
    · exact later snapshot earlier
  | restore =>
    unfold Trial.step
    dsimp only
    split
    · exact ⟨ahead, later⟩
    · rename_i snapshot earlier taken
      rw [taken] at later
      exact ⟨ahead.restore (later snapshot List.mem_cons_self),
        fun other member => later other (List.mem_cons_of_mem _ member)⟩

theorem IsAfter.run (after : trial.IsAfter first) (steps : List Step) :
    (trial.run steps).IsAfter first := by
  induction steps generalizing trial with
  | nil => exact after
  | cons step steps ih => exact ih (after.step step)

end After

end Trial

end Lexer

namespace Parser

/-! ## Steps of the parser that only scan -/

/-- A step that is put together of scanning, looking at the state and looking ahead. -/
inductive IsScanning : {α : Type} → Parser α → Prop
  | look {α : Type} (view : ParserState → α) : IsScanning fun s => (view s, s)
  | advance : IsScanning advance
  | rescanSlash : IsScanning rescanSlash
  | lookAhead {α : Type} {step : Parser α} (scanning : IsScanning step) : IsScanning (lookAhead step)
  | bind {α β : Type} {step : Parser α} {next : α → Parser β} (first : IsScanning step)
      (rest : ∀ result, IsScanning (next result)) : IsScanning (step >>= next)

/-- One state is another but for the place of the lexer, which has only added to what it collected. -/
def IsAhead (first later : ParserState) : Prop :=
  first.lexer.Extends later.lexer ∧
    later = { first with lexer := later.lexer, lastEnd := later.lastEnd }

section Ahead
variable {first middle later : ParserState} {α : Type} {step : Parser α}

theorem IsAhead.trans (one : IsAhead first middle) (two : IsAhead middle later) :
    IsAhead first later := by
  refine ⟨one.1.trans two.1, ?_⟩
  rw [two.2, one.2]

/-- Going back from a state ahead leads to the state itself. -/
theorem IsAhead.back (ahead : IsAhead first later) :
    { later with lexer := later.lexer.restore first.lexer.save, lastEnd := first.lastEnd } = first := by
  rw [ahead.1.restore_save, ahead.2]

theorem IsScanning.isAhead (scanning : IsScanning step) (s : ParserState) : IsAhead s (step s).2 := by
  induction scanning generalizing s with
  | look view => exact ⟨.refl _, rfl⟩
  | advance => exact ⟨s.lexer.extends_scan, rfl⟩
  | rescanSlash => exact ⟨s.lexer.extends_rescanSlash, rfl⟩
  | @lookAhead α step _ ih =>
    have back : (Parser.lookAhead step s).2 = s := (ih s).back
    rw [back]
    exact ⟨.refl _, rfl⟩
  | @bind α β step next _ _ ih rest => exact (ih s).trans (rest (step s).1 (step s).2)

end Ahead

end Parser

/-- Going back to a snapshot gives back the lexer that it was taken of, with its comments and its
errors, whatever was scanned, read anew, saved and restored in between.  So looking ahead leaves the
parser as it was, and tells what the step finds. -/
theorem looking_ahead_undone :
    (∀ (lexer : Lexer) (steps : List Lexer.Trial.Step),
      ((Lexer.Trial.mk lexer []).run steps).lexer.restore lexer.save = lexer) ∧
    (∀ (α : Type) (step : Parser α), Parser.IsScanning step →
      ∀ s, Parser.lookAhead step s = ((step s).1, s)) ∧
    ∀ s, Parser.peek s = (s.lexer.scan.kind, s) := by
  have ahead : ∀ (α : Type) (step : Parser α), Parser.IsScanning step →
      ∀ s, Parser.lookAhead step s = ((step s).1, s) :=
    fun α step scanning s => Prod.ext rfl (scanning.isAhead s).back
  refine ⟨fun lexer steps => ?_, ahead, fun s => ?_⟩
  · have after : (Lexer.Trial.mk lexer []).IsAfter lexer := ⟨.refl lexer, List.forall_mem_nil _⟩
    exact (after.run steps).ahead.restore_save
  · rw [Parser.peek_eq_lookAhead]
    exact ahead _ _ (.bind .advance fun _ => .look fun s => s.lexer.kind) s

/-- At a slash one can look ahead whether it starts a pattern. -/
theorem slash_looked_ahead :
    let step : Parser TokenKind :=
      Parser.lookAhead Parser.advance >>= fun _ => Parser.rescanSlash >>= fun _ s => (s.lexer.kind, s)
    let s := (Parser.advance (Parser.initial "/b/ c".toList)).2
    Parser.IsScanning step ∧ s.lexer.kind = .slash ∧
      Parser.lookAhead step s = (.regularExpressionLiteral, s) := by
  intro step s
  have scanning : Parser.IsScanning step := .bind (.lookAhead .advance) fun _ =>
    .bind .rescanSlash fun _ => .look fun s => s.lexer.kind
  refine ⟨scanning, by decide +kernel, ?_⟩
  rw [looking_ahead_undone.2.1 _ step scanning s]
  exact Prod.ext (by decide +kernel) rfl

end Unflatten
