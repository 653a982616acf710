import Unflatten.Printer.Page
import Unflatten.Proofs.Token.Windows

/-! # Comments put between what is printed

The page with comments says what the page without them says, and a line for each comment between.
`Page.Shows` relates the two pages, and everything that is written to both keeps them so.  At the
start of a line comments may be put on the one page only (`Page.Shows.andComments`). -/

set_option autoImplicit false

namespace Unflatten

namespace CommentRange

/-- A comment as it is printed at an indent. -/
def shown (source indent : List Char) (range : CommentRange) : List Char :=
  if range.isBlock then reindent (range.text source) indent else Text.trimEnd (range.text source)

theorem reindent_ne_nil {comment indent : List Char} (some : comment ≠ []) :
    reindent comment indent ≠ [] := by
  have longer : ∀ (lines : List (List Char)) (text : List Char), text ≠ [] →
      lines.foldl (fun text line =>
        if (Text.trim line).isEmpty then text ++ '\n' :: line
        else text ++ '\n' :: indent ++ Text.trimStart line) text ≠ [] := by
    intro lines
    induction lines with
    | nil => exact fun _ some => some
    | cons line rest ih =>
      intro text _
      rw [List.foldl_cons]
      refine ih _ ?_
      split <;> simp
  unfold reindent
  split
  · rw [List.foldl_cons]
    refine longer _ _ ?_
    split <;> simp
  · exact some

theorem trimEnd_ne_nil {rest : List Char} : Text.trimEnd ('/' :: rest) ≠ [] := by
  rw [Text.trimEnd, Ne, List.reverse_eq_nil_iff, List.dropWhile_eq_nil_iff]
  intro blank
  have slash := blank '/' (by simp)
  revert slash
  decide

/-- A comment has a text to show. -/
theorem shown_ne_nil {source indent : List Char} {comments : Array CommentRange} {limit : Nat}
    (ordered : Lexer.AreOrdered source comments limit) (within : limit ≤ Text.byteCount source)
    {range : CommentRange} (member : range ∈ comments) : range.shown source indent ≠ [] := by
  have filled := ordered.filled range member
  have before := ordered.before range member
  obtain ⟨rest, here⟩ := ordered.slash range member
  have opens : range.text source = '/' :: Text.takeBytes (range.stop - range.start - '/'.utf8Size) rest := by
    rw [text, if_pos ⟨Nat.le_trans before within, filled⟩, here, Text.takeBytes, if_neg (by omega)]
  rw [shown, opens]
  split
  · exact reindent_ne_nil (List.cons_ne_nil _ _)
  · exact trimEnd_ne_nil

end CommentRange

/-- A comment put on a line of its own, with what is printed between it and the comment before. -/
structure Insertion where
  before : List Char
  indent : Nat
  comment : CommentRange

namespace Insertion

/-- The line of the comment. -/
def line (source : List Char) (insertion : Insertion) : List Char :=
  let indent := List.replicate insertion.indent ' '
  indent ++ insertion.comment.shown source indent ++ ['\n']

/-- What is printed without the comments. -/
def without (insertions : List Insertion) (rest : List Char) : List Char :=
  insertions.flatMap (·.before) ++ rest

/-- What is printed with the comments. -/
def together (source : List Char) (insertions : List Insertion) (rest : List Char) : List Char :=
  (insertions.flatMap fun insertion => insertion.before ++ insertion.line source) ++ rest

end Insertion

namespace Page

/-- A page without comments and a page with some. -/
structure Shows (source : List Char) (comments : List CommentRange) (plain full : Page) : Prop where
  level : full.writer.level = plain.writer.level
  width : full.writer.width = plain.writer.width
  line : full.writer.atLineStart = plain.writer.atLineStart
  output : ∃ insertions rest, plain.writer.output.toList = Insertion.without insertions rest ∧
    full.writer.output.toList = Insertion.together source insertions rest ∧
    insertions.map (·.comment) = comments

section Shows
variable {source : List Char} {comments : List CommentRange} {plain full : Page}

theorem shows_empty (source : List Char) (width : Nat) : Shows source [] (empty width) (empty width) :=
  ⟨rfl, rfl, rfl, [], [], rfl, rfl, rfl⟩

/-- The same is added to both pages. -/
theorem Shows.add {plain' full' : Page} (shows : Shows source comments plain full) (added : String)
    (level : full'.writer.level = plain'.writer.level) (width : full'.writer.width = plain'.writer.width)
    (line : full'.writer.atLineStart = plain'.writer.atLineStart)
    (output : plain'.writer.output = plain.writer.output ++ added)
    (output' : full'.writer.output = full.writer.output ++ added) : Shows source comments plain' full' := by
  obtain ⟨insertions, rest, without, together, same⟩ := shows.output
  refine ⟨level, width, line, insertions, rest ++ added.toList, ?_, ?_, same⟩
  · rw [output, String.toList_append, without, Insertion.without, Insertion.without, List.append_assoc]
  · rw [output', String.toList_append, together, Insertion.together, Insertion.together, List.append_assoc]

theorem Shows.indented (shows : Shows source comments plain full) :
    Shows source comments plain.indented full.indented :=
  shows.add "" (congrArg (· + 1) shows.level) shows.width shows.line (String.append_empty).symm
    (String.append_empty).symm

theorem Shows.dedented (shows : Shows source comments plain full) :
    Shows source comments plain.dedented full.dedented :=
  shows.add "" (congrArg (· - 1) shows.level) shows.width shows.line (String.append_empty).symm
    (String.append_empty).symm

theorem Shows.indent_eq (shows : Shows source comments plain full) : full.writer.indent = plain.writer.indent := by
  rw [Writer.indent, Writer.indent, shows.level, shows.width]

/-- Behind the beginning of a line something is added to it. -/
theorem Shows.onLine (shows : Shows source comments plain full) (added : String) :
    Shows source comments
      { plain with writer := { plain.writer.beginLine with output := plain.writer.beginLine.output ++ added } }
      { full with writer := { full.writer.beginLine with output := full.writer.beginLine.output ++ added } } := by
  unfold Writer.beginLine
  rw [shows.line]
  split
  · refine shows.add (plain.writer.indent ++ added) shows.level shows.width rfl ?_ ?_
    · exact String.append_assoc
    · rw [← shows.indent_eq]
      exact String.append_assoc
  · exact shows.add added shows.level shows.width shows.line rfl rfl

theorem Shows.write (shows : Shows source comments plain full) (text : String) :
    Shows source comments (plain.write text) (full.write text) := by
  unfold Page.write Writer.write
  split
  · exact shows
  · exact shows.onLine text

theorem Shows.space (shows : Shows source comments plain full) :
    Shows source comments plain.space full.space := by
  have pushed : ∀ writer : Writer, writer.space =
      { writer.beginLine with output := writer.beginLine.output ++ " " } := fun writer => by
    rw [Writer.space, Writer.writeChar]
    rfl
  unfold Page.space
  rw [pushed, pushed]
  exact shows.onLine " "

theorem Shows.newLine (shows : Shows source comments plain full) :
    Shows source comments plain.newLine full.newLine := by
  unfold Page.newLine Writer.newLine
  rw [shows.line]
  split
  · exact shows
  · exact shows.add "\n" shows.level shows.width rfl rfl rfl

@[simp] theorem newLine_atLineStart (page : Page) : page.newLine.writer.atLineStart = true := by
  unfold Page.newLine Writer.newLine
  split
  · assumption
  · rfl

theorem newLine_indented_atLineStart (page : Page) : page.newLine.indented.writer.atLineStart = true :=
  newLine_atLineStart page

/-! ## Comments -/

/-- A text at the start of a line and the end of the line. -/
theorem newLine_write (page : Page) (start : page.writer.atLineStart = true) {text : List Char}
    (some : text ≠ []) : (page.write (String.ofList text)).newLine = { page with writer :=
      { page.writer with output :=
          (page.writer.output ++ page.writer.indent ++ String.ofList text).push '\n' } } := by
  have filled : (String.ofList text).isEmpty = false := by
    rw [← Bool.not_eq_true, String.isEmpty_iff]
    exact fun none => some (by simpa using congrArg String.toList none)
  unfold Page.newLine Page.write Writer.write Writer.beginLine
  rw [filled, if_neg Bool.false_ne_true, if_pos start]
  unfold Writer.newLine
  rw [if_neg Bool.false_ne_true, ← start]

/-- A comment at the start of a line stands on a line of its own. -/
theorem Shows.comment (shows : Shows source comments plain full) (start : full.writer.atLineStart = true)
    {text : Source} (same : text.text = source) {range : CommentRange}
    (shown : ∀ indent, range.shown source indent ≠ []) :
    Shows source (comments ++ [range]) plain (full.comment text range) ∧
      (full.comment text range).writer.atLineStart = true := by
  refine ⟨?_, newLine_atLineStart _⟩
  subst same
  obtain ⟨insertions, rest, without, together, taken⟩ := shows.output
  have spaces : full.writer.indent.toList = List.replicate (full.writer.level * full.writer.width) ' ' :=
    String.toList_ofList
  have written : full.comment text range = _ := newLine_write full start (shown full.writer.indent.toList)
  rw [written]
  refine ⟨shows.level, shows.width, shows.line, insertions ++ [⟨rest, full.writer.level * full.writer.width,
    range⟩], [], ?_, ?_, ?_⟩
  · rw [without, Insertion.without, Insertion.without, List.flatMap_append, List.flatMap_singleton,
      List.append_nil]
  · simp only [String.toList_push, String.toList_append, String.toList_ofList, together, spaces,
      Insertion.together, Insertion.line, List.flatMap_append, List.flatMap_singleton, List.append_assoc,
      List.append_nil]
    rfl
  · rw [List.map_append, taken]
    rfl

theorem Shows.andComments {pending : List CommentRange} {text : Source} (same : text.text = source)
    (shown : ∀ range ∈ pending, ∀ indent, range.shown source indent ≠ [])
    (shows : Shows source comments plain full) (start : full.writer.atLineStart = true) :
    Shows source (comments ++ pending) plain (pending.foldl (fun page range => page.comment text range) full) ∧
      (pending.foldl (fun page range => page.comment text range) full).writer.atLineStart = true := by
  induction pending generalizing comments full with
  | nil =>
    rw [List.append_nil]
    exact ⟨shows, start⟩
  | cons range rest ih =>
    obtain ⟨first, started⟩ := shows.comment start same (shown range List.mem_cons_self)
    rw [List.append_cons]
    exact ih (fun other member => shown other (List.mem_cons_of_mem range member)) first started

end Shows

/-! ## Comments up to a position -/

/-- A page without comments, and a page with the comments before its position. -/
structure Tracks (source : Source) (plain full : Page) : Prop where
  shows : Shows source.text
    (source.comments.toList.take (CommentRange.countBefore source.comments full.commentsDone)) plain full
  spared : CommentRange.Spares source.comments full.commentsDone

section Tracks
variable {source : Source} {plain full : Page} {printing : Printing} {limit position : Nat}

theorem tracks_empty (ordered : Lexer.AreOrdered source.text source.comments limit) (width : Nat) :
    Tracks source (empty width) (empty width) := by
  refine ⟨?_, CommentRange.spares_zero _⟩
  rw [show (empty width).commentsDone = 0 from rfl, CommentRange.countBefore_zero ordered, List.take_zero]
  exact shows_empty source.text width

theorem Tracks.write (tracks : Tracks source plain full) (text : String) :
    Tracks source (plain.write text) (full.write text) := ⟨tracks.shows.write text, tracks.spared⟩

theorem Tracks.space (tracks : Tracks source plain full) : Tracks source plain.space full.space :=
  ⟨tracks.shows.space, tracks.spared⟩

theorem Tracks.newLine (tracks : Tracks source plain full) : Tracks source plain.newLine full.newLine :=
  ⟨tracks.shows.newLine, tracks.spared⟩

theorem Tracks.indented (tracks : Tracks source plain full) : Tracks source plain.indented full.indented :=
  ⟨tracks.shows.indented, tracks.spared⟩

theorem Tracks.dedented (tracks : Tracks source plain full) : Tracks source plain.dedented full.dedented :=
  ⟨tracks.shows.dedented, tracks.spared⟩

theorem Tracks.ite {plain' full' : Page} {condition : Prop} [Decidable condition]
    (yes : condition → Tracks source plain full) (no : ¬condition → Tracks source plain' full') :
    Tracks source (if condition then plain else plain') (if condition then full else full') := by
  split
  · exact yes ‹_›
  · exact no ‹_›

/-- At the start of a line the comments up to a position are put on the page, if none reaches over
the position. -/
theorem Tracks.commentsUpTo (ordered : Lexer.AreOrdered source.text source.comments limit)
    (within : limit ≤ Text.byteCount source.text) (tracks : Tracks source plain full)
    (start : plain.writer.atLineStart = true) (spared : CommentRange.Spares source.comments position)
    (here : printing.source? = some source) (keeps : printing.options.removeComments = false) :
    Tracks source plain (full.commentsUpTo printing position) := by
  unfold Page.commentsUpTo
  rw [here]
  simp only [keeps, Bool.false_or, decide_eq_true_eq]
  split
  · exact tracks
  · have le : full.commentsDone ≤ position := by omega
    have window := CommentRange.take_countBefore ordered tracks.spared le
    have shown : ∀ range ∈ CommentRange.between source.comments full.commentsDone position,
        ∀ indent, range.shown source.text indent ≠ [] := fun range member indent => by
      refine CommentRange.shown_ne_nil ordered within (Array.mem_toList_iff.mp ?_)
      refine List.mem_of_mem_take (i := CommentRange.countBefore source.comments position) ?_
      rw [window]
      exact List.mem_append_right _ member
    obtain ⟨shows, -⟩ := tracks.shows.andComments rfl shown (tracks.shows.line.trans start)
    rw [← window] at shows
    exact ⟨⟨shows.level, shows.width, shows.line, shows.output⟩, spared⟩

end Tracks

end Page

end Unflatten
