import Unflatten.Proofs.Dispatch.Descending
import Unflatten.Proofs.Parser.Verbatim
import Unflatten.Proofs.Printer.Commenting
import Unflatten.Proofs.Program.Passes

/-! # Comments are kept

The comments of a text stand one behind the other, and no node of the parsed program begins within
one.  The passes change neither the file's comments nor the places where nodes begin, so whatever
order the statements are in, each comment is printed once and all of them in order
(`passes_keep_comments`). -/

set_option autoImplicit false

/-! ## Descent through runs of passes

Whatever passes a program runs through, its files keep their sources and its nodes begin where nodes
of the parsed program began. -/

namespace Unflatten

open Store

theorem Hoist.descends_hoist (store : Store) (access : NodeId) : store.Descends (hoist store access).1 := by
  unfold hoist
  split
  · exact .refl store
  · have replaced : ∀ (name : String) (assignment replacement : Slot), store.Descends
        (replaceChild (store.makeIdentifier name).1 (some access) assignment replacement).1 :=
      fun _ _ _ => (descends_make _).trans (descends_replaceChild _ _ _)
    dsimp only
    split
    · rename_i same
      exact .of_eq same (replaced _ _ _)
    · rename_i same
      exact ((Descends.of_eq same (replaced _ _ _)).trans (descends_make _)).trans (descends_insertBefore _ _)

theorem Store.descends_hoistAssignments (store : Store) (root : NodeId) :
    store.Descends (store.hoistAssignments root).1 := by
  unfold hoistAssignments
  refine descends_foldl (fun state : Store × Nat => state.1) ?_ (store, 0)
  exact fun state access _ => Hoist.descends_hoist state.1 access

theorem Store.descends_setTexts (store : Store) (sites : List NodeId) (text : String) :
    store.Descends (store.setTexts sites text) :=
  descends_foldl id (fun _ site _ => descends_setText (some site) text) store

theorem Store.descends_rename (store : Store) (root : NodeId) : store.Descends (store.rename root).1 := by
  unfold rename
  refine descends_foldl id (fun store item _ => ?_) store
  dsimp only
  split
  · exact .refl _
  · exact descends_setTexts _ _ _

theorem Workpiece.descends_rewriting (work : Workpiece)
    (rewrite : NodeId → Store × Journal → (Store × Journal) × Bool)
    (each : ∀ root (state : Store × Journal), state.1.Descends (rewrite root state).1.1) :
    work.store.Descends (work.rewriting rewrite).1.store :=
  each work.root (work.store, work.findings.journal)

theorem Pass.descends_run (pass : Pass) (work : Workpiece) : work.store.Descends (pass.run work).store := by
  cases pass with
  | rename => exact descends_rename work.store work.root
  | rule rule => exact work.descends_rewriting rule.run rule.descends_run
  | normalize =>
    rw [run, Workpiece.normalize]
    exact work.descends_rewriting Unflatten.normalize descends_normalize
  | classify => exact .refl _
  | flattenChains => exact descends_flattenChains work.store work.root work.findings
  | trackKeys => exact .refl _
  | restoreDispatchers => exact descends_restoreDispatchers work.store work.root work.findings
  | hoistAssignments => exact descends_hoistAssignments work.store work.root

theorem runs_descend (passes : List Pass) (work : Workpiece) :
    work.store.Descends (passes.foldl Pass.run work).store :=
  descends_foldl Workpiece.store (fun work pass _ => pass.descends_run work) work

end Unflatten

namespace Unflatten

section Program
variable {text : List Char}

/-- The comments of a text without errors stand one behind the other. -/
theorem lastState_areOrdered (clean : (parse text).errors = []) :
    Lexer.AreOrdered text (lastState text).lexer.comments (Text.byteCount text) := by
  have last := (stretch_file clean).clean.lexer
  exact last.comments.mono last.start.isBoundary.le

/-- No comment reaches over the start of a node. -/
theorem parse_spared (clean : (parse text).errors = []) {place : Nat} (begins : (parse text).store.Begins place) :
    CommentRange.Spares (lastState text).lexer.comments place := by
  rcases begins with rfl | ⟨slot, node, found, rfl⟩
  · exact CommentRange.spares_zero _
  cases slot with
  | none => cases found
  | some id =>
    have spans : (parse text).store.span? id = some (node.start, node.stop) := by
      rw [Store.span?, show (parse text).store.nodes[id]? = some node from found, Option.map_some]
    rw [parse_store, Store.span?_add] at spans
    split at spans
    · rw [← (Prod.mk.inj (Option.some_inj.mp spans)).1]
      exact CommentRange.spares_zero _
    · exact ((stretch_file clean).clean.starts id _ spans).2

/-- After any passes the comments can still be put before statements. -/
theorem places_of_passes (clean : (parse text).errors = []) (passes : List Pass) :
    Printing.Places (passes.foldl Pass.run (Workpiece.ofProgram (parse text))).store
      ⟨text, (lastState text).lexer.comments⟩ := by
  obtain ⟨tree, stands⟩ := Workpiece.stands_ofProgram text
  obtain ⟨remade, survives⟩ := runs_survive passes stands
  have descends := runs_descend passes (Workpiece.ofProgram (parse text))
  exact ⟨lastState_areOrdered clean, fun slot node found => parse_spared clean (descends.starts slot node found),
    survives.stands.program.tidy⟩

/-- A program without syntax errors, of a size that offsets of 32 bits can tell, is run through any
passes.  Printed with comments it reads as it does without, but for a line for each comment that was
recorded for its text, all of them once and in the order of the text. -/
theorem passes_keep_comments (text : List Char) (passes : List Pass) (options : PrinterOptions)
    (clean : (parse text).errors = []) (small : Text.byteCount text ≤ Page.endOfSource) :
    ∃ comments statements,
      (parse text).store.shape? (some (parse text).root) = some (.file ⟨text, comments⟩ statements) ∧
      comments.toList.Pairwise (fun first second => first.start < second.start) ∧
      ∃ insertions rest, insertions.map (·.comment) = comments.toList ∧
        ((passes.foldl Pass.run (Workpiece.ofProgram (parse text))).print
          { options with removeComments := true }).toList = Insertion.without insertions rest ∧
        ((passes.foldl Pass.run (Workpiece.ofProgram (parse text))).print
          { options with removeComments := false }).toList = Insertion.together text insertions rest := by
  obtain ⟨tree, stands⟩ := Workpiece.stands_ofProgram text
  obtain ⟨remade, survives⟩ := runs_survive passes stands
  have ordered := lastState_areOrdered clean
  have descends := runs_descend passes (Workpiece.ofProgram (parse text))
  have file := shape?_parse_root text
  refine ⟨_, _, file, ordered.order.imp_of_mem fun {first second} here _ apart => ?_, ?_⟩
  · exact Nat.lt_of_lt_of_le (ordered.filled first (Array.mem_toList_iff.mp here)) apart
  · have kept := descends.source (some (parse text).root) ⟨text, (lastState text).lexer.comments⟩
      (by rw [show (Workpiece.ofProgram (parse text)).store.shape? _ = _ from file]; rfl)
    obtain ⟨shape, found, sourced⟩ := Option.bind_eq_some_iff.mp kept
    obtain ⟨statements, rfl⟩ : ∃ statements, shape = .file ⟨text, (lastState text).lexer.comments⟩ statements := by
      cases shape <;> cases sourced
      exact ⟨_, rfl⟩
    rw [Workpiece.print, Workpiece.print, survives.root]
    exact Store.print_comments (places_of_passes clean passes) small found options

/-- Two comments around a sequence that is split into statements. -/
theorem passes_keep_comments_sequence :
    (parse "// one\nf(), g(); // two".toList).errors = [] ∧
      Text.byteCount "// one\nf(), g(); // two".toList ≤ Page.endOfSource ∧ ∃ insertions rest,
        insertions.map (fun insertion => (insertion.comment.start, insertion.comment.stop)) = [(0, 6), (17, 23)] ∧
        (([Pass.normalize].foldl Pass.run (Workpiece.ofProgram (parse "// one\nf(), g(); // two".toList))).print
          { PrinterOptions.standard with removeComments := false }).toList =
          Insertion.together "// one\nf(), g(); // two".toList insertions rest := by
  have clean : (parse "// one\nf(), g(); // two".toList).errors = [] := by decide +kernel
  have small : Text.byteCount "// one\nf(), g(); // two".toList ≤ Page.endOfSource := by decide +kernel
  obtain ⟨comments, statements, file, -, insertions, rest, all, -, together⟩ :=
    passes_keep_comments _ [.normalize] .standard clean small
  rw [shape?_parse_root] at file
  cases file
  have places := congrArg (List.map fun comment => (comment.start, comment.stop)) all
  rw [List.map_map] at places
  exact ⟨clean, small, insertions, rest, places.trans (by decide +kernel), together⟩

end Program

end Unflatten
