import Unflatten.Canonical.Normalize
import Unflatten.Proofs.Syntax.Descending

/-! # Descent through the canonical form

Each rule makes nodes, copies some and puts them elsewhere, so what a rule leaves descends from what
it found, and so does what all rounds leave. -/

set_option autoImplicit false

namespace Unflatten

open Store

namespace Canonical

section Expressions
variable (store : Store) (id : NodeId)

theorem descends_removeVoid : store.Descends (removeVoid store id).1 := by
  unfold removeVoid
  split
  · dsimp only
    split
    · exact (descends_make _).trans (descends_replaceNode _ _)
    · split
      · exact .refl store
      · exact descends_replaceNode _ _
  · exact .refl store

theorem descends_conditionalAssign : store.Descends (conditionalAssign store id).1 := by
  unfold conditionalAssign
  split
  · dsimp only
    split
    · split
      · exact ((((descends_copy _).trans (descends_make _)).trans (descends_make _)).trans
          (descends_make _)).trans (descends_replaceNode _ _)
      · exact .refl store
    · exact .refl store
  · exact .refl store

theorem descends_ifTestBinary : store.Descends (ifTestBinary store id).1 := by
  unfold ifTestBinary
  split
  · exact .refl store
  · split
    · exact .refl store
    · split
      · exact .refl store
      · split
        · exact (descends_swapOperands _).trans (descends_setOperator _ _)
        · exact .refl store

end Expressions

section Lowering
variable (store : Store) (id : NodeId)

theorem descends_sequenceToBlock (sequence statement : Slot) :
    store.Descends (sequenceToBlock store sequence statement).1 := by
  unfold sequenceToBlock
  split
  · exact .refl store
  · rename_i items _
    have made : store.Descends (items.foldl (fun (state : Store × Array Slot) item =>
        ((state.1.makeExpressionStatement item).1,
          state.2.push (some (state.1.makeExpressionStatement item).2))) (store, #[])).1 :=
      descends_foldl (fun state : Store × Array Slot => state.1) (fun _ _ _ => descends_make _) (store, #[])
    exact (made.trans (descends_make _)).trans (descends_replaceNode _ _)

theorem descends_andToConditional (left right statement : Slot) :
    store.Descends (andToConditional store left right statement).1 :=
  ((descends_make _).trans (descends_make _)).trans (descends_replaceNode _ _)

theorem descends_lowerAnd (expression : Slot) : store.Descends (lowerAnd store expression id).1 := by
  unfold lowerAnd
  split
  · exact .refl store
  · dsimp only
    split
    · exact .refl store
    · split
      · exact .refl store
      · exact descends_andToConditional _ _ _ _

theorem descends_conditionalIf : store.Descends (conditionalIf store id).1 := by
  unfold conditionalIf
  split
  · dsimp only
    split
    · exact .refl store
    · exact (((descends_make _).trans (descends_make _)).trans (descends_make _)).trans
        (descends_replaceNode _ _)
    · split
      · exact descends_lowerAnd _ _ _
      · exact descends_sequenceToBlock _ _ _
      · exact .refl store
    · exact descends_lowerAnd _ _ _
    · exact .refl store
  · exact .refl store

theorem descends_logicalIf : store.Descends (logicalIf store id).1 := by
  unfold logicalIf
  split
  · dsimp only
    split
    · exact descends_andToConditional _ _ _ _
    · exact .refl store
  · exact .refl store

theorem descends_sequence : store.Descends (sequence store id).1 := by
  unfold sequence
  dsimp only
  split
  · exact descends_sequenceToBlock _ _ _
  · exact .refl store

theorem descends_hoistLeading (statement expression : Slot) :
    store.Descends (hoistLeading store statement expression).1 := by
  unfold hoistLeading
  split
  · exact .refl store
  · split
    · exact .refl store
    · split
      · exact .refl store
      · exact descends_replaceChild _ _ _
      · dsimp only
        split
        · exact ((descends_make _).trans (descends_insertBefore _ _)).trans (descends_replaceChild _ _ _)
        · exact (((descends_make _).trans (descends_make _)).trans (descends_insertBefore _ _)).trans
            (descends_replaceChild _ _ _)

theorem descends_ifTestSequence : store.Descends (ifTestSequence store id).1 := by
  unfold ifTestSequence
  split
  · exact .refl store
  · exact descends_hoistLeading _ _ _

theorem descends_returnSequence : store.Descends (returnSequence store id).1 := by
  unfold returnSequence
  split
  · exact descends_hoistLeading _ _ _
  · exact .refl store

end Lowering

section Blocks
variable (store : Store) (id : NodeId)

theorem descends_wrapBody (body : Slot) : store.Descends (wrapBody store id body).1 := by
  unfold wrapBody
  split
  · exact .refl store
  · exact .refl store
  · exact (descends_make _).trans (descends_replaceChild _ _ _)

theorem descends_ifBody : store.Descends (ifBody store id).1 := by
  unfold ifBody
  refine descends_foldl (fun state : Store × Bool => state.1) ?_ (store, false)
  exact fun state body _ => descends_wrapBody state.1 id body

theorem descends_switchCase : store.Descends (switchCase store id).1 := by
  unfold switchCase
  split
  · dsimp only
    split
    · split
      · exact .refl store
      · exact (descends_make _).trans (descends_setStatements _ _)
    · exact (descends_make _).trans (descends_setStatements _ _)
  · exact .refl store

theorem descends_flattenBlock : store.Descends (flattenBlock store id).1 := by
  unfold flattenBlock
  dsimp only
  split
  · split
    · exact descends_setStatements _ _
    · exact .refl store
  · split
    · exact descends_setStatements _ _
    · exact .refl store
  · exact .refl store

theorem descends_inlineCall : store.Descends (inlineCall store id).1 := by
  unfold inlineCall
  split
  · exact .refl store
  · split
    · exact .refl store
    · exact descends_replaceNode _ _

end Blocks

end Canonical

/-- What is repeated until it changes nothing descends. -/
theorem descends_untilStable {α : Type} (view : α → Store) {step : α → α × Bool}
    (each : ∀ state, (view state).Descends (view (step state).1)) (limit : Nat) (state : α) :
    (view state).Descends (view (untilStable step limit state).1) := by
  induction limit generalizing state with
  | zero => exact .refl _
  | succ limit ih =>
    rw [untilStable]
    dsimp only
    split
    · exact (each state).trans (ih _)
    · exact each state

namespace Rule

theorem descends_rewrite (rule : Rule) (store : Store) (id : NodeId) :
    store.Descends (rule.rewrite store id).1 := by
  cases rule with
  | removeVoid => exact Canonical.descends_removeVoid store id
  | conditionalAssign => exact Canonical.descends_conditionalAssign store id
  | conditionalIf => exact Canonical.descends_conditionalIf store id
  | logicalIf => exact Canonical.descends_logicalIf store id
  | ifBody => exact Canonical.descends_ifBody store id
  | ifTestSequence => exact Canonical.descends_ifTestSequence store id
  | ifTestBinary => exact Canonical.descends_ifTestBinary store id
  | switchCase => exact Canonical.descends_switchCase store id
  | returnSequence => exact Canonical.descends_returnSequence store id
  | sequence => exact Canonical.descends_sequence store id
  | inlineCall => exact Canonical.descends_inlineCall store id
  | flattenBlock => exact Canonical.descends_flattenBlock store id

theorem descends_visit (rule : Rule) (root : NodeId) (state : (Store × Journal) × Bool) (id : NodeId) :
    state.1.1.Descends (rule.visit root state id).1.1 := by
  have rewritten := descends_rewrite rule state.1.1 id
  unfold visit
  dsimp only
  split
  · split <;> exact rewritten
  · exact .refl _

theorem descends_run (rule : Rule) (root : NodeId) (state : Store × Journal) :
    state.1.Descends (rule.run root state).1.1 := by
  unfold run
  refine descends_untilStable (fun state : Store × Journal => state.1) (fun state => ?_) _ state
  unfold walk
  refine descends_foldl (fun state : (Store × Journal) × Bool => state.1.1) ?_ (state, false)
  exact fun state id _ => rule.descends_visit root state id

end Rule

/-- What is brought into canonical form descends from what was there before. -/
theorem descends_normalize (root : NodeId) (state : Store × Journal) :
    state.1.Descends (normalize root state).1.1 := by
  unfold normalize
  refine descends_untilStable (fun state : Store × Journal => state.1) (fun state => ?_) _ state
  unfold normalizeRound
  refine descends_foldl (fun state : (Store × Journal) × Bool => state.1.1) ?_ (state, false)
  exact fun state rule _ => rule.descends_run root state.1

end Unflatten
