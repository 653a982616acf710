import Unflatten.Dispatch.Restore
import Unflatten.Proofs.Canonical.Descending
import Unflatten.Proofs.Dispatch.Stripping
import Unflatten.Proofs.Dispatch.Upkeep

/-! # Descent through the work on dispatchers

Chains are replaced by new nodes, dispatchers by copies with new nodes in between, and loops by
statements that were there before. -/

set_option autoImplicit false

namespace Unflatten

open Store

/-! ## Chains -/

namespace Chain

theorem descends_makeBranchClause (store : Store) (label branch : Slot) :
    store.Descends (makeBranchClause store label branch).1 := by
  unfold makeBranchClause
  dsimp only
  split
  · exact (descends_make _).trans (descends_make _)
  · exact ((descends_make _).trans (descends_make _)).trans (descends_make _)

theorem Plan.descends_makeSwitch (plan : Plan) (store : Store) (name : String) :
    store.Descends (plan.makeSwitch store name).1 := by
  have clauses : store.Descends (plan.cases.toList.foldl
      (fun (state : Store × Array Slot) (item : Int × Slot) =>
        ((makeBranchClause (state.1.makeNumber (Float.ofInt item.1)).1
            (some (state.1.makeNumber (Float.ofInt item.1)).2) item.2).1,
          state.2.push (some (makeBranchClause (state.1.makeNumber (Float.ofInt item.1)).1
            (some (state.1.makeNumber (Float.ofInt item.1)).2) item.2).2))) (store, #[])).1 :=
    descends_foldl (fun state : Store × Array Slot => state.1)
      (fun _ _ _ => (descends_make _).trans (descends_makeBranchClause _ _ _)) (store, #[])
  unfold makeSwitch
  dsimp only
  split
  · exact ((clauses.trans (descends_makeBranchClause _ _ _)).trans (descends_make _)).trans (descends_make _)
  · exact (clauses.trans (descends_make _)).trans (descends_make _)

theorem descends_flatten (work : Work) (link : NodeId) : work.store.Descends (flatten work link).1.store := by
  unfold flatten
  split
  · exact .refl _
  · split
    · exact .refl _
    · dsimp only
      split
      · exact .refl _
      · exact (Plan.descends_makeSwitch _ _ _).trans (descends_replaceNode _ _)

theorem descends_sweep (root : NodeId) (work : Work) : work.store.Descends (sweep root work).1.store := by
  unfold sweep
  refine descends_foldl (fun state : Work × Bool => state.1.store) (fun state link _ => ?_) (work, false)
  dsimp only
  split
  · exact .refl _
  · exact descends_flatten state.1 link

theorem descends_sweepAll (root : NodeId) (limit : Nat) (work : Work) :
    work.store.Descends (sweepAll root limit work).store := by
  induction limit generalizing work with
  | zero => exact .refl _
  | succ limit ih =>
    rw [sweepAll]
    dsimp only
    split
    · exact (descends_sweep root work).trans (ih _)
    · exact descends_sweep root work

end Chain

theorem descends_flattenChains (store : Store) (root : NodeId) (findings : Findings) :
    store.Descends (flattenChains store root findings).1 := by
  unfold flattenChains
  split
  · exact .refl store
  · exact Chain.descends_sweepAll root store.depthBound ⟨store, findings, [], 0⟩

/-! ## Case tables -/

/-- Descent is kept up by what expansion does. -/
theorem lasting_descends (store : Store) : Lasting store.Descends where
  copied slots before := before.trans (descends_copyAll slots)
  broken before := before.trans (descends_make _)
  filled container statements before := before.trans (descends_setStatements container statements)

theorem descends_expand (store : Store) (key : DispatchKey) (dispatcher : Slot) (values : List Int) :
    store.Descends (expand store key dispatcher values).1.store :=
  Expansion.expandWithin_lasts (lasting_descends store) ⟨key.name, key.prelude⟩ (maxMergeDepth + 1)
    ⟨store, ∅, []⟩ dispatcher values (.refl store)

theorem CaseTable.descends_emit (table : CaseTable) (store : Store) (key : String) :
    store.Descends (table.emit store key).1 := by
  have clauses : store.Descends (table.cases.toList.foldl
      (fun (state : Store × Array Slot) (item : Int × List Slot) =>
        let label := state.1.makeNumber (Float.ofInt item.1)
        let block := label.1.makeBlock item.2
        let clause := block.1.makeClause (some label.2) [some block.2]
        (clause.1, state.2.push (some clause.2))) (store, #[])).1 :=
    descends_foldl (fun state : Store × Array Slot => state.1)
      (fun _ _ _ => ((descends_make _).trans (descends_make _)).trans (descends_make _)) (store, #[])
  exact (clauses.trans (descends_make _)).trans (descends_make _)

namespace Merging

variable {key : MergeKey} {inCase : Merging → Int → Merging}
  {inArm : Merging → Int → Slot → Merging × Option Int} {inner : Settle}

/-- Merging at the end of a list descends. -/
def SettleDescends (inner : Settle) : Prop :=
  ∀ (work : Merging) value atEntry body, work.store.Descends (inner work value atEntry body).1.store

theorem descends_shareJump (work : Merging) (arms : Arms) (target : Int) :
    work.store.Descends (work.shareJump arms target).1.store :=
  (descends_setStatements _ _).trans (descends_setStatements _ _)

theorem descends_recoverLoop (work : Merging) (arms : Arms) (mirrored : Bool) (statements : List Slot)
    (value : Int) : work.store.Descends (work.recoverLoop arms mirrored statements value).1.store := by
  cases mirrored with
  | true => exact ((descends_make _).trans (descends_make _)).trans (descends_make _)
  | false => exact (descends_make _).trans (descends_make _)

theorem descends_visitCase (settles : SettleDescends inner) (work : Merging) (value : Int) :
    work.store.Descends (visitCase inner work value).store := by
  unfold visitCase
  split
  · exact .refl _
  · dsimp only
    split
    · exact .refl _
    · rename_i statements _
      exact settles ⟨work.store, work.table.erase value, work.visited.insert value, work.isUpdated⟩ value true
        statements.reverse

theorem descends_visitArm (settles : SettleDescends inner) (work : Merging) (value : Int) (arm : Slot) :
    work.store.Descends (visitArm inner work value arm).1.store :=
  (settles work value false _).trans (descends_setStatements _ _)

theorem descends_settleWith (cases : ∀ (work : Merging) value, work.store.Descends (inCase work value).store)
    (arms : ∀ (work : Merging) value arm, work.store.Descends (inArm work value arm).1.store) (rounds : Nat) :
    SettleDescends (settleWith key inCase inArm rounds) := by
  induction rounds with
  | zero => exact fun _ _ _ _ => .refl _
  | succ rounds ih =>
    intro work value atEntry body
    cases body with
    | nil => exact .refl _
    | cons last before =>
      rw [settleWith.eq_def]
      dsimp only
      split
      · exact .refl _
      · split
        · rename_i both _
          have armed := (arms work value both.thenBlock).trans (arms _ value both.elseBlock)
          split
          · exact (armed.trans (descends_shareJump _ _ _)).trans (ih _ _ _ _)
          · split
            · split
              · exact (armed.trans (descends_recoverLoop _ _ _ _ _)).trans (ih _ _ _ _)
              · exact armed
            · exact armed
        · split
          · exact .refl _
          · split
            · exact .refl _
            · split
              · exact .refl _
              · split
                · exact .refl _
                · split
                  · exact cases _ _
                  · split
                    · exact .refl _
                    · split
                      · exact .refl _
                      · exact ih (updated { work with table := _ } _) _ _ _

theorem descends_settle (depth : Nat) : SettleDescends (settle key depth) := by
  induction depth with
  | zero => exact fun work => descends_settleWith (fun _ _ => .refl _) (fun _ _ _ => .refl _) _ work
  | succ depth ih =>
    intro work
    refine descends_settleWith (fun work value => ?_) (descends_visitArm ih) _ work
    split
    · exact .refl _
    · exact descends_visitCase ih work value

theorem descends_sweepAll (limit : Nat) (work : Merging) :
    work.store.Descends (sweepAll key limit work).1.store := by
  induction limit generalizing work with
  | zero => exact .refl _
  | succ limit ih =>
    have swept : work.store.Descends (sweep key work).store :=
      descends_visitCase (descends_settle _) { work with visited := ∅, isUpdated := false } key.start
    rw [sweepAll]
    split
    · exact swept.trans (ih _)
    · exact swept

end Merging

theorem CaseTable.descends_merge (table : CaseTable) (store : Store) (key : MergeKey) :
    store.Descends (table.merge store key).1 :=
  Merging.descends_sweepAll maxMergeSweeps ⟨store, table, ∅, false⟩

/-! ## Collapsing loops -/

namespace Collapse

theorem descends_stripExits (depth : Nat) (store : Store) (statements : List Slot) :
    store.Descends (stripExits depth store statements).1 := by
  induction depth generalizing store statements with
  | zero => exact .refl store
  | succ depth ih =>
    have strip : ∀ (store : Store) (arm : Slot), store.Descends (stripArm depth store arm) := by
      intro store arm
      unfold stripArm
      split
      · exact .refl store
      · exact (ih _ _).trans (descends_setStatements _ _)
    rw [stripExits_succ]
    dsimp only
    split
    · exact .refl store
    · split
      · exact (strip _ _).trans (strip _ _)
      · exact .refl store

theorem descends_headStatement (store : Store) (loop : NodeId) :
    store.Descends (headStatement store loop).1 := by
  unfold headStatement
  split
  · split
    · exact .refl store
    · exact descends_makeVariables _ _
    · exact descends_make _
  · exact .refl store

theorem descends_removeDeclaration (store : Store) (declaration : NodeId) :
    store.Descends (removeDeclaration store declaration).1 := by
  unfold removeDeclaration
  dsimp only
  split
  · exact descends_replaceStatement _ _
  · exact descends_setDeclarations _ _

theorem descends_trimPrelude (root : NodeId) (prelude : Slot) (limit : Nat) (store : Store) :
    store.Descends (trimPrelude root prelude limit store) := by
  induction limit generalizing store with
  | zero => exact .refl store
  | succ limit ih =>
    rw [trimPrelude]
    split
    · exact .refl store
    · dsimp only
      split
      · exact descends_removeDeclaration _ _
      · exact (descends_removeDeclaration _ _).trans (ih _)

theorem descends_removeKey (store : Store) (root : NodeId) (key : DispatchKey) :
    store.Descends (removeKey store root key) := by
  unfold removeKey
  split
  · exact .refl store
  · exact (descends_foldl id (fun _ _ _ => descends_replaceStatement _ _) store).trans
      (descends_removeDeclaration _ _)

end Collapse

theorem Store.descends_collapse (store : Store) (root : NodeId) (key : DispatchKey) :
    store.Descends (store.collapse root key).1 := by
  unfold collapse
  split
  · exact .refl store
  · rename_i statements _
    have replaced : ∀ replacement, store.Descends (replaceStatement (Collapse.headStatement
        (Collapse.stripExits store.depthBound store statements).1 key.loop).1 (some key.loop) replacement).1 :=
      fun _ => ((Collapse.descends_stripExits _ _ _).trans (Collapse.descends_headStatement _ _)).trans
        (descends_replaceStatement _ _)
    dsimp only
    split
    · rename_i same
      exact .of_eq same (replaced _)
    · rename_i same
      exact ((Descends.of_eq same (replaced _)).trans (Collapse.descends_trimPrelude _ _ _ _)).trans
        (Collapse.descends_removeKey _ _ _)

/-! ## Restoring dispatchers -/

namespace Restore

theorem descends_restoreDispatcher (store : Store) (root : NodeId) (findings : Findings)
    (key : DispatchKey) (dispatcher : Slot) :
    store.Descends (restoreDispatcher store root findings key dispatcher).1 := by
  have expanded : store.Descends (expand (store.copy dispatcher).1 key (store.copy dispatcher).2
      key.liveValues).1.store := (descends_copy dispatcher).trans (descends_expand _ _ _ _)
  unfold restoreDispatcher
  dsimp only
  split
  · rename_i same
    rw [same] at expanded
    exact expanded
  · rename_i work same
    rw [same] at expanded
    have merged := expanded.trans (CaseTable.descends_merge ⟨key.histogram, work.cases⟩ work.store key.mergeKey)
    have collapsed : ∀ (table : CaseTable) (replacement : Slot) (key' : DispatchKey), store.Descends
        (Store.collapse (replaceNode (table.emit (CaseTable.merge ⟨key.histogram, work.cases⟩ work.store
          key.mergeKey).1 key.name).1 dispatcher replacement).1 root key').1 := fun _ _ _ =>
      ((merged.trans (CaseTable.descends_emit _ _ _)).trans (descends_replaceNode _ _)).trans
        (descends_collapse _ _ _)
    split
    · rename_i same
      exact .of_eq same (collapsed _ _ _)
    · rename_i same
      exact .of_eq same (collapsed _ _ _)

theorem descends_restoreKey (root : NodeId) (state : Store × Findings × Nat) (name : String) :
    state.1.Descends (restoreKey root state name).1 := by
  unfold restoreKey
  dsimp only
  split
  · exact .refl _
  · split
    · exact .refl _
    · exact descends_restoreDispatcher _ _ _ _ _

end Restore

theorem descends_restoreDispatchers (store : Store) (root : NodeId) (findings : Findings) :
    store.Descends (restoreDispatchers store root findings).1 := by
  unfold restoreDispatchers
  refine descends_foldl (fun state : Store × Findings × Nat => state.1) ?_ (store, findings, 0)
  exact fun state name _ => Restore.descends_restoreKey root state name

end Unflatten
