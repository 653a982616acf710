import Unflatten.Proofs.Dispatch.KeyReads
import Unflatten.Proofs.Syntax.Sparing

/-! # What expansion leaves alone

Expansion writes into clauses before it can fail, and it fails at any depth.  All that it writes
is in the part of the store to which its dispatcher belongs, whatever comes of it. -/

set_option autoImplicit false

namespace Unflatten

open Store

namespace Expansion

section Statements
variable {names : List String} {own : NodeId → Prop} {store later : Store} {slot : Slot}
  {statements list behind : List Slot}

theorem followClauses_spares (guarded : Guarded names own store)
    (inside : ∀ clause ∈ behind, ∀ id, clause = some id → own id)
    (follows : followClauses store statements behind = (later, list)) :
    Spares own store later := by
  induction behind generalizing store statements with
  | nil =>
    cases follows
    exact .refl _
  | cons next rest ih =>
    rw [followClauses] at follows
    split at follows
    · obtain ⟨copied, _, _⟩ := copyAll_guarded guarded
        (isFree_clauseStatements guarded (inside next List.mem_cons_self))
      have spared : Spares own store (store.copyAll (store.clauseStatements next)).1 :=
        fun id outside => copyAll_sustains store _ id fun beyond => outside (guarded.fresh id beyond)
      exact spared.trans
        (ih copied (fun clause member => inside clause (List.mem_cons_of_mem next member)) follows)
    · cases follows
      exact .refl _

theorem terminateArms_spares {depth : Nat} (guarded : Guarded names own store)
    (inside : ∀ id, slot = some id → own id) :
    Spares own store (terminateArms depth store slot) := by
  induction depth generalizing store slot with
  | zero => exact .refl store
  | succ depth ih =>
    rw [terminateArms]
    cases found : store.arms? slot with
    | none => exact .refl store
    | some arms =>
      -- the second arm is terminated after the first, so each step keeps the names guarded too
      have terminate : ∀ {store : Store} {arm : Slot}, Guarded names own store →
          (∀ id, arm = some id → own id) →
          let statements := store.statementsOf arm
          let last : Slot := statements.getLast?.join
          let after := if (store.arms? last).isSome then terminateArms depth store last
            else if store.isTerminator last then store
            else (store.makeBreak.1.setStatements arm (statements ++ [some store.makeBreak.2])).1
          Guarded names own after ∧ Spares own store after := by
        intro store arm guarded inside
        have free := guarded.isFree_getD inside
        have insideLast : ∀ id, (store.statementsOf arm).getLast?.join = some id → own id := by
          intro id same
          have last := List.mem_of_getLast? (Option.join_eq_some_iff.mp same)
          exact (free (some id) last id rfl).1
        simp only
        split
        · exact ⟨(terminateArms_guarded guarded insideLast).1, ih guarded insideLast⟩
        · split
          · exact ⟨guarded, .refl store⟩
          · obtain ⟨made, extends_, isFree⟩ := guarded.makeBreak
            have both : ∀ slot ∈ store.statementsOf arm ++ [some store.makeBreak.2],
                IsFree names own store.makeBreak.1 slot := by
              intro slot member
              rcases List.mem_append.mp member with old | new
              · exact extends_.isFree (free slot old)
              · rw [List.mem_singleton.mp new]
                exact isFree
            exact ⟨(made.setStatements inside both).1, (spares_makeBreak guarded.fresh).trans
              (spares_setStatements made inside fun slot member id same => (both slot member id same).1)⟩
      obtain ⟨insideThen, insideElse⟩ := own_arms guarded inside found
      obtain ⟨middle, first⟩ := terminate guarded insideThen
      exact first.trans (terminate middle insideElse).2

theorem terminateLast_spares (guarded : Guarded names own store)
    (free : ∀ slot ∈ statements, IsFree names own store slot)
    (terminates : terminateLast store statements = (later, list)) : Spares own store later := by
  unfold terminateLast at terminates
  split at terminates
  · rename_i last conditional before reversed
    split at terminates
    · have member : conditional ∈ statements := by
        rw [← List.mem_reverse, reversed]
        exact List.mem_cons_of_mem last List.mem_cons_self
      cases terminates
      exact terminateArms_spares guarded fun id same => (free conditional member id same).1
    · cases terminates
      exact .refl _
  · cases terminates
    exact .refl _

theorem clauseBody_spares (guarded : Guarded names own store)
    (inside : ∀ id, slot = some id → own id)
    (insideBehind : ∀ clause ∈ behind, ∀ id, clause = some id → own id)
    (body : clauseBody store slot behind = (later, list)) : Spares own store later := by
  unfold clauseBody at body
  cases follows : followClauses store (store.clauseStatements slot) behind with
  | mk middle statements =>
    rw [follows] at body
    obtain ⟨kept, _, free⟩ := followClauses_guarded guarded
      (isFree_clauseStatements guarded inside) insideBehind follows
    exact (followClauses_spares guarded insideBehind follows).trans
      (terminateLast_spares kept free body)

end Statements

/-! ## Clauses -/

/-- The expansion of a `switch` of the part, whether it succeeds or not. -/
def ExpandSpares (names : List String) (own : NodeId → Prop) (expand : Expand) : Prop :=
  ∀ {work after : Expansion} {switch : Slot} {values : List Int} {result : Option Mismatch},
    expand work switch values = (after, result) → Guards names own work →
      (∀ id, switch = some id → own id) → Spares own work.store after.store

section Clauses
variable {names : List String} {own : NodeId → Prop} {work after : Expansion} {origin : Origin}
  {expand : Expand} {clause : Slot} {clauses behind : List Slot} {values : List Int}
  {result : Option Mismatch} {buckets : Buckets} {default? : Option (Slot × List Slot)}

theorem takeClause_spares (spares : ExpandSpares names own expand) (guards : Guards names own work)
    (inside : ∀ id, clause = some id → own id)
    (insideBehind : ∀ clause ∈ behind, ∀ id, clause = some id → own id)
    (taken : takeClause origin expand work clause behind values = (after, result)) :
    Spares own work.store after.store := by
  have insideNested := own_nestedSwitch? guards inside
  unfold takeClause at taken
  simp only at taken
  split at taken
  · split at taken
    · exact spares taken guards insideNested
    · cases taken
      cases body : clauseBody work.store clause behind with
      | mk store statements =>
        unfold addCase
        rw [body]
        exact clauseBody_spares guards.guarded inside insideBehind body
  · split at taken
    · exact spares taken guards insideNested
    · cases taken
      exact .refl _

theorem takeClauses_spares {outcome : Except Mismatch (Buckets × Option (Slot × List Slot))}
    (expands : ExpandGuards names own expand) (spares : ExpandSpares names own expand)
    (guards : Guards names own work) (inside : ∀ clause ∈ clauses, ∀ id, clause = some id → own id)
    (taken : takeClauses origin expand clauses work buckets default? = (after, outcome)) :
    Spares own work.store after.store := by
  induction clauses generalizing work buckets default? with
  | nil =>
    cases taken
    exact .refl _
  | cons clause rest ih =>
    have insideFirst := inside clause List.mem_cons_self
    have insideRest := fun other member => inside other (List.mem_cons_of_mem clause member)
    rw [takeClauses] at taken
    split at taken
    · exact ih guards insideRest taken
    · simp only at taken
      split at taken
      · cases taken
        exact .refl _
      · split at taken
        · exact @ih (work.drop clause _) _ _ (guards.drop _) insideRest taken
        · split at taken
          · rename_i step
            cases taken
            exact takeClause_spares spares guards insideFirst insideRest step
          · rename_i step
            have next := takeClause_guards expands guards insideFirst insideRest step
            exact (takeClause_spares spares guards insideFirst insideRest step).trans
              (ih next insideRest taken)

theorem takeDefault_spares (spares : ExpandSpares names own expand)
    (guards : Guards names own work)
    (insideDefault : ∀ pair, default? = some pair →
      (∀ id, pair.1 = some id → own id) ∧ ∀ clause ∈ pair.2, ∀ id, clause = some id → own id)
    (taken : takeDefault origin expand work buckets default? = (after, result)) :
    Spares own work.store after.store := by
  unfold takeDefault at taken
  split at taken
  · cases taken
    exact .refl _
  · obtain ⟨inside, insideBehind⟩ := insideDefault _ rfl
    split at taken
    · cases taken
      exact .refl _
    · exact takeClause_spares spares guards inside insideBehind taken
    · cases taken
      exact .refl _

theorem expandWithin_spares (depth : Nat) : ExpandSpares names own (expandWithin origin depth) := by
  induction depth with
  | zero =>
    intro work after switch values result expanded _ _
    cases expanded
    exact .refl _
  | succ depth ih =>
    intro work after switch values result expanded guards inside
    rw [expandWithin] at expanded
    split at expanded
    · rename_i discriminant clauses shaped
      split at expanded
      · cases expanded
        exact .refl _
      · have insideClauses : ∀ clause ∈ clauses, ∀ id, clause = some id → own id := by
          rintro _ member id rfl
          cases switch with
          | none => cases shaped
          | some switch =>
            exact (guards.guarded.slots switch _ id (inside switch rfl) shaped
              (List.mem_cons_of_mem _ member)).1
        have guarding : ExpandGuards names own (expandWithin origin depth) :=
          expandWithin_guards depth
        split at expanded
        · rename_i taken
          cases expanded
          exact takeClauses_spares guarding ih guards insideClauses taken
        · rename_i taken
          obtain ⟨next, insideDefault⟩ := takeClauses_guards guarding guards insideClauses
            (fun _ impossible => by cases impossible) taken
          exact (takeClauses_spares guarding ih guards insideClauses taken).trans
            (takeDefault_spares ih next (fun pair same => insideDefault _ pair (by rw [same])) expanded)
    · cases expanded
      exact .refl _

end Clauses

end Expansion

end Unflatten
