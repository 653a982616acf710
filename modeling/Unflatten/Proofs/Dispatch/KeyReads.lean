import Unflatten.Proofs.Dispatch.KeyWrites
import Unflatten.Proofs.Syntax.Guarding

/-! # Where a key is read

In the dispatcher of a tracked key the key and the variables of the prelude are read by `switch`
statements only.  Expansion moves and copies statements, none of which is an identifier, so this
holds of the case table too: what reads the key there is a `switch` that was not expanded. -/

set_option autoImplicit false

namespace Unflatten

open Store

namespace Store

/-- Whether an identifier is assigned to and not read. -/
def isTarget (store : Store) (id : NodeId) : Bool :=
  match store.shape? (store.parent (some id)) with
  | some (.binary left .equals _) => left == some id
  | some (.forIn initializer _ _) => initializer == some id
  | _ => false

/-- Whether the variable of an identifier is read there. -/
def isRead (store : Store) (id : NodeId) : Bool :=
  store.isReference id && !store.isDeclarationName id && !store.isTarget id

end Store

namespace Expansion

/-- The work on a dispatcher that guards some names: no case holds one as a statement. -/
structure Guards (names : List String) (own : NodeId → Prop) (work : Expansion) : Prop where
  guarded : Guarded names own work.store
  cases : ∀ {value : Int} {statements : List Slot}, work.cases[value]? = some statements →
    ∀ slot ∈ statements, IsFree names own work.store slot

section Statements
variable {names : List String} {own : NodeId → Prop} {store later : Store} {slot : Slot}
  {statements list behind : List Slot}

theorem isFree_clauseStatements (guarded : Guarded names own store)
    (inside : ∀ id, slot = some id → own id) :
    ∀ statement ∈ store.clauseStatements slot, IsFree names own store statement := by
  have free := guarded.isFree_getD inside
  unfold Store.clauseStatements Store.statementsOf
  split
  · rename_i only listed
    rw [listed] at free
    cases only with
    | none => exact free
    | some block =>
      split
      · rename_i inner shaped
        refine guarded.isFree_statements (free (some block) List.mem_cons_self block rfl).1 ?_
        rw [Store.statements?, shaped]
        rfl
      · exact free
  · exact free

/-- The clauses behind are copied as long as control runs into them. -/
theorem followClauses_guarded (guarded : Guarded names own store)
    (free : ∀ slot ∈ statements, IsFree names own store slot)
    (inside : ∀ clause ∈ behind, ∀ id, clause = some id → own id)
    (follows : followClauses store statements behind = (later, list)) :
    Guarded names own later ∧ Extends store later ∧ ∀ slot ∈ list, IsFree names own later slot := by
  induction behind generalizing store statements with
  | nil =>
    cases follows
    exact ⟨guarded, .refl _, free⟩
  | cons next rest ih =>
    rw [followClauses] at follows
    split at follows
    · obtain ⟨copied, extends_, copies⟩ := copyAll_guarded guarded
        (isFree_clauseStatements guarded (inside next List.mem_cons_self))
      have both : ∀ slot ∈ statements ++ (store.copyAll (store.clauseStatements next)).2,
          IsFree names own (store.copyAll (store.clauseStatements next)).1 slot := by
        intro slot member
        rcases List.mem_append.mp member with old | new
        · exact extends_.isFree (free slot old)
        · exact copies slot new
      obtain ⟨final, more, listed⟩ := ih copied both
        (fun clause member => inside clause (List.mem_cons_of_mem next member)) follows
      exact ⟨final, extends_.trans more, listed⟩
    · cases follows
      exact ⟨guarded, .refl _, free⟩

/-- The arms of an `if` in the guarded part belong to it. -/
theorem own_arms {arms : Arms} (guarded : Guarded names own store)
    (inside : ∀ id, slot = some id → own id) (found : store.arms? slot = some arms) :
    (∀ id, arms.thenBlock = some id → own id) ∧ ∀ id, arms.elseBlock = some id → own id := by
  unfold Store.arms? at found
  split at found
  · rename_i test thenBody elseBody shaped
    split at found
    · cases found
      cases slot with
      | none => cases shaped
      | some id =>
        have children := fun child => guarded.slots id _ child (inside id rfl) shaped
        refine ⟨fun child same => (children child ?_).1, fun child same => (children child ?_).1⟩
        · exact List.mem_cons_of_mem _ (List.mem_cons.mpr (.inl same.symm))
        · exact List.mem_cons_of_mem _ (List.mem_cons_of_mem _ (List.mem_singleton.mpr same.symm))
    · cases found
  · cases found

/-- The arms of an `if` get a `break`, and those of an `if` at the end of an arm. -/
theorem terminateArms_guarded {depth : Nat} (guarded : Guarded names own store)
    (inside : ∀ id, slot = some id → own id) :
    Guarded names own (terminateArms depth store slot) ∧
      Extends store (terminateArms depth store slot) := by
  induction depth generalizing store slot with
  | zero => exact ⟨guarded, .refl store⟩
  | succ depth ih =>
    rw [terminateArms]
    cases found : store.arms? slot with
    | none => exact ⟨guarded, .refl store⟩
    | some arms =>
      have terminate : ∀ {store : Store} {arm : Slot}, Guarded names own store →
          (∀ id, arm = some id → own id) →
          let statements := store.statementsOf arm
          let last : Slot := statements.getLast?.join
          let after := if (store.arms? last).isSome then terminateArms depth store last
            else if store.isTerminator last then store
            else (store.makeBreak.1.setStatements arm (statements ++ [some store.makeBreak.2])).1
          Guarded names own after ∧ Extends store after := by
        intro store arm guarded inside
        have free := guarded.isFree_getD inside
        have insideLast : ∀ id, (store.statementsOf arm).getLast?.join = some id → own id := by
          intro id same
          have last := List.mem_of_getLast? (Option.join_eq_some_iff.mp same)
          exact (free (some id) last id rfl).1
        simp only
        split
        · exact ih guarded insideLast
        · split
          · exact ⟨guarded, .refl store⟩
          · obtain ⟨made, extends_, isFree⟩ := guarded.makeBreak
            have both : ∀ slot ∈ store.statementsOf arm ++ [some store.makeBreak.2],
                IsFree names own store.makeBreak.1 slot := by
              intro slot member
              rcases List.mem_append.mp member with old | new
              · exact extends_.isFree (free slot old)
              · rw [List.mem_singleton.mp new]
                exact isFree
            obtain ⟨final, more⟩ := made.setStatements inside both
            exact ⟨final, extends_.trans more⟩
      obtain ⟨insideThen, insideElse⟩ := own_arms guarded inside found
      obtain ⟨first, extends_⟩ := terminate guarded insideThen
      obtain ⟨second, more⟩ := terminate first insideElse
      exact ⟨second, extends_.trans more⟩

theorem terminateLast_guarded (guarded : Guarded names own store)
    (free : ∀ slot ∈ statements, IsFree names own store slot)
    (terminates : terminateLast store statements = (later, list)) :
    Guarded names own later ∧ Extends store later ∧ ∀ slot ∈ list, IsFree names own later slot := by
  unfold terminateLast at terminates
  split at terminates
  · rename_i last conditional before reversed
    split at terminates
    · have member : ∀ slot ∈ conditional :: before, slot ∈ statements := by
        intro slot there
        rw [← List.mem_reverse, reversed]
        exact List.mem_cons_of_mem last there
      obtain ⟨final, extends_⟩ := @terminateArms_guarded names own store conditional store.depthBound
        guarded fun id same => (free conditional (member _ List.mem_cons_self) id same).1
      cases terminates
      refine ⟨final, extends_, fun slot there => extends_.isFree (free slot (member slot ?_))⟩
      exact List.mem_reverse.mp there
    · cases terminates
      exact ⟨guarded, .refl _, free⟩
  · cases terminates
    exact ⟨guarded, .refl _, free⟩

/-- The statements of a case hold no guarded name. -/
theorem clauseBody_guarded (guarded : Guarded names own store)
    (inside : ∀ id, slot = some id → own id)
    (insideBehind : ∀ clause ∈ behind, ∀ id, clause = some id → own id)
    (body : clauseBody store slot behind = (later, list)) :
    Guarded names own later ∧ Extends store later ∧ ∀ slot ∈ list, IsFree names own later slot := by
  unfold clauseBody at body
  cases follows : followClauses store (store.clauseStatements slot) behind with
  | mk middle statements =>
    rw [follows] at body
    obtain ⟨first, extends_, free⟩ := followClauses_guarded guarded
      (isFree_clauseStatements guarded inside) insideBehind follows
    obtain ⟨second, more, listed⟩ := terminateLast_guarded first free body
    exact ⟨second, extends_.trans more, listed⟩

end Statements

/-! ## Clauses -/

/-- The expansion of a `switch` in the guarded part guards the names, whether it succeeds or
not. -/
def ExpandGuards (names : List String) (own : NodeId → Prop) (expand : Expand) : Prop :=
  ∀ {work after : Expansion} {switch : Slot} {values : List Int} {result : Option Mismatch},
    expand work switch values = (after, result) → Guards names own work →
      (∀ id, switch = some id → own id) → Guards names own after

section Clauses
variable {names : List String} {own : NodeId → Prop} {work after : Expansion} {origin : Origin}
  {expand : Expand} {clause : Slot} {clauses behind : List Slot} {values : List Int}
  {result : Option Mismatch} {buckets : Buckets} {default? : Option (Slot × List Slot)}

theorem own_nestedSwitch? (guards : Guards names own work)
    (inside : ∀ id, clause = some id → own id) :
    ∀ id, nestedSwitch? work.store clause = some id → own id := by
  intro id same
  have free := isFree_clauseStatements guards.guarded inside
  unfold nestedSwitch? at same
  simp only at same
  split at same
  · rename_i only listed
    split at same
    · exact (free only (by rw [listed]; exact List.mem_cons_self) id same).1
    · cases same
  · rename_i first last listed
    split at same
    · split at same
      · exact (free first (by rw [listed]; exact List.mem_cons_self) id same).1
      · cases same
    · cases same
  · split at same <;> cases same

theorem takeClause_guards (expands : ExpandGuards names own expand) (guards : Guards names own work)
    (inside : ∀ id, clause = some id → own id)
    (insideBehind : ∀ clause ∈ behind, ∀ id, clause = some id → own id)
    (taken : takeClause origin expand work clause behind values = (after, result)) :
    Guards names own after := by
  have added : ∀ value, Guards names own (work.addCase clause behind value) := by
    intro value
    cases body : clauseBody work.store clause behind with
    | mk store statements =>
      obtain ⟨guarded, extends_, free⟩ :=
        clauseBody_guarded guards.guarded inside insideBehind body
      unfold addCase
      rw [body]
      refine ⟨guarded, fun {other listed} found slot member => ?_⟩
      rw [Std.TreeMap.getElem?_insert] at found
      split at found
      · cases found
        exact free slot member
      · exact extends_.isFree (guards.cases found slot member)
  unfold takeClause at taken
  simp only at taken
  split at taken
  · split at taken
    · exact expands taken guards (own_nestedSwitch? guards inside)
    · cases taken
      exact added _
  · split at taken
    · exact expands taken guards (own_nestedSwitch? guards inside)
    · cases taken
      exact guards

theorem Guards.drop (guards : Guards names own work) (label : String) :
    Guards names own (work.drop clause label) := ⟨guards.guarded, guards.cases⟩

/-- Clause by clause the names are guarded, and the default clause belongs to the guarded part. -/
theorem takeClauses_guards {outcome : Except Mismatch (Buckets × Option (Slot × List Slot))}
    (expands : ExpandGuards names own expand) (guards : Guards names own work)
    (inside : ∀ clause ∈ clauses, ∀ id, clause = some id → own id)
    (insideDefault : ∀ pair, default? = some pair →
      (∀ id, pair.1 = some id → own id) ∧ ∀ clause ∈ pair.2, ∀ id, clause = some id → own id)
    (taken : takeClauses origin expand clauses work buckets default? = (after, outcome)) :
    Guards names own after ∧ ∀ left pair, outcome = .ok (left, some pair) →
      (∀ id, pair.1 = some id → own id) ∧ ∀ clause ∈ pair.2, ∀ id, clause = some id → own id := by
  induction clauses generalizing work buckets default? with
  | nil =>
    cases taken
    refine ⟨guards, fun left pair same => ?_⟩
    cases same
    exact insideDefault pair rfl
  | cons clause rest ih =>
    have insideRest := fun other member => inside other (List.mem_cons_of_mem clause member)
    rw [takeClauses] at taken
    split at taken
    · refine ih guards insideRest (fun pair same => ?_) taken
      cases same
      exact ⟨inside clause List.mem_cons_self, insideRest⟩
    · simp only at taken
      split at taken
      · cases taken
        exact ⟨guards, fun _ _ failed => by cases failed⟩
      · split at taken
        · exact ih (guards.drop _) insideRest insideDefault taken
        · split at taken
          · rename_i step
            cases taken
            exact ⟨takeClause_guards expands guards (inside clause List.mem_cons_self) insideRest step,
              fun _ _ failed => by cases failed⟩
          · rename_i step
            exact ih (takeClause_guards expands guards (inside clause List.mem_cons_self) insideRest
              step) insideRest insideDefault taken

theorem takeDefault_guards (expands : ExpandGuards names own expand)
    (guards : Guards names own work)
    (insideDefault : ∀ pair, default? = some pair →
      (∀ id, pair.1 = some id → own id) ∧ ∀ clause ∈ pair.2, ∀ id, clause = some id → own id)
    (taken : takeDefault origin expand work buckets default? = (after, result)) :
    Guards names own after := by
  unfold takeDefault at taken
  split at taken
  · cases taken
    exact guards
  · rename_i clause behind
    obtain ⟨inside, insideBehind⟩ := insideDefault _ rfl
    split at taken
    · cases taken
      exact guards.drop _
    · exact takeClause_guards expands guards inside insideBehind taken
    · cases taken
      exact guards

theorem expandWithin_guards (depth : Nat) : ExpandGuards names own (expandWithin origin depth) := by
  induction depth with
  | zero =>
    intro work after switch values result expanded guards _
    cases expanded
    exact guards
  | succ depth ih =>
    intro work after switch values result expanded guards inside
    rw [expandWithin] at expanded
    split at expanded
    · rename_i discriminant clauses shaped
      split at expanded
      · cases expanded
        exact guards
      · have insideClauses : ∀ clause ∈ clauses, ∀ id, clause = some id → own id := by
          rintro _ member id rfl
          cases switch with
          | none => cases shaped
          | some switch =>
            exact (guards.guarded.slots switch _ id (inside switch rfl) shaped
              (List.mem_cons_of_mem discriminant member)).1
        split at expanded
        · rename_i taken
          cases expanded
          exact (takeClauses_guards ih guards insideClauses (fun _ none_ => by cases none_) taken).1
        · rename_i taken
          obtain ⟨middle, insideDefault⟩ := takeClauses_guards ih guards insideClauses
            (fun _ none_ => by cases none_) taken
          refine takeDefault_guards ih middle (fun pair same => ?_) expanded
          exact insideDefault _ pair (by rw [same])
    · cases expanded
      exact guards

end Clauses

end Expansion

/-! ## The dispatcher of a tracked key -/

namespace Tracking

/-- The names that must not be read: the key and the variables of its prelude. -/
def guardedNames (store : Store) (key : DispatchKey) : List String :=
  key.name :: declaredNames store key.prelude

theorem of_forM {α ε : Type} {items : List α} {check : α → Except ε Unit}
    (checked : items.forM check = .ok ()) : ∀ item ∈ items, check item = .ok () := by
  induction items with
  | nil => exact List.forall_mem_nil _
  | cons first rest ih =>
    change (check first).bind (fun _ => rest.forM check) = .ok () at checked
    cases step : check first with
    | error failure =>
      rw [step] at checked
      cases checked
    | ok done =>
      rw [step] at checked
      intro item member
      rcases List.mem_cons.mp member with rfl | later
      · exact step
      · exact ih checked item later

section Permitted
variable {store : Store} {id parent : NodeId} {shape : Shape}

theorem permits_of_isReference (linked : store.parent (some id) = some parent)
    (found : store.shape? (some parent) = some shape)
    (other : store.isReference id = false ∨ store.isDeclarationName id = true) :
    shape.permits (some id) = true := by
  unfold isReference isDeclarationName at other
  rw [linked, found] at other
  cases shape
  case access isElement _ _ => cases isElement <;> simp_all [Shape.permits]
  case function => simpa [Shape.permits] using other
  case propertyAssignment => simpa [Shape.permits] using other
  case declaration => simpa [Shape.permits] using other
  case catchClause => simpa [Shape.permits] using other
  case labeled => rfl
  case jump => rfl
  all_goals simp at other

theorem permits_of_isDiscriminant (linked : store.parent (some id) = some parent)
    (found : store.shape? (some parent) = some shape) (selects : isDiscriminant store id = true) :
    shape.permits (some id) = true := by
  unfold isDiscriminant discriminant? at selects
  rw [linked, found] at selects
  cases shape
  case switch => simpa [Shape.permits] using selects
  all_goals simp at selects

/-- Where a name is permitted, it is read by a `switch` if it is read at all. -/
theorem isDiscriminant_of_isRead (linked : store.parent (some id) = some parent)
    (found : store.shape? (some parent) = some shape) (permitted : shape.permits (some id) = true)
    (reads : store.isRead id = true) : isDiscriminant store id = true := by
  simp only [isRead, isReference, isDeclarationName, isTarget, linked, found] at reads
  unfold isDiscriminant discriminant?
  rw [linked, found]
  cases shape
  case switch => simpa [Shape.permits] using permitted
  case access isElement _ _ => cases isElement <;> simp_all [Shape.permits]
  case binary left operator right =>
    simp only [Shape.permits, Bool.and_eq_true, beq_iff_eq] at permitted
    obtain ⟨rfl, rfl⟩ := permitted
    simp at reads
  case function => simp_all [Shape.permits]
  case propertyAssignment => simp_all [Shape.permits]
  case declaration => simp_all [Shape.permits]
  case catchClause => simp_all [Shape.permits]
  case labeled => simp at reads
  case jump => simp at reads
  all_goals cases permitted

end Permitted

section Track
variable {store : Store} {root : NodeId} {key : DispatchKey} {tracked : Tracked}

/-- The dispatcher of a tracked key guards the key and the variables of the prelude. -/
theorem track_guarded (isTree : store.IsTree root) (top : store.parent (some root) = none)
    (inside : key.loop ∈ store.descendants (some root))
    (tracks : track store root key = .ok tracked) {dispatcher : Tree}
    (holds : store.Holds dispatcher) (rooted : dispatcher.root = key.dispatcher? store) :
    Guarded (guardedNames store key)
      (fun id => id ∈ dispatcher.names ∨ store.nodes.size ≤ id) store := by
  obtain ⟨whole, holdsWhole, rootedWhole, nodup⟩ := isTree
  rw [← rootedWhole, (holdsWhole.descendants_perm nodup).mem_iff] at inside
  obtain ⟨found, framed, counted, checked, -⟩ := track_spec tracks
  obtain ⟨_, _, _, _, _, sameName, -, sameDispatcher, -⟩ := frame_spec framed
  obtain ⟨condition, prelude, other, stands⟩ := frame_stands holdsWhole nodup inside framed
  have same : other = dispatcher :=
    (holdsWhole.within stands.within).unique holds (by rw [stands.root, sameDispatcher, rooted])
  subst same
  have topWhole : store.parent whole.root = none := by rw [rootedWhole, top]
  refine ⟨fun id beyond => .inr beyond, fun id shape child own shaped slot => ?_⟩
  have here : id ∈ other.names :=
    own.resolve_right (Nat.not_le_of_lt (lt_size_of_shape? shaped))
  obtain ⟨childHere, linked⟩ := holds.slot_mem here shaped slot
  refine ⟨.inl childHere, holds.lt_size childHere, ?_⟩
  rintro ⟨name, listed, identifier⟩
  have present := stands.within.names_subset childHere
  have named : store.isIdentifier (some child) name = true := beq_iff_eq.mpr identifier
  have outside : ∀ {part : Tree} {slot : Slot}, part = .nothing ∨ Tree.Within part whole →
      part.root = slot → child ∉ part.names →
      store.isAncestorOrSelf slot (some child) = false := by
    rintro part _ within rfl apart
    rcases within with rfl | within
    · rfl
    · rw [← Bool.not_eq_true, holdsWhole.isAncestorOrSelf_iff nodup topWhole within present]
      exact apart
  have outsideTest := outside (.inr stands.conditionWithin) stands.conditionRoot
    (stands.besideCondition child childHere)
  have outsidePrelude := outside stands.preludeWithin stands.preludeRoot
    (stands.besidePrelude child childHere)
  cases refers : store.isReference child with
  | false => exact permits_of_isReference linked shaped (.inl refers)
  | true =>
    cases declares : store.isDeclarationName child with
    | true => exact permits_of_isReference linked shaped (.inr declares)
    | false =>
      have reference : child ∈ store.references (some root) name :=
        (mem_references holdsWhole nodup rootedWhole name).mpr ⟨present, named, refers, declares⟩
      rcases List.mem_cons.mp listed with rfl | part
      · obtain ⟨before, next, step⟩ := exists_countReference counted reference
        obtain ⟨-, reads, assigns⟩ := countReference_passes step outsideTest outsidePrelude
        cases writes : store.isWrite child with
        | false => exact permits_of_isDiscriminant linked shaped (reads writes)
        | true =>
          obtain ⟨left, right, there⟩ := exists_assignment? (assigns writes)
          rw [← sameName] at named
          obtain ⟨statement, binary, assigned, statementHere, shapeStatement, shapeBinary⟩ :=
            assigned_form holdsWhole stands childHere named writes there
          have binaryHere := (holds.slot_mem statementHere shapeStatement List.mem_cons_self).1
          have linked' := (holds.slot_mem binaryHere shapeBinary List.mem_cons_self).2
          rw [linked] at linked'
          cases linked'
          rw [shaped] at shapeBinary
          cases shapeBinary
          simp [Shape.permits]
      · have passes := of_forM (of_forM checked name part) child reference
        unfold checkPart at passes
        simp only [outsidePrelude, Bool.false_eq_true, if_false] at passes
        split at passes
        · rename_i selects
          rw [Bool.and_eq_true] at selects
          exact permits_of_isDiscriminant linked shaped selects.2
        · cases passes

end Track

end Tracking

namespace Expansion

/-- The nodes in the cases. -/
def tableNodes (work : Expansion) : List NodeId :=
  (work.cases.toList.flatMap Prod.snd).flatMap work.store.descendants

section Table
variable {names : List String} {own : NodeId → Prop} {work : Expansion} {entries : List Tree}
  {id : NodeId}

/-- Below a node of the guarded part all nodes belong to it. -/
theorem own_of_mem_names {store : Store} {tree : Tree} (guarded : Guarded names own store)
    (holds : store.Holds tree) (rooted : ∀ id, tree.root = some id → own id) :
    ∀ id ∈ tree.names, own id := by
  induction holds with
  | nothing => exact List.forall_mem_nil _
  | @node name shape below found regular roots links inner ih =>
    intro id inside
    have here := rooted name rfl
    rcases List.mem_cons.mp inside with rfl | deeper
    · exact here
    · obtain ⟨tree, member, there⟩ := Tree.mem_namesAll.mp deeper
      refine ih tree member (fun child same => ?_) id there
      refine (guarded.slots name shape child here found ?_).1
      rw [roots, ← same]
      exact List.mem_map_of_mem member

theorem mem_tableNodes (slots : work.cases.toList.flatMap Prod.snd = entries.map Tree.root)
    (holds : ∀ tree ∈ entries, work.store.Holds tree) (nodup : (Tree.namesAll entries).Nodup) :
    id ∈ work.tableNodes ↔ ∃ tree ∈ entries, id ∈ tree.names := by
  rw [tableNodes, slots, List.mem_flatMap]
  constructor
  · rintro ⟨_, listed, inside⟩
    obtain ⟨tree, member, rfl⟩ := List.mem_map.mp listed
    have perm := (holds tree member).descendants_perm (Tree.nodup_of_mem_namesAll nodup member)
    exact ⟨tree, member, perm.mem_iff.mp inside⟩
  · rintro ⟨tree, member, inside⟩
    have perm := (holds tree member).descendants_perm (Tree.nodup_of_mem_namesAll nodup member)
    exact ⟨tree.root, List.mem_map_of_mem member, perm.mem_iff.mpr inside⟩

/-- A guarded name in the table has a parent there, which permits it. -/
theorem exists_parent_of_mem_tableNodes (guards : Guards names own work)
    (slots : work.cases.toList.flatMap Prod.snd = entries.map Tree.root)
    (holds : ∀ tree ∈ entries, work.store.Holds tree) (nodup : (Tree.namesAll entries).Nodup)
    (present : id ∈ work.tableNodes) (among : work.store.IsAmong names id) :
    ∃ parent shape, parent ∈ work.tableNodes ∧ work.store.parent (some id) = some parent ∧
      work.store.shape? (some parent) = some shape ∧ shape.permits (some id) = true := by
  obtain ⟨tree, member, inside⟩ := (mem_tableNodes slots holds nodup).mp present
  have listed : tree.root ∈ work.cases.toList.flatMap Prod.snd := by
    rw [slots]
    exact List.mem_map_of_mem member
  obtain ⟨⟨value, statements⟩, inTable, inCase⟩ := List.mem_flatMap.mp listed
  have free := guards.cases (Std.TreeMap.mem_toList_iff_getElem?_eq_some.mp inTable) _ inCase
  have belongs := own_of_mem_names guards.guarded (holds tree member) fun id same => (free id same).1
  obtain ⟨part, within, rooted⟩ := Tree.exists_within inside
  have below : part ≠ tree := by
    rintro rfl
    exact (free id rooted).2.2 among
  obtain ⟨parent, shape, linked, shaped, slot⟩ := (holds tree member).exists_parent within rooted below
  have notRoot : id ∈ tree.inner := by
    cases tree with
    | nothing => cases inside
    | node name _ _ =>
      rcases List.mem_cons.mp inside with rfl | deeper
      · exact absurd among (free id rfl).2.2
      · exact deeper
  obtain ⟨parent', parentInside, linked'⟩ := (holds tree member).parent_mem notRoot
  rw [linked] at linked'
  cases linked'
  refine ⟨parent, shape, (mem_tableNodes slots holds nodup).mpr ⟨tree, member, parentInside⟩, linked,
    shaped, ?_⟩
  exact (guards.guarded.slots parent shape id (belongs parent parentInside) shaped slot).2.2 among

end Table

section Reads
variable {store before : Store} {root : NodeId} {key : DispatchKey} {tracked : Tracking.Tracked}
  {dispatcher : Slot} {work : Expansion} {name : String}

/-- In the case table the key and the variables of the prelude are read by `switch` statements
only, so they are not read exactly if no `switch` on one of them is left. -/
theorem table_reads_select (isTree : store.IsTree root) (top : store.parent (some root) = none)
    (inside : key.loop ∈ store.descendants (some root))
    (tracks : Tracking.track store root key = .ok tracked)
    (copies : store.copy (key.dispatcher? store) = (before, dispatcher))
    (expanded : expand before (counted key tracked) dispatcher (counted key tracked).liveValues =
      (work, none))
    (listed : name = key.name ∨ name ∈ Tracking.declaredNames store key.prelude) :
    (∀ id ∈ work.tableNodes, work.store.isIdentifier (some id) name = true →
        work.store.isRead id = true → Tracking.isDiscriminant work.store id = true) ∧
      ((∀ id ∈ work.tableNodes, work.store.isIdentifier (some id) name = true →
          work.store.isRead id = false) ↔
        ∀ switch ∈ work.tableNodes, ∀ discriminant,
          work.store.discriminant? (some switch) = some discriminant →
            work.store.isIdentifier discriminant name = false) := by
  obtain ⟨prelude, origin, held, samePrelude, holds, rooted, nodup, -⟩ :=
    Tracking.track_counts isTree top inside tracks
  have guarded := Tracking.track_guarded isTree top inside tracks holds rooted
  obtain ⟨copied, entries, isCopy, same, slots, heldEntries, nodupEntries, -⟩ :=
    exists_entries_of_expand held samePrelude holds rooted nodup copies expanded
  have guards : Guards (Tracking.guardedNames store key)
      (fun id => id ∈ origin.names ∨ store.nodes.size ≤ id) work := by
    have bounds : ∀ id, key.dispatcher? store = some id →
        (id ∈ origin.names ∨ store.nodes.size ≤ id) ∧ id < store.nodes.size := by
      intro id there
      have here := Tree.mem_names_root (rooted.trans there)
      exact ⟨.inl here, holds.lt_size here⟩
    obtain ⟨guardedBefore, -, ownCopy⟩ := copy_guarded guarded bounds
    rw [copies] at guardedBefore ownCopy
    refine expandWithin_guards _ expanded ⟨guardedBefore, fun found => ?_⟩
      fun id there => (ownCopy id there).1
    rw [Std.TreeMap.getElem?_emptyc] at found
    cases found
  have among : ∀ {id : NodeId}, work.store.isIdentifier (some id) name = true →
      work.store.IsAmong (Tracking.guardedNames store key) id := by
    intro id named
    exact ⟨name, List.mem_cons.mpr listed, eq_of_beq named⟩
  have selects : ∀ id ∈ work.tableNodes, work.store.isIdentifier (some id) name = true →
      work.store.isRead id = true → ∃ switch ∈ work.tableNodes,
        work.store.discriminant? (some switch) = some (some id) ∧
        Tracking.isDiscriminant work.store id = true := by
    intro id present named reads
    obtain ⟨parent, shape, parentPresent, linked, shaped, permitted⟩ :=
      exists_parent_of_mem_tableNodes guards slots heldEntries nodupEntries present (among named)
    have selects := Tracking.isDiscriminant_of_isRead linked shaped permitted reads
    refine ⟨parent, parentPresent, ?_, selects⟩
    unfold Tracking.isDiscriminant at selects
    rw [linked] at selects
    exact eq_of_beq selects
  refine ⟨fun id present named reads => ?_, fun unread switch present discriminant selected => ?_,
    fun none_ id present named => ?_⟩
  · obtain ⟨-, -, -, isDiscriminant⟩ := selects id present named reads
    exact isDiscriminant
  · -- the discriminant of a `switch` in the table is read there
    rw [← Bool.not_eq_true]
    intro named
    cases discriminant with
    | none => cases named
    | some id =>
      obtain ⟨clauses, shaped⟩ : ∃ clauses,
          work.store.shape? (some switch) = some (.switch (some id) clauses) := by
        unfold Store.discriminant? at selected
        split at selected
        · rename_i shaped
          cases selected
          exact ⟨_, shaped⟩
        · cases selected
      obtain ⟨tree, member, here⟩ := (mem_tableNodes slots heldEntries nodupEntries).mp present
      obtain ⟨below, linked⟩ := (heldEntries tree member).slot_mem here shaped List.mem_cons_self
      have reads : work.store.isRead id = true := by
        simp [isRead, isReference, isDeclarationName, isTarget, linked, shaped]
      have there := (mem_tableNodes slots heldEntries nodupEntries).mpr ⟨tree, member, below⟩
      rw [unread id there named] at reads
      cases reads
  · rw [← Bool.not_eq_true]
    intro reads
    obtain ⟨switch, switchPresent, selected, -⟩ := selects id present named reads
    rw [none_ switch switchPresent (some id) selected] at named
    cases named

end Reads

/-! ## A `switch` that is not all of its clause -/

/-- `for (;;) { switch (s) { case 0: x; switch (s) {} break; } }`, or the same without the inner
`switch`. -/
def innerSwitch (kept : Bool) : Store := ⟨#[
  ⟨.file default [some 1], .none, 0, 0, none⟩,
  ⟨.loop .forLoop none none none (some 2), .none, 0, 0, some 0⟩,
  ⟨.block [some 3], .none, 0, 0, some 1⟩,
  ⟨.switch (some 4) [some 5], .none, 0, 0, some 2⟩,
  ⟨.identifier "s", .none, 0, 0, some 3⟩,
  ⟨.clause false (some 6) (some 7 :: ((if kept then [some 9] else []) ++ [some 11])),
    .none, 0, 0, some 3⟩,
  ⟨.literal .number "0" (some 0.0), .none, 0, 0, some 5⟩,
  ⟨.expressionStatement (some 8), .none, 0, 0, some 5⟩,
  ⟨.identifier "x", .none, 0, 0, some 7⟩,
  ⟨.switch (some 10) [], .none, 0, 0, some 5⟩,
  ⟨.identifier "s", .none, 0, 0, some 9⟩,
  ⟨.jump .breaks none, .none, 0, 0, some 5⟩]⟩

/-- The key of the loop, as it is found. -/
def innerSwitchKey : DispatchKey := ⟨"s", 0, 1, none, 0, 0, [], ∅, [], none, false⟩

/-- The start is all that is counted. -/
def innerSwitchTracked : Tracking.Tracked := ⟨Std.TreeMap.empty.insert 0 1, []⟩

/-- The expansion of the dispatcher. -/
def innerSwitchWork (kept : Bool) : Expansion :=
  (expand ((innerSwitch kept).copy (some 3)).1 (counted innerSwitchKey innerSwitchTracked)
    ((innerSwitch kept).copy (some 3)).2 (counted innerSwitchKey innerSwitchTracked).liveValues).1

theorem innerSwitch_expanded (kept : Bool) :
    expand ((innerSwitch kept).copy (some 3)).1 (counted innerSwitchKey innerSwitchTracked)
      ((innerSwitch kept).copy (some 3)).2 (counted innerSwitchKey innerSwitchTracked).liveValues =
      (innerSwitchWork kept, none) := by
  refine Prod.ext (by rw [innerSwitchWork]) ?_
  cases kept
  · decide +kernel
  · decide +kernel

/-- Without the inner `switch` the case does not read the key. -/
theorem plain_case_unread :
    (innerSwitch false).IsTree 0 ∧ (innerSwitch false).parent (some 0) = none ∧
      innerSwitchKey.loop ∈ (innerSwitch false).descendants (some 0) ∧
      Tracking.track (innerSwitch false) 0 innerSwitchKey = .ok innerSwitchTracked ∧
      (innerSwitch false).copy (innerSwitchKey.dispatcher? (innerSwitch false)) =
        (innerSwitch false).copy (some 3) ∧
      expand ((innerSwitch false).copy (some 3)).1 (counted innerSwitchKey innerSwitchTracked)
        ((innerSwitch false).copy (some 3)).2
        (counted innerSwitchKey innerSwitchTracked).liveValues = (innerSwitchWork false, none) ∧
      ∀ id ∈ (innerSwitchWork false).tableNodes,
        (innerSwitchWork false).store.isIdentifier (some id) "s" = true →
          (innerSwitchWork false).store.isRead id = false := by
  have isTree : (innerSwitch false).IsTree 0 :=
    @Store.isTree_of_isGrown _ 8 0 (by decide) (by decide)
  have top : (innerSwitch false).parent (some 0) = none := rfl
  have inside : innerSwitchKey.loop ∈ (innerSwitch false).descendants (some 0) := by decide
  have tracks : Tracking.track (innerSwitch false) 0 innerSwitchKey = .ok innerSwitchTracked := rfl
  have copies : (innerSwitch false).copy (innerSwitchKey.dispatcher? (innerSwitch false)) =
      (innerSwitch false).copy (some 3) := rfl
  have expanded := innerSwitch_expanded false
  refine ⟨isTree, top, inside, tracks, copies, expanded, ?_⟩
  refine (table_reads_select isTree top inside tracks copies expanded (.inl rfl)).2.mpr ?_
  decide +kernel

/-- With it the key is tracked and the dispatcher expanded just so, and the case reads the key. -/
theorem inner_switch_reads :
    Tracking.track (innerSwitch true) 0 innerSwitchKey = .ok innerSwitchTracked ∧
      expand ((innerSwitch true).copy (some 3)).1 (counted innerSwitchKey innerSwitchTracked)
        ((innerSwitch true).copy (some 3)).2
        (counted innerSwitchKey innerSwitchTracked).liveValues = (innerSwitchWork true, none) ∧
      ∃ id ∈ (innerSwitchWork true).tableNodes,
        (innerSwitchWork true).store.isIdentifier (some id) "s" = true ∧
          (innerSwitchWork true).store.isRead id = true :=
  ⟨rfl, innerSwitch_expanded true, by decide +kernel⟩

end Expansion

end Unflatten
