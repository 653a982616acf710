import Unflatten.Proofs.Binding.Respelling

/-! # Binding under other names

Two runs of binding are compared, over a store and over the same store with other texts in its
identifiers.  `Bindings.Matches` says that the second bindings are the first ones with other names
for the symbols.  Each step keeps this (`perform_matches`, `resolve_matches`) if the texts are
those of a renaming that captures nothing (`Bindings.Renames`). -/

set_option autoImplicit false

namespace Unflatten

/-- Two scopes that differ in the names of the symbols. -/
structure Scope.Matches (name : SymbolId → String) (first second : Scope) : Prop where
  parent : second.parent = first.parent
  kind : second.kind = first.kind
  container : second.container = first.container
  table : ∀ (key : String) (number : SymbolId), second.table[key]? = some number ↔
    ∃ old : String, first.table[old]? = some number ∧ key = name number

namespace Bindings

/-- The second bindings are the first ones with other names for the symbols. -/
structure Matches (name : SymbolId → String) (first second : Bindings) : Prop where
  symbols : second.symbols =
    first.symbols.mapIdx fun number symbol => { symbol with name := name number }
  size : second.scopes.size = first.scopes.size
  scopes : ∀ (place : ScopeId) (scope : Scope), first.scopes[place]? = some scope →
    ∃ other, second.scopes[place]? = some other ∧ Scope.Matches name scope other
  scopeOf : second.scopeOf = first.scopeOf
  symbolOf : second.symbolOf = first.symbolOf
  unresolved : second.unresolved = first.unresolved
  current : second.current = first.current

/-- Symbols get new names and identifiers new texts.  The identifiers of a symbol get its name,
and a symbol whose name is the new text of an identifier was called like that identifier before. -/
structure Renames (store : Store) (within : List NodeId) (bindings : Bindings)
    (name : SymbolId → String) (text : NodeId → String) : Prop where
  spelled : ∀ (id : NodeId) (number : SymbolId), bindings.symbolId? id = some number →
    text id = name number
  distinct : ∀ (id : NodeId) (word : String), id ∈ within →
    store.identifier? (some id) = some word → ∀ (number : SymbolId) (symbol : Symbol),
      bindings.symbols[number]? = some symbol → name number = text id → symbol.name = word

section Matching
variable {store : Store} {within : List NodeId} {name : SymbolId → String} {text : NodeId → String}
  {first second final : Bindings} {id : NodeId} {word : String}

/-! ## Looking up -/

theorem Matches.symbolId? (same : Matches name first second) (id : NodeId) :
    second.symbolId? id = first.symbolId? id := by
  rw [Bindings.symbolId?, Bindings.symbolId?, same.symbolOf]

theorem Matches.scope_none (same : Matches name first second) {place : ScopeId}
    (missing : first.scopes[place]? = none) : second.scopes[place]? = none := by
  rw [Array.getElem?_eq_none_iff] at missing ⊢
  exact same.size ▸ missing

theorem Matches.parent (same : Matches name first second) (place : ScopeId) :
    (second.scopes[place]?.bind fun scope => scope.parent) =
      first.scopes[place]?.bind fun scope => scope.parent := by
  cases found : first.scopes[place]? with
  | none => rw [same.scope_none found]
  | some scope =>
    obtain ⟨other, there, matched⟩ := same.scopes place scope found
    rw [there, Option.bind_some, Option.bind_some, matched.parent]

theorem Matches.hoistingScope? (same : Matches name first second) (fuel : Nat)
    (scope : Option ScopeId) :
    second.hoistingScope? fuel scope = first.hoistingScope? fuel scope := by
  induction fuel generalizing scope with
  | zero => rfl
  | succ fuel ih =>
    cases scope with
    | none => rfl
    | some place =>
      rw [Bindings.hoistingScope?, Bindings.hoistingScope?]
      cases found : first.scopes[place]? with
      | none => rw [same.scope_none found]; rfl
      | some scope =>
        obtain ⟨other, there, matched⟩ := same.scopes place scope found
        rw [there, Option.bind_some, Option.bind_some, matched.kind, matched.parent, ih]

theorem Matches.hoistingScope (same : Matches name first second) :
    second.hoistingScope = first.hoistingScope := by
  rw [Bindings.hoistingScope, Bindings.hoistingScope, same.size, same.current, same.hoistingScope?]

theorem Matches.enclosingScope? (same : Matches name first second) (slot : Slot) :
    second.enclosingScope? (store.respell text) slot = first.enclosingScope? store slot := by
  simp only [Bindings.enclosingScope?, same.scopeOf, Store.climb_respell, Store.depthBound_respell]

/-- A symbol of a growing run whose name is the new text of an identifier was called like it. -/
theorem Renames.old_name (renames : Renames store within final name text)
    (sound : first.IsSound store within) (grows : first.Grows final) {place : ScopeId}
    {scope : Scope} {old : String} {number : SymbolId} (stands : first.scopes[place]? = some scope)
    (listed : scope.table[old]? = some number) (member : id ∈ within)
    (spelled : store.identifier? (some id) = some word) (same : name number = text id) :
    old = word := by
  obtain ⟨symbol, there, rfl⟩ := sound.tables place scope old number stands listed
  obtain ⟨other, stays, called⟩ := grows.named number symbol there
  rw [← called]
  exact renames.distinct id word member spelled number other stays same

/-- What an identifier finds in one scope. -/
theorem Renames.listed? (renames : Renames store within final name text) (sound : first.IsSound store within) (grows : first.Grows final) (member : id ∈ within)
    (spelled : store.identifier? (some id) = some word) {place : ScopeId} {scope other : Scope}
    (stands : first.scopes[place]? = some scope) (matched : Scope.Matches name scope other)
    (found : ∀ number, scope.table[word]? = some number → text id = name number) :
    other.table[text id]? = scope.table[word]? := by
  cases listed : scope.table[word]? with
  | some number => exact (matched.table _ _).mpr ⟨word, listed, found number listed⟩
  | none =>
    refine Option.eq_none_iff_forall_ne_some.mpr fun number there => ?_
    obtain ⟨old, stood, called⟩ := (matched.table _ _).mp there
    rw [renames.old_name sound grows stands stood member spelled called.symm, listed] at stood
    cases stood

/-- What an identifier finds. -/
theorem Matches.lookup? (same : Matches name first second)
    (renames : Renames store within final name text) (sound : first.IsSound store within)
    (grows : first.Grows final) (member : id ∈ within)
    (spelled : store.identifier? (some id) = some word) (fuel : Nat) (scope : Option ScopeId)
    (found : ∀ number, first.lookup? word fuel scope = some number → text id = name number) :
    second.lookup? (text id) fuel scope = first.lookup? word fuel scope := by
  induction fuel generalizing scope with
  | zero => rfl
  | succ fuel ih =>
    cases scope with
    | none => rfl
    | some place =>
      rw [Bindings.lookup?] at found
      rw [Bindings.lookup?, Bindings.lookup?]
      cases stands : first.scopes[place]? with
      | none => rw [same.scope_none stands]; rfl
      | some scope =>
        obtain ⟨other, there, matched⟩ := same.scopes place scope stands
        rw [stands, Option.bind_some] at found
        have here := renames.listed? sound grows member spelled stands matched fun number listed =>
          found number (by rw [listed, Option.some_or])
        rw [there, Option.bind_some, Option.bind_some, here, matched.parent]
        cases listed : scope.table[word]? with
        | some number => rfl
        | none =>
          rw [Option.none_or, Option.none_or]
          exact ih scope.parent fun number above => found number (by rw [listed, Option.none_or, above])

/-! ## Changing symbols -/

theorem modify_mapIdx (symbols : Array Symbol) (number : SymbolId) (change : Symbol → Symbol)
    (commutes : ∀ (symbol : Symbol) (called : String),
      change { symbol with name := called } = { change symbol with name := called }) :
    (symbols.mapIdx fun number symbol => { symbol with name := name number }).modify number change =
      (symbols.modify number change).mapIdx fun number symbol => { symbol with name := name number } := by
  refine Array.ext_getElem? fun place => ?_
  simp only [Array.getElem?_modify, Array.getElem?_mapIdx]
  split
  · cases symbols[place]? with
    | none => rfl
    | some symbol => exact congrArg some (commutes symbol _)
  · rfl

/-- A symbol changes, but not its name. -/
theorem Matches.modify (same : Matches name first second) (number : SymbolId)
    (change : Symbol → Symbol) (commutes : ∀ (symbol : Symbol) (called : String),
      change { symbol with name := called } = { change symbol with name := called }) :
    Matches name { first with symbols := first.symbols.modify number change }
      { second with symbols := second.symbols.modify number change } := by
  refine ⟨?_, same.size, same.scopes, same.scopeOf, same.symbolOf, same.unresolved, same.current⟩
  rw [same.symbols]
  exact modify_mapIdx first.symbols number change commutes

theorem Matches.assign (same : Matches name first second) (id : NodeId) (number : SymbolId) :
    Matches name { first with symbolOf := first.symbolOf.setIfInBounds id (some number) }
      { second with symbolOf := second.symbolOf.setIfInBounds id (some number) } :=
  ⟨same.symbols, same.size, same.scopes, same.scopeOf, by rw [same.symbolOf], same.unresolved,
    same.current⟩

theorem Matches.noteWrite (same : Matches name first second) (id : NodeId) :
    Matches name (first.noteWrite id) (second.noteWrite id) := by
  rw [Bindings.noteWrite, Bindings.noteWrite, same.symbolId?]
  cases first.symbolId? id with
  | none => exact same
  | some number => exact same.modify number _ fun _ _ => rfl

theorem Matches.enter (same : Matches name first second) (kind : ScopeKind) (container : NodeId) :
    Matches name (first.enter kind container) (second.enter kind container) := by
  refine ⟨same.symbols, ?_, fun place scope stands => ?_, ?_, same.symbolOf, same.unresolved, ?_⟩
  · simp only [Bindings.enter, Array.size_push, same.size]
  · simp only [Bindings.enter, Array.getElem?_push, same.size, same.current] at stands ⊢
    split at stands
    · cases stands
      rw [if_pos ‹_›]
      refine ⟨_, rfl, rfl, rfl, rfl, fun key number => ?_⟩
      simp only [Std.TreeMap.getElem?_emptyc, reduceCtorEq, false_and, exists_false]
    · rw [if_neg ‹_›]
      exact same.scopes place scope stands
  · simp only [Bindings.enter, same.scopeOf, same.size]
  · simp only [Bindings.enter, same.size]

theorem Matches.leave (same : Matches name first second) :
    Matches name first.leave second.leave := by
  refine ⟨same.symbols, same.size, same.scopes, same.scopeOf, same.symbolOf, same.unresolved, ?_⟩
  simp only [Bindings.leave, same.current, same.parent]

/-! ## Declaring -/

/-- A name that is new in two tables that match. -/
theorem Scope.Matches.insert {before after : Scope} (matched : Scope.Matches name before after)
    {number : SymbolId} {key : String} (called : key = name number)
    (free : before.table[word]? = none) (frees : after.table[key]? = none) :
    Scope.Matches name { before with table := before.table.insert word number }
      { after with table := after.table.insert key number } := by
  refine ⟨matched.parent, matched.kind, matched.container, fun text place => ?_⟩
  simp only [Std.TreeMap.getElem?_insert, compare_eq_iff_eq]
  constructor
  · intro listed
    split at listed
    · rename_i same
      cases listed
      exact ⟨word, if_pos rfl, same ▸ called⟩
    · obtain ⟨old, there, calls⟩ := (matched.table text place).mp listed
      refine ⟨old, ?_, calls⟩
      rw [if_neg, there]
      rintro rfl
      rw [free] at there
      cases there
  · rintro ⟨old, there, calls⟩
    split at there
    · cases there
      exact if_pos (called.trans calls.symm)
    · have listed := (matched.table text place).mpr ⟨old, there, calls⟩
      rw [if_neg, listed]
      rintro rfl
      rw [frees] at listed
      cases listed

/-- What a declaration finds or makes. -/
theorem symbolId?_declare_self (sized : first.symbolOf.size = store.nodes.size)
    (spelled : store.identifier? (some id) = some word) (kind : DeclarationKind) (scope : ScopeId) :
    (first.declare (some scope) word kind id).symbolId? id =
      some ((first.scopes[scope]?.bind fun found => found.table[word]?).getD first.symbols.size) := by
  have bound := lt_size_of_identifier? spelled
  unfold Bindings.declare
  simp only
  split
  · rename_i number listed
    rw [listed, Option.getD_some]
    exact (symbolId?_set sized bound number id).trans (if_pos rfl)
  · rename_i missing
    rw [missing, Option.getD_none]
    exact (symbolId?_set sized bound first.symbols.size id).trans (if_pos rfl)

theorem Matches.declare (same : Matches name first second)
    (renames : Renames store within final name text) (sound : first.IsSound store within)
    (grown : first.Grows final)
    (member : id ∈ within) (spelled : store.identifier? (some id) = some word)
    (kind : DeclarationKind) (scope? : Option ScopeId)
    (grows : (first.declare scope? word kind id).Grows final) :
    Matches name (first.declare scope? word kind id) (second.declare scope? (text id) kind id) := by
  cases scope? with
  | none => exact same
  | some scope =>
  have called := renames.spelled id _
    (grows.belongs id _ (symbolId?_declare_self sound.sized spelled kind scope))
  have listed : (second.scopes[scope]?.bind fun found => found.table[text id]?) =
      first.scopes[scope]?.bind fun found => found.table[word]? := by
    cases stands : first.scopes[scope]? with
    | none => rw [same.scope_none stands]; rfl
    | some found =>
      obtain ⟨other, there, matched⟩ := same.scopes scope found stands
      rw [there, Option.bind_some, Option.bind_some]
      refine renames.listed? sound grown member spelled stands matched fun number listed => ?_
      rw [called, stands, Option.bind_some, listed, Option.getD_some]
  rw [Bindings.declare, Bindings.declare]
  simp only [listed]
  cases found : (first.scopes[scope]?.bind fun found => found.table[word]?) with
  | some number => exact (same.assign id number).modify number _ fun _ _ => rfl
  | none =>
    rw [found, Option.getD_none] at called
    rw [found] at listed
    have count : second.symbols.size = first.symbols.size := by rw [same.symbols, Array.size_mapIdx]
    refine ⟨?_, ?_, fun place before stands => ?_, same.scopeOf, ?_, same.unresolved, same.current⟩
    · simp only [same.symbols, Array.mapIdx_push, called]
    · simp only [Array.size_modify, same.size]
    · simp only [Array.getElem?_modify, count] at stands ⊢
      split at stands
      · obtain ⟨old, stood, rfl⟩ := Option.map_eq_some_iff.mp stands
        obtain ⟨other, there, matched⟩ := same.scopes place old stood
        rename_i here
        subst here
        rw [stood, Option.bind_some] at found
        rw [there, Option.bind_some] at listed
        rw [if_pos rfl, there]
        exact ⟨_, rfl, Scope.Matches.insert matched called found listed⟩
      · rw [if_neg ‹_›]
        exact same.scopes place before stands
    · simp only [same.symbolOf, count]

/-! ## The two runs -/

theorem perform_matches (same : Matches name first second)
    (renames : Renames store within final name text) (sound : first.IsSound store within)
    {chosen : List (Option ScopeId)} {step : Step} {rest : List Step}
    (awaits : Awaits store within first (step :: rest))
    (grows : (perform store (first, chosen) step).1.Grows final) :
    Matches name (perform store (first, chosen) step).1
        (perform (store.respell text) (second, chosen) step).1 ∧
      (perform (store.respell text) (second, chosen) step).2 = (perform store (first, chosen) step).2 := by
  cases step with
  | enter kind container => exact ⟨same.enter kind container, rfl⟩
  | leave => exact ⟨same.leave, rfl⟩
  | choose isCurrent =>
    refine ⟨same, ?_⟩
    simp only [perform, same.current, same.hoistingScope]
  | dismiss => exact ⟨same, rfl⟩
  | declare kind id =>
    have grown := (perform_sound chosen sound awaits).2.1.trans grows
    have member := (awaits.named id List.mem_cons_self).2
    refine ⟨?_, rfl⟩
    simp only [perform, declareIdentifier, Store.identifier?_respell] at grows ⊢
    cases spelled : store.identifier? (some id) with
    | none => exact same
    | some word =>
      rw [spelled] at grows
      exact same.declare renames sound grown member spelled kind _ grows
  | write id =>
    refine ⟨?_, rfl⟩
    simp only [perform, Store.identifier?_respell, Option.isSome_map]
    split
    · exact same.noteWrite id
    · exact same

theorem performAll_matches {steps : List Step} {chosen : List (Option ScopeId)}
    (same : Matches name first second) (renames : Renames store within final name text)
    (sound : first.IsSound store within) (awaits : Awaits store within first steps)
    (grows : (performAll store (first, chosen) steps).1.Grows final) :
    Matches name (performAll store (first, chosen) steps).1
      (performAll (store.respell text) (second, chosen) steps).1 := by
  induction steps generalizing first second chosen with
  | nil => exact same
  | cons step rest ih =>
    obtain ⟨stays, -, remains⟩ := perform_sound chosen sound awaits
    have ends := (performAll_sound (perform store (first, chosen) step).2 stays remains).2
    obtain ⟨matched, chooses⟩ := perform_matches same renames sound awaits (ends.trans grows)
    have after : perform (store.respell text) (second, chosen) step =
        ((perform (store.respell text) (second, chosen) step).1,
          (perform store (first, chosen) step).2) := Prod.ext rfl chooses
    rw [performAll_cons, performAll_cons, after]
    exact ih matched stays remains grows

/-- What an identifier is resolved to. -/
theorem symbolId?_resolve_self (sized : first.symbolOf.size = store.nodes.size)
    (spelled : store.identifier? (some id) = some word)
    (free : ((first.symbolId? id).isSome || !store.isReference id) = false) {number : SymbolId}
    (found : first.lookupAt? store (some id) word = some number) :
    (resolve store first id).symbolId? id = some number := by
  have set := symbolId?_set sized (lt_size_of_identifier? spelled) number id
  rw [if_pos rfl] at set
  rw [resolve, spelled]
  simp only [free, found, Bool.false_eq_true, if_false]
  split
  · rw [symbolId?_noteWrite]
    exact set
  · exact set

theorem resolve_matches (same : Matches name first second)
    (renames : Renames store within final name text) (sound : first.IsSound store within)
    (member : id ∈ within) (grows : (resolve store first id).Grows final) :
    Matches name (resolve store first id) (resolve (store.respell text) second id) := by
  have grown := (resolve_sound sound member).2.trans grows
  cases spelled : store.identifier? (some id) with
  | none =>
    simp only [resolve, Store.identifier?_respell, spelled, Option.map_none]
    exact same
  | some word =>
    cases free : ((first.symbolId? id).isSome || !store.isReference id) with
    | true =>
      simp only [resolve, Store.identifier?_respell, spelled, Option.map_some, same.symbolId?,
        Store.isReference_respell, free, if_true]
      exact same
    | false =>
      have found : second.lookupAt? (store.respell text) (some id) (text id) =
          first.lookupAt? store (some id) word := by
        rw [lookupAt?, lookupAt?, same.size, same.enclosingScope?]
        refine same.lookup? renames sound grown member spelled _ _ fun number found => ?_
        exact renames.spelled id number
          (grows.belongs id number (symbolId?_resolve_self sound.sized spelled free found))
      simp only [resolve, Store.identifier?_respell, spelled, Option.map_some, same.symbolId?,
        Store.isReference_respell, Store.isWrite_respell, free, found, Bool.false_eq_true, if_false]
      cases first.lookupAt? store (some id) word with
      | none =>
        exact ⟨same.symbols, same.size, same.scopes, same.scopeOf, same.symbolOf,
          by simp only [same.unresolved], same.current⟩
      | some number =>
        have attached := (same.assign id number).modify number
          (fun found => { found with references := found.references.push id }) fun _ _ => rfl
        simp only
        split
        · exact attached.noteWrite id
        · exact attached

theorem foldl_resolve_matches {ids : List NodeId} (same : Matches name first second)
    (renames : Renames store within final name text) (sound : first.IsSound store within)
    (members : ids ⊆ within) (grows : (ids.foldl (resolve store) first).Grows final) :
    Matches name (ids.foldl (resolve store) first)
      (ids.foldl (resolve (store.respell text)) second) := by
  induction ids generalizing first second with
  | nil => exact same
  | cons id rest ih =>
    have later : rest ⊆ within := fun _ member => members (List.mem_cons_of_mem _ member)
    have stays := (resolve_sound sound (members List.mem_cons_self)).1
    exact ih (resolve_matches same renames sound (members List.mem_cons_self)
      ((foldl_resolve_sound stays later).2.trans grows)) stays later grows

/-- The bindings of a tree whose identifiers have new texts. -/
theorem of_matches {root : NodeId} {tree : Tree} (stands : store.Stands root tree)
    (renames : Renames store (store.descendants (some root)) (of store root) name text) :
    Matches name (of store root) (of (store.respell text) root) := by
  have start : Matches name (empty store) (empty (store.respell text)) := by
    refine ⟨rfl, rfl, fun _ _ stands => ?_, ?_, ?_, rfl, rfl⟩
    · cases stands
    · simp only [empty, Store.size_respell]
    · simp only [empty, Store.size_respell]
  have awaits := awaits_fileScript stands
  obtain ⟨declared, -⟩ := performAll_sound [] (empty_sound store _) awaits
  have grows := (foldl_resolve_sound declared fun _ member => member).2
  rw [← of_eq] at grows
  rw [of_eq (store.respell text), Store.descendants_respell, fileScript_respell]
  have matched := performAll_matches start renames (empty_sound store _) awaits grows
  have ends := foldl_resolve_matches matched renames declared (fun _ member => member)
    (by rw [← of_eq]; exact .refl _)
  rwa [← of_eq] at ends

end Matching

end Bindings

end Unflatten
