import Unflatten.Proofs.Binding.Tallying
import Unflatten.Proofs.Parser.Labels

/-! # Every identifier is classified once

Each identifier of a tree is one of the declarations of a single symbol or one of the references
to it, or it stays unresolved, unless it names no variable at all (`Bindings.Classifies`).  What
resolving an identifier does is one of a few steps (`Bindings.Resolution`), each of which keeps the
references in the order of the tree and the symbols accounted for (`Bindings.Resolved`).  Each
scope stands in one that was opened before it (`Bindings.IsNested`), so looking up a name ends. -/

set_option autoImplicit false

namespace Unflatten

namespace Store

/-- Whether an identifier is the name of a property, or the label of a statement or a jump. -/
def isPropertyOrLabel (store : Store) (id : NodeId) : Bool :=
  match store.shape? (store.parent (some id)) with
  | some (.access false _ property) => property == some id
  | some (.propertyAssignment name _) => name == some id
  | some (.labeled label _) => label == some id
  | some (.jump _ label) => label == some id
  | _ => false

/-- An identifier stands for a variable unless it is a property or a label. -/
theorem isReference_eq_not {store : Store} (links : store.HasTrueLinks)
    (labels : store.LabelsStatements) {id : NodeId} {name : String}
    (spelled : store.identifier? (some id) = some name) :
    store.isReference id = !store.isPropertyOrLabel id := by
  unfold isReference isPropertyOrLabel
  cases linked : store.parent (some id) with
  | none => rfl
  | some parent =>
    obtain ⟨shape, found, listed⟩ := links id parent linked
    rw [found]
    cases shape with
    | access isElement _ _ => cases isElement <;> rfl
    | labeled label body =>
      rcases List.mem_cons.mp listed with rfl | behind
      · simp
      · have bare := (labels parent label body found).identifier?
        rw [← List.mem_singleton.mp behind, spelled] at bare
        cases bare
    | jump kind label =>
      rw [← List.mem_singleton.mp listed]
      simp
    | _ => rfl

end Store

namespace Bindings

section Resolving
variable {store : Store} {within done : List NodeId} {bindings : Bindings} {id : NodeId}
  {number : SymbolId} {symbol : Symbol}

/-! ## Resolving -/

/-- An identifier becomes a reference to a symbol. -/
def refer (bindings : Bindings) (id : NodeId) (number : SymbolId) : Bindings :=
  { bindings with
    symbolOf := bindings.symbolOf.setIfInBounds id (some number)
    symbols := bindings.symbols.modify number fun found =>
      { found with references := found.references.push id } }

/-- What resolving an identifier does. -/
inductive Resolution (store : Store) (bindings : Bindings) (id : NodeId) : Bindings → Prop
  | same (settled : (store.identifier? (some id)).isSome = true → store.isReference id = true →
      (bindings.symbolId? id).isSome = true) : Resolution store bindings id bindings
  | unresolved (named : store.isReference id = true) (free : bindings.symbolId? id = none) :
      Resolution store bindings id { bindings with unresolved := bindings.unresolved.push id }
  | reading {number : SymbolId} {symbol : Symbol} (found : bindings.symbols[number]? = some symbol)
      (spelled : store.identifier? (some id) = some symbol.name)
      (named : store.isReference id = true) (free : bindings.symbolId? id = none)
      (reads : store.isWrite id = false) : Resolution store bindings id (bindings.refer id number)
  | writing {number : SymbolId} {symbol : Symbol} (found : bindings.symbols[number]? = some symbol)
      (spelled : store.identifier? (some id) = some symbol.name)
      (named : store.isReference id = true) (free : bindings.symbolId? id = none)
      (writes : store.isWrite id = true) :
      Resolution store bindings id ((bindings.refer id number).noteWrite id)

theorem resolution (sound : bindings.IsSound store within) (id : NodeId) :
    Resolution store bindings id (resolve store bindings id) := by
  unfold resolve
  split
  · rename_i bare
    exact .same fun some => by
      rw [bare] at some
      cases some
  rename_i name spelled
  split
  · rename_i either
    refine .same fun _ named => ?_
    rw [named] at either
    simpa using either
  rename_i refers
  simp only [Bool.or_eq_true, Bool.not_eq_true', not_or, Bool.not_eq_false, Bool.not_eq_true,
    Option.isSome_eq_false_iff, Option.isNone_iff_eq_none] at refers
  obtain ⟨free, named⟩ := refers
  split
  · exact .unresolved named free
  rename_i number found
  obtain ⟨symbol, there, rfl⟩ := sound.lookup? found
  split
  · exact .writing there spelled named free ‹_›
  · exact .reading there spelled named free (Bool.eq_false_iff.mpr ‹_›)

/-- Some identifiers have been resolved, and each symbol has its references in their order. -/
structure Resolved (store : Store) (done : List NodeId) (bindings : Bindings) : Prop where
  tallied : bindings.All (Symbol.IsTallied store none)
  ordered : bindings.All fun symbol => symbol.references.toList.Sublist done
  settled : ∀ id ∈ done, (store.identifier? (some id)).isSome = true → store.isReference id = true →
    (bindings.symbolId? id).isSome = true ∨ id ∈ bindings.unresolved
  named : ∀ id ∈ bindings.unresolved, store.isReference id = true

theorem IsSound.refer (sound : bindings.IsSound store within)
    (found : bindings.symbols[number]? = some symbol)
    (spelled : store.identifier? (some id) = some symbol.name) (free : bindings.symbolId? id = none)
    (named : store.isReference id = true) (member : id ∈ within) :
    (bindings.refer id number).IsSound store within := by
  refine sound.attach (fun found => { found with references := found.references.push id })
    found rfl (fun other => ?_) spelled rfl free ⟨named, member⟩
  simp only [Symbol.sites, Array.toList_push, List.mem_append, List.mem_singleton]
  tauto

theorem symbolId?_refer (sound : bindings.IsSound store within)
    (spelled : store.identifier? (some id) = some symbol.name) (other : NodeId) :
    (bindings.refer id number).symbolId? other =
      if id = other then some number else bindings.symbolId? other :=
  symbolId?_set sound.sized (lt_size_of_identifier? spelled) number other

/-- A reference leaves itself to be accounted for. -/
theorem Resolved.refer_tallied (resolved : Resolved store done bindings)
    (sound : bindings.IsSound store within) (free : bindings.symbolId? id = none) :
    (bindings.refer id number).All (Symbol.IsTallied store (some id)) :=
  resolved.tallied.modify (fun _ found tallied => tallied.refer (sound.outside free found))
    fun _ _ _ found tallied => tallied.awaiting (sound.outside free found)

theorem Resolved.refer_ordered (resolved : Resolved store done bindings) :
    (bindings.refer id number).All fun symbol => symbol.references.toList.Sublist (done ++ [id]) :=
  resolved.ordered.modify
    (fun symbol _ ordered => by
      rw [Array.toList_push]
      exact ordered.append (.refl _))
    fun _ _ _ _ ordered => ordered.trans (List.sublist_append_left _ _)

theorem undeclared_refer (sound : bindings.IsSound store within) (free : bindings.symbolId? id = none)
    (number : SymbolId) : (bindings.refer id number).All fun symbol => id ∉ symbol.declarations := by
  have undeclared : bindings.All fun symbol => id ∉ symbol.declarations :=
    fun _ _ found declares => sound.outside free found (Symbol.mem_sites.mpr (.inl declares))
  exact undeclared.modify (fun _ _ apart => apart) fun _ _ _ _ apart => apart

/-- The identifiers of symbols stay settled, and so does the one that is resolved. -/
theorem Resolved.settle {later : Bindings} (resolved : Resolved store done bindings)
    (kept : ∀ other, (bindings.symbolId? other).isSome = true → (later.symbolId? other).isSome = true)
    (listed : ∀ other ∈ bindings.unresolved, other ∈ later.unresolved)
    (here : (store.identifier? (some id)).isSome = true → store.isReference id = true →
      (later.symbolId? id).isSome = true ∨ id ∈ later.unresolved) :
    ∀ other ∈ done ++ [id], (store.identifier? (some other)).isSome = true →
      store.isReference other = true →
      (later.symbolId? other).isSome = true ∨ other ∈ later.unresolved := by
  intro other member
  rcases List.mem_append.mp member with old | new
  · exact fun some named => (resolved.settled other old some named).imp (kept other) (listed other)
  · cases List.mem_singleton.mp new
    exact here

/-- One more identifier is resolved. -/
theorem resolve_resolved (resolved : Resolved store done bindings)
    (sound : bindings.IsSound store within) (member : id ∈ within) :
    Resolved store (done ++ [id]) (resolve store bindings id) := by
  have longer : ∀ symbol : Symbol, symbol.references.toList.Sublist done →
      symbol.references.toList.Sublist (done ++ [id]) := fun symbol ordered =>
    ordered.trans (List.sublist_append_left _ _)
  have kept : ∀ {number : SymbolId} {symbol : Symbol},
      store.identifier? (some id) = some symbol.name → ∀ other, (bindings.symbolId? other).isSome = true →
        ((bindings.refer id number).symbolId? other).isSome = true := by
    intro number symbol spelled other some
    rw [symbolId?_refer sound spelled]
    split
    · rfl
    · exact some
  have here : ∀ {number : SymbolId} {symbol : Symbol}, store.identifier? (some id) = some symbol.name →
      ((bindings.refer id number).symbolId? id).isSome = true := by
    intro number symbol spelled
    rw [symbolId?_refer sound spelled, if_pos rfl]
    rfl
  have resolution := resolution sound id
  generalize resolve store bindings id = later at resolution
  cases resolution with
  | same settled =>
    exact ⟨resolved.tallied, resolved.ordered.imp fun _ symbol _ => longer symbol,
      resolved.settle (fun _ some => some) (fun _ listed => listed) fun some named =>
        .inl (settled some named), resolved.named⟩
  | unresolved named free =>
    refine ⟨resolved.tallied, resolved.ordered.imp fun _ symbol _ => longer symbol,
      resolved.settle (fun _ some => some) (fun _ listed => Array.mem_push_of_mem id listed)
        fun _ _ => .inr Array.mem_push_self, fun other listed => ?_⟩
    rcases Array.mem_push.mp listed with old | rfl
    · exact resolved.named other old
    · exact named
  | @reading number symbol found spelled named free reads =>
    refine ⟨?_, resolved.refer_ordered, resolved.settle (kept spelled) (fun _ listed => listed)
      fun _ _ => .inl (here spelled), resolved.named⟩
    exact (resolved.refer_tallied sound free).imp fun place symbol there tallied =>
      tallied.pass (fun _ => reads) fun declares =>
        absurd declares (undeclared_refer sound free number place symbol there)
  | @writing number symbol found spelled named free writes =>
    have stays := sound.refer found spelled free named member
    refine ⟨?_, ?_, resolved.settle (fun other some => ?_) (fun other listed => ?_)
      fun _ _ => .inl ?_, fun other listed => resolved.named other ?_⟩
    · exact tallied_noteWrite stays (resolved.refer_tallied sound free) fun place symbol there site =>
        .inl ⟨(Symbol.mem_sites.mp site).resolve_left
          (undeclared_refer sound free number place symbol there), writes⟩
    · exact resolved.refer_ordered.noteWrite fun _ _ ordered => ordered
    · rw [symbolId?_noteWrite]
      exact kept spelled other some
    · rwa [unresolved_noteWrite]
    · rw [symbolId?_noteWrite]
      exact here spelled
    · rwa [unresolved_noteWrite] at listed

/-- Several identifiers are resolved. -/
theorem foldl_resolve_resolved {ids : List NodeId} (resolved : Resolved store done bindings)
    (sound : bindings.IsSound store within) (members : ids ⊆ within) :
    Resolved store (done ++ ids) (ids.foldl (resolve store) bindings) := by
  induction ids generalizing bindings done with
  | nil => rwa [List.append_nil]
  | cons id rest ih =>
    have member := members List.mem_cons_self
    have next := ih (resolve_resolved resolved sound member) (resolve_sound sound member).1
      fun _ later => members (List.mem_cons_of_mem _ later)
    rwa [List.append_assoc] at next

end Resolving

/-! ## Scopes in scopes -/

/-- Each scope stands in one with a smaller number. -/
structure IsNested (bindings : Bindings) : Prop where
  above : ∀ (place parent : ScopeId) (scope : Scope), bindings.scopes[place]? = some scope →
    scope.parent = some parent → parent < place
  inside : ∀ place, bindings.current = some place → place < bindings.scopes.size

section Nesting
variable {store : Store} {bindings later : Bindings}

theorem isNested_empty (store : Store) : (empty store).IsNested := by
  refine ⟨fun place parent scope found above => ?_, fun place current => ?_⟩
  · cases found
  · cases current

theorem IsNested.of_same (nested : bindings.IsNested) (scopes : later.scopes = bindings.scopes)
    (current : later.current = bindings.current) : later.IsNested :=
  ⟨by rw [scopes]; exact nested.above, by rw [scopes, current]; exact nested.inside⟩

theorem IsNested.enter (nested : bindings.IsNested) (kind : ScopeKind) (container : NodeId) :
    (bindings.enter kind container).IsNested := by
  refine ⟨fun place parent scope found above => ?_, fun place current => ?_⟩
  · simp only [Bindings.enter, Array.getElem?_push] at found
    split at found
    · rename_i new
      cases found
      exact new ▸ nested.inside parent above
    · exact nested.above place parent scope found above
  · cases current
    rw [Bindings.enter, Array.size_push]
    exact Nat.lt_succ_self _

theorem IsNested.leave (nested : bindings.IsNested) : bindings.leave.IsNested := by
  refine ⟨nested.above, fun place current => ?_⟩
  obtain ⟨inner, here, above⟩ := Option.bind_eq_some_iff.mp current
  obtain ⟨scope, found, parent⟩ := Option.bind_eq_some_iff.mp above
  exact Nat.lt_trans (nested.above inner place scope found parent) (nested.inside inner here)

theorem IsNested.noteWrite (nested : bindings.IsNested) (id : NodeId) :
    (bindings.noteWrite id).IsNested := by
  unfold Bindings.noteWrite
  split
  · exact nested
  · exact nested.of_same rfl rfl

theorem IsNested.declare (nested : bindings.IsNested) (scope? : Option ScopeId) (name : String)
    (kind : DeclarationKind) (id : NodeId) : (bindings.declare scope? name kind id).IsNested := by
  unfold Bindings.declare
  split
  · exact nested
  split
  · exact nested.of_same rfl rfl
  · refine ⟨fun place parent scope found above => ?_, fun place current => ?_⟩
    · rw [Array.getElem?_modify] at found
      split at found
      · obtain ⟨old, there, rfl⟩ := Option.map_eq_some_iff.mp found
        exact nested.above place parent old there above
      · exact nested.above place parent scope found above
    · rw [Array.size_modify]
      exact nested.inside place current

theorem IsNested.perform {progress : Progress} (nested : progress.1.IsNested) (step : Step) :
    (perform store progress step).1.IsNested := by
  cases step with
  | enter kind container => exact nested.enter kind container
  | leave => exact nested.leave
  | choose | dismiss => exact nested
  | declare kind id =>
    simp only [Bindings.perform, declareIdentifier]
    split
    · exact nested.declare ..
    · exact nested
  | write id =>
    simp only [Bindings.perform]
    split
    · exact nested.noteWrite id
    · exact nested

theorem IsNested.performAll {progress : Progress} (nested : progress.1.IsNested) (steps : List Step) :
    (performAll store progress steps).1.IsNested := by
  induction steps generalizing progress with
  | nil => exact nested
  | cons step rest ih => exact ih (nested.perform step)

theorem IsNested.resolve (nested : bindings.IsNested) (id : NodeId) :
    (resolve store bindings id).IsNested := by
  unfold Bindings.resolve
  split
  · exact nested
  split
  · exact nested
  split
  · exact nested.of_same rfl rfl
  split
  · refine IsNested.noteWrite ?_ id
    exact nested.of_same rfl rfl
  · exact nested.of_same rfl rfl

theorem IsNested.foldl_resolve (nested : bindings.IsNested) (ids : List NodeId) :
    (ids.foldl (Bindings.resolve store) bindings).IsNested := by
  induction ids generalizing bindings with
  | nil => exact nested
  | cons id rest ih => exact ih (nested.resolve id)

/-- A lookup from a scope goes through fewer scopes than its number and one more. -/
theorem IsNested.lookup?_congr (nested : bindings.IsNested) (name : String) {place fuel more : Nat}
    (enough : place < fuel) (also : place < more) :
    bindings.lookup? name fuel (some place) = bindings.lookup? name more (some place) := by
  induction fuel generalizing place more with
  | zero => cases enough
  | succ fuel ih =>
    obtain ⟨more, rfl⟩ := Nat.exists_eq_add_one_of_ne_zero (Nat.ne_zero_of_lt also)
    rw [lookup?, lookup?]
    cases found : bindings.scopes[place]? with
    | none => rfl
    | some scope =>
      rw [Option.bind_some, Option.bind_some]
      cases above : scope.parent with
      | none => cases fuel <;> cases more <;> rfl
      | some parent =>
        have below := nested.above place parent scope found above
        rw [ih (Nat.lt_of_lt_of_le below (Nat.le_of_lt_succ enough))
          (Nat.lt_of_lt_of_le below (Nat.le_of_lt_succ also))]

/-- A lookup comes to its end: a name is looked up in a scope and then in those around it. -/
theorem IsNested.lookup?_eq (nested : bindings.IsNested) (name : String) (place : ScopeId) :
    bindings.lookup? name (bindings.scopes.size + 1) (some place) =
      bindings.scopes[place]?.bind fun scope =>
        (scope.table[name]?).or (bindings.lookup? name (bindings.scopes.size + 1) scope.parent) := by
  rw [lookup?]
  cases found : bindings.scopes[place]? with
  | none => rfl
  | some scope =>
    rw [Option.bind_some, Option.bind_some]
    obtain ⟨bound, -⟩ := Array.getElem?_eq_some_iff.mp found
    cases above : scope.parent with
    | none =>
      obtain ⟨fuel, size⟩ := Nat.exists_eq_add_one_of_ne_zero (Nat.ne_zero_of_lt bound)
      rw [size]
      rfl
    | some parent =>
      have below := Nat.lt_trans (nested.above place parent scope found above) bound
      rw [nested.lookup?_congr name below (Nat.lt_succ_of_lt below)]

end Nesting

/-! ## The whole tree -/

/-- An identifier is a site of one symbol, and of no other. -/
structure BelongsTo (bindings : Bindings) (id : NodeId) (number : SymbolId) : Prop where
  known : bindings.symbolId? id = some number
  elsewhere : ∀ (other : SymbolId) (symbol : Symbol), bindings.symbols[other]? = some symbol →
    id ∈ symbol.sites → other = number
  resolved : id ∉ bindings.unresolved

/-- An identifier is no site of any symbol. -/
structure BelongsNowhere (bindings : Bindings) (id : NodeId) : Prop where
  unknown : bindings.symbolId? id = none
  outside : bindings.All fun symbol => id ∉ symbol.sites

/-- What an identifier is to the symbols of a tree. -/
inductive Classifies (store : Store) (bindings : Bindings) (id : NodeId) : Prop
  | declaration {number : SymbolId} {symbol : Symbol} (found : bindings.symbols[number]? = some symbol)
      (declares : id ∈ symbol.declarations) (apart : id ∉ symbol.references)
      (belongs : bindings.BelongsTo id number) (plain : store.isPropertyOrLabel id = false)
  | reference {number : SymbolId} {symbol : Symbol} (found : bindings.symbols[number]? = some symbol)
      (refers : id ∈ symbol.references) (apart : id ∉ symbol.declarations)
      (belongs : bindings.BelongsTo id number) (plain : store.isPropertyOrLabel id = false)
  | unresolved (listed : id ∈ bindings.unresolved) (free : bindings.BelongsNowhere id)
      (plain : store.isPropertyOrLabel id = false)
  | unnamed (label : store.isPropertyOrLabel id = true) (free : bindings.BelongsNowhere id)
      (resolved : id ∉ bindings.unresolved)

/-- The identifiers of a tree are classified, and its symbols and scopes are what they should be. -/
structure IsClassified (store : Store) (root : NodeId) (bindings : Bindings) : Prop where
  classified : ∀ id ∈ store.descendants (some root), (store.identifier? (some id)).isSome = true →
    Classifies store bindings id
  agrees : ∀ (id : NodeId) (number : SymbolId), bindings.symbolId? id = some number ↔
    ∃ symbol, bindings.symbols[number]? = some symbol ∧ id ∈ symbol.sites
  ordered : bindings.All fun symbol =>
    symbol.references.toList.Sublist (store.descendants (some root))
  constant : bindings.All fun symbol =>
    symbol.isConstant = true ↔ symbol.declarations.size = 1 ∧ symbol.violations = #[]
  violated : bindings.All fun symbol => ∀ id, id ∈ symbol.violations ↔
    id ∈ symbol.references ∧ store.isWrite id = true ∨
      id ∈ symbol.declarations ∧ store.isLoopName id = true
  nested : ∀ (place parent : ScopeId) (scope : Scope), bindings.scopes[place]? = some scope →
    scope.parent = some parent → parent < place
  looked : ∀ (name : String) (place : ScopeId),
    bindings.lookup? name (bindings.scopes.size + 1) (some place) =
      bindings.scopes[place]?.bind fun scope =>
        (scope.table[name]?).or (bindings.lookup? name (bindings.scopes.size + 1) scope.parent)

section Whole
variable {store : Store} {root : NodeId} {tree : Tree}

theorem of_isNested (store : Store) (root : NodeId) : (of store root).IsNested := by
  rw [of_eq]
  exact ((isNested_empty store).performAll _).foldl_resolve _

theorem writesLoopNames_fileScript (stands : store.Stands root tree) :
    WritesLoopNames store (fileScript store root) := by
  have inside : ∀ id, some root = some id → id ∈ tree.names := by
    rintro id ⟨⟩
    exact Tree.mem_names_root stands.rooted
  exact .scoping rfl (.append (writesLoopNames_statements stands.holds inside
    (writesLoopNames_script stands.holds store.depthBound)) (.scoping rfl .nil))

/-- All identifiers of a tree are resolved. -/
theorem of_resolved (stands : store.Stands root tree) :
    Resolved store (store.descendants (some root)) (of store root) := by
  have nothing : ∀ property : Symbol → Prop, (empty store).All property := by
    intro property number symbol found
    cases found
  obtain ⟨tallied, unread⟩ := performAll_tallied (empty store, []) (writesLoopNames_fileScript stands)
    (empty_sound store _) (awaits_fileScript stands) (nothing _) (nothing _)
  have sound := (performAll_sound [] (empty_sound store _) (awaits_fileScript stands)).1
  have first : Resolved store [] (performAll store (empty store, []) (fileScript store root)).1 := by
    refine ⟨tallied, fun number symbol found => ?_, fun id member => ?_, fun id listed => ?_⟩
    · dsimp only
      rw [unread number symbol found]
    · cases member
    · rw [unresolved_performAll] at listed
      cases List.not_mem_nil (Array.mem_def.mp listed)
  rw [of_eq]
  exact foldl_resolve_resolved first sound fun _ member => member

/-- The symbol of an identifier in a tree is its only one. -/
theorem of_belongsTo (stands : store.Stands root tree) {id : NodeId} {number : SymbolId}
    (known : (of store root).symbolId? id = some number) : (of store root).BelongsTo id number := by
  refine ⟨known, fun other symbol found site => ?_, fun listed => ?_⟩
  · exact Option.some.inj (((of_sound stands).sites other symbol found id site).1.symm.trans known)
  · rw [of_unresolved stands id listed] at known
    cases known

/-- An identifier of a tree is classified. -/
theorem of_classifies (stands : store.Stands root tree) (labels : store.LabelsStatements)
    {id : NodeId} (member : id ∈ store.descendants (some root)) {name : String}
    (spelled : store.identifier? (some id) = some name) : Classifies store (of store root) id := by
  have sound := of_sound stands
  have resolved := of_resolved stands
  have plain := Store.isReference_eq_not stands.links labels spelled
  cases known : (of store root).symbolId? id with
  | some number =>
    rw [(sound.named id number known).1, eq_comm, Bool.not_eq_true'] at plain
    have belongs := of_belongsTo stands known
    obtain ⟨symbol, found, site⟩ := sound.known id number known
    have disjoint := (List.nodup_append.mp (resolved.tallied number symbol found).once).2.2
    rcases Symbol.mem_sites.mp site with declares | refers
    · exact .declaration found declares (fun refers => disjoint id declares.val id refers.val rfl)
        belongs plain
    · exact .reference found refers (fun declares => disjoint id declares.val id refers.val rfl)
        belongs plain
  | none =>
    have free : (of store root).BelongsNowhere id :=
      ⟨known, fun _ _ found => sound.outside known found⟩
    cases named : store.isReference id with
    | true =>
      rw [named, eq_comm, Bool.not_eq_true'] at plain
      refine .unresolved ?_ free plain
      refine (resolved.settled id member (spelled ▸ rfl) named).resolve_left fun some => ?_
      rw [known] at some
      cases some
    | false =>
      rw [named, eq_comm, Bool.not_eq_false'] at plain
      refine .unnamed plain free fun listed => ?_
      rw [resolved.named id listed] at named
      cases named

/-- The bindings of a tree classify its identifiers. -/
theorem of_isClassified (stands : store.Stands root tree) (labels : store.LabelsStatements) :
    (of store root).IsClassified store root := by
  have sound := of_sound stands
  have resolved := of_resolved stands
  have nested := of_isNested store root
  refine ⟨fun id member some => ?_, fun id number => ⟨fun belongs => sound.known id number belongs, ?_⟩,
    resolved.ordered, fun number symbol found => (resolved.tallied number symbol found).constant,
    fun number symbol found id => ?_, nested.above, nested.lookup?_eq⟩
  · obtain ⟨name, spelled⟩ := Option.isSome_iff_exists.mp some
    exact of_classifies stands labels member spelled
  · rintro ⟨symbol, found, site⟩
    exact (sound.sites number symbol found id site).1
  · rw [(resolved.tallied number symbol found).violated]
    exact and_iff_right nofun

end Whole

end Bindings

/-- The bindings of a program classify its identifiers, whatever its text is. -/
theorem parse_isClassified (text : List Char) :
    (Bindings.of (parse text).store (parse text).root).IsClassified (parse text).store
      (parse text).root := by
  obtain ⟨tree, stands⟩ := parse_stands text
  exact Bindings.of_isClassified stands (parse_labelsStatements text)

/-- Whether an identifier is declared in the head of a `for` loop over properties. -/
def Store.isLoopHeadName (store : Store) (id : NodeId) : Bool :=
  match store.shape? (store.parent (store.declarationList id)) with
  | some (.forIn initializer _ _) => initializer == store.declarationList id
  | _ => false

/-- A name that is declared by the body of such a loop counts as written, though it is declared
once and neither the head nor an assignment writes it. -/
theorem loop_body_name_violates :
    let program := parse "for (x in o) var y;".toList
    ¬(Bindings.of program.store program.root).All fun symbol => ∀ id, id ∈ symbol.violations ↔
      id ∈ symbol.references ∧ program.store.isWrite id = true ∨
        id ∈ symbol.declarations ∧ program.store.isLoopHeadName id = true := by
  intro program all
  have unwritten : ((Bindings.of program.store program.root).symbols.toList.all fun symbol =>
      symbol.violations.toList.all fun id =>
        program.store.isWrite id || program.store.isLoopHeadName id) = false := by decide +kernel
  refine Bool.noConfusion (unwritten.symm.trans (List.all_eq_true.mpr fun symbol member =>
    List.all_eq_true.mpr fun id listed => Bool.or_eq_true_iff.mpr ?_))
  obtain ⟨number, found⟩ := List.mem_iff_getElem?.mp member
  rw [Array.getElem?_toList] at found
  exact ((all number symbol found id).mp (Array.mem_toList_iff.mp listed)).imp And.right And.right

end Unflatten
