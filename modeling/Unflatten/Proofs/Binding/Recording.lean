import Unflatten.Proofs.Binding.Classes
import Unflatten.Proofs.Binding.Visibility

/-! # The scopes that are recorded

While names are declared, the scopes and tables of the bindings record what a walk through the tree
has found so far (`Bindings.Records`), and the current scope stands in the scopes around the place
that has been reached (`Bindings.Chains`).  Opening a scope and declaring a name each record one
entry of the walk more. -/

set_option autoImplicit false

namespace Unflatten

namespace Bindings

/-- A scope stands in others, from the inside outwards. -/
inductive Chains (bindings : Bindings) : Option ScopeId → List Surrounding → Prop
  | nil : Chains bindings none []
  | cons {place : ScopeId} {scope : Scope} {first : Surrounding} {rest : List Surrounding}
      (found : bindings.scopes[place]? = some scope) (container : scope.container = first.opener)
      (kind : scope.kind = .block ↔ first.hoists = false)
      (opened : bindings.scopeOf[first.opener]?.join = some place)
      (outer : Chains bindings scope.parent rest) : Chains bindings (some place) (first :: rest)

/-- Scopes stay what they are, but for their tables. -/
structure Extends (earlier later : Bindings) : Prop where
  scopes : ∀ (place : ScopeId) (scope : Scope), earlier.scopes[place]? = some scope → ∃ other,
    later.scopes[place]? = some other ∧ other.container = scope.container ∧
      other.kind = scope.kind ∧ other.parent = scope.parent
  opened : ∀ (id : NodeId) (place : ScopeId), earlier.scopeOf[id]?.join = some place →
    later.scopeOf[id]?.join = some place

/-- Scopes and symbols are those that a walk has found. -/
structure Records (store : Store) (entries : List ScopeEntry) (bindings : Bindings) : Prop where
  sized : bindings.scopeOf.size = store.nodes.size
  nested : bindings.IsNested
  opened : ∀ around, .opens around ∈ entries → ∃ place, bindings.Chains (some place) around
  opener : ∀ (id : NodeId) (place : ScopeId), bindings.scopeOf[id]?.join = some place →
    ∃ first rest, .opens (first :: rest) ∈ entries ∧ first.opener = id
  owner : ∀ (place : ScopeId) (scope : Scope), bindings.scopes[place]? = some scope →
    bindings.scopeOf[scope.container]?.join = some place
  tables : ∀ (place : ScopeId) (scope : Scope) (name : String) (number : SymbolId),
    bindings.scopes[place]? = some scope → scope.table[name]? = some number → ∃ symbol,
      bindings.symbols[number]? = some symbol ∧ symbol.name = name ∧ symbol.scope = place
  symbols : ∀ (number : SymbolId) (symbol : Symbol), bindings.symbols[number]? = some symbol →
    ∃ scope : Scope, bindings.scopes[symbol.scope]? = some scope ∧
      scope.table[symbol.name]? = some number ∧
      ∀ id, id ∈ symbol.declarations ↔ id ∈ store.declaredIn entries symbol.name scope.container
  declared : ∀ (id home : NodeId) (name : String), id ∈ store.declaredIn entries name home →
    ∃ (place : ScopeId) (scope : Scope) (number : SymbolId),
      bindings.scopeOf[home]?.join = some place ∧ bindings.scopes[place]? = some scope ∧
        scope.table[name]? = some number

section Recording
variable {store : Store} {entries more : List ScopeEntry} {bindings later last : Bindings}
  {around rest : List Surrounding} {id home : NodeId} {name : String} {place : ScopeId}

theorem Extends.refl (bindings : Bindings) : bindings.Extends bindings :=
  ⟨fun _ scope found => ⟨scope, found, rfl, rfl, rfl⟩, fun _ _ opened => opened⟩

theorem Extends.trans (first : bindings.Extends later) (second : later.Extends last) :
    bindings.Extends last := by
  refine ⟨fun place scope found => ?_, fun id place opened =>
    second.opened id place (first.opened id place opened)⟩
  obtain ⟨middle, there, container, kind, parent⟩ := first.scopes place scope found
  obtain ⟨other, stays, container', kind', parent'⟩ := second.scopes place middle there
  exact ⟨other, stays, container'.trans container, kind'.trans kind, parent'.trans parent⟩

theorem Extends.of_same (scopes : later.scopes = bindings.scopes)
    (scopeOf : later.scopeOf = bindings.scopeOf) : bindings.Extends later :=
  ⟨fun _ scope found => ⟨scope, scopes ▸ found, rfl, rfl, rfl⟩, fun _ _ opened => scopeOf ▸ opened⟩

theorem Chains.carry {start : Option ScopeId} (chains : bindings.Chains start around)
    (grows : bindings.Extends later) : later.Chains start around := by
  induction chains with
  | nil => exact .nil
  | cons found container kind opened _ ih =>
    obtain ⟨other, there, container', kind', parent⟩ := grows.scopes _ _ found
    exact .cons there (container'.trans container) (by rw [kind']; exact kind)
      (grows.opened _ _ opened) (by rw [parent]; exact ih)

/-- What can be seen is of no concern to the scopes. -/
theorem Chains.hide {first : Surrounding} {start : Option ScopeId}
    (chains : bindings.Chains start (first :: rest)) (visible : Bool) :
    bindings.Chains start (⟨first.opener, first.hoists, visible⟩ :: rest) := by
  cases chains with
  | cons found container kind opened outer => exact .cons found container kind opened outer

/-- Only what opens scopes and declares names counts. -/
theorem Records.congr (records : Records store entries bindings)
    (same : ∀ entry, (∀ id around, entry ≠ .sees id around) → (entry ∈ entries ↔ entry ∈ more)) :
    Records store more bindings := by
  have opens : ∀ around, .opens around ∈ entries ↔ .opens around ∈ more := fun around =>
    same _ fun _ _ impossible => by cases impossible
  have declares : ∀ id home name, id ∈ store.declaredIn entries name home ↔
      id ∈ store.declaredIn more name home := fun id home name => by
    rw [mem_declaredIn, mem_declaredIn, same _ fun _ _ impossible => by cases impossible]
  refine ⟨records.sized, records.nested, fun around member => records.opened around ((opens _).mpr member),
    fun id place belongs => ?_, records.owner, records.tables, fun number symbol found => ?_,
    fun id home name member => records.declared id home name ((declares _ _ _).mpr member)⟩
  · obtain ⟨first, rest, member, rfl⟩ := records.opener id place belongs
    exact ⟨first, rest, (opens _).mp member, rfl⟩
  · obtain ⟨scope, there, listed, each⟩ := records.symbols number symbol found
    exact ⟨scope, there, listed, fun id => (each id).trans (declares _ _ _)⟩

theorem Records.exists_scope (records : Records store entries bindings)
    (opened : bindings.scopeOf[home]?.join = some place) :
    ∃ scope, bindings.scopes[place]? = some scope ∧ scope.container = home := by
  obtain ⟨first, rest, member, rfl⟩ := records.opener home place opened
  obtain ⟨other, chains⟩ := records.opened _ member
  cases chains with
  | cons found container _ also _ =>
    cases opened.symm.trans also
    exact ⟨_, found, container⟩

/-- A symbol's declarations are those of its name in its scope. -/
theorem Records.symbol_of_table (records : Records store entries bindings) {scope : Scope}
    {number : SymbolId} (found : bindings.scopes[place]? = some scope)
    (listed : scope.table[name]? = some number) :
    ∃ symbol, bindings.symbols[number]? = some symbol ∧ symbol.name = name ∧
      ∀ id, id ∈ symbol.declarations ↔ id ∈ store.declaredIn entries name scope.container := by
  obtain ⟨symbol, there, rfl, rfl⟩ := records.tables place scope name number found listed
  obtain ⟨other, also, -, each⟩ := records.symbols number symbol there
  cases found.symm.trans also
  exact ⟨symbol, there, rfl, each⟩

/-! ## Steps -/

/-- Symbols change, but not where and by what they are declared. -/
theorem Records.of_alike (records : Records store entries bindings) (nested : later.IsNested)
    (scopes : later.scopes = bindings.scopes) (scopeOf : later.scopeOf = bindings.scopeOf)
    (alike : ∀ number : SymbolId, later.symbols[number]?.map (fun symbol =>
      (symbol.name, symbol.scope, symbol.declarations)) = bindings.symbols[number]?.map fun symbol =>
        (symbol.name, symbol.scope, symbol.declarations)) : Records store entries later := by
  have grows := Extends.of_same scopes scopeOf
  have back : ∀ {first second : Bindings}, (∀ number : SymbolId, first.symbols[number]?.map
      (fun symbol => (symbol.name, symbol.scope, symbol.declarations)) =
        second.symbols[number]?.map fun symbol => (symbol.name, symbol.scope, symbol.declarations)) →
      ∀ {number : SymbolId} {symbol : Symbol}, first.symbols[number]? = some symbol → ∃ other,
        second.symbols[number]? = some other ∧ other.name = symbol.name ∧
          other.scope = symbol.scope ∧ other.declarations = symbol.declarations := by
    intro first second same number symbol found
    have there := same number
    rw [found, Option.map_some] at there
    obtain ⟨other, stays, parts⟩ := Option.map_eq_some_iff.mp there.symm
    simp only [Prod.mk.injEq] at parts
    exact ⟨other, stays, parts⟩
  refine ⟨by rw [scopeOf]; exact records.sized, nested, fun around member => ?_,
    by rw [scopeOf]; exact records.opener, by rw [scopeOf, scopes]; exact records.owner,
    fun place scope name number found listed => ?_, fun number symbol found => ?_,
    by rw [scopeOf, scopes]; exact records.declared⟩
  · obtain ⟨place, chains⟩ := records.opened around member
    exact ⟨place, chains.carry grows⟩
  · rw [scopes] at found
    obtain ⟨symbol, there, rfl, rfl⟩ := records.tables place scope name number found listed
    obtain ⟨other, stays, called, inside, -⟩ := back (fun number => (alike number).symm) there
    exact ⟨other, stays, called, inside⟩
  · obtain ⟨other, there, called, inside, declares⟩ := back alike found
    rw [← called, ← inside, ← declares, scopes]
    exact records.symbols number other there

theorem scopeOf_enter (sized : bindings.scopeOf.size = store.nodes.size) (bound : id < store.nodes.size)
    (kind : ScopeKind) (other : NodeId) : (bindings.enter kind id).scopeOf[other]?.join =
      if id = other then some bindings.scopes.size else bindings.scopeOf[other]?.join := by
  rw [enter, Array.getElem?_setIfInBounds, sized, if_pos bound]
  split <;> rfl

theorem scopes_enter (kind : ScopeKind) (id : NodeId) (place : ScopeId) :
    (bindings.enter kind id).scopes[place]? = if place = bindings.scopes.size
      then some ⟨bindings.current, kind, id, ∅⟩ else bindings.scopes[place]? := by
  rw [enter, Array.getElem?_push]

theorem scopes_enter_of_old (kind : ScopeKind) (id : NodeId) {scope : Scope}
    (found : bindings.scopes[place]? = some scope) :
    (bindings.enter kind id).scopes[place]? = some scope := by
  rw [scopes_enter, if_neg (Nat.ne_of_lt (Array.getElem?_eq_some_iff.mp found).1), found]

theorem extends_enter (sized : bindings.scopeOf.size = store.nodes.size) (bound : id < store.nodes.size)
    (fresh : bindings.scopeOf[id]?.join = none) (kind : ScopeKind) :
    bindings.Extends (bindings.enter kind id) := by
  refine ⟨fun place scope found => ⟨scope, scopes_enter_of_old kind id found, rfl, rfl, rfl⟩,
    fun other place opened => ?_⟩
  rw [scopeOf_enter sized bound, if_neg, opened]
  rintro rfl
  rw [fresh] at opened
  cases opened

theorem Chains.enter (chains : bindings.Chains bindings.current around)
    (sized : bindings.scopeOf.size = store.nodes.size) (bound : id < store.nodes.size)
    (fresh : bindings.scopeOf[id]?.join = none) {kind : ScopeKind} {hoists : Bool}
    (same : kind = .block ↔ hoists = false) :
    (bindings.enter kind id).Chains (bindings.enter kind id).current (⟨id, hoists, true⟩ :: around) :=
  .cons ((scopes_enter kind id _).trans (if_pos rfl)) rfl same
    ((scopeOf_enter sized bound kind id).trans (if_pos rfl))
    (chains.carry (extends_enter sized bound fresh kind))

theorem Records.enter (records : Records store entries bindings)
    (chains : bindings.Chains bindings.current around) (bound : id < store.nodes.size)
    (fresh : bindings.scopeOf[id]?.join = none) {kind : ScopeKind} {hoists : Bool}
    (same : kind = .block ↔ hoists = false) :
    Records store (entries ++ [.opens (⟨id, hoists, true⟩ :: around)]) (bindings.enter kind id) := by
  have grows := extends_enter records.sized bound fresh kind
  have set := scopeOf_enter records.sized bound kind
  refine ⟨?_, records.nested.enter kind id, fun other member => ?_, fun other place there => ?_,
    fun place scope found => ?_, fun place scope name number found listed => ?_,
    fun number symbol found => ?_, fun other home name member => ?_⟩
  · rw [Bindings.enter, Array.size_setIfInBounds]
    exact records.sized
  · rcases List.mem_append.mp member with old | new
    · obtain ⟨place, chains⟩ := records.opened other old
      exact ⟨place, chains.carry grows⟩
    · cases List.mem_singleton.mp new
      exact ⟨_, chains.enter records.sized bound fresh same⟩
  · rw [set] at there
    split at there
    · rename_i equal
      exact ⟨_, _, List.mem_append_right _ List.mem_cons_self, equal⟩
    · obtain ⟨first, rest, member, container⟩ := records.opener other place there
      exact ⟨first, rest, List.mem_append_left _ member, container⟩
  · rw [scopes_enter] at found
    split at found
    · rename_i new
      cases found
      rw [set, if_pos rfl, new]
    · exact grows.opened _ _ (records.owner place scope found)
  · rw [scopes_enter] at found
    split at found
    · cases found
      rw [Std.TreeMap.getElem?_emptyc] at listed
      cases listed
    · exact records.tables place scope name number found listed
  · obtain ⟨scope, there, listed, each⟩ := records.symbols number symbol found
    refine ⟨scope, scopes_enter_of_old kind id there, listed, fun other => (each other).trans ?_⟩
    simp [mem_declaredIn]
  · have old : other ∈ store.declaredIn entries name home := by
      simpa [mem_declaredIn] using member
    obtain ⟨place, scope, number, there, found, listed⟩ := records.declared other home name old
    exact ⟨place, scope, number, grows.opened _ _ there, scopes_enter_of_old kind id found, listed⟩

theorem mem_declaredIn_append {other : NodeId} {text : String} {place : NodeId} :
    other ∈ store.declaredIn (entries ++ [.declares id home]) text place ↔
      other ∈ store.declaredIn entries text place ∨
        (other = id ∧ place = home) ∧ store.identifier? (some other) = some text := by
  simp only [mem_declaredIn, List.mem_append, List.mem_singleton, ScopeEntry.declares.injEq]
  tauto

theorem Records.declareAgain (records : Records store entries bindings) {scope : Scope}
    {number : SymbolId} (found : bindings.scopes[place]? = some scope)
    (listed : scope.table[name]? = some number) (spelled : store.identifier? (some id) = some name)
    {change : Symbol → Symbol} (called : ∀ symbol, (change symbol).name = symbol.name)
    (inside : ∀ symbol, (change symbol).scope = symbol.scope)
    (declares : ∀ symbol, (change symbol).declarations = symbol.declarations.push id)
    (assigned : Array (Option SymbolId)) :
    Records store (entries ++ [.declares id scope.container])
      { bindings with symbols := bindings.symbols.modify number change, symbolOf := assigned } := by
  have changed : ∀ place : SymbolId, (bindings.symbols.modify number change)[place]? =
      if number = place then bindings.symbols[place]?.map change else bindings.symbols[place]? :=
    fun place => Array.getElem?_modify
  refine ⟨records.sized, records.nested.of_same rfl rfl, fun around member => ?_,
    fun other opened there => ?_, records.owner, fun there other text symbol stays has => ?_,
    fun place symbol stays => ?_, fun other home text member => ?_⟩
  · obtain ⟨place, chains⟩ := records.opened around (by simpa using member)
    exact ⟨place, chains.carry (.of_same rfl rfl)⟩
  · obtain ⟨first, rest, member, container⟩ := records.opener other opened there
    exact ⟨first, rest, List.mem_append_left _ member, container⟩
  · obtain ⟨old, known, rfl, rfl⟩ := records.tables there other text symbol stays has
    simp only [changed]
    split
    · exact ⟨change old, by rw [known]; rfl, called old, inside old⟩
    · exact ⟨old, known, rfl, rfl⟩
  · simp only [changed] at stays
    split at stays
    · rename_i same
      subst same
      obtain ⟨old, known, rfl⟩ := Option.map_eq_some_iff.mp stays
      obtain ⟨also, there, rfl, rfl⟩ := records.tables _ scope name number found listed
      cases known.symm.trans there
      obtain ⟨other, rightly, has, each⟩ := records.symbols number old known
      cases found.symm.trans rightly
      rw [called, inside, declares]
      refine ⟨scope, found, has, fun declaration => ?_⟩
      rw [Array.mem_push, each, mem_declaredIn_append]
      refine or_congr_right ⟨fun same => ?_, fun new => new.1.1⟩
      exact ⟨⟨same, rfl⟩, same ▸ spelled⟩
    · rename_i apart
      obtain ⟨other, there, has, each⟩ := records.symbols place symbol stays
      refine ⟨other, there, has, fun declaration => ?_⟩
      rw [each, mem_declaredIn_append, or_iff_left]
      rintro ⟨⟨rfl, same⟩, also⟩
      have owned := records.owner _ other there
      rw [same, records.owner _ scope found] at owned
      cases owned
      cases found.symm.trans there
      cases spelled.symm.trans also
      exact apart (Option.some.inj (listed.symm.trans has))
  · rcases mem_declaredIn_append.mp member with old | ⟨⟨rfl, rfl⟩, also⟩
    · exact records.declared other home text old
    · cases spelled.symm.trans also
      exact ⟨place, scope, number, records.owner place scope found, found, listed⟩

section Insertion
variable {scopes : Array Scope} {place other : ScopeId} {name : String} {number : SymbolId}

/-- A name is put into the table of a scope; what was there stays. -/
theorem exists_scope_insert (name : String) (place : ScopeId) (number : SymbolId) {old : Scope}
    (known : scopes[other]? = some old) : ∃ new : Scope,
    (scopes.modify place fun found => { found with table := found.table.insert name number })[other]? =
      some new ∧ new.container = old.container ∧ new.kind = old.kind ∧ new.parent = old.parent ∧
        ∀ text, (place = other → text ≠ name) → new.table[text]? = old.table[text]? := by
  rw [Array.getElem?_modify]
  split
  · rename_i here
    refine ⟨{ old with table := old.table.insert name number }, by rw [known]; rfl, rfl, rfl, rfl,
      fun text apart => ?_⟩
    rw [Std.TreeMap.getElem?_insert, if_neg]
    rw [Std.LawfulEqCmp.compare_eq_iff_eq]
    exact fun same => apart here same.symm
  · exact ⟨old, known, rfl, rfl, rfl, fun _ _ => rfl⟩

/-- What is in a table afterwards was there, or is the new name. -/
theorem exists_scope_of_insert {new : Scope} (known : (scopes.modify place fun found =>
      { found with table := found.table.insert name number })[other]? = some new) :
    ∃ old, scopes[other]? = some old ∧ new.container = old.container ∧ new.parent = old.parent ∧
      ∀ text listed, new.table[text]? = some listed →
        old.table[text]? = some listed ∨ place = other ∧ text = name ∧ listed = number := by
  rw [Array.getElem?_modify] at known
  split at known
  · rename_i here
    obtain ⟨old, there, rfl⟩ := Option.map_eq_some_iff.mp known
    refine ⟨old, there, rfl, rfl, fun text listed has => ?_⟩
    rw [Std.TreeMap.getElem?_insert] at has
    split at has
    · rename_i equal
      exact .inr ⟨here, (Std.LawfulEqCmp.compare_eq_iff_eq.mp equal).symm, (Option.some.inj has).symm⟩
    · exact .inl has
  · exact ⟨new, known, rfl, rfl, fun _ _ has => .inl has⟩

end Insertion

theorem Records.not_declared (records : Records store entries bindings) {scope : Scope}
    (found : bindings.scopes[place]? = some scope) (unlisted : scope.table[name]? = none) :
    id ∉ store.declaredIn entries name scope.container := by
  intro member
  obtain ⟨there, also, number, owned, known, listed⟩ := records.declared id _ name member
  rw [records.owner place scope found] at owned
  cases owned
  cases found.symm.trans known
  rw [unlisted] at listed
  cases listed

theorem Records.declareFirst (records : Records store entries bindings) {scope : Scope}
    (found : bindings.scopes[place]? = some scope) (unlisted : scope.table[name]? = none)
    (spelled : store.identifier? (some id) = some name) (marks : Nat)
    (assigned : Array (Option SymbolId)) :
    Records store (entries ++ [.declares id scope.container]) { bindings with
      symbols := bindings.symbols.push ⟨name, marks, place, #[id], #[], #[], true⟩
      scopes := bindings.scopes.modify place fun found =>
        { found with table := found.table.insert name bindings.symbols.size }
      symbolOf := assigned } := by
  have stays : ∀ {number : SymbolId} {symbol : Symbol}, bindings.symbols[number]? = some symbol →
      (bindings.symbols.push ⟨name, marks, place, #[id], #[], #[], true⟩)[number]? = some symbol :=
    fun {number symbol} known => by
      rw [Array.getElem?_push, if_neg (Nat.ne_of_lt (Array.getElem?_eq_some_iff.mp known).1), known]
  have kept : ∀ {other : ScopeId} {old : Scope}, bindings.scopes[other]? = some old → _ :=
    fun known => exists_scope_insert name place bindings.symbols.size known
  have here : (bindings.scopes.modify place fun found =>
      { found with table := found.table.insert name bindings.symbols.size })[place]? =
        some { scope with table := scope.table.insert name bindings.symbols.size } := by
    rw [Array.getElem?_modify, if_pos rfl, found]
    rfl
  -- what is listed already is not listed under the new name
  have apart : ∀ {other : ScopeId} {old : Scope} {text : String} {number : SymbolId},
      bindings.scopes[other]? = some old → old.table[text]? = some number →
        place = other → text ≠ name := by
    rintro other old text number known listed rfl rfl
    cases found.symm.trans known
    rw [unlisted] at listed
    cases listed
  refine ⟨records.sized, ⟨fun other parent new known above => ?_, fun current same => ?_⟩,
    fun around member => ?_, fun other opened there => ?_, fun other new known => ?_,
    fun other new text number known has => ?_, fun number symbol known => ?_,
    fun other home text member => ?_⟩
  · obtain ⟨old, there, -, same, -⟩ := exists_scope_of_insert known
    exact records.nested.above other parent old there (same ▸ above)
  · rw [Array.size_modify]
    exact records.nested.inside current same
  · obtain ⟨start, chains⟩ := records.opened around (by simpa using member)
    refine ⟨start, chains.carry ⟨fun other old known => ?_, fun _ _ opened => opened⟩⟩
    obtain ⟨new, there, container, kind, parent, -⟩ := kept known
    exact ⟨new, there, container, kind, parent⟩
  · obtain ⟨first, rest, member, container⟩ := records.opener other opened there
    exact ⟨first, rest, List.mem_append_left _ member, container⟩
  · obtain ⟨old, there, container, -, -⟩ := exists_scope_of_insert known
    rw [container]
    exact records.owner other old there
  · obtain ⟨old, there, -, -, either⟩ := exists_scope_of_insert known
    rcases either text number has with listed | ⟨same, rfl, rfl⟩
    · obtain ⟨symbol, known, called, inside⟩ := records.tables other old text number there listed
      exact ⟨symbol, stays known, called, inside⟩
    · exact ⟨_, by rw [Array.getElem?_push, if_pos rfl], rfl, same⟩
  · rw [Array.getElem?_push] at known
    split at known
    · cases known
      refine ⟨_, here, ?_, fun other => ?_⟩
      · rw [Std.TreeMap.getElem?_insert, if_pos Std.ReflCmp.compare_self, ‹number = _›]
      · rw [mem_declaredIn_append, or_iff_right (records.not_declared found unlisted),
          Array.mem_singleton]
        exact ⟨fun same => ⟨⟨same, rfl⟩, same ▸ spelled⟩, fun new => new.1.1⟩
    · obtain ⟨old, there, listed, each⟩ := records.symbols number symbol known
      obtain ⟨new, now, container, -, -, same⟩ := kept there
      refine ⟨new, now, (same _ (apart there listed)).trans listed, fun other => ?_⟩
      rw [each, container, mem_declaredIn_append, or_iff_left]
      rintro ⟨⟨rfl, equal⟩, also⟩
      have owned := records.owner _ old there
      rw [equal, records.owner place scope found] at owned
      exact apart there listed (Option.some.inj owned) (Option.some.inj (also.symm.trans spelled))
  · rcases mem_declaredIn_append.mp member with old | ⟨⟨rfl, rfl⟩, also⟩
    · obtain ⟨there, before, number, owned, known, listed⟩ := records.declared other home text old
      obtain ⟨new, now, -, -, -, same⟩ := kept known
      exact ⟨there, new, number, owned, now, (same text (apart known listed)).trans listed⟩
    · cases spelled.symm.trans also
      refine ⟨place, _, bindings.symbols.size, records.owner place scope found, here, ?_⟩
      rw [Std.TreeMap.getElem?_insert, if_pos Std.ReflCmp.compare_self]

theorem current_declare (scope? : Option ScopeId) (kind : DeclarationKind) :
    (bindings.declare scope? name kind id).current = bindings.current := by
  unfold Bindings.declare
  split
  · rfl
  · split <;> rfl

theorem extends_declare (scope? : Option ScopeId) (kind : DeclarationKind) :
    bindings.Extends (bindings.declare scope? name kind id) := by
  unfold Bindings.declare
  split
  · exact .refl bindings
  · split
    · exact .of_same rfl rfl
    · rename_i number
      refine ⟨fun place scope found => ?_, fun _ _ opened => opened⟩
      obtain ⟨new, there, container, kind, parent, -⟩ := exists_scope_insert name _ bindings.symbols.size found
      exact ⟨new, there, container, kind, parent⟩

theorem Records.declare (records : Records store entries bindings)
    (opened : bindings.scopeOf[home]?.join = some place)
    (spelled : store.identifier? (some id) = some name) (kind : DeclarationKind) :
    Records store (entries ++ [.declares id home]) (bindings.declare (some place) name kind id) := by
  obtain ⟨scope, found, rfl⟩ := records.exists_scope opened
  unfold Bindings.declare
  simp only [found, Option.bind_some]
  split
  · rename_i number listed
    refine records.declareAgain found listed spelled ?_ ?_ ?_ _
    · exact fun _ => rfl
    · exact fun _ => rfl
    · exact fun _ => rfl
  · exact records.declareFirst found ‹_› spelled _ _

theorem current_noteWrite (id : NodeId) : (bindings.noteWrite id).current = bindings.current := by
  unfold Bindings.noteWrite
  split <;> rfl

theorem extends_noteWrite (id : NodeId) : bindings.Extends (bindings.noteWrite id) := by
  unfold Bindings.noteWrite
  split
  · exact .refl bindings
  · exact .of_same rfl rfl

theorem Records.noteWrite (records : Records store entries bindings) (id : NodeId) :
    Records store entries (bindings.noteWrite id) := by
  have nested := records.nested.noteWrite id
  unfold Bindings.noteWrite at nested ⊢
  split
  · exact records
  · rename_i number known
    simp only [known] at nested
    refine records.of_alike nested rfl rfl fun place => ?_
    simp only [Array.getElem?_modify]
    split
    · cases bindings.symbols[place]? <;> rfl
    · rfl

end Recording

/-! ## Scopes for names -/

/-- A scope is the one that a node opens, or there is neither. -/
def IsHome (bindings : Bindings) (scope? : Option ScopeId) : Option NodeId → Prop
  | none => scope? = none
  | some opener => ∃ place, scope? = some place ∧ bindings.scopeOf[opener]?.join = some place

section Homes
variable {bindings later : Bindings} {around : List Surrounding} {scope? : Option ScopeId}

theorem IsHome.carry {home : Option NodeId} (isHome : bindings.IsHome scope? home)
    (grows : bindings.Extends later) : later.IsHome scope? home := by
  cases home with
  | none => exact isHome
  | some opener =>
    obtain ⟨place, same, opened⟩ := isHome
    exact ⟨place, same, grows.opened opener place opened⟩

theorem Chains.isHome (chains : bindings.Chains scope? around) :
    bindings.IsHome scope? (nearestHome around) := by
  cases chains with
  | nil => rfl
  | cons found container kind opened outer => exact ⟨_, rfl, opened⟩

theorem Chains.isHome_hoisting? (chains : bindings.Chains scope? around) (nested : bindings.IsNested)
    {fuel : Nat} (enough : ∀ place, scope? = some place → place < fuel) :
    bindings.IsHome (bindings.hoistingScope? fuel scope?)
      ((around.find? Surrounding.hoists).map Surrounding.opener) := by
  induction chains generalizing fuel with
  | nil => cases fuel <;> rfl
  | @cons place scope first rest found container kind opened outer ih =>
    obtain ⟨fuel, rfl⟩ := Nat.exists_eq_add_one_of_ne_zero (Nat.ne_zero_of_lt (enough place rfl))
    rw [hoistingScope?, found, Option.bind_some, List.find?_cons]
    cases hoists : first.hoists with
    | true =>
      rw [if_neg fun block => Bool.noConfusion (hoists.symm.trans (kind.mp block))]
      exact ⟨place, rfl, opened⟩
    | false =>
      rw [if_pos (kind.mpr hoists)]
      exact ih fun parent above => Nat.lt_of_lt_of_le (nested.above place parent scope found above)
        (Nat.le_of_lt_succ (enough place rfl))

/-- A `var` belongs to the nearest function or file. -/
theorem Chains.isHome_hoisting (chains : bindings.Chains bindings.current around)
    (nested : bindings.IsNested) : bindings.IsHome bindings.hoistingScope (hoistingHome around) := by
  have found := chains.isHome_hoisting? nested fun place current =>
    Nat.lt_succ_of_lt (nested.inside place current)
  have near := chains.isHome
  unfold hoistingScope hoistingHome
  cases first : around.find? Surrounding.hoists with
  | none =>
    rw [first] at found
    rw [show bindings.hoistingScope? (bindings.scopes.size + 1) bindings.current = none from found]
    exact near
  | some scope =>
    rw [first] at found
    obtain ⟨place, same, opened⟩ := found
    exact ⟨place, by rw [same]; rfl, opened⟩

end Homes

end Bindings

end Unflatten
