import Unflatten.Proofs.Binding.Steps

/-! # The sites of a symbol

Each identifier belongs to at most one symbol, among whose declarations or references it stands,
and it spells the symbol's name (`Bindings.IsSound`).  This holds while binding goes on, because
the steps declare each identifier only once and only what has no symbol yet is resolved. -/

set_option autoImplicit false

namespace Unflatten

/-- The identifiers that declare a symbol or refer to it. -/
def Symbol.sites (symbol : Symbol) : List NodeId :=
  symbol.declarations.toList ++ symbol.references.toList

namespace Bindings

/-- Symbols, tables and identifiers agree, and the symbols are those of some identifiers. -/
structure IsSound (store : Store) (within : List NodeId) (bindings : Bindings) : Prop where
  sized : bindings.symbolOf.size = store.nodes.size
  sites : ∀ (number : SymbolId) (symbol : Symbol), bindings.symbols[number]? = some symbol →
    ∀ id ∈ symbol.sites,
      bindings.symbolId? id = some number ∧ store.identifier? (some id) = some symbol.name
  sited : ∀ (number : SymbolId) (symbol : Symbol), bindings.symbols[number]? = some symbol →
    symbol.sites ≠ []
  known : ∀ (id : NodeId) (number : SymbolId), bindings.symbolId? id = some number →
    ∃ symbol, bindings.symbols[number]? = some symbol ∧ id ∈ symbol.sites
  named : ∀ (id : NodeId) (number : SymbolId), bindings.symbolId? id = some number →
    store.isReference id = true ∧ id ∈ within
  tables : ∀ (place : ScopeId) (scope : Scope) (name : String) (number : SymbolId),
    bindings.scopes[place]? = some scope → scope.table[name]? = some number →
      ∃ symbol, bindings.symbols[number]? = some symbol ∧ symbol.name = name

section Sound
variable {store : Store} {within : List NodeId} {bindings : Bindings} {id : NodeId} {number : SymbolId} {symbol : Symbol}

theorem lt_size_of_identifier? {name : String} (spelled : store.identifier? (some id) = some name) :
    id < store.nodes.size := by
  unfold Store.identifier? at spelled
  split at spelled
  · rename_i found
    exact Store.lt_size_of_shape? found
  · cases spelled

theorem symbolId?_set (sized : bindings.symbolOf.size = store.nodes.size)
    (bound : id < store.nodes.size) (number : SymbolId) (other : NodeId) :
    (bindings.symbolOf.setIfInBounds id (some number))[other]?.join =
      if id = other then some number else bindings.symbolId? other := by
  rw [Array.getElem?_setIfInBounds, sized, if_pos bound]
  split <;> rfl

/-- A symbol gets a further site. -/
theorem IsSound.attach (sound : bindings.IsSound store within) (change : Symbol → Symbol) {name : String}
    (found : bindings.symbols[number]? = some symbol)
    (same : (change symbol).name = symbol.name)
    (more : ∀ other, other ∈ (change symbol).sites ↔ other = id ∨ other ∈ symbol.sites)
    (spelled : store.identifier? (some id) = some name) (called : symbol.name = name)
    (free : bindings.symbolId? id = none) (named : store.isReference id = true ∧ id ∈ within) :
    IsSound store within { bindings with
      symbols := bindings.symbols.modify number change
      symbolOf := bindings.symbolOf.setIfInBounds id (some number) } := by
  have bound := lt_size_of_identifier? spelled
  have set : ∀ other, symbolId? { bindings with
      symbols := bindings.symbols.modify number change
      symbolOf := bindings.symbolOf.setIfInBounds id (some number) } other =
      if id = other then some number else bindings.symbolId? other :=
    symbolId?_set sound.sized bound number
  have changed : (bindings.symbols.modify number change)[number]? = some (change symbol) := by
    rw [Array.getElem?_modify, if_pos rfl, found, Option.map_some]
  have apart : ∀ {other place}, bindings.symbolId? other = some place → id ≠ other := by
    rintro other place belongs rfl
    rw [free] at belongs
    cases belongs
  refine ⟨by rw [Array.size_setIfInBounds]; exact sound.sized, fun place other there site member => ?_,
    fun place other there => ?_, fun site place belongs => ?_, fun site place belongs => ?_,
    fun place scope text declared stands listed => ?_⟩
  · rw [set]
    by_cases here : number = place
    · subst here
      rw [changed] at there
      cases there
      rw [same]
      rcases (more site).mp member with rfl | old
      · exact ⟨if_pos rfl, by rw [called]; exact spelled⟩
      · obtain ⟨belongs, spells⟩ := sound.sites number symbol found site old
        exact ⟨by rw [if_neg (apart belongs)]; exact belongs, spells⟩
    · rw [Array.getElem?_modify, if_neg here] at there
      obtain ⟨belongs, spells⟩ := sound.sites place other there site member
      exact ⟨by rw [if_neg (apart belongs)]; exact belongs, spells⟩
  · by_cases here : number = place
    · subst here
      rw [changed] at there
      cases there
      exact List.ne_nil_of_mem ((more id).mpr (.inl rfl))
    · rw [Array.getElem?_modify, if_neg here] at there
      exact sound.sited place other there
  · rw [set] at belongs
    split at belongs
    · rename_i same
      cases belongs
      exact ⟨change symbol, changed, (more site).mpr (.inl same.symm)⟩
    · obtain ⟨other, there, member⟩ := sound.known site place belongs
      by_cases here : number = place
      · subst here
        cases found.symm.trans there
        exact ⟨change symbol, changed, (more site).mpr (.inr member)⟩
      · exact ⟨other, by rw [Array.getElem?_modify, if_neg here]; exact there, member⟩
  · rw [set] at belongs
    split at belongs
    · rename_i same
      exact same ▸ named
    · exact sound.named site place belongs
  · obtain ⟨other, there, called⟩ := sound.tables place scope text declared stands listed
    by_cases here : number = declared
    · subst here
      cases found.symm.trans there
      exact ⟨change symbol, changed, same.trans called⟩
    · exact ⟨other, by rw [Array.getElem?_modify, if_neg here]; exact there, called⟩

/-- A symbol changes, but not what it is called and what its sites are. -/
theorem IsSound.modify (sound : bindings.IsSound store within) (change : Symbol → Symbol)
    (same : ∀ symbol, (change symbol).name = symbol.name ∧ (change symbol).sites = symbol.sites) :
    IsSound store within { bindings with symbols := bindings.symbols.modify number change } := by
  have back : ∀ (place : SymbolId) (other : Symbol), (bindings.symbols.modify number change)[place]? = some other →
      ∃ symbol, bindings.symbols[place]? = some symbol ∧ other.name = symbol.name ∧
        other.sites = symbol.sites := by
    intro place other there
    rw [Array.getElem?_modify] at there
    split at there
    · obtain ⟨symbol, found, rfl⟩ := Option.map_eq_some_iff.mp there
      exact ⟨symbol, found, same symbol⟩
    · exact ⟨other, there, rfl, rfl⟩
  have forth : ∀ (place : SymbolId) (symbol : Symbol), bindings.symbols[place]? = some symbol →
      ∃ other, (bindings.symbols.modify number change)[place]? = some other ∧
        other.name = symbol.name ∧ other.sites = symbol.sites := by
    intro place symbol found
    rw [Array.getElem?_modify]
    split
    · exact ⟨change symbol, by rw [found]; rfl, same symbol⟩
    · exact ⟨symbol, found, rfl, rfl⟩
  refine ⟨sound.sized, fun place other there site member => ?_, fun place other there => ?_,
    fun site place belongs => ?_, sound.named, fun place scope text declared stands listed => ?_⟩
  · obtain ⟨symbol, found, called, sites⟩ := back place other there
    rw [called]
    exact sound.sites place symbol found site (sites ▸ member)
  · obtain ⟨symbol, found, -, sites⟩ := back place other there
    exact sites ▸ sound.sited place symbol found
  · obtain ⟨symbol, found, member⟩ := sound.known site place belongs
    obtain ⟨other, there, -, sites⟩ := forth place symbol found
    exact ⟨other, there, sites ▸ member⟩
  · obtain ⟨symbol, found, called⟩ := sound.tables place scope text declared stands listed
    obtain ⟨other, there, calls, -⟩ := forth declared symbol found
    exact ⟨other, there, calls.trans called⟩

theorem IsSound.noteWrite (sound : bindings.IsSound store within) (id : NodeId) :
    (bindings.noteWrite id).IsSound store within := by
  unfold Bindings.noteWrite
  split
  · exact sound
  · exact sound.modify _ fun _ => ⟨rfl, rfl⟩

theorem IsSound.enter (sound : bindings.IsSound store within) (kind : ScopeKind) (container : NodeId) :
    (bindings.enter kind container).IsSound store within := by
  refine ⟨sound.sized, sound.sites, sound.sited, sound.known, sound.named, fun place scope name number there => ?_⟩
  simp only [Bindings.enter, Array.getElem?_push] at there
  split at there
  · cases there
    intro listed
    rw [Std.TreeMap.getElem?_emptyc] at listed
    cases listed
  · exact sound.tables place scope name number there

/-- A name gets a symbol of its own. -/
theorem IsSound.introduce (sound : bindings.IsSound store within) {scope : ScopeId} {name : String}
    (kind : DeclarationKind) (spelled : store.identifier? (some id) = some name)
    (free : bindings.symbolId? id = none) (named : store.isReference id = true ∧ id ∈ within) :
    IsSound store within { bindings with
      symbols := bindings.symbols.push ⟨name, kind.mark, scope, #[id], #[], #[], true⟩
      scopes := bindings.scopes.modify scope fun found =>
        { found with table := found.table.insert name bindings.symbols.size }
      symbolOf := bindings.symbolOf.setIfInBounds id (some bindings.symbols.size) } := by
  have set : ∀ other, symbolId? { bindings with
      symbols := bindings.symbols.push ⟨name, kind.mark, scope, #[id], #[], #[], true⟩
      scopes := bindings.scopes.modify scope fun found =>
        { found with table := found.table.insert name bindings.symbols.size }
      symbolOf := bindings.symbolOf.setIfInBounds id (some bindings.symbols.size) } other =
      if id = other then some bindings.symbols.size else bindings.symbolId? other :=
    symbolId?_set sound.sized (lt_size_of_identifier? spelled) _
  have kept : ∀ {place : SymbolId} {other : Symbol}, bindings.symbols[place]? = some other →
      (bindings.symbols.push ⟨name, kind.mark, scope, #[id], #[], #[], true⟩)[place]? = some other := by
    intro place other there
    obtain ⟨bound, -⟩ := Array.getElem?_eq_some_iff.mp there
    rw [Array.getElem?_push, if_neg (Nat.ne_of_lt bound), there]
  refine ⟨by rw [Array.size_setIfInBounds]; exact sound.sized, fun place other there site member => ?_,
    fun place other there => ?_, fun site place belongs => ?_, fun site place belongs => ?_,
    fun place found text declared stands listed => ?_⟩
  · rw [set]
    rw [Array.getElem?_push] at there
    split at there
    · rename_i new
      cases there
      cases List.mem_singleton.mp (show site ∈ [id] from member)
      exact ⟨by rw [if_pos rfl, new], spelled⟩
    · obtain ⟨belongs, spells⟩ := sound.sites place other there site member
      refine ⟨?_, spells⟩
      rw [if_neg, belongs]
      rintro rfl
      rw [free] at belongs
      cases belongs
  · rw [Array.getElem?_push] at there
    split at there
    · cases there
      exact List.cons_ne_nil id []
    · exact sound.sited place other there
  · rw [set] at belongs
    split at belongs
    · rename_i same
      cases belongs
      refine ⟨_, by rw [Array.getElem?_push, if_pos rfl], ?_⟩
      exact List.mem_singleton.mpr same.symm
    · obtain ⟨other, there, member⟩ := sound.known site place belongs
      exact ⟨other, kept there, member⟩
  · rw [set] at belongs
    split at belongs
    · rename_i same
      exact same ▸ named
    · exact sound.named site place belongs
  · have old : ∀ before : Scope, bindings.scopes[place]? = some before →
        before.table[text]? = some declared → ∃ symbol,
          (bindings.symbols.push ⟨name, kind.mark, scope, #[id], #[], #[], true⟩)[declared]? =
            some symbol ∧ symbol.name = text := by
      intro before there has
      obtain ⟨other, stays, called⟩ := sound.tables place before text declared there has
      exact ⟨other, kept stays, called⟩
    rw [Array.getElem?_modify] at stands
    split at stands
    · obtain ⟨before, there, rfl⟩ := Option.map_eq_some_iff.mp stands
      rw [Std.TreeMap.getElem?_insert] at listed
      split at listed
      · rename_i same
        cases listed
        exact ⟨_, by rw [Array.getElem?_push, if_pos rfl], compare_eq_iff_eq.mp same⟩
      · exact old before there listed
    · exact old found stands listed

theorem IsSound.declare (sound : bindings.IsSound store within) {scope? : Option ScopeId} {name : String}
    (kind : DeclarationKind) (spelled : store.identifier? (some id) = some name)
    (free : bindings.symbolId? id = none) (named : store.isReference id = true ∧ id ∈ within) :
    (bindings.declare scope? name kind id).IsSound store within := by
  unfold Bindings.declare
  split
  · exact sound
  rename_i scope
  split
  · rename_i number listed
    obtain ⟨found, there, has⟩ := Option.bind_eq_some_iff.mp listed
    obtain ⟨symbol, stays, called⟩ := sound.tables scope found name number there has
    refine sound.attach _ stays rfl (fun other => ?_) spelled called free named
    simp only [Symbol.sites, Array.toList_push, List.mem_append, List.mem_singleton]
    tauto
  · exact sound.introduce kind spelled free named

theorem symbolId?_declare {scope? : Option ScopeId} {name : String} (kind : DeclarationKind)
    {other : NodeId} (apart : id ≠ other) :
    (bindings.declare scope? name kind id).symbolId? other = bindings.symbolId? other := by
  unfold Bindings.declare
  split
  · rfl
  · split <;>
      simp only [symbolId?, Array.getElem?_setIfInBounds, if_neg apart]

end Sound

/-! ## What stays -/

/-- Symbols keep their names and their sites. -/
structure Grows (earlier later : Bindings) : Prop where
  named : ∀ (number : SymbolId) (symbol : Symbol), earlier.symbols[number]? = some symbol →
    ∃ other, later.symbols[number]? = some other ∧ other.name = symbol.name
  belongs : ∀ (id : NodeId) (number : SymbolId), earlier.symbolId? id = some number →
    later.symbolId? id = some number

section Growing
variable {store : Store} {within : List NodeId} {bindings later last : Bindings} {id other : NodeId}
  {steps : List Step}

theorem Grows.refl (bindings : Bindings) : bindings.Grows bindings :=
  ⟨fun _ symbol found => ⟨symbol, found, rfl⟩, fun _ _ belongs => belongs⟩

theorem Grows.trans (first : bindings.Grows later) (second : later.Grows last) :
    bindings.Grows last := by
  refine ⟨fun number symbol found => ?_, fun id number belongs =>
    second.belongs id number (first.belongs id number belongs)⟩
  obtain ⟨middle, there, called⟩ := first.named number symbol found
  obtain ⟨other, stays, calls⟩ := second.named number middle there
  exact ⟨other, stays, calls.trans called⟩

/-- Symbols change, but not what they are called. -/
theorem Grows.modify (number : SymbolId) (change : Symbol → Symbol)
    (same : ∀ symbol, (change symbol).name = symbol.name) :
    bindings.Grows { bindings with symbols := bindings.symbols.modify number change } := by
  refine ⟨fun place symbol found => ?_, fun _ _ belongs => belongs⟩
  rw [Array.getElem?_modify, found]
  split
  · exact ⟨change symbol, rfl, same symbol⟩
  · exact ⟨symbol, rfl, rfl⟩

/-- An identifier without a symbol gets one. -/
theorem Grows.assign (free : bindings.symbolId? id = none) (number : SymbolId) :
    bindings.Grows { bindings with
      symbolOf := bindings.symbolOf.setIfInBounds id (some number) } := by
  refine ⟨fun _ symbol found => ⟨symbol, found, rfl⟩, fun other place belongs => ?_⟩
  have apart : id ≠ other := by
    rintro rfl
    rw [free] at belongs
    cases belongs
  rw [symbolId?, Array.getElem?_setIfInBounds, if_neg apart]
  exact belongs

theorem Grows.noteWrite (id : NodeId) : bindings.Grows (bindings.noteWrite id) := by
  unfold Bindings.noteWrite
  split
  · exact .refl bindings
  · exact .modify _ _ fun _ => rfl

theorem Grows.declare {scope? : Option ScopeId} {name : String} (kind : DeclarationKind)
    (free : bindings.symbolId? id = none) :
    bindings.Grows (bindings.declare scope? name kind id) := by
  unfold Bindings.declare
  split
  · exact .refl bindings
  rename_i scope
  split
  · rename_i number _
    refine (Grows.assign free number).trans (Grows.modify number _ ?_)
    exact fun _ => rfl
  · obtain ⟨-, belongs⟩ := Grows.assign free bindings.symbols.size
    refine ⟨fun number symbol found => ⟨symbol, ?_, rfl⟩, belongs⟩
    obtain ⟨bound, -⟩ := Array.getElem?_eq_some_iff.mp found
    rw [Array.getElem?_push, if_neg (Nat.ne_of_lt bound), found]

theorem symbolId?_noteWrite (id other : NodeId) :
    (bindings.noteWrite id).symbolId? other = bindings.symbolId? other := by
  unfold Bindings.noteWrite
  split <;> rfl

/-! ## The declarations -/

/-- The identifiers that steps declare are different ones, without a symbol as yet. -/
structure Awaits (store : Store) (within : List NodeId) (bindings : Bindings) (steps : List Step) :
    Prop where
  once : (declared steps).Nodup
  free : ∀ id ∈ declared steps, bindings.symbolId? id = none
  named : ∀ id ∈ declared steps, store.isReference id = true ∧ id ∈ within

theorem Awaits.rest {step : Step} (awaits : Awaits store within bindings (step :: steps))
    (same : ∀ id ∈ declared steps, later.symbolId? id = bindings.symbolId? id) :
    Awaits store within later steps := by
  have rest : (declared steps).Sublist (declared (step :: steps)) :=
    (List.sublist_cons_self step steps).filterMap _
  exact ⟨rest.nodup awaits.once, fun id member => by
    rw [same id member, awaits.free id (rest.subset member)],
    fun id member => awaits.named id (rest.subset member)⟩

/-- A step of binding. -/
theorem perform_sound (chosen : List (Option ScopeId)) {step : Step}
    (sound : bindings.IsSound store within) (awaits : Awaits store within bindings (step :: steps)) :
    (perform store (bindings, chosen) step).1.IsSound store within ∧
      bindings.Grows (perform store (bindings, chosen) step).1 ∧
      Awaits store within (perform store (bindings, chosen) step).1 steps := by
  cases step with
  | enter kind container =>
    exact ⟨sound.enter kind container, ⟨fun _ symbol found => ⟨symbol, found, rfl⟩,
      fun _ _ belongs => belongs⟩, awaits.rest fun _ _ => rfl⟩
  | leave =>
    exact ⟨⟨sound.sized, sound.sites, sound.sited, sound.known, sound.named, sound.tables⟩,
      ⟨fun _ symbol found => ⟨symbol, found, rfl⟩, fun _ _ belongs => belongs⟩,
      awaits.rest fun _ _ => rfl⟩
  | choose isCurrent => exact ⟨sound, .refl bindings, awaits.rest fun _ _ => rfl⟩
  | dismiss => exact ⟨sound, .refl bindings, awaits.rest fun _ _ => rfl⟩
  | declare kind id =>
    have listed : id ∈ declared (.declare kind id :: steps) := List.mem_cons_self
    have apart : ∀ other ∈ declared steps, id ≠ other := by
      rintro other member rfl
      exact (List.nodup_cons.mp awaits.once).1 member
    simp only [perform, declareIdentifier]
    cases spelled : store.identifier? (some id) with
    | none => exact ⟨sound, .refl bindings, awaits.rest fun _ _ => rfl⟩
    | some name =>
      exact ⟨sound.declare kind spelled (awaits.free id listed) (awaits.named id listed),
        .declare kind (awaits.free id listed),
        awaits.rest fun other member => symbolId?_declare kind (apart other member)⟩
  | write id =>
    simp only [perform]
    split
    · exact ⟨sound.noteWrite id, .noteWrite id, awaits.rest fun _ _ => symbolId?_noteWrite _ _⟩
    · exact ⟨sound, .refl bindings, awaits.rest fun _ _ => rfl⟩

/-- All steps of binding. -/
theorem performAll_sound (chosen : List (Option ScopeId)) (sound : bindings.IsSound store within)
    (awaits : Awaits store within bindings steps) :
    (performAll store (bindings, chosen) steps).1.IsSound store within ∧
      bindings.Grows (performAll store (bindings, chosen) steps).1 := by
  induction steps generalizing bindings chosen with
  | nil => exact ⟨sound, .refl bindings⟩
  | cons step rest ih =>
    obtain ⟨stays, grows, remains⟩ := perform_sound chosen sound awaits
    obtain ⟨ends, more⟩ := ih (perform store (bindings, chosen) step).2 stays remains
    exact ⟨ends, grows.trans more⟩

/-! ## The references -/

/-- What is looked up is called so. -/
theorem IsSound.lookup? (sound : bindings.IsSound store within) {name : String} {fuel : Nat}
    {scope : Option ScopeId} {number : SymbolId}
    (found : bindings.lookup? name fuel scope = some number) :
    ∃ symbol, bindings.symbols[number]? = some symbol ∧ symbol.name = name := by
  induction fuel generalizing scope with
  | zero => cases found
  | succ fuel ih =>
    cases scope with
    | none => cases found
    | some place =>
      obtain ⟨there, stands, listed⟩ := Option.bind_eq_some_iff.mp found
      rcases Option.or_eq_some_iff.mp listed with here | ⟨-, above⟩
      · exact sound.tables place there name number stands here
      · exact ih above

/-- An identifier is resolved. -/
theorem resolve_sound (sound : bindings.IsSound store within) (member : id ∈ within) :
    (resolve store bindings id).IsSound store within ∧ bindings.Grows (resolve store bindings id) := by
  unfold resolve
  split
  · exact ⟨sound, .refl bindings⟩
  rename_i name spelled
  split
  · exact ⟨sound, .refl bindings⟩
  rename_i refers
  simp only [Bool.or_eq_true, Bool.not_eq_true', not_or, Bool.not_eq_false, Bool.not_eq_true,
    Option.isSome_eq_false_iff, Option.isNone_iff_eq_none] at refers
  obtain ⟨free, named⟩ := refers
  split
  · exact ⟨⟨sound.sized, sound.sites, sound.sited, sound.known, sound.named, sound.tables⟩,
      ⟨fun _ symbol found => ⟨symbol, found, rfl⟩, fun _ _ belongs => belongs⟩⟩
  rename_i number found
  obtain ⟨symbol, there, called⟩ := sound.lookup? found
  have attached := sound.attach (fun found => { found with references := found.references.push id })
    there rfl (fun other => by
      simp only [Symbol.sites, Array.toList_push, List.mem_append, List.mem_singleton]
      tauto) spelled called free ⟨named, member⟩
  have grows := (Grows.assign free number).trans (Grows.modify number
    (fun found => { found with references := found.references.push id }) fun _ => rfl)
  split
  · exact ⟨attached.noteWrite id, grows.trans (.noteWrite id)⟩
  · exact ⟨attached, grows⟩

theorem symbolId?_resolve (apart : id ≠ other) :
    (resolve store bindings id).symbolId? other = bindings.symbolId? other := by
  unfold resolve
  split
  · rfl
  split
  · rfl
  split
  · rfl
  split
  · rw [symbolId?_noteWrite]
    simp only [symbolId?, Array.getElem?_setIfInBounds, if_neg apart]
  · simp only [symbolId?, Array.getElem?_setIfInBounds, if_neg apart]

/-- Several identifiers are resolved. -/
theorem foldl_resolve_sound {ids : List NodeId} (sound : bindings.IsSound store within)
    (members : ids ⊆ within) :
    (ids.foldl (resolve store) bindings).IsSound store within ∧
      bindings.Grows (ids.foldl (resolve store) bindings) := by
  induction ids generalizing bindings with
  | nil => exact ⟨sound, .refl bindings⟩
  | cons id rest ih =>
    obtain ⟨stays, grows⟩ := resolve_sound sound (members List.mem_cons_self)
    obtain ⟨ends, more⟩ := ih stays fun _ member => members (List.mem_cons_of_mem _ member)
    exact ⟨ends, grows.trans more⟩

theorem unresolved_noteWrite (id : NodeId) :
    (bindings.noteWrite id).unresolved = bindings.unresolved := by
  unfold Bindings.noteWrite
  split <;> rfl

theorem mem_unresolved_resolve (member : other ∈ (resolve store bindings id).unresolved) :
    other ∈ bindings.unresolved ∨ other = id ∧ (resolve store bindings id).symbolId? id = none := by
  unfold resolve at member ⊢
  split at member
  · exact .inl member
  split at member
  · exact .inl member
  rename_i refers
  simp only [Bool.or_eq_true, not_or, Bool.not_eq_true, Option.isSome_eq_false_iff,
    Option.isNone_iff_eq_none] at refers
  split at member
  · rw [if_neg (by simp [refers])]
    exact (Array.mem_push.mp member).imp_right fun same => ⟨same, refers.1⟩
  · refine .inl ?_
    split at member
    · rwa [unresolved_noteWrite] at member
    · exact member

/-- What stays unresolved has no symbol. -/
theorem unresolved_foldl_resolve {ids : List NodeId} (nodup : ids.Nodup)
    (before : ∀ id ∈ bindings.unresolved, bindings.symbolId? id = none ∧ id ∉ ids) :
    ∀ id ∈ (ids.foldl (resolve store) bindings).unresolved,
      (ids.foldl (resolve store) bindings).symbolId? id = none := by
  induction ids generalizing bindings with
  | nil => exact fun id member => (before id member).1
  | cons first rest ih =>
    obtain ⟨single, others⟩ := List.nodup_cons.mp nodup
    refine ih others fun id member => ?_
    rcases mem_unresolved_resolve member with old | ⟨rfl, missing⟩
    · obtain ⟨missing, apart⟩ := before id old
      exact ⟨by rw [symbolId?_resolve (Ne.symm (List.ne_of_not_mem_cons apart)), missing],
        List.not_mem_of_not_mem_cons apart⟩
    · exact ⟨missing, single⟩

theorem unresolved_declare {scope? : Option ScopeId} {name : String} (kind : DeclarationKind)
    (id : NodeId) : (bindings.declare scope? name kind id).unresolved = bindings.unresolved := by
  unfold Bindings.declare
  split
  · rfl
  · split <;> rfl

theorem unresolved_perform (progress : Progress) (step : Step) :
    (perform store progress step).1.unresolved = progress.1.unresolved := by
  cases step with
  | enter | leave | choose | dismiss => rfl
  | declare kind id =>
    simp only [perform, declareIdentifier]
    split
    · exact unresolved_declare kind _
    · rfl
  | write id =>
    simp only [perform]
    split
    · exact unresolved_noteWrite id
    · rfl

theorem unresolved_performAll (progress : Progress) (steps : List Step) :
    (performAll store progress steps).1.unresolved = progress.1.unresolved := by
  induction steps generalizing progress with
  | nil => rfl
  | cons step rest ih => rw [performAll_cons, ih, unresolved_perform]

/-! ## The whole tree -/

/-- The steps for a file. -/
def fileScript (store : Store) (root : NodeId) : List Step :=
  .enter .file root ::
    (((store.statements? (some root)).getD []).flatMap (script store store.depthBound) ++ [.leave])

theorem of_eq (store : Store) (root : NodeId) :
    of store root = (store.descendants (some root)).foldl (resolve store)
      (performAll store (empty store, []) (fileScript store root)).1 := by
  rw [fileScript, performAll_cons, performAll_append, perform,
    performAll_flatMap fun slot bindings chosen => performAll_script store.depthBound slot bindings chosen]
  rfl

theorem empty_sound (store : Store) (within : List NodeId) : (empty store).IsSound store within := by
  have nothing : ∀ id, (empty store).symbolId? id = none := by
    intro id
    simp only [symbolId?, empty, Array.getElem?_replicate]
    split <;> rfl
  refine ⟨Array.size_replicate, fun _ _ found => ?_, fun _ _ found => ?_, fun id _ belongs => ?_,
    fun id _ belongs => ?_, fun _ _ _ _ found => ?_⟩
  · cases found
  · cases found
  · rw [nothing] at belongs
    cases belongs
  · rw [nothing] at belongs
    cases belongs
  · cases found

variable {root : NodeId} {tree : Tree}

theorem awaits_fileScript (stands : store.Stands root tree) :
    Awaits store (store.descendants (some root)) (empty store) (fileScript store root) := by
  have listed : declared (fileScript store root) =
      declared (((store.statements? tree.root).getD []).flatMap (script store store.depthBound)) := by
    rw [stands.rooted, fileScript, declared_enter, declared_append, declared_leave, declared_nil,
      List.append_nil]
  have declares := declares_statements (fun _ => declares_script store.depthBound) stands.holds
  rw [← listed] at declares
  have few : ∀ id, (declared (fileScript store root)).count id ≤ tree.names.count id := by
    simpa only [Tree.namesAll, List.append_nil] using declares.few
  refine ⟨List.nodup_iff_count_le_one.mpr fun id =>
      (few id).trans (List.nodup_iff_count_le_one.mp stands.nodup id), fun id _ => ?_,
    fun id member => ⟨declares.named id member, ?_⟩⟩
  · simp only [symbolId?, empty, Array.getElem?_replicate]
    split <;> rfl
  · exact stands.mem_descendants.mpr <| List.count_pos_iff.mp
      (Nat.lt_of_lt_of_le (List.count_pos_iff.mpr member) (few id))

/-- The bindings of a tree are sound. -/
theorem of_sound (stands : store.Stands root tree) :
    (of store root).IsSound store (store.descendants (some root)) := by
  rw [of_eq]
  exact (foldl_resolve_sound (performAll_sound [] (empty_sound store _) (awaits_fileScript stands)).1
    fun _ member => member).1

theorem of_unresolved (stands : store.Stands root tree) :
    ∀ id ∈ (of store root).unresolved, (of store root).symbolId? id = none := by
  rw [of_eq]
  refine unresolved_foldl_resolve ?_ fun id member => ?_
  · rw [← stands.rooted]
    exact (stands.holds.descendants_perm stands.nodup).nodup_iff.mpr stands.nodup
  · rw [unresolved_performAll] at member
    cases List.not_mem_nil (Array.mem_def.mp member)

end Growing

end Bindings

end Unflatten
