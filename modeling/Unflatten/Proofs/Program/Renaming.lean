import Unflatten.Proofs.Binding.Matching
import Unflatten.Proofs.Binding.Naming
import Unflatten.Proofs.Parser.Grammar

/-! # Renaming changes nothing but names

Renaming writes texts into identifiers (`rename_eq`), those of a naming that captures nothing
(`renames`).  So a renamed program has the same scopes and symbols under other names
(`rename_isRenamed`). -/

set_option autoImplicit false

namespace Unflatten

open Bindings

/-- What a scope is, apart from the names in it. -/
def Scope.frame (scope : Scope) : Option ScopeId × ScopeKind × NodeId :=
  (scope.parent, scope.kind, scope.container)

/-- A symbol apart from its name. -/
def Symbol.unnamed (symbol : Symbol) : Symbol := { symbol with name := "" }

namespace Store

/-- The texts of the identifiers of a tree. -/
def texts (store : Store) (root : NodeId) : List String :=
  (store.descendants (some root)).filterMap fun id => store.identifier? (some id)

/-- The symbols with new names. -/
def newNames (store : Store) (root : NodeId) : Std.TreeMap SymbolId String :=
  (Naming.of store root (Bindings.of store root)).names

/-- The name of a symbol after renaming. -/
def renamedSymbol (store : Store) (root : NodeId) (number : SymbolId) : String :=
  (store.newNames root)[number]?.getD
    (((Bindings.of store root).symbols[number]?.map (·.name)).getD "")

/-- The text of an identifier after renaming. -/
def renamedText (store : Store) (root id : NodeId) : String :=
  (((Bindings.of store root).symbolId? id).bind fun number => (store.newNames root)[number]?).getD
    (store.spelling id)

/-- A renamed tree: the same scopes and symbols, the same identifiers without a symbol, and new
texts at all identifiers of a symbol or at none. -/
structure IsRenamed (store later : Store) (root : NodeId) : Prop where
  /-- Only the texts of identifiers differ. -/
  nodes : ∃ text, later = store.respell text
  scopes : (Bindings.of later root).scopes.map Scope.frame =
    (Bindings.of store root).scopes.map Scope.frame
  scopeOf : (Bindings.of later root).scopeOf = (Bindings.of store root).scopeOf
  symbols : (Bindings.of later root).symbols.map Symbol.unnamed =
    (Bindings.of store root).symbols.map Symbol.unnamed
  /-- Every scope lists the same symbols. -/
  tables : ∀ (place : ScopeId) (scope other : Scope),
    (Bindings.of store root).scopes[place]? = some scope →
      (Bindings.of later root).scopes[place]? = some other → ∀ number : SymbolId,
        (∃ word : String, other.table[word]? = some number) ↔
          ∃ word : String, scope.table[word]? = some number
  symbolOf : (Bindings.of later root).symbolOf = (Bindings.of store root).symbolOf
  unresolved : (Bindings.of later root).unresolved = (Bindings.of store root).unresolved
  /-- References without a declaration keep their texts. -/
  missing : ∀ id ∈ (Bindings.of store root).unresolved,
    later.identifier? (some id) = store.identifier? (some id)
  /-- Names of properties, keys and labels keep their texts. -/
  others : ∀ id, store.isReference id = false →
    later.identifier? (some id) = store.identifier? (some id)
  /-- A symbol keeps its name, or it gets one that is no text of the tree and that its identifiers
  only have afterwards. -/
  renamed : ∀ symbol ∈ (Bindings.of store root).symbols,
    (∀ id ∈ symbol.sites, later.identifier? (some id) = some symbol.name) ∨
      ∃ word, (∀ id ∈ symbol.sites, later.identifier? (some id) = some word) ∧
        ∀ id ∈ store.descendants (some root), store.identifier? (some id) ≠ some word ∧
          (later.identifier? (some id) = some word → id ∈ symbol.sites)
  /-- What is declared outside a `catch` clause gets a new name. -/
  declared : ∀ id ∈ store.descendants (some root), store.isDeclarationName id = true →
    store.kind? (store.parent (some id)) ≠ some .catchClause →
      ((Bindings.of store root).symbolId? id).isSome →
        later.identifier? (some id) ≠ store.identifier? (some id)

end Store

section Renaming
variable {store : Store} {root id : NodeId} {tree : Tree}

/-! ## The new texts -/

theorem lookup_eq_getElem? (names : Std.TreeMap SymbolId String) (number : SymbolId) :
    names.toList.lookup number = names[number]? := by
  cases found : names.toList.lookup number with
  | some word =>
    obtain ⟨front, back, split, -⟩ := List.lookup_eq_some_iff.mp found
    have member : (number, word) ∈ names.toList := by
      rw [split]
      exact List.mem_append_right _ List.mem_cons_self
    exact (Std.TreeMap.mem_toList_iff_getElem?_eq_some.mp member).symm
  | none =>
    refine (Option.eq_none_iff_forall_ne_some.mpr fun word there => ?_).symm
    have absent := List.lookup_eq_none_iff.mp found _
      (Std.TreeMap.mem_toList_iff_getElem?_eq_some.mpr there)
    rw [bne_self_eq_false] at absent
    cases absent

/-- Writing names into the sites of symbols, one symbol after the other. -/
theorem foldl_setTexts {bindings : Bindings} {within : List NodeId}
    (sound : bindings.IsSound store within) {pairs : List (SymbolId × String)}
    (distinct : (pairs.map Prod.fst).Nodup) (text : NodeId → String) :
    pairs.foldl (fun store (symbol, name) =>
        match bindings.symbols[symbol]? with
        | none => store
        | some found =>
          store.setTexts (found.declarations.toList ++ found.references.toList) name)
        (store.respell text) =
      store.respell fun id =>
        ((bindings.symbolId? id).bind fun number => pairs.lookup number).getD (text id) := by
  induction pairs generalizing text with
  | nil => exact Store.respell_congr fun id _ => by cases bindings.symbolId? id <;> rfl
  | cons pair rest ih =>
    obtain ⟨number, word⟩ := pair
    obtain ⟨absent, others⟩ := List.nodup_cons.mp distinct
    have elsewhere : ∀ other ≠ number, ((number, word) :: rest).lookup other = rest.lookup other := by
      intro other apart
      rw [List.lookup_cons, beq_false_of_ne apart]
    cases found : bindings.symbols[number]? with
    | none =>
      simp only [List.foldl_cons, found]
      rw [ih others]
      refine Store.respell_congr fun id _ => ?_
      cases belongs : bindings.symbolId? id with
      | none => rfl
      | some other =>
        obtain ⟨symbol, there, -⟩ := sound.known id other belongs
        rw [Option.bind_some, Option.bind_some, elsewhere other]
        rintro rfl
        rw [found] at there
        cases there
    | some symbol =>
      have written : (store.respell text).setTexts
          (symbol.declarations.toList ++ symbol.references.toList) word =
            store.respell fun id => if id ∈ symbol.sites then word else text id := by
        rw [Store.setTexts_eq, Store.respell_respell]
        refine Store.respell_congr fun id spelled => ?_
        rw [Store.spelling_respell spelled]
        rfl
      simp only [List.foldl_cons, found]
      rw [written, ih others]
      refine Store.respell_congr fun id _ => ?_
      have member : id ∈ symbol.sites ↔ bindings.symbolId? id = some number := by
        refine ⟨fun site => (sound.sites number symbol found id site).1, fun belongs => ?_⟩
        obtain ⟨other, there, site⟩ := sound.known id number belongs
        rw [found] at there
        cases there
        exact site
      simp only [member]
      cases belongs : bindings.symbolId? id with
      | none => rfl
      | some other =>
        rw [Option.bind_some, Option.bind_some]
        by_cases here : other = number
        · subst here
          have none : rest.lookup other = none := List.lookup_eq_none_iff.mpr fun pair listed => by
            rw [bne_iff_ne]
            rintro rfl
            exact absent (List.mem_map.mpr ⟨pair, listed, rfl⟩)
          rw [none, Option.getD_none, if_pos rfl, List.lookup_cons_self, Option.getD_some]
        · rw [elsewhere other here, if_neg fun same => here (Option.some.inj same)]

/-- Renaming writes texts into identifiers. -/
theorem rename_eq (stands : store.Stands root tree) :
    (store.rename root).1 = store.respell (store.renamedText root) := by
  have distinct : ((store.newNames root).toList.map Prod.fst).Nodup := by
    rw [Std.TreeMap.map_fst_toList_eq_keys]
    exact Std.TreeMap.nodup_keys
  have all := foldl_setTexts (of_sound stands) distinct store.spelling
  rw [Store.respell_spelling] at all
  refine all.trans (Store.respell_congr fun id _ => ?_)
  rw [Store.renamedText]
  simp only [lookup_eq_getElem?]

/-! ## No name is captured -/

theorem mem_texts {word : String} (inside : id ∈ store.descendants (some root))
    (spelled : store.identifier? (some id) = some word) : word ∈ store.texts root :=
  List.mem_filterMap.mpr ⟨id, inside, spelled⟩

/-- The text of an identifier is the new name of its symbol, or as before. -/
theorem renamedText_cases (store : Store) (root id : NodeId) :
    (∃ number word, (Bindings.of store root).symbolId? id = some number ∧
      (store.newNames root)[number]? = some word ∧ store.renamedText root id = word) ∨
    (∀ number, (Bindings.of store root).symbolId? id = some number →
      (store.newNames root)[number]? = none) ∧ store.renamedText root id = store.spelling id := by
  rw [Store.renamedText]
  cases (Bindings.of store root).symbolId? id with
  | none => exact .inr ⟨fun _ belongs => absurd belongs (by simp), rfl⟩
  | some number =>
    rw [Option.bind_some]
    cases named : (store.newNames root)[number]? with
    | none => exact .inr ⟨fun _ belongs => Option.some.inj belongs ▸ named, rfl⟩
    | some word => exact .inl ⟨number, word, rfl, named, rfl⟩

theorem renames (stands : store.Stands root tree) (few : (store.texts root).dedup.length < 9000) :
    Renames store (store.descendants (some root)) (Bindings.of store root) (store.renamedSymbol root)
      (store.renamedText root) := by
  have sound := of_sound stands
  have fresh := Naming.of_isFresh (Bindings.of store root) few
  refine ⟨fun id number belongs => ?_, fun id word inside spelled number symbol found same => ?_⟩
  · obtain ⟨symbol, there, site⟩ := sound.known id number belongs
    rw [Store.renamedText, Store.renamedSymbol, belongs, Option.bind_some, Store.spelling,
      (sound.sites number symbol there id site).2, there]
    rfl
  have own : store.spelling id = word := by rw [Store.spelling, spelled, Option.getD_some]
  rw [Store.renamedSymbol, found, Option.map_some, Option.getD_some] at same
  rcases renamedText_cases store root id with ⟨other, given, belongs, named, text⟩ | ⟨-, text⟩
  · cases new : (store.newNames root)[number]? with
    | some next =>
      -- both have new names, so the identifier is one of the symbol
      rw [new, Option.getD_some, text] at same
      subst same
      cases fresh.apart number other next new named
      obtain ⟨symbol', there, site⟩ := sound.known id number belongs
      cases found.symm.trans there
      exact Option.some.inj ((sound.sites number symbol found id site).2.symm.trans spelled)
    | none =>
      -- the new name of another symbol is no text of the tree
      rw [new, Option.getD_none, text] at same
      obtain ⟨site, member⟩ := List.exists_mem_of_ne_nil _ (sound.sited number symbol found)
      obtain ⟨belongs', spelled'⟩ := sound.sites number symbol found site member
      rw [same] at spelled'
      exact absurd (mem_texts (sound.named site number belongs').2 spelled') (fresh.new other given named)
  · rw [text, own] at same
    cases new : (store.newNames root)[number]? with
    | some next =>
      rw [new, Option.getD_some] at same
      subst same
      exact absurd (mem_texts inside spelled) (fresh.new number next new)
    | none => rwa [new, Option.getD_none] at same

/-! ## What gets a new name -/

section Given
variable {bindings : Bindings} {naming : Naming} {number : SymbolId} {part : Char}

theorem contains_plan_of_contains (given : naming.names.contains number = true) (identifier : Slot) :
    (naming.plan bindings part identifier).names.contains number = true := by
  unfold Naming.plan
  split
  · exact given
  split
  · exact given
  · exact Std.TreeMap.contains_insert.trans (Bool.or_eq_true _ _ ▸ .inr given)

theorem contains_plan (belongs : bindings.symbolId? id = some number) :
    (naming.plan bindings part (some id)).names.contains number = true := by
  unfold Naming.plan
  rw [Option.bind_some, belongs]
  simp only
  split
  · assumption
  · exact Std.TreeMap.contains_insert.trans (by simp)

theorem contains_planAll_of_contains (given : naming.names.contains number = true)
    (identifiers : List Slot) :
    (identifiers.foldl (fun naming identifier => naming.plan bindings part identifier)
      naming).names.contains number = true := by
  induction identifiers generalizing naming with
  | nil => exact given
  | cons identifier rest ih => exact ih (contains_plan_of_contains given identifier)

theorem contains_planAll (belongs : bindings.symbolId? id = some number) {identifiers : List Slot}
    (member : some id ∈ identifiers) :
    (identifiers.foldl (fun naming identifier => naming.plan bindings part identifier)
      naming).names.contains number = true := by
  obtain ⟨front, back, rfl⟩ := List.append_of_mem member
  rw [List.foldl_append, List.foldl_cons]
  exact contains_planAll_of_contains (contains_plan belongs) back

theorem contains_visit_of_contains (given : naming.names.contains number = true) (id : NodeId) :
    (naming.visit store bindings id).names.contains number = true := by
  unfold Naming.visit
  split
  · exact contains_planAll_of_contains (contains_plan_of_contains given _) _
  · exact contains_plan_of_contains given _
  · exact given

theorem contains_visitAll_of_contains (given : naming.names.contains number = true)
    (ids : List NodeId) :
    (ids.foldl (Naming.visit store bindings) naming).names.contains number = true := by
  induction ids generalizing naming with
  | nil => exact given
  | cons id rest ih => exact ih (contains_visit_of_contains given id)

/-- A node that declares a name gives it a new one. -/
theorem contains_visit (belongs : bindings.symbolId? id = some number) {parent : NodeId}
    (linked : store.parent (some id) = some parent) (declares : store.isDeclarationName id = true)
    (noCatch : store.kind? (store.parent (some id)) ≠ some .catchClause) :
    (naming.visit store bindings parent).names.contains number = true := by
  rw [linked, Store.kind?] at noCatch
  rw [Store.isDeclarationName, linked] at declares
  unfold Naming.visit
  split at declares
  · rename_i found
    rw [found]
    cases beq_iff_eq.mp declares
    exact contains_plan belongs
  · rename_i found
    rw [found]
    simp only [Bool.or_eq_true, beq_iff_eq, List.contains_iff_mem] at declares
    rcases declares with rfl | member
    · exact contains_planAll_of_contains (contains_plan belongs) _
    · exact contains_planAll belongs member
  · rename_i found
    rw [found] at noCatch
    exact absurd rfl noCatch
  · cases declares

end Given

theorem given_of_isDeclarationName (stands : store.Stands root tree) {number : SymbolId}
    (inside : id ∈ store.descendants (some root)) (declares : store.isDeclarationName id = true)
    (noCatch : store.kind? (store.parent (some id)) ≠ some .catchClause)
    (belongs : (Bindings.of store root).symbolId? id = some number) :
    ∃ word, (store.newNames root)[number]? = some word := by
  have listed : ∀ id, id ∈ store.descendants (some root) ↔ id ∈ tree.names := fun id => by
    rw [← stands.rooted, (stands.holds.descendants_perm stands.nodup).mem_iff]
  rw [← Option.isSome_iff_exists, ← Std.TreeMap.contains_eq_isSome_getElem?]
  cases linked : store.parent (some id) with
  | none =>
    rw [Store.isDeclarationName, linked] at declares
    cases declares
  | some parent =>
    have above := (listed parent).mpr (stands.parent_mem ((listed id).mp inside) linked).1
    obtain ⟨front, back, split⟩ := List.append_of_mem above
    rw [Store.newNames, Naming.of, split, List.foldl_append, List.foldl_cons]
    exact contains_visitAll_of_contains (contains_visit belongs linked declares noCatch) back

/-! ## The renamed tree -/

theorem Bindings.Matches.same_frames {first second : Bindings} {name : SymbolId → String}
    (same : Matches name first second) :
    second.scopes.map Scope.frame = first.scopes.map Scope.frame := by
  refine Array.ext_getElem? fun place => ?_
  rw [Array.getElem?_map, Array.getElem?_map]
  cases found : first.scopes[place]? with
  | none => rw [same.scope_none found]
  | some scope =>
    obtain ⟨other, there, matched⟩ := same.scopes place scope found
    rw [there, Option.map_some, Option.map_some, Scope.frame, Scope.frame, matched.parent,
      matched.kind, matched.container]

theorem Bindings.Matches.same_symbols {first second : Bindings} {name : SymbolId → String}
    (same : Matches name first second) :
    second.symbols.map Symbol.unnamed = first.symbols.map Symbol.unnamed := by
  refine Array.ext_getElem? fun number => ?_
  rw [same.symbols, Array.getElem?_map, Array.getElem?_map, Array.getElem?_mapIdx, Option.map_map]
  rfl

theorem identifier?_respell_of_eq {text : NodeId → String} (same : text id = store.spelling id) :
    (store.respell text).identifier? (some id) = store.identifier? (some id) := by
  rw [Store.identifier?_respell, same, Store.spelling]
  cases store.identifier? (some id) <;> rfl

/-- What has no symbol keeps its text. -/
theorem identifier?_renamed_of_none (free : (Bindings.of store root).symbolId? id = none) :
    (store.respell (store.renamedText root)).identifier? (some id) = store.identifier? (some id) :=
  identifier?_respell_of_eq (by rw [Store.renamedText, free, Option.bind_none, Option.getD_none])

theorem rename_isRenamed_of_stands (stands : store.Stands root tree)
    (few : (store.texts root).dedup.length < 9000) :
    store.IsRenamed (store.rename root).1 root := by
  have sound := of_sound stands
  have fresh := Naming.of_isFresh (Bindings.of store root) few
  rw [rename_eq stands]
  have same := of_matches stands (renames stands few)
  refine ⟨⟨_, rfl⟩, same.same_frames, same.scopeOf, same.same_symbols,
    fun place scope other stood there number => ?_, same.symbolOf, same.unresolved,
    fun id listed => identifier?_renamed_of_none (of_unresolved stands id listed),
    fun id noReference => ?_, fun symbol listed => ?_, fun id inside declares noCatch some => ?_⟩
  · obtain ⟨other', there', matched⟩ := same.scopes place scope stood
    cases there.symm.trans there'
    simp only [matched.table, exists_comm (α := String), exists_and_left, exists_eq, and_true]
  · refine identifier?_renamed_of_none (Option.eq_none_iff_forall_ne_some.mpr fun number belongs => ?_)
    rw [(sound.named id number belongs).1] at noReference
    cases noReference
  · obtain ⟨number, found⟩ := Array.mem_iff_getElem?.mp listed
    have site : ∀ id ∈ symbol.sites, (Bindings.of store root).symbolId? id = some number ∧
        store.identifier? (some id) = some symbol.name := sound.sites number symbol found
    cases new : (store.newNames root)[number]? with
    | none =>
      refine .inl fun id member => ?_
      obtain ⟨belongs, spelled⟩ := site id member
      rw [identifier?_respell_of_eq, spelled]
      rw [Store.renamedText, belongs, Option.bind_some, new, Option.getD_none]
    | some word =>
      refine .inr ⟨word, fun id member => ?_, fun id inside =>
        ⟨fun spelled => fresh.new number word new (mem_texts inside spelled), fun spelled => ?_⟩⟩
      · obtain ⟨belongs, spelled⟩ := site id member
        rw [Store.identifier?_respell, spelled, Store.renamedText, belongs, Option.bind_some, new]
        rfl
      · rw [Store.identifier?_respell] at spelled
        obtain ⟨old, before, text⟩ := Option.map_eq_some_iff.mp spelled
        rcases renamedText_cases store root id with ⟨other, _, belongs, named, text'⟩ | ⟨-, text'⟩
        · cases text'.symm.trans text
          cases fresh.apart number other word new named
          obtain ⟨symbol', there, member⟩ := sound.known id number belongs
          cases found.symm.trans there
          exact member
        · rw [text', Store.spelling, before, Option.getD_some] at text
          exact absurd (mem_texts inside (text ▸ before)) (fresh.new number word new)
  · obtain ⟨number, belongs⟩ := Option.isSome_iff_exists.mp some
    obtain ⟨word, new⟩ := given_of_isDeclarationName stands inside declares noCatch belongs
    obtain ⟨symbol, found, site⟩ := sound.known id number belongs
    have spelled := (sound.sites number symbol found id site).2
    rw [Store.identifier?_respell, spelled, Store.renamedText, belongs, Option.bind_some, new]
    intro same
    rw [Option.map_some, Option.getD_some] at same
    exact fresh.new number word new (mem_texts inside (spelled.trans same.symm))

end Renaming

/-- Renaming a program with few enough names changes nothing but names. -/
theorem rename_isRenamed (text : List Char)
    (few : ((parse text).store.texts (parse text).root).dedup.length < 9000) :
    (parse text).store.IsRenamed ((parse text).store.rename (parse text).root).1
      (parse text).root := by
  obtain ⟨tree, stands⟩ := parse_stands text
  exact rename_isRenamed_of_stands stands few

/-- A function with a parameter is renamed, and the name `b` that is not declared stays. -/
theorem function_isRenamed :
    let program := parse "function f(a) { return a + b; }".toList
    (program.store.texts program.root).dedup.length < 9000 ∧
      program.store.IsRenamed (program.store.rename program.root).1 program.root := by
  have few : ((parse "function f(a) { return a + b; }".toList).store.texts
      (parse "function f(a) { return a + b; }".toList).root).dedup.length < 9000 := by decide +kernel
  exact ⟨few, rename_isRenamed _ few⟩

end Unflatten
