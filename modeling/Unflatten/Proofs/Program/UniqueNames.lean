import Unflatten.Proofs.Binding.Resolving
import Unflatten.Proofs.Program.Renaming

/-! # Names of their own

Renaming gives a new name to each symbol that a function or a declaration names
(`newNames_or_isCaught`).  New names are different ones and no texts of the tree, so no two symbols of
a renamed program have the same name, and none has that of an unresolved reference, but for the
symbols of `catch` clauses, which keep their names (`rename_namesApart`). -/

set_option autoImplicit false

namespace Unflatten

open Bindings

/-- A symbol is declared by `catch` clauses alone. -/
def Store.IsCaught (store : Store) (symbol : Symbol) : Prop :=
  symbol.declarations ≠ #[] ∧
    ∀ id ∈ symbol.declarations, store.kind? (store.parent (some id)) = some .catchClause

/-- Symbols have names of their own, but for those of `catch` clauses. -/
structure Bindings.NamesApart (store : Store) (bindings : Bindings) : Prop where
  symbols : ∀ (first second : SymbolId) (one other : Symbol),
    bindings.symbols[first]? = some one → bindings.symbols[second]? = some other →
      one.name = other.name → first = second ∨ store.IsCaught one ∧ store.IsCaught other
  unresolved : ∀ id ∈ bindings.unresolved, bindings.All fun symbol =>
    store.identifier? (some id) = some symbol.name → store.IsCaught symbol

section Apart
variable {store : Store} {root id : NodeId} {tree : Tree} {number : SymbolId} {symbol : Symbol}

/-- What stays unresolved is one of the identifiers that are resolved. -/
theorem mem_of_unresolved_foldl {bindings : Bindings} {ids : List NodeId}
    (member : id ∈ (ids.foldl (resolve store) bindings).unresolved) :
    id ∈ bindings.unresolved ∨ id ∈ ids := by
  induction ids generalizing bindings with
  | nil => exact .inl member
  | cons first rest ih =>
    rcases ih member with before | later
    · rcases mem_unresolved_resolve before with old | ⟨rfl, -⟩
      · exact .inl old
      · exact .inr List.mem_cons_self
    · exact .inr (List.mem_cons_of_mem _ later)

theorem unresolved_mem_descendants (member : id ∈ (of store root).unresolved) :
    id ∈ store.descendants (some root) := by
  rw [of_eq] at member
  refine (mem_of_unresolved_foldl member).resolve_left fun before => ?_
  rw [unresolved_performAll] at before
  exact absurd before (Array.not_mem_empty id)

theorem name_mem_texts (stands : store.Stands root tree)
    (found : (of store root).symbols[number]? = some symbol) : symbol.name ∈ store.texts root := by
  have sound := of_sound stands
  obtain ⟨site, member⟩ := List.exists_mem_of_ne_nil _ (sound.sited number symbol found)
  obtain ⟨belongs, spelled⟩ := sound.sites number symbol found site member
  exact mem_texts (sound.named site number belongs).2 spelled

/-- A symbol gets a new name, or it is one of `catch` clauses. -/
theorem newNames_or_isCaught (proper : store.IsProperIn tree) (stands : store.Stands root tree)
    (found : (of store root).symbols[number]? = some symbol) :
    (∃ word, (store.newNames root)[number]? = some word) ∨ store.IsCaught symbol := by
  have sound := of_sound stands
  refine or_iff_not_imp_left.mpr fun unnamed =>
    ⟨((of_resolved stands).tallied number symbol found).declared, fun id declares => ?_⟩
  have named := (of_records proper stands).isDeclarationName stands found declares
  have belongs := (sound.sites number symbol found id (Symbol.mem_sites.mpr (.inl declares))).1
  by_contra noCatch
  exact unnamed (given_of_isDeclarationName stands (sound.named id number belongs).2 named noCatch belongs)

theorem renamedSymbol_cases (proper : store.IsProperIn tree) (stands : store.Stands root tree)
    (found : (of store root).symbols[number]? = some symbol) :
    (store.newNames root)[number]? = some (store.renamedSymbol root number) ∨
      store.IsCaught symbol ∧ store.renamedSymbol root number = symbol.name := by
  rw [Store.renamedSymbol]
  cases named : (store.newNames root)[number]? with
  | some word => exact .inl rfl
  | none =>
    refine .inr ⟨(newNames_or_isCaught proper stands found).resolve_left fun new => ?_, ?_⟩
    · obtain ⟨word, given⟩ := new
      rw [named] at given
      cases given
    · rw [found]
      rfl

/-- Only symbols of `catch` clauses are called alike after renaming. -/
theorem renamedSymbol_apart (proper : store.IsProperIn tree) (stands : store.Stands root tree)
    (few : (store.texts root).dedup.length < 9000) {other : SymbolId} {symbol' : Symbol}
    (found : (of store root).symbols[number]? = some symbol)
    (found' : (of store root).symbols[other]? = some symbol')
    (same : store.renamedSymbol root number = store.renamedSymbol root other) :
    number = other ∨ store.IsCaught symbol ∧ store.IsCaught symbol' := by
  have fresh := Naming.of_isFresh (of store root) few
  -- new names differ from each other and from all texts, and only `catch` clauses keep theirs
  rcases renamedSymbol_cases proper stands found with new | ⟨caught, kept⟩ <;>
    rcases renamedSymbol_cases proper stands found' with new' | ⟨caught', kept'⟩
  · exact .inl (fresh.apart number other _ new (same ▸ new'))
  · rw [same, kept'] at new
    exact absurd (name_mem_texts stands found') (fresh.new number _ new)
  · rw [← same, kept] at new'
    exact absurd (name_mem_texts stands found) (fresh.new other _ new')
  · exact .inr ⟨caught, caught'⟩

theorem rename_namesApart_of_stands (proper : store.IsProperIn tree) (stands : store.Stands root tree)
    (few : (store.texts root).dedup.length < 9000) :
    (of (store.rename root).1 root).NamesApart (store.rename root).1 := by
  have same := of_matches stands (renames stands few)
  rw [rename_eq stands]
  -- the symbols are those from before under their new names
  have origin : ∀ (number : SymbolId) (new : Symbol),
      (of (store.respell (store.renamedText root)) root).symbols[number]? = some new → ∃ symbol,
        (of store root).symbols[number]? = some symbol ∧ new.name = store.renamedSymbol root number ∧
          (store.IsCaught symbol → (store.respell (store.renamedText root)).IsCaught new) := by
    intro number new found
    rw [same.symbols, Array.getElem?_mapIdx] at found
    obtain ⟨symbol, there, rfl⟩ := Option.map_eq_some_iff.mp found
    refine ⟨symbol, there, rfl, fun caught => ⟨caught.1, fun id declares => ?_⟩⟩
    rw [Store.parent_respell, Store.kind?_respell]
    exact caught.2 id declares
  refine ⟨fun first second one other found found' called => ?_, fun id member number new found spelled => ?_⟩
  · obtain ⟨symbol, there, name, caught⟩ := origin first one found
    obtain ⟨symbol', there', name', caught'⟩ := origin second other found'
    exact (renamedSymbol_apart proper stands few there there' (name ▸ name' ▸ called)).imp_right
      fun both => ⟨caught both.1, caught' both.2⟩
  · obtain ⟨symbol, there, name, caught⟩ := origin number new found
    rw [same.unresolved] at member
    rw [identifier?_renamed_of_none (of_unresolved stands id member), name] at spelled
    rcases renamedSymbol_cases proper stands there with given | ⟨isCaught, -⟩
    · have text := mem_texts (unresolved_mem_descendants member) spelled
      exact absurd text ((Naming.of_isFresh (of store root) few).new number _ given)
    · exact caught isCaught

end Apart

/-- The symbols of a renamed program have names of their own, but for those of `catch` clauses, if
the program has few enough names. -/
theorem rename_namesApart (text : List Char)
    (few : ((parse text).store.texts (parse text).root).dedup.length < 9000) :
    (of ((parse text).store.rename (parse text).root).1 (parse text).root).NamesApart
      ((parse text).store.rename (parse text).root).1 := by
  obtain ⟨tree, stands⟩ := parse_stands text
  exact rename_namesApart_of_stands ((parse_isProper text).isProperIn _) stands few

/-- Two functions that each declare a variable of the same name. -/
theorem shadowing_namesApart :
    let program := parse "var a; function f() { var a; b; }".toList
    (program.store.texts program.root).dedup.length < 9000 ∧
      (of (program.store.rename program.root).1 program.root).NamesApart
        (program.store.rename program.root).1 := by
  have few : ((parse "var a; function f() { var a; b; }".toList).store.texts
      (parse "var a; function f() { var a; b; }".toList).root).dedup.length < 9000 := by decide +kernel
  exact ⟨few, rename_namesApart _ few⟩

/-- Two `catch` clauses keep the name that they share. -/
theorem caught_names_shared :
    let program := parse "try { } catch (e) { } try { } catch (e) { }".toList
    ¬((of (program.store.rename program.root).1 program.root).symbols.toList.map (·.name)).Nodup := by
  decide +kernel

end Unflatten
