import Unflatten.Proofs.Binding.Sites
import Unflatten.Proofs.Syntax.Guarding

/-! # The account of a symbol

A symbol is constant if it is declared once and nothing writes it.  Binding writes the names that
are declared directly below a `for` loop over properties (`Bindings.WritesLoopNames`), and
resolving writes the references that are assigned to.  `Symbol.IsTallied` keeps the account of
both, and the steps of binding keep it up (`Bindings.performAll_tallied`). -/

set_option autoImplicit false

namespace Unflatten

namespace Store

/-- The list of declarations in which an identifier is a name. -/
def declarationList (store : Store) (id : NodeId) : Slot :=
  match store.shape? (store.parent (some id)) with
  | some (.declaration name _) =>
    if name == some id then store.parent (store.parent (some id)) else none
  | _ => none

/-- Whether an identifier is declared directly below a `for` loop over properties. -/
def isLoopName (store : Store) (id : NodeId) : Bool :=
  store.kind? (store.parent (store.declarationList id)) == some .forInStatement

theorem isLoopName_of_parent {store : Store} {id parent : NodeId} {shape : Shape}
    (linked : store.parent (some id) = some parent) (found : store.shape? (some parent) = some shape)
    (other : ∀ name initializer, shape ≠ .declaration name initializer) :
    store.isLoopName id = false := by
  have nowhere : store.declarationList id = none := by
    unfold declarationList
    rw [linked, found]
    split
    · rename_i same
      exact absurd (Option.some.inj same) (other _ _)
    · rfl
  rw [isLoopName, nowhere]
  rfl

theorem isLoopName_of_declaration {store : Store} {id declaration list : NodeId} {initializer : Slot}
    (linked : store.parent (some id) = some declaration)
    (found : store.shape? (some declaration) = some (.declaration (some id) initializer))
    (above : store.parent (some declaration) = some list) :
    store.isLoopName id = (store.kind? (store.parent (some list)) == some .forInStatement) := by
  have listed : store.declarationList id = some list := by
    rw [declarationList, linked, found]
    exact (if_pos (beq_self_eq_true _)).trans above
  rw [isLoopName, listed]

end Store

namespace Bindings

/-! ## The names of loops -/

/-- The step opens, leaves or chooses a scope. -/
def Step.isScoping : Step → Bool
  | .declare _ _ | .write _ => false
  | _ => true

/-- A name that is declared directly below a `for` loop over properties is written at once, and no
other name is. -/
inductive WritesLoopNames (store : Store) : List Step → Prop
  | nil : WritesLoopNames store []
  | scoping {step : Step} {rest : List Step} (scoping : step.isScoping = true)
      (later : WritesLoopNames store rest) : WritesLoopNames store (step :: rest)
  | plain {kind : DeclarationKind} {id : NodeId} {rest : List Step}
      (other : store.isLoopName id = false) (later : WritesLoopNames store rest) :
      WritesLoopNames store (.declare kind id :: rest)
  | loop {kind : DeclarationKind} {id : NodeId} {rest : List Step}
      (named : store.isLoopName id = true) (later : WritesLoopNames store rest) :
      WritesLoopNames store (.declare kind id :: .write id :: rest)

section Names
variable {store : Store} {tree : Tree} {first second : List Step} {slot : Slot}

theorem WritesLoopNames.append (one : WritesLoopNames store first)
    (other : WritesLoopNames store second) : WritesLoopNames store (first ++ second) := by
  induction one with
  | nil => exact other
  | scoping scoping _ ih => exact .scoping scoping ih
  | plain named _ ih => exact .plain named ih
  | loop named _ ih => exact .loop named ih

theorem writesLoopNames_flatMap {steps : Slot → List Step} {slots : List Slot}
    (each : ∀ slot ∈ slots, WritesLoopNames store (steps slot)) :
    WritesLoopNames store (slots.flatMap steps) := by
  induction slots with
  | nil => exact .nil
  | cons slot rest ih =>
    rw [List.flatMap_cons]
    exact (each slot List.mem_cons_self).append (ih fun other member =>
      each other (List.mem_cons_of_mem _ member))

theorem writesLoopNames_declaring (kind : DeclarationKind)
    (other : ∀ id, slot = some id → store.isLoopName id = false) :
    WritesLoopNames store (declaring kind slot) := by
  cases slot with
  | none => exact .nil
  | some id => exact .plain (other id rfl) .nil

/-- The steps for one declarator of a list. -/
theorem writesLoopNames_declarator (holds : store.Holds tree) {list : NodeId}
    (inside : list ∈ tree.names) {isStatement : Bool} {declarations : List Slot}
    (found : store.shape? (some list) = some (.declarationList isStatement declarations))
    {declaration : Slot} (listed : declaration ∈ declarations) (kind : DeclarationKind) {depth : Nat}
    (deeper : ∀ slot, (∀ id, slot = some id → id ∈ tree.names) →
      WritesLoopNames store (script store depth slot)) :
    WritesLoopNames store (declaratorSteps store kind
      (store.kind? (store.parent (some list)) == some .forInStatement) (script store depth)
      declaration) := by
  unfold declaratorSteps
  split
  swap
  · exact .nil
  rename_i name initializer shaped
  cases declaration with
  | none => cases shaped
  | some declarator =>
    obtain ⟨there, above⟩ := holds.slot_mem inside found listed
    refine .append ?_ (deeper initializer fun id same =>
      (holds.slot_mem there shaped (by simp [Shape.slots, same])).1)
    cases name with
    | none =>
      split
      · exact .nil
      · exact .nil
    | some id =>
      have linked := (holds.slot_mem there shaped
        (List.mem_cons_self : some id ∈ Shape.slots (.declaration (some id) initializer))).2
      have named := Store.isLoopName_of_declaration linked shaped above
      split
      · rename_i head
        exact .loop (named.trans head) .nil
      · rename_i head
        exact .plain (named.trans (Bool.eq_false_iff.mpr head)) .nil

/-- The statements of a node of a tree are in the tree. -/
theorem inside_statements (holds : store.Holds tree) (inside : ∀ id, slot = some id → id ∈ tree.names)
    {child : NodeId} (listed : some child ∈ (store.statements? slot).getD []) : child ∈ tree.names := by
  cases has : store.statements? slot with
  | none =>
    rw [has] at listed
    cases listed
  | some statements =>
    rw [has] at listed
    obtain ⟨shape, found, are⟩ := Option.bind_eq_some_iff.mp has
    cases slot with
    | none => cases found
    | some id => exact (holds.slot_mem (inside id rfl) found (Shape.statements?_subset are listed)).1

/-- The steps for the statements of a body. -/
theorem writesLoopNames_statements (holds : store.Holds tree)
    (inside : ∀ id, slot = some id → id ∈ tree.names) {depth : Nat}
    (deeper : ∀ slot, (∀ id, slot = some id → id ∈ tree.names) →
      WritesLoopNames store (script store depth slot)) :
    WritesLoopNames store (((store.statements? slot).getD []).flatMap (script store depth)) :=
  writesLoopNames_flatMap fun statement listed => deeper statement fun _ same =>
    inside_statements holds inside (same ▸ listed)

/-- A name that stands in another place than a declaration is not that of a loop. -/
theorem writesLoopNames_elsewhere (holds : store.Holds tree) {id : NodeId} (inside : id ∈ tree.names)
    {shape : Shape} (found : store.shape? (some id) = some shape)
    (other : ∀ name initializer, shape ≠ .declaration name initializer) (kind : DeclarationKind)
    (listed : slot ∈ shape.slots) : WritesLoopNames store (declaring kind slot) :=
  writesLoopNames_declaring kind fun _ same =>
    Store.isLoopName_of_parent (holds.slot_mem inside found (same ▸ listed)).2 found other

/-- The steps for the names below a node of a tree. -/
theorem writesLoopNames_script (holds : store.Holds tree) (depth : Nat) (slot : Slot)
    (inside : ∀ id, slot = some id → id ∈ tree.names) :
    WritesLoopNames store (script store depth slot) := by
  induction depth generalizing slot with
  | zero => exact .nil
  | succ depth ih =>
    cases slot with
    | none => exact .nil
    | some id =>
    cases found : store.node? (some id) with
    | none =>
      simp only [script, found]
      exact .nil
    | some node =>
    obtain ⟨shape, flags, start, stop, parent⟩ := node
    have here := inside id rfl
    have shaped : store.shape? (some id) = some shape := by rw [Store.shape?, found]; rfl
    have above : store.parent (some id) = parent := by rw [Store.parent, found]; rfl
    have slotted : ∀ slot ∈ shape.slots, WritesLoopNames store (script store depth slot) :=
      fun slot listed => ih slot fun child same => (holds.slot_mem here shaped (same ▸ listed)).1
    have below : WritesLoopNames store ((shape.children.map some).flatMap (script store depth)) := by
      refine writesLoopNames_flatMap fun slot listed => ?_
      obtain ⟨child, member, rfl⟩ := List.mem_map.mp listed
      exact slotted _ (Shape.some_mem_slots_of_mem_children member)
    have opened : ∀ kind, WritesLoopNames store
        (.enter kind id :: ((shape.children.map some).flatMap (script store depth) ++ [.leave])) :=
      fun kind => .scoping rfl (below.append (.scoping rfl .nil))
    cases shape
    case function isExpression name parameters body =>
      have declares : ∀ kind slot, slot ∈ name :: (parameters ++ [body]) →
          WritesLoopNames store (declaring kind slot) := fun kind slot listed =>
        writesLoopNames_elsewhere holds here shaped (fun _ _ same => by cases same) kind listed
      have named := declares .function name List.mem_cons_self
      have inside : ∀ block, body = some block → block ∈ tree.names := fun block same =>
        (holds.slot_mem here shaped (by simp [Shape.slots, same])).1
      have statements := writesLoopNames_statements holds inside ih
      have rest : WritesLoopNames store (parameters.flatMap (declaring .parameter) ++
          (.dismiss :: (((store.statements? body).getD []).flatMap (script store depth) ++ [.leave]))) :=
        (writesLoopNames_flatMap fun parameter listed => declares _ parameter (by simp [listed])).append
          (.scoping rfl (statements.append (.scoping rfl .nil)))
      simp only [script, found]
      cases isExpression with
      | true => exact .scoping rfl (.scoping rfl (named.append rest))
      | false =>
        exact .append (.scoping rfl (named.append (.scoping rfl .nil)))
          (.scoping rfl (.scoping rfl rest))
    case declarationList isStatement declarations =>
      simp only [script, found]
      refine .scoping rfl (.append (writesLoopNames_flatMap fun declaration listed => ?_)
        (.scoping rfl .nil))
      rw [← above]
      exact writesLoopNames_declarator holds here shaped listed _ ih
    case catchClause name body =>
      simp only [script, found]
      have named := writesLoopNames_elsewhere holds here shaped (fun _ _ same => by cases same)
        .catchVariable (List.mem_cons_self : name ∈ _)
      exact .scoping rfl (.scoping rfl (named.append
        (.scoping rfl ((slotted body (by simp [Shape.slots])).append (.scoping rfl .nil)))))
    case block => simpa only [script, found] using opened .block
    case forIn => simpa only [script, found] using opened .block
    case switch => simpa only [script, found] using opened .block
    case loop kind _ _ _ _ =>
      cases kind
      case forLoop => simpa only [script, found] using opened .block
      all_goals simpa only [script, found] using below
    all_goals simpa only [script, found] using below

end Names

end Bindings

/-! ## The account of a symbol -/

/-- The sites of a symbol are different ones, and it is constant if it is declared once and nothing
violates that.  What violates it are the references that are assigned to and the names of loops
among the declarations, except for a site that is not accounted for as yet. -/
structure Symbol.IsTallied (store : Store) (pending : Option NodeId) (symbol : Symbol) : Prop where
  declared : symbol.declarations ≠ #[]
  once : symbol.sites.Nodup
  constant : symbol.isConstant = true ↔ symbol.declarations.size = 1 ∧ symbol.violations = #[]
  violated : ∀ id, id ∈ symbol.violations ↔ pending ≠ some id ∧
    (id ∈ symbol.references ∧ store.isWrite id = true ∨
      id ∈ symbol.declarations ∧ store.isLoopName id = true)

namespace Symbol
variable {store : Store} {symbol : Symbol} {id : NodeId}

theorem mem_sites : id ∈ symbol.sites ↔ id ∈ symbol.declarations ∨ id ∈ symbol.references := by
  rw [sites, List.mem_append, Array.mem_toList_iff, Array.mem_toList_iff]

/-- The site that is not accounted for may be any that the symbol does not have. -/
theorem IsTallied.awaiting (tallied : symbol.IsTallied store none) (outside : id ∉ symbol.sites) :
    symbol.IsTallied store (some id) := by
  refine ⟨tallied.declared, tallied.once, tallied.constant, fun other => ?_⟩
  rw [tallied.violated]
  refine and_congr_left fun site => iff_of_true nofun ?_
  rintro ⟨⟩
  exact outside (mem_sites.mpr (site.elim (fun refers => .inr refers.1) fun declares => .inl declares.1))

/-- A site that writes nothing needs no account. -/
theorem IsTallied.pass (tallied : symbol.IsTallied store (some id))
    (reads : id ∈ symbol.references → store.isWrite id = false)
    (plain : id ∈ symbol.declarations → store.isLoopName id = false) :
    symbol.IsTallied store none := by
  refine ⟨tallied.declared, tallied.once, tallied.constant, fun other => ?_⟩
  rw [tallied.violated]
  refine and_congr_left fun site => iff_of_true ?_ nofun
  rintro ⟨⟩
  rcases site with ⟨refers, writes⟩ | ⟨declares, loop⟩
  · exact Bool.noConfusion ((reads refers).symm.trans writes)
  · exact Bool.noConfusion ((plain declares).symm.trans loop)

theorem IsTallied.pass_of_outside (tallied : symbol.IsTallied store (some id))
    (outside : id ∉ symbol.sites) : symbol.IsTallied store none :=
  tallied.pass (fun refers => absurd (mem_sites.mpr (.inr refers)) outside)
    fun declares => absurd (mem_sites.mpr (.inl declares)) outside

/-- A site that writes is accounted for. -/
theorem IsTallied.write (tallied : symbol.IsTallied store (some id))
    (site : id ∈ symbol.references ∧ store.isWrite id = true ∨
      id ∈ symbol.declarations ∧ store.isLoopName id = true) :
    IsTallied store none
      { symbol with isConstant := false, violations := symbol.violations.push id } := by
  refine ⟨tallied.declared, tallied.once, iff_of_false nofun fun single => ?_, fun other => ?_⟩
  · exact Array.push_ne_empty single.2
  · rw [Array.mem_push, tallied.violated]
    constructor
    · rintro (⟨-, old⟩ | rfl)
      · exact ⟨nofun, old⟩
      · exact ⟨nofun, site⟩
    · rintro ⟨-, written⟩
      by_cases same : other = id
      · exact .inr same
      · exact .inl ⟨fun pending => same (Option.some.inj pending).symm, written⟩

/-- A symbol begins with one declaration. -/
theorem isTallied_first (name : String) (marks : Nat) (scope : ScopeId) :
    IsTallied store (some id) ⟨name, marks, scope, #[id], #[], #[], true⟩ := by
  refine ⟨?_, List.nodup_singleton id, iff_of_true rfl ⟨rfl, rfl⟩, fun other => ?_⟩
  · exact fun empty => nomatch congrArg Array.size empty
  refine iff_of_false (Array.not_mem_empty _) ?_
  rintro ⟨apart, ⟨refers, -⟩ | ⟨declares, -⟩⟩
  · exact Array.not_mem_empty _ refers
  · exact apart (congrArg some (Array.mem_singleton.mp declares).symm)

/-- A symbol is declared again. -/
theorem IsTallied.declare (tallied : symbol.IsTallied store none) (outside : id ∉ symbol.sites)
    (marks : Nat) : IsTallied store (some id)
      { symbol with
        marks := marks
        isConstant := false
        declarations := symbol.declarations.push id } := by
  have awaiting := tallied.awaiting outside
  refine ⟨Array.push_ne_empty, ?_, iff_of_false nofun fun single => ?_, fun other => ?_⟩
  · simp only [sites, Array.toList_push, List.append_assoc, List.singleton_append]
    exact List.nodup_middle.mpr (List.nodup_cons.mpr ⟨outside, tallied.once⟩)
  · rw [Array.size_push] at single
    exact tallied.declared (Array.eq_empty_of_size_eq_zero (Nat.succ.inj single.1))
  · rw [awaiting.violated, Array.mem_push]
    refine and_congr_right fun apart => or_congr_right (and_congr_left fun _ => ?_)
    exact (or_iff_left fun same => apart (congrArg some same.symm)).symm

/-- A symbol is referred to. -/
theorem IsTallied.refer (tallied : symbol.IsTallied store none) (outside : id ∉ symbol.sites) :
    IsTallied store (some id) { symbol with references := symbol.references.push id } := by
  have awaiting := tallied.awaiting outside
  refine ⟨tallied.declared, ?_, tallied.constant, fun other => ?_⟩
  · simp only [sites, Array.toList_push, ← List.append_assoc]
    exact List.nodup_append_comm.mp (List.nodup_cons.mpr ⟨outside, tallied.once⟩)
  · rw [awaiting.violated, Array.mem_push]
    refine and_congr_right fun apart => or_congr_left (and_congr_left fun _ => ?_)
    exact (or_iff_left fun same => apart (congrArg some same.symm)).symm

end Symbol

namespace Bindings

/-- All symbols have a property. -/
def All (property : Symbol → Prop) (bindings : Bindings) : Prop :=
  ∀ (number : SymbolId) (symbol : Symbol), bindings.symbols[number]? = some symbol → property symbol

section Tallying
variable {store : Store} {within : List NodeId} {bindings : Bindings} {id : NodeId}
  {before after : Symbol → Prop} {steps : List Step}

theorem All.imp (all : bindings.All before)
    (each : ∀ (number : SymbolId) (symbol : Symbol), bindings.symbols[number]? = some symbol →
      before symbol → after symbol) : bindings.All after :=
  fun number symbol found => each number symbol found (all number symbol found)

/-- One symbol changes. -/
theorem All.modify (all : bindings.All before) {number : SymbolId} {change : Symbol → Symbol}
    (here : ∀ symbol, bindings.symbols[number]? = some symbol → before symbol → after (change symbol))
    (elsewhere : ∀ (place : SymbolId) (symbol : Symbol), place ≠ number →
      bindings.symbols[place]? = some symbol → before symbol → after symbol) :
    All after { bindings with symbols := bindings.symbols.modify number change } := by
  intro place symbol found
  rw [Array.getElem?_modify] at found
  split at found
  · rename_i same
    subst same
    obtain ⟨old, there, rfl⟩ := Option.map_eq_some_iff.mp found
    exact here old there (all _ old there)
  · rename_i apart
    exact elsewhere place symbol (Ne.symm apart) found (all place symbol found)

/-- A write changes only the violations of a symbol and whether it is constant. -/
theorem All.noteWrite (all : bindings.All before)
    (same : ∀ (symbol : Symbol) (violations : Array NodeId), before symbol →
      before { symbol with isConstant := false, violations := violations }) :
    (bindings.noteWrite id).All before := by
  unfold Bindings.noteWrite
  split
  · exact all
  · exact all.modify (fun symbol _ => same symbol _) fun _ _ _ _ holds => holds

/-- An identifier without a symbol is no site. -/
theorem IsSound.outside (sound : bindings.IsSound store within) (free : bindings.symbolId? id = none)
    {number : SymbolId} {symbol : Symbol} (found : bindings.symbols[number]? = some symbol) :
    id ∉ symbol.sites := by
  intro site
  rw [(sound.sites number symbol found id site).1] at free
  cases free

/-- An identifier is a site of its own symbol only. -/
theorem IsSound.elsewhere (sound : bindings.IsSound store within) {number place : SymbolId}
    {symbol : Symbol} (belongs : bindings.symbolId? id = some number) (apart : place ≠ number)
    (found : bindings.symbols[place]? = some symbol) : id ∉ symbol.sites := fun site =>
  apart (Option.some.inj ((sound.sites place symbol found id site).1.symm.trans belongs))

/-- A name is declared. -/
theorem tallied_declare (sound : bindings.IsSound store within)
    (all : bindings.All (Symbol.IsTallied store none)) (free : bindings.symbolId? id = none)
    (scope? : Option ScopeId) (name : String) (kind : DeclarationKind) :
    (bindings.declare scope? name kind id).All (Symbol.IsTallied store (some id)) := by
  have awaiting : ∀ (number : SymbolId) (symbol : Symbol), bindings.symbols[number]? = some symbol →
      symbol.IsTallied store none → symbol.IsTallied store (some id) :=
    fun _ _ found tallied => tallied.awaiting (sound.outside free found)
  unfold Bindings.declare
  split
  · exact all.imp awaiting
  split
  · exact All.modify all (fun symbol found tallied => tallied.declare (sound.outside free found) _)
      fun place symbol _ found => awaiting place symbol found
  · intro number symbol found
    rw [Array.getElem?_push] at found
    split at found
    · cases found
      exact Symbol.isTallied_first ..
    · exact awaiting number symbol found (all number symbol found)

/-- A site writes its symbol. -/
theorem tallied_noteWrite (sound : bindings.IsSound store within)
    (all : bindings.All (Symbol.IsTallied store (some id)))
    (site : bindings.All fun symbol => id ∈ symbol.sites →
      id ∈ symbol.references ∧ store.isWrite id = true ∨
        id ∈ symbol.declarations ∧ store.isLoopName id = true) :
    (bindings.noteWrite id).All (Symbol.IsTallied store none) := by
  unfold Bindings.noteWrite
  split
  · rename_i free
    exact all.imp fun number symbol found tallied => tallied.pass_of_outside (sound.outside free found)
  · rename_i number belongs
    refine All.modify all (fun symbol found tallied => tallied.write (site number symbol found ?_))
      fun place symbol apart found tallied =>
        tallied.pass_of_outside (sound.elsewhere belongs apart found)
    obtain ⟨other, there, member⟩ := sound.known id number belongs
    rw [found] at there
    cases there
    exact member

/-! ## Declaring -/

theorem unread_perform (store : Store) (progress : Progress) (step : Step)
    (unread : progress.1.All fun symbol => symbol.references = #[]) :
    (perform store progress step).1.All fun symbol => symbol.references = #[] := by
  cases step with
  | enter | leave | choose | dismiss => exact unread
  | declare kind id =>
    simp only [perform, declareIdentifier]
    split
    swap
    · exact unread
    unfold Bindings.declare
    split
    · exact unread
    split
    · exact unread.modify (fun _ _ same => same) fun _ _ _ _ same => same
    · intro number symbol found
      rw [Array.getElem?_push] at found
      split at found
      · cases found
        rfl
      · exact unread number symbol found
  | write id =>
    simp only [perform]
    split
    swap
    · exact unread
    exact unread.noteWrite fun _ _ same => same

theorem symbols_perform_of_isScoping (progress : Progress) {step : Step}
    (scoping : step.isScoping = true) :
    (perform store progress step).1.symbols = progress.1.symbols := by
  cases step with
  | enter | leave | choose | dismiss => rfl
  | declare | write => cases scoping

/-- A step that declares a name leaves only this name to be accounted for. -/
theorem tallied_perform_declare {progress : Progress} (kind : DeclarationKind)
    (sound : progress.1.IsSound store within) (all : progress.1.All (Symbol.IsTallied store none))
    (free : progress.1.symbolId? id = none) :
    (perform store progress (.declare kind id)).1.All (Symbol.IsTallied store (some id)) := by
  simp only [perform, declareIdentifier]
  split
  · rename_i same _
    cases same
    exact tallied_declare sound all free _ _ _
  · exact all.imp fun number symbol found tallied => tallied.awaiting (sound.outside free found)

/-- The step that writes the name of a loop accounts for it. -/
theorem tallied_perform_write {progress : Progress} (sound : progress.1.IsSound store within)
    (all : progress.1.All (Symbol.IsTallied store (some id)))
    (unread : progress.1.All fun symbol => symbol.references = #[])
    (named : store.isLoopName id = true) :
    (perform store progress (.write id)).1.All (Symbol.IsTallied store none) := by
  simp only [perform]
  split
  · refine tallied_noteWrite sound all fun number symbol found site => .inr ⟨?_, named⟩
    refine (Symbol.mem_sites.mp site).resolve_right fun refers => ?_
    rw [unread number symbol found] at refers
    exact Array.not_mem_empty _ refers
  · rename_i bare
    refine all.imp fun number symbol found tallied => tallied.pass_of_outside fun site => bare ?_
    rw [(sound.sites number symbol found id site).2]
    rfl

/-- All symbols are accounted for by the steps of binding. -/
theorem performAll_tallied (progress : Progress) (writes : WritesLoopNames store steps)
    (sound : progress.1.IsSound store within) (awaits : Awaits store within progress.1 steps)
    (all : progress.1.All (Symbol.IsTallied store none))
    (unread : progress.1.All fun symbol => symbol.references = #[]) :
    (performAll store progress steps).1.All (Symbol.IsTallied store none) ∧
      (performAll store progress steps).1.All fun symbol => symbol.references = #[] := by
  induction writes generalizing progress with
  | nil => exact ⟨all, unread⟩
  | @scoping step rest scoping _ ih =>
    obtain ⟨stays, -, remains⟩ := perform_sound progress.2 sound awaits
    refine ih _ stays remains (fun number symbol found => ?_) (unread_perform store progress step unread)
    rw [symbols_perform_of_isScoping progress scoping] at found
    exact all number symbol found
  | @plain kind id rest other _ ih =>
    obtain ⟨stays, -, remains⟩ := perform_sound progress.2 sound awaits
    have still := unread_perform store progress (.declare kind id) unread
    have free := awaits.free id List.mem_cons_self
    refine ih _ stays remains ?_ still
    refine (tallied_perform_declare kind sound all free).imp fun number symbol found tallied => ?_
    exact tallied.pass (fun refers => by
      rw [still number symbol found] at refers
      exact absurd refers (Array.not_mem_empty _)) fun _ => other
  | @loop kind id rest named _ ih =>
    obtain ⟨stays, -, remains⟩ := perform_sound progress.2 sound awaits
    obtain ⟨stays', -, remains'⟩ :=
      perform_sound (perform store progress (.declare kind id)).2 stays remains
    have still := unread_perform store progress (.declare kind id) unread
    have free := awaits.free id List.mem_cons_self
    have tallied := tallied_perform_declare kind sound all free
    exact ih _ stays' remains' (tallied_perform_write stays tallied still named)
      (unread_perform store _ (.write id) still)

end Tallying

end Bindings

end Unflatten
