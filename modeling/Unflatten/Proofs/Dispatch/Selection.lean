import Unflatten.Dispatch.Expansion
import Unflatten.Proofs.Evaluation.Denotation
import Unflatten.Proofs.Execution.Leaving

/-! # What a value selects

Expansion runs every value of the key through the prelude and the discriminant.  `Denotes`
and `Binds` say what comes of that without naming a store.  A world `Knows` a value if it
decides each discriminant and each label as expansion does; a `switch` then starts at the
clause that expansion gives to the value. -/

set_option autoImplicit false

namespace Unflatten

open Execution

namespace Expansion

/-- An expression has a whole number as its value, wherever it stands. -/
def Denotes (environment : Environment) (tree : Tree) (value : Int) : Prop :=
  ∃ store : Store, store.Holds tree ∧ evaluateKey store environment tree.root = .ok value

/-- A prelude binds names for a value of the key, on top of what was bound before. -/
def Binds (key : String) (prelude : Tree) (value : Int) (before after : Environment) : Prop :=
  ∃ store : Store, store.Holds prelude ∧
    (Origin.mk key prelude.root).environment store before value = .ok after

/-- What may be bound while values are run through a prelude one after the other. -/
inductive Reaches (key : String) (prelude : Tree) (values : List Int) : Environment → Prop
  | start : Reaches key prelude values []
  | next {value : Int} {before after : Environment} : value ∈ values →
      Reaches key prelude values before → Binds key prelude value before after →
      Reaches key prelude values after

/-- A clause that a value selects by its label. -/
def Matches (value : Int) (clause : Tree) : Prop :=
  ∃ id slot slots label body, clause = .node id (.clause false slot slots) (label :: body) ∧
    Denotes [] label value

/-- A default clause. -/
def IsDefaultClause (clause : Tree) : Prop :=
  ∃ id slot slots label body, clause = .node id (.clause true slot slots) (label :: body)

section Values
variable {store : Store} {tree prelude : Tree} {environment before after : Environment}
  {key : String} {value other : Int}

theorem Denotes.evaluateKey (denotes : Denotes environment tree value) (holds : store.Holds tree) :
    evaluateKey store environment tree.root = .ok value := by
  obtain ⟨other, held, evaluated⟩ := denotes
  rw [← evaluated]
  exact Store.evaluateKey_eq holds held environment

theorem Denotes.unique (denotes : Denotes environment tree value)
    (also : Denotes environment tree other) : value = other := by
  obtain ⟨store, held, evaluated⟩ := also
  exact Except.ok.inj ((denotes.evaluateKey held).symm.trans evaluated)

theorem Matches.unique {clause : Tree} (here : Matches value clause) (also : Matches other clause) :
    value = other := by
  obtain ⟨id, slot, slots, label, body, rfl, denotes⟩ := here
  obtain ⟨id', slot', slots', label', body', same, denotes'⟩ := also
  cases same
  exact denotes.unique denotes'

theorem Matches.not_default {clause : Tree} (here : Matches value clause) :
    ¬ IsDefaultClause clause := by
  obtain ⟨id, slot, slots, label, body, rfl, _⟩ := here
  rintro ⟨id', slot', slots', label', body', same⟩
  cases same

theorem Matches.isClause {clause : Tree} (here : Matches value clause) : clause.IsClause := by
  obtain ⟨id, slot, slots, label, body, rfl, _⟩ := here
  exact ⟨false, slot, slots, rfl⟩

theorem IsDefaultClause.isClause {clause : Tree} (here : IsDefaultClause clause) :
    clause.IsClause := by
  obtain ⟨id, slot, slots, label, body, rfl⟩ := here
  exact ⟨true, slot, slots, rfl⟩

theorem Reaches.mono {values more : List Int} (reaches : Reaches key prelude values environment)
    (within : values ⊆ more) : Reaches key prelude more environment := by
  induction reaches with
  | start => exact .start
  | next member _ binds ih => exact .next (within member) ih binds

/-- A value of the key is run through the prelude and a discriminant. -/
def Selects (key : String) (prelude discriminant : Tree) (values : List Int) (value selector : Int) :
    Prop :=
  ∃ before after, Reaches key prelude values before ∧ Binds key prelude value before after ∧
    Denotes after discriminant selector

/-- Every value has one selector. -/
theorem selectors_spec {discriminant : Tree} {all values : List Int} {pairs : List (Int × Int)}
    (holds : store.Holds discriminant) (held : store.Holds prelude) (within : values ⊆ all)
    (reaches : Reaches key prelude all environment)
    (found : selectors store ⟨key, prelude.root⟩ discriminant.root values environment = .ok pairs) :
    pairs.map Prod.snd = values ∧
      ∀ pair ∈ pairs, Selects key prelude discriminant all pair.2 pair.1 := by
  induction values generalizing environment pairs with
  | nil =>
    cases found
    exact ⟨rfl, by simp⟩
  | cons value rest ih =>
    rw [selectors] at found
    cases bound : (Origin.mk key prelude.root).environment store environment value with
    | error cause =>
      rw [bound] at found
      cases found
    | ok after =>
      cases evaluated : evaluateKey store after discriminant.root with
      | error cause =>
        simp only [bound, evaluated, bind, Except.bind] at found
        cases found
      | ok selector =>
        cases others : selectors store ⟨key, prelude.root⟩ discriminant.root rest after with
        | error cause =>
          simp only [bound, evaluated, others, bind, Except.bind] at found
          cases found
        | ok pairs' =>
          simp only [bound, evaluated, others, bind, Except.bind, pure, Except.pure] at found
          cases found
          have binds : Binds key prelude value environment after := ⟨store, held, bound⟩
          have inside : value ∈ all := within List.mem_cons_self
          obtain ⟨same, each⟩ := ih (fun other member => within (List.mem_cons_of_mem value member))
            (.next inside reaches binds) others
          refine ⟨by rw [List.map_cons, same], fun pair member => ?_⟩
          rcases List.mem_cons.mp member with rfl | later
          · exact ⟨environment, after, reaches, binds, store, holds, evaluated⟩
          · exact each pair later

/-- The values of a bucket are those with its selector, in order. -/
theorem gather_spec (pairs : List (Int × Int)) (selector : Int) :
    ((gather pairs)[selector]?).getD [] =
        (pairs.filter fun pair => pair.1 == selector).map Prod.snd ∧
      ((gather pairs)[selector]? = none ↔ ∀ pair ∈ pairs, pair.1 ≠ selector) := by
  induction pairs with
  | nil =>
    have empty : (gather [])[selector]? = none := Std.TreeMap.getElem?_emptyc
    rw [empty]
    exact ⟨rfl, by simp⟩
  | cons pair rest ih =>
    obtain ⟨first, value⟩ := pair
    have step : gather ((first, value) :: rest) =
        (gather rest).insert first (value :: ((gather rest)[first]?).getD []) := rfl
    rw [step, Std.TreeMap.getElem?_insert]
    by_cases same : first = selector
    · subst same
      have equal : compare first first = .eq := compare_eq_iff_eq.mpr rfl
      rw [if_pos equal, ih.1]
      refine ⟨by simp, ?_⟩
      simp
    · have other : ¬ compare first selector = .eq := fun equal => same (compare_eq_iff_eq.mp equal)
      rw [if_neg other, ih.1, ih.2]
      refine ⟨by simp [same], ?_⟩
      simp [same]

theorem mem_gather {pairs : List (Int × Int)} {selector : Int} {values : List Int}
    (found : (gather pairs)[selector]? = some values) :
    value ∈ values ↔ (selector, value) ∈ pairs := by
  have listed := (gather_spec pairs selector).1
  rw [found, Option.getD_some] at listed
  rw [listed]
  simp

/-- Every value stands in the bucket of its selector. -/
theorem exists_gather {pairs : List (Int × Int)} {selector : Int}
    (member : (selector, value) ∈ pairs) :
    ∃ values, (gather pairs)[selector]? = some values ∧ value ∈ values := by
  cases found : (gather pairs)[selector]? with
  | none => exact absurd rfl ((gather_spec pairs selector).2.mp found _ member)
  | some values => exact ⟨values, rfl, (mem_gather found).mpr member⟩

theorem nodup_gather {pairs : List (Int × Int)} {selector : Int} {values : List Int}
    (distinct : (pairs.map Prod.snd).Nodup) (found : (gather pairs)[selector]? = some values) :
    values.Nodup := by
  have listed := (gather_spec pairs selector).1
  rw [found, Option.getD_some] at listed
  rw [listed]
  exact (List.Sublist.map Prod.snd List.filter_sublist).nodup distinct

/-- No value stands in two buckets. -/
theorem gather_unique {pairs : List (Int × Int)} {selector selector' : Int}
    {values values' : List Int} (distinct : (pairs.map Prod.snd).Nodup)
    (found : (gather pairs)[selector]? = some values)
    (found' : (gather pairs)[selector']? = some values') (here : value ∈ values)
    (there : value ∈ values') : selector = selector' := by
  have first := (mem_gather found).mp here
  have second := (mem_gather found').mp there
  exact congrArg Prod.fst (List.inj_on_of_nodup_map distinct first second rfl)

end Values

/-! ## Running the selection -/

/-- A world decides the `switch` statements of a tree for a value of the key as expansion
does, whatever was bound for the values before it. -/
structure Knows (world : World) (log : List Tree) (key : String) (prelude : Tree)
    (values : List Int) (value : Int) (tree : Tree) : Prop where
  discriminants : ∀ {id slot slots discriminant clauses selector},
    Tree.Within (.node id (.switch slot slots) (discriminant :: clauses)) tree →
    Selects key prelude discriminant values value selector →
    world.known? log discriminant.bare = some selector
  labels : ∀ {id slot slots discriminant clauses},
    Tree.Within (.node id (.switch slot slots) (discriminant :: clauses)) tree →
    ∀ {name slot' slots' label body}, .node name (.clause false slot' slots') (label :: body) ∈ clauses →
    ∀ {selector}, Denotes [] label selector → world.known? log label.bare = some selector

section Select
variable {world : World} {limit : Nat} {key : String} {prelude : Tree} {values : List Int}
  {value selector : Int} {state : State} {tree : Tree}

theorem Knows.within {part : Tree} (knows : Knows world state.log key prelude values value tree)
    (within : Tree.Within part tree) : Knows world state.log key prelude values value part :=
  ⟨fun inner => knows.discriminants (inner.trans within),
    fun inner => knows.labels (inner.trans within)⟩

theorem Selects.mono {discriminant : Tree} {some_ all : List Int} (within : some_ ⊆ all)
    (selects : Selects key prelude discriminant some_ value selector) :
    Selects key prelude discriminant all value selector := by
  obtain ⟨before, after, reaches, binds, denotes⟩ := selects
  exact ⟨before, after, reaches.mono within, binds, denotes⟩

theorem Knows.mono {all : List Int} (knows : Knows world state.log key prelude all value tree)
    (within : values ⊆ all) : Knows world state.log key prelude values value tree :=
  ⟨fun inner selects => knows.discriminants inner (selects.mono within), knows.labels⟩

/-- Every label before a place is decided and is another. -/
theorem findLabel_split {before behind : List Tree} {next : Option Nat → Behaviour} {place : Nat}
    (known : ∀ {name slot slots label body}, .node name (.clause false slot slots) (label :: body) ∈ before →
      ∃ other, Denotes [] label other ∧ other ≠ selector ∧
        world.known? state.log label.bare = some other) :
    findLabel world (some selector) (before ++ behind) place next state =
      findLabel world (some selector) behind (place + before.length) next state := by
  induction before generalizing place with
  | nil => rfl
  | cons clause rest ih =>
    have later : findLabel world (some selector) (rest ++ behind) (place + 1) next state =
        findLabel world (some selector) behind (place + (clause :: rest).length) next state := by
      rw [ih fun member => known (List.mem_cons_of_mem clause member), List.length_cons]
      congr 1
      omega
    cases clause with
    | nothing => exact later
    | node id shape below =>
      cases shape
      case clause isDefault label statements =>
        cases isDefault with
        | true => exact later
        | false =>
          cases below with
          | nil => exact later
          | cons first others =>
            obtain ⟨other, _, differs, knownLabel⟩ := known List.mem_cons_self
            rw [List.cons_append, findLabel, matchLabel, knownLabel, compareLabel]
            have unequal : (selector == other) = false := beq_false_of_ne fun same => differs same.symm
            rw [unequal, if_neg Bool.false_ne_true]
            exact later
      all_goals exact later

/-- The clause that matches is found. -/
theorem findLabel_match {clause : Tree} {behind : List Tree} {next : Option Nat → Behaviour}
    {place : Nat} (matched : Matches selector clause)
    (known : ∀ {name slot slots label body}, clause = .node name (.clause false slot slots) (label :: body) →
      ∀ {other}, Denotes [] label other → world.known? state.log label.bare = some other) :
    findLabel world (some selector) (clause :: behind) place next state = next (some place) state := by
  obtain ⟨id, slot, slots, label, body, rfl, denotes⟩ := matched
  rw [findLabel, matchLabel, known rfl denotes, compareLabel, beq_self_eq_true]
  rfl

theorem defaultPlace?_append (before behind : List Tree) (place : Nat) :
    defaultPlace? (before ++ behind) place =
      (defaultPlace? behind (place + before.length)).or (defaultPlace? before place) := by
  induction before generalizing place with
  | nil => exact (Option.or_none).symm
  | cons clause rest ih =>
    have later : defaultPlace? (rest ++ behind) (place + 1) =
        (defaultPlace? behind (place + (clause :: rest).length)).or
          (defaultPlace? rest (place + 1)) := by
      have there : place + 1 + rest.length = place + (clause :: rest).length := by
        rw [List.length_cons]
        omega
      rw [ih, there]
    cases clause with
    | nothing => exact later
    | node id shape below =>
      cases shape
      case clause isDefault label statements =>
        cases isDefault with
        | true =>
          rw [List.cons_append, defaultPlace?, later, defaultPlace?, Option.or_assoc]
        | false => exact later
      all_goals exact later

theorem defaultPlace?_none {clauses : List Tree} {place : Nat}
    (none_ : ∀ clause ∈ clauses, ∃ selector, Matches selector clause) :
    defaultPlace? clauses place = none := by
  induction clauses generalizing place with
  | nil => rfl
  | cons clause rest ih =>
    obtain ⟨selector, id, slot, slots, label, body, rfl, _⟩ := none_ clause List.mem_cons_self
    exact ih fun other member => none_ other (List.mem_cons_of_mem _ member)

theorem runFrom_shift (before behind : List Tree) (place : Nat) :
    runFrom world limit (before ++ behind) (before.length + place) =
      runFrom world limit behind place := by
  induction before with
  | nil => rw [List.length_nil, Nat.zero_add, List.nil_append]
  | cons clause rest ih =>
    have length : (clause :: rest).length + place = rest.length + place + 1 := by
      rw [List.length_cons]
      omega
    rw [List.cons_append, length, runFrom_succ, ih]

theorem runFrom_append (before behind : List Tree) :
    runFrom world limit (before ++ behind) before.length = runFrom world limit behind 0 :=
  runFrom_shift before behind 0

end Select

end Expansion

end Unflatten
