import Unflatten.Proofs.Parser.Levels

/-! # Taking lists

The items of a list are taken one after the other: arguments, the items of an array, and the
items of a sequence. -/

set_option autoImplicit false

namespace Unflatten

/-- What an expression starts with. -/
def TokenKind.opensExpression : TokenKind → Bool
  | .identifier | .numericLiteral | .stringLiteral | .thisKeyword | .trueKeyword | .falseKeyword
  | .nullKeyword | .openParen | .openBracket | .newKeyword => true
  | kind => Parser.isPrefixOperator kind

theorem opensExpression_ne {kind other : TokenKind} (opens : kind.opensExpression = true)
    (no : other.opensExpression = false) : kind ≠ other := by
  rintro rfl
  rw [no] at opens
  cases opens

theorem nextKind_append {lexemes others : List Lexeme} (opens : (nextKind lexemes).opensExpression = true) :
    nextKind (lexemes ++ others) = nextKind lexemes := by
  cases lexemes with
  | nil => cases opens
  | cons => rfl

namespace Spelling

theorem listLexemes_singleton {last : Spelling} (noHole : last.tree.isHole = false) :
    listLexemes [last] = last.lexemes := by
  rw [listLexemes, noHole]
  exact List.append_nil _

theorem listLexemes_hole {last : Spelling} (hole : last.tree.isHole = true) (noLexemes : last.lexemes = []) :
    listLexemes [last] = [TokenKind.comma.lexeme] := by
  rw [listLexemes, hole, noLexemes]
  rfl

end Spelling

namespace Parser

open Precedence TokenKind

/-- An item of a list is understood on its own, whatever may follow an item. -/
structure IsItem (depth : Nat) (item : Spelling) : Prop where
  some : item.tree.root.isSome = true
  noHole : item.tree.isHole = false
  opens : (nextKind item.lexemes).opensExpression = true
  takes : ∀ others, Yields Precedence.assignment others →
    Takes (grammar depth .assignment) single [item.tree] item.lexemes others

section Lists
variable {depth fuel : Nat} {others : List Lexeme} {s : ParserState} {store : Store} {slots : List Slot}
  {trees : List Tree} {spelled : List Spelling} {close : TokenKind}

/-! ## Items -/

/-- A turn of a list of items. -/
def itemsTurn (close : TokenKind) (item : Parser Slot) (found : Array Slot) : Parser (Array Slot × Bool) := do
  if ← atClose close then return (found, false)
  let next ← item
  if next.isNone then return (found, false)
  return (found.push next, ← accept .comma)

theorem items_eq (close : TokenKind) (item : Parser Slot) :
    items close item = repeatWhile #[] (itemsTurn close item) >>= fun found => pure found.toList := rfl

theorem keepsErrors_itemsTurn (close : TokenKind) {item : Parser Slot} (keeps : KeepsErrors item)
    (found : Array Slot) : KeepsErrors (itemsTurn close item found) :=
  (looks_atClose close).keepsErrors.bind fun _ => keepsErrors_ite (keepsErrors_pure _) <| keeps.bind fun _ =>
    keepsErrors_ite (keepsErrors_pure _) <| (keepsErrors_accept .comma).bind fun _ => keepsErrors_pure _

/-- The token does not close a list. -/
theorem atClose_item {item : Spelling} (opens : (nextKind item.lexemes).opensExpression = true)
    (closes : close.opensExpression = false) (ahead : Ahead (item.lexemes ++ others) s) :
    ¬(s.lexer.kind == close || s.lexer.kind == .endOfFile) = true := by
  rw [ahead.next, nextKind_append opens, Bool.or_eq_true, beq_iff_eq, beq_iff_eq]
  rintro (same | same)
  · exact opensExpression_ne opens closes same
  · exact opensExpression_ne opens (by rfl) same

/-- A turn takes an item and looks for a comma behind it. -/
theorem deepOr_itemsTurn {item : Spelling} {found : Array Slot}
    {post : Array Slot × Bool → ParserState → Prop}
    (isItem : IsItem depth item) (closes : close.opensExpression = false)
    (yields : Yields Precedence.assignment others)
    (arrives : Arrives store (item.lexemes ++ others) found.toList trees s)
    (rest : ∀ next s', Arrives store others (found.push next).toList (trees ++ [item.tree]) s' →
      DeepOr post ((do return (found.push next, ← accept .comma) : Parser (Array Slot × Bool)) s')) :
    DeepOr post (itemsTurn close (grammar depth .assignment) found s) := by
  have finish : ∀ next : Slot, KeepsErrors (do
      if next.isNone then return (found, false)
      return (found.push next, ← accept .comma) : Parser (Array Slot × Bool)) := fun next =>
    keepsErrors_ite (keepsErrors_pure _) <| (keepsErrors_accept .comma).bind fun _ => keepsErrors_pure _
  refine (looks_atClose close).go (.ite_neg (atClose_item isItem.opens closes arrives.ahead) ?_)
  refine (isItem.takes _ yields).then arrives finish fun next s' further => ?_
  have pushed : (found.push next).toList = found.toList ++ single next := Array.toList_push
  exact .ite_neg (further.isNone_eq isItem.some) (rest next s' (pushed ▸ further))

theorem deepOr_items (found : Array Slot) (each : ∀ item ∈ spelled, IsItem depth item)
    (closes : close.opensExpression = false) (reach : close.reach ≤ Precedence.assignment)
    (noComma : close ≠ .comma) (enough : (Spelling.listLexemes spelled).length < fuel)
    (arrives : Arrives store (Spelling.listLexemes spelled ++ close.lexeme :: others) found.toList trees s) :
    DeepOr (fun found => Arrives store (close.lexeme :: others) found.toList (trees ++ spelled.map Spelling.tree))
      (repeatStep (itemsTurn close (grammar depth .assignment)) fuel found s) := by
  have keeps := keepsErrors_itemsTurn close (keepsErrors_grammar depth .assignment)
  induction spelled generalizing fuel found trees s with
  | nil =>
    obtain ⟨fuel, rfl⟩ := Nat.exists_eq_succ_of_ne_zero (Nat.ne_zero_of_lt enough)
    refine .last ?_ keeps
    have ended : (s.lexer.kind == close || s.lexer.kind == .endOfFile) = true := by
      rw [arrives.ahead.next]
      exact Bool.or_eq_true_iff.mpr (.inl (beq_self_eq_true close))
    refine (looks_atClose close).go (.ite_pos ended (.inr ⟨rfl, ?_⟩))
    rw [List.map_nil, List.append_nil]
    exact arrives
  | cons item rest ih =>
    obtain ⟨fuel, rfl⟩ := Nat.exists_eq_succ_of_ne_zero (Nat.ne_zero_of_lt enough)
    obtain ⟨first, each⟩ := List.forall_mem_cons.mp each
    cases rest with
    | nil =>
      rw [Spelling.listLexemes_singleton first.noHole] at arrives
      have yields : Yields Precedence.assignment (close.lexeme :: others) := reach
      refine .last (deepOr_itemsTurn first closes yields arrives fun next s' further => ?_) keeps
      exact deepOr_missing (by rw [further.ahead.next]; exact noComma) (.inr ⟨rfl, further⟩)
    | cons second rest =>
      rw [Spelling.listLexemes_cons_cons] at arrives enough
      rw [List.append_assoc] at arrives
      rw [List.length_append, List.length_cons] at enough
      have yields : Yields Precedence.assignment (comma.lexeme ::
          (Spelling.listLexemes (second :: rest) ++ close.lexeme :: others)) := show comma.reach ≤ _ by decide
      have turn : DeepOr (fun (result : Array Slot × Bool) s' => result.2 = true ∧ Arrives store
          (Spelling.listLexemes (second :: rest) ++ close.lexeme :: others) result.1.toList (trees ++ [item.tree]) s')
          (itemsTurn close (grammar depth .assignment) found s) :=
        deepOr_itemsTurn first closes yields arrives fun next s' further =>
          deepOr_accept further.ahead.kind_eq (.inr ⟨rfl, further.advance⟩)
      refine turn.again keeps fun result s' ⟨more, further⟩ => ⟨more, ?_⟩
      have shorter : (Spelling.listLexemes (second :: rest)).length < fuel := by omega
      have later := ih result.1 each shorter further
      rwa [List.append_assoc] at later

theorem takes_items (each : ∀ item ∈ spelled, IsItem depth item)
    (closes : close.opensExpression = false) (reach : close.reach ≤ Precedence.assignment)
    (noComma : close ≠ .comma) : Takes (items close (grammar depth .assignment)) id (spelled.map Spelling.tree)
      (Spelling.listLexemes spelled) (close.lexeme :: others) := by
  intro s ahead
  rw [items_eq]
  have room := ahead.room
  rw [List.length_append] at room
  exact (deepOr_items #[] each closes reach noComma (by omega) ahead.start).bind
    (fun _ => keepsErrors_pure _) fun _ _ arrives => .inr arrives

/-- Arguments in their parentheses. -/
theorem takes_arguments (each : ∀ item ∈ spelled, IsItem depth item) :
    Takes (arguments (grammar depth)) id (spelled.map Spelling.tree)
      (openParen.lexeme :: (Spelling.listLexemes spelled ++ [closeParen.lexeme])) others := by
  intro s ahead
  rw [List.cons_append, List.append_assoc] at ahead
  have taken : Takes (items .closeParen (grammar depth .assignment)) id (spelled.map Spelling.tree)
      (Spelling.listLexemes spelled) (closeParen.lexeme :: others) := takes_items each rfl (by decide) (by decide)
  refine deepOr_skip ahead.kind_eq (taken.outsideHead.then ahead.start.advance (fun _ =>
    (keepsErrors_skip _).bind fun _ => keepsErrors_pure _) fun found s' arrives => ?_)
  exact deepOr_skip arrives.ahead.kind_eq (.inr arrives.advance)

/-! ## Arrays -/

/-- An entry of an array: a hole or an item. -/
def IsEntry (depth : Nat) (entry : Spelling) : Prop :=
  entry.tree.isHole = true ∧ entry.lexemes = [] ∨ IsItem depth entry

/-- A turn of an array. -/
def arrayTurn (inner : Grammar) (state : Array Slot × Bool) : Parser ((Array Slot × Bool) × Bool) := do
  let (found, multiLine) := state
  if ← atClose .closeBracket then return ((found, multiLine), false)
  let multiLine := multiLine || (← lineBreakBefore)
  if ← at? .comma then
    let place ← position
    let hole ← nodeAt .omitted Flags.none place place
    advance
    return ((found.push hole, multiLine), true)
  let item ← inner .assignment
  if item.isNone then return ((found, multiLine), false)
  return ((found.push item, multiLine), ← accept .comma)

theorem arrayLiteral_eq (inner : Grammar) : arrayLiteral inner = (do
    let start ← position
    discard (expect .openBracket)
    let state ← outsideHead (repeatWhile (#[], false) (arrayTurn inner))
    discard (expect .closeBracket)
    flagged (.elements .array state.1.toList) { Flags.none with multiLine := state.2 } start) := rfl

theorem keepsErrors_arrayTurn (depth : Nat) (state : Array Slot × Bool) :
    KeepsErrors (arrayTurn (grammar depth) state) :=
  (looks_atClose .closeBracket).keepsErrors.bind fun _ => keepsErrors_ite (keepsErrors_pure _) <|
    looks_lineBreakBefore.keepsErrors.bind fun _ => (looks_at? .comma).keepsErrors.bind fun _ => keepsErrors_ite
      (looks_position.keepsErrors.bind fun _ => (keepsErrors_nodeAt _ _ _ _).bind fun _ =>
        keepsErrors_advance.bind fun _ => keepsErrors_pure _)
      ((keepsErrors_grammar depth .assignment).bind fun _ => keepsErrors_ite (keepsErrors_pure _) <|
        (keepsErrors_accept .comma).bind fun _ => keepsErrors_pure _)

/-- A turn finds a hole at a comma. -/
theorem deepOr_arrayHole {state : Array Slot × Bool} {entry : Spelling} (hole : entry.tree.isHole = true)
    (arrives : Arrives store (comma.lexeme :: others) state.1.toList trees s) :
    DeepOr (fun (result : (Array Slot × Bool) × Bool) s' => result.2 = true ∧
      Arrives store others result.1.1.toList (trees ++ [entry.tree]) s')
      (arrayTurn (grammar depth) state s) := by
  have open_ : ¬(s.lexer.kind == .closeBracket || s.lexer.kind == .endOfFile) = true := by
    rw [arrives.ahead.kind_eq]
    decide
  obtain ⟨id, same⟩ := Tree.exists_of_isHole hole
  refine (looks_atClose .closeBracket).go (.ite_neg open_ (looks_lineBreakBefore.go
    (deepOr_at? (beq_iff_eq.mpr arrives.ahead.kind_eq) (.ite_pos rfl (.inr ⟨rfl, ?_⟩)))))
  have made : Arrives s.store (comma.lexeme :: others) _ [.node id .omitted []] _ :=
    arrives.ahead.start.nodeAt .omitted rfl (by rfl) Flags.none s.lexer.start.offset s.lexer.start.offset
  have pushed : ∀ next : Slot, (state.1.push next).toList = state.1.toList ++ [next] := fun _ => Array.toList_push
  change Arrives store others (state.1.push _).toList (trees ++ [entry.tree]) _
  rw [pushed, same]
  exact (arrives.andThen made).advance

/-- A turn takes an item and looks for a comma behind it. -/
theorem deepOr_arrayItem {state : Array Slot × Bool} {item : Spelling} (isItem : IsItem depth item)
    {post : (Array Slot × Bool) × Bool → ParserState → Prop} (yields : Yields Precedence.assignment others)
    (arrives : Arrives store (item.lexemes ++ others) state.1.toList trees s)
    (rest : ∀ next multiLine s', Arrives store others (state.1.push next).toList (trees ++ [item.tree]) s' →
      DeepOr post ((do return ((state.1.push next, multiLine), ← accept .comma) :
        Parser ((Array Slot × Bool) × Bool)) s')) :
    DeepOr post (arrayTurn (grammar depth) state s) := by
  have finish : ∀ (multiLine : Bool) (next : Slot), KeepsErrors (do
      if next.isNone then return ((state.1, multiLine), false)
      return ((state.1.push next, multiLine), ← accept .comma) : Parser ((Array Slot × Bool) × Bool)) :=
    fun _ _ => keepsErrors_ite (keepsErrors_pure _) <| (keepsErrors_accept .comma).bind fun _ => keepsErrors_pure _
  have noComma : (s.lexer.kind == .comma) = false := by
    rw [arrives.ahead.next, nextKind_append isItem.opens]
    exact beq_eq_false_iff_ne.mpr (opensExpression_ne isItem.opens rfl)
  refine (looks_atClose .closeBracket).go (.ite_neg (atClose_item isItem.opens rfl arrives.ahead)
    (looks_lineBreakBefore.go (deepOr_at? noComma (.ite_neg Bool.false_ne_true
      ((isItem.takes _ yields).then arrives (finish _) fun next s' further => ?_)))))
  have pushed : (state.1.push next).toList = state.1.toList ++ single next := Array.toList_push
  exact .ite_neg (further.isNone_eq isItem.some) (rest next _ s' (pushed ▸ further))

theorem deepOr_array (state : Array Slot × Bool) (each : ∀ entry ∈ spelled, IsEntry depth entry)
    (enough : (Spelling.listLexemes spelled).length < fuel)
    (arrives : Arrives store (Spelling.listLexemes spelled ++ closeBracket.lexeme :: others) state.1.toList trees s) :
    DeepOr (fun result => Arrives store (closeBracket.lexeme :: others) result.1.toList
        (trees ++ spelled.map Spelling.tree))
      (repeatStep (arrayTurn (grammar depth)) fuel state s) := by
  have keeps := keepsErrors_arrayTurn depth
  induction spelled generalizing fuel state trees s with
  | nil =>
    obtain ⟨fuel, rfl⟩ := Nat.exists_eq_succ_of_ne_zero (Nat.ne_zero_of_lt enough)
    refine .last ?_ keeps
    have ended : (s.lexer.kind == .closeBracket || s.lexer.kind == .endOfFile) = true := by
      rw [arrives.ahead.next]
      rfl
    refine (looks_atClose .closeBracket).go (.ite_pos ended (.inr ⟨rfl, ?_⟩))
    rw [List.map_nil, List.append_nil]
    exact arrives
  | cons entry rest ih =>
    obtain ⟨fuel, rfl⟩ := Nat.exists_eq_succ_of_ne_zero (Nat.ne_zero_of_lt enough)
    obtain ⟨first, each⟩ := List.forall_mem_cons.mp each
    -- behind a comma the rest follows
    have goOn : ∀ {result : (Array Slot × Bool) × Bool} {s' : ParserState}, result.2 = true ∧
        Arrives store (Spelling.listLexemes rest ++ closeBracket.lexeme :: others) result.1.1.toList
          (trees ++ [entry.tree]) s' → (Spelling.listLexemes rest).length < fuel →
        result.2 = true ∧ DeepOr (fun result => Arrives store (closeBracket.lexeme :: others) result.1.toList
          (trees ++ (entry :: rest).map Spelling.tree)) (repeatStep (arrayTurn (grammar depth)) fuel result.1 s') := by
      intro result s' ⟨more, further⟩ shorter
      have later := ih result.1 each shorter further
      rw [List.append_assoc] at later
      exact ⟨more, later⟩
    rcases first with ⟨hole, noLexemes⟩ | isItem
    · have lexemes : Spelling.listLexemes (entry :: rest) = comma.lexeme :: Spelling.listLexemes rest := by
        cases rest with
        | nil => exact Spelling.listLexemes_hole hole noLexemes
        | cons second rest =>
          rw [Spelling.listLexemes_cons_cons, noLexemes]
          rfl
      rw [lexemes] at arrives enough
      exact (deepOr_arrayHole hole arrives).again keeps fun _ _ further => goOn further (Nat.lt_of_succ_lt_succ enough)
    · cases rest with
      | nil =>
        rw [Spelling.listLexemes_singleton isItem.noHole] at arrives
        refine .last (deepOr_arrayItem isItem (show closeBracket.reach ≤ _ by decide) arrives
          fun next multiLine s' further => ?_) keeps
        exact deepOr_missing (by rw [further.ahead.kind_eq]; decide) (.inr ⟨rfl, further⟩)
      | cons second rest =>
        rw [Spelling.listLexemes_cons_cons] at arrives enough
        rw [List.append_assoc] at arrives
        rw [List.length_append, List.length_cons] at enough
        have turn : DeepOr (fun (result : (Array Slot × Bool) × Bool) s' => result.2 = true ∧ Arrives store
            (Spelling.listLexemes (second :: rest) ++ closeBracket.lexeme :: others) result.1.1.toList
            (trees ++ [entry.tree]) s') (arrayTurn (grammar depth) state s) :=
          deepOr_arrayItem isItem (show comma.reach ≤ _ by decide) arrives fun next multiLine s' further =>
            deepOr_accept further.ahead.kind_eq (.inr ⟨rfl, further.advance⟩)
        exact turn.again keeps fun _ _ further => goOn further (by omega)

theorem takes_array {id : NodeId} {slots : List Slot} (each : ∀ entry ∈ spelled, IsEntry depth entry) :
    Takes (arrayLiteral (grammar depth)) single [.node id (.elements .array slots) (spelled.map Spelling.tree)]
      (openBracket.lexeme :: (Spelling.listLexemes spelled ++ [closeBracket.lexeme])) others := by
  intro s ahead
  rw [List.cons_append, List.append_assoc] at ahead
  have made : ∀ (state : Array Slot × Bool) start, KeepsErrors (do
      discard (expect .closeBracket)
      flagged (.elements .array state.1.toList) { Flags.none with multiLine := state.2 } start) := fun _ _ =>
    (keepsErrors_skip _).bind fun _ => keepsErrors_flagged _ _ _
  have taken : Takes (repeatWhile (#[], false) (arrayTurn (grammar depth))) (fun state => state.1.toList)
      (spelled.map Spelling.tree) (Spelling.listLexemes spelled) (closeBracket.lexeme :: others) := by
    intro s ahead
    have room : _ < (limit s).1 := ahead.room
    rw [List.length_append] at room
    exact looks_limit.go (deepOr_array (#[], false) each (by omega) ahead.start)
  rw [arrayLiteral_eq]
  refine looks_position.go (deepOr_skip ahead.kind_eq (taken.outsideHead.then ahead.start.advance
    (fun state => made state _) fun state s' arrives => ?_))
  exact deepOr_skip arrives.ahead.kind_eq (.inr (arrives.advance.nodeAt _ rfl (by rfl) _ _ _))

/-! ## Sequences -/

/-- A turn of a sequence. -/
def sequenceTurn (inner : Grammar) (items : Array Slot) : Parser (Array Slot × Bool) := do
  if ← accept .comma then
    let item ← inner .assignment
    if item.isNone then
      report .expressionExpected
      return (items, false)
    else return (items.push item, true)
  else return (items, false)

theorem expression_eq (inner : Grammar) : expression inner = (do
    let start ← position
    let first ← inner .assignment
    if first.isNone || !(← at? .comma) then return first
    let items ← repeatWhile #[first] (sequenceTurn inner)
    node (.elements .sequence items.toList) start) := rfl

theorem keepsErrors_sequenceTurn (depth : Nat) (items : Array Slot) :
    KeepsErrors (sequenceTurn (grammar depth) items) :=
  (keepsErrors_accept .comma).bind fun _ => keepsErrors_ite
    ((keepsErrors_grammar depth .assignment).bind fun _ => keepsErrors_ite
      ((keepsErrors_report _).bind fun _ => keepsErrors_pure _) (keepsErrors_pure _)) (keepsErrors_pure _)

/-- What `expression` does behind its first item. -/
theorem keepsErrors_sequence (depth start : Nat) (found : Slot) : KeepsErrors (do
    if found.isNone || !(← at? .comma) then return found
    let items ← repeatWhile #[found] (sequenceTurn (grammar depth))
    node (.elements .sequence items.toList) start) :=
  (looks_at? .comma).keepsErrors.bind fun _ => keepsErrors_ite (keepsErrors_pure found) <|
    (keepsErrors_repeatWhile (keepsErrors_sequenceTurn depth) #[found]).bind fun _ =>
      keepsErrors_node _ _

theorem deepOr_sequence (found : Array Slot) (each : ∀ item ∈ spelled, IsItem depth item)
    (yields : Yields Precedence.comma others)
    (enough : (spelled.flatMap fun item => comma.lexeme :: item.lexemes).length < fuel)
    (arrives : Arrives store ((spelled.flatMap fun item => comma.lexeme :: item.lexemes) ++ others) found.toList trees s) :
    DeepOr (fun found => Arrives store others found.toList (trees ++ spelled.map Spelling.tree))
      (repeatStep (sequenceTurn (grammar depth)) fuel found s) := by
  have keeps := keepsErrors_sequenceTurn depth
  induction spelled generalizing fuel found trees s with
  | nil =>
    obtain ⟨fuel, rfl⟩ := Nat.exists_eq_succ_of_ne_zero (Nat.ne_zero_of_lt enough)
    rw [List.flatMap_nil, List.nil_append] at arrives
    refine .last (deepOr_missing ?_ (.inr ⟨rfl, ?_⟩)) keeps
    · intro here
      rw [arrives.ahead.next] at here
      rw [Yields, here] at yields
      exact absurd yields (by decide)
    · rw [List.map_nil, List.append_nil]
      exact arrives
  | cons item rest ih =>
    obtain ⟨fuel, rfl⟩ := Nat.exists_eq_succ_of_ne_zero (Nat.ne_zero_of_lt enough)
    obtain ⟨first, each⟩ := List.forall_mem_cons.mp each
    rw [List.flatMap_cons, List.cons_append] at arrives enough
    rw [List.cons_append, List.append_assoc] at arrives
    rw [List.length_cons, List.length_append] at enough
    have yields' : Yields Precedence.assignment
        ((rest.flatMap fun item => comma.lexeme :: item.lexemes) ++ others) := by
      cases rest with
      | nil => exact yields.mono (by decide)
      | cons => exact show comma.reach ≤ _ by decide
    have turn : DeepOr (fun (result : Array Slot × Bool) s' => result.2 = true ∧ Arrives store
        ((rest.flatMap fun item => comma.lexeme :: item.lexemes) ++ others) result.1.toList
        (trees ++ [item.tree]) s') (sequenceTurn (grammar depth) found s) := by
      refine deepOr_accept arrives.ahead.kind_eq (.ite_pos rfl ((first.takes _ yields').then arrives.advance
        (fun _ => keepsErrors_ite ((keepsErrors_report _).bind fun _ => keepsErrors_pure _) (keepsErrors_pure _))
        fun next s' further => ?_))
      have pushed : (found.push next).toList = found.toList ++ single next := Array.toList_push
      exact .ite_neg (further.isNone_eq first.some) (.inr ⟨rfl, pushed ▸ further⟩)
    refine turn.again keeps fun result s' ⟨more, further⟩ => ⟨more, ?_⟩
    have shorter : (rest.flatMap fun item => comma.lexeme :: item.lexemes).length < fuel := by omega
    have later := ih result.1 each shorter further
    rwa [List.append_assoc] at later

/-- Behind the first item of a list stand commas with the others. -/
theorem listLexemes_cons {first : Spelling} (noHoles : ∀ item ∈ first :: spelled, item.tree.isHole = false) :
    Spelling.listLexemes (first :: spelled) =
      first.lexemes ++ spelled.flatMap fun item => comma.lexeme :: item.lexemes := by
  induction spelled generalizing first with
  | nil => rw [Spelling.listLexemes_singleton (noHoles _ List.mem_cons_self), List.flatMap_nil, List.append_nil]
  | cons second rest ih =>
    rw [Spelling.listLexemes_cons_cons, ih fun item member => noHoles item (List.mem_cons_of_mem _ member),
      List.flatMap_cons, List.cons_append]

/-- A sequence of two items at least. -/
theorem takes_sequence {first second : Spelling} {id : NodeId} {slots : List Slot}
    (each : ∀ item ∈ first :: second :: spelled, IsItem depth item) (yields : Yields Precedence.comma others) :
    Takes (expression (grammar depth)) single
      [.node id (.elements .sequence slots) ((first :: second :: spelled).map Spelling.tree)]
      (Spelling.listLexemes (first :: second :: spelled)) others := by
  intro s ahead
  rw [listLexemes_cons fun item member => (each item member).noHole, List.append_assoc] at ahead
  obtain ⟨isItem, each⟩ := List.forall_mem_cons.mp each
  have comma_next : Yields Precedence.assignment
      (((second :: spelled).flatMap fun item => comma.lexeme :: item.lexemes) ++ others) :=
    show comma.reach ≤ _ by decide
  rw [expression_eq]
  refine looks_position.go ((isItem.takes _ comma_next).then ahead.start
    (keepsErrors_sequence depth _) fun found s' arrives => ?_)
  refine deepOr_at? (beq_iff_eq.mpr arrives.ahead.kind_eq) (.ite_neg ?_ ?_)
  · rw [Bool.not_true, Bool.or_false]
    exact arrives.isNone_eq isItem.some
  have room := arrives.ahead.room
  rw [List.length_append] at room
  have loop : DeepOr (fun found => Arrives s.store others found.toList
        ([first.tree] ++ (second :: spelled).map Spelling.tree))
      (repeatWhile #[found] (sequenceTurn (grammar depth)) s') :=
    deepOr_sequence #[found] each yields (by omega) arrives
  refine loop.bind (fun _ => keepsErrors_node _ _) fun items s'' further => .inr ?_
  exact further.node _ rfl (by rfl) _

end Lists

end Parser

end Unflatten
