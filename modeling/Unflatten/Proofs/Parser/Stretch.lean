import Unflatten.Parser.Statement
import Unflatten.Proofs.Syntax.Spans

/-! # A stretch of tokens and the nodes made of it

As long as there are no errors, the parser takes every token it goes over: each is shown by a node,
or is a mark that no node shows.  A `Parser.Stretch` leads from one state of the parser to a later
one.  It says which slots the parser has filled on the way, that their nodes stand in line, and
that they show the tokens passed.  Stretches are put together (`Stretch.trans`), and the slots of a
stretch become one by a node around them (`Stretch.node`). -/

set_option autoImplicit false

namespace Unflatten

/-- The kind of token that a literal is read from. -/
def LiteralKind.token : LiteralKind → TokenKind
  | .number => .numericLiteral
  | .string => .stringLiteral
  | .pattern => .regularExpressionLiteral

theorem LiteralKind.isShown_token (kind : LiteralKind) : kind.token.isShown = true := by
  cases kind <;> rfl

namespace Shape

/-- A shape that stands for no token. -/
def isCompound : Shape → Bool
  | .identifier _ | .literal _ _ _ => false
  | _ => true

theorem token?_literal (kind : LiteralKind) (value : String) (number : Option Float) (text : List Char)
    (start stop : Nat) :
    (Shape.literal kind value number).token? text start stop = some ⟨kind.token, start, stop, value⟩ := by
  cases kind <;> rfl

theorem token?_of_isCompound {shape : Shape} (compound : shape.isCompound = true) {text : List Char}
    {start stop : Nat} : shape.token? text start stop = none := by
  cases shape with
  | identifier => cases compound
  | literal => cases compound
  | _ => rfl

end Shape

namespace Lexer

/-- The lexer at the same token, which may be read anew. -/
structure Reread (text : List Char) (lexer other : Lexer) : Prop where
  on : IsOn text other
  start : other.start = lexer.start
  comments : other.comments = lexer.comments
  passes : lexer.Passes [other.token] other.scan

theorem IsOn.same {text : List Char} {lexer : Lexer} (on : IsOn text lexer) : Reread text lexer lexer :=
  ⟨on, rfl, rfl, Passes.stay.scan⟩

theorem IsOn.anew {text : List Char} {lexer : Lexer} (on : IsOn text lexer)
    (slash : lexer.kind = .slash ∨ lexer.kind = .slashEquals) : Reread text lexer lexer.rescanSlash :=
  have ⟨on', start, _, comments⟩ := on.rescanSlash slash
  ⟨on', start, comments, Passes.stay.rescan slash⟩

/-- The text of the token the lexer stands at. -/
theorem IsOn.stretch_eq {text : List Char} {lexer : Lexer} (on : IsOn text lexer) :
    Text.stretch text lexer.start.offset lexer.cursor.offset = lexer.start.textTo lexer.cursor := by
  rw [Text.stretch, ← on.start.rest_eq]
  rfl

end Lexer

namespace Parser

/-- What a step of the parser leaves behind: a token it has taken, or a slot it has filled. -/
inductive Piece where
  | token
  | slot (slot : Slot)

namespace Piece

/-- The slots among some pieces. -/
def slots (pieces : List Piece) : List Slot :=
  pieces.filterMap fun
    | .token => none
    | .slot place => some place

/-- The nodes in the slots. -/
def nodes (pieces : List Piece) : List NodeId := (slots pieces).filterMap id

/-- Slots as pieces. -/
def ofSlots (found : List Slot) : List Piece := found.map .slot

section Pieces
variable {first second : List Piece} {found : List Slot}

@[simp] theorem slots_nil : slots [] = [] := rfl

@[simp] theorem slots_token (rest : List Piece) : slots (.token :: rest) = slots rest := rfl

@[simp] theorem slots_slot (place : Slot) (rest : List Piece) :
    slots (.slot place :: rest) = place :: slots rest := rfl

@[simp] theorem slots_append (first second : List Piece) :
    slots (first ++ second) = slots first ++ slots second := List.filterMap_append

@[simp] theorem slots_ofSlots (found : List Slot) : slots (ofSlots found) = found := by
  induction found with
  | nil => rfl
  | cons place rest ih => exact congrArg (place :: ·) ih

@[simp] theorem ofSlots_push (found : Array Slot) (place : Slot) :
    ofSlots (found.push place).toList = ofSlots found.toList ++ [.slot place] := by
  rw [ofSlots, ofSlots, Array.toList_push, List.map_append]
  rfl

@[simp] theorem nodes_nil : nodes [] = [] := rfl

@[simp] theorem nodes_token (rest : List Piece) : nodes (.token :: rest) = nodes rest := rfl

@[simp] theorem nodes_slot (place : Slot) (rest : List Piece) :
    nodes (.slot place :: rest) = place.toList ++ nodes rest := by
  cases place <;> rfl

@[simp] theorem nodes_append (first second : List Piece) :
    nodes (first ++ second) = nodes first ++ nodes second := by
  rw [nodes, slots_append, List.filterMap_append]
  rfl

@[simp] theorem nodes_ofSlots (found : List Slot) : nodes (ofSlots found) = found.flatMap Option.toList := by
  induction found with
  | nil => rfl
  | cons place rest ih => rw [List.flatMap_cons, ← ih, ← nodes_slot]; rfl

@[simp] theorem token_notMem_ofSlots (found : List Slot) : Piece.token ∉ ofSlots found := by
  simp [ofSlots]

end Pieces

end Piece

/-- The parser stands at a token of a text, and the nodes it has made nest.  Each of them starts
where a token started, so that no comment reaches over its start. -/
structure IsClean (text : List Char) (s : ParserState) : Prop where
  lexer : s.lexer.IsOn text
  last : s.lastEnd ≤ s.lexer.start.offset
  place : Text.IsBoundary text s.lastEnd
  limit : 0 < s.limit
  nested : s.store.IsNested text
  starts : ∀ id span, s.store.span? id = some span → span.1 ≤ s.lexer.start.offset ∧
    ∀ comment ∈ s.lexer.comments, comment.stop ≤ span.1 ∨ span.1 ≤ comment.start

/-- At least one token has been taken. -/
structure Took (s s' : ParserState) : Prop where
  last : s.lexer.start.offset ≤ s'.lastEnd
  beyond : s.lexer.kind ≠ .endOfFile → s.lexer.start.LeadsBeyond s'.lexer.start

/-- The parser has gone from one state to a later one and left some pieces behind. -/
structure Stretch (text : List Char) (s s' : ParserState) (pieces : List Piece) : Prop where
  begun : s.lexer.IsOn text
  clean : IsClean text s'
  leads : s.lexer.start.LeadsTo s'.lexer.start
  later : s.lastEnd ≤ s'.lastEnd
  lasts : s.store.LastsIn s'.store
  comments : ∀ comment ∈ s'.lexer.comments,
    comment ∈ s.lexer.comments ∨ s.lexer.start.offset ≤ comment.start
  took : Piece.token ∈ pieces → Took s s'
  line : s'.store.InLine s.lexer.start.offset s'.lastEnd (Piece.nodes pieces)
  /-- The nodes show the tokens that the parser has gone over. -/
  shows : ∃ passed, s.lexer.Passes passed s'.lexer ∧
    passed.filter (·.kind.isShown) = (Piece.nodes pieces).flatMap (s'.store.shown text)

section Clean
variable {text : List Char} {s s' s'' : ParserState} {pieces others : List Piece} {other : Lexer}

/-- The state behind a token. -/
abbrev behind (s : ParserState) (other : Lexer) : ParserState :=
  { s with lexer := other.scan, lastEnd := other.cursor.offset }

/-- The state with a new node. -/
abbrev adding (s : ParserState) (shape : Shape) (flags : Flags) (start stop : Nat) : ParserState :=
  { s with store := (s.store.add shape flags start stop).1 }

theorem IsClean.behind (clean : IsClean text s) (reread : s.lexer.Reread text other) :
    IsClean text (behind s other) := by
  have scans := other.scansTo_scan
  have order := reread.on.leads.offset_le
  refine ⟨reread.on.scan, scans.leads.offset_le, reread.on.cursorIsIn.isBoundary, clean.limit,
    clean.nested, fun id span found => ?_⟩
  obtain ⟨before, apart⟩ := clean.starts id span found
  rw [← reread.start] at before
  refine ⟨Nat.le_trans before reread.on.scan_leads.offset_le, fun comment member => ?_⟩
  obtain ⟨found, comments, after⟩ := scans.comments
  rw [show (Parser.behind s other).lexer.comments = _ from comments] at member
  rcases Array.mem_append.mp member with old | new
  · exact apart comment (reread.comments ▸ old)
  · exact .inr (Nat.le_trans (Nat.le_trans before order) (after comment new))

theorem IsClean.adding (clean : IsClean text s) {shape : Shape} {flags : Flags} {start stop : Nat}
    (order : start ≤ stop) (starts : Text.IsBoundary text start) (stops : Text.IsBoundary text stop)
    (line : s.store.InLine start stop shape.children) (before : start ≤ s.lexer.start.offset)
    (apart : ∀ comment ∈ s.lexer.comments, comment.stop ≤ start ∨ start ≤ comment.start) :
    IsClean text (adding s shape flags start stop) := by
  refine ⟨clean.lexer, clean.last, clean.place, clean.limit, clean.nested.add order starts stops line,
    fun id span found => ?_⟩
  rw [show (Parser.adding s shape flags start stop).store.span? id = _ from
    Store.span?_add s.store id shape flags start stop] at found
  split at found
  · cases found
    exact ⟨before, apart⟩
  · exact clean.starts id span found

/-! ## Putting stretches together -/

theorem Took.ofBehind (reread : s.lexer.Reread text other)
    (more : s.lexer.kind ≠ .endOfFile → other.kind ≠ .endOfFile) : Took s (behind s other) := by
  have beyond : s.lexer.kind ≠ .endOfFile → s.lexer.start.LeadsBeyond other.scan.start := fun some => by
    rw [← reread.start]
    exact reread.on.scan_beyond (more some)
  refine ⟨?_, beyond⟩
  rw [← reread.start]
  exact reread.on.leads.offset_le

theorem Stretch.refl (clean : IsClean text s) : Stretch text s s [] :=
  ⟨clean.lexer, clean, .refl _, Nat.le_refl _, .refl _, fun _ => .inl, (nomatch ·), Store.inLine_nil,
    ⟨[], .stay, rfl⟩⟩

theorem Stretch.trans (one : Stretch text s s' pieces) (two : Stretch text s' s'' others) :
    Stretch text s s'' (pieces ++ others) := by
  have order : s'.lastEnd ≤ s'.lexer.start.offset := one.clean.last
  refine ⟨one.begun, two.clean, one.leads.trans two.leads, Nat.le_trans one.later two.later,
    one.lasts.trans two.lasts, fun comment member => ?_, fun taken => ?_, ?_, ?_⟩
  · rcases two.comments comment member with old | new
    · exact one.comments comment old
    · exact .inr (Nat.le_trans one.leads.offset_le new)
  · rcases List.mem_append.mp taken with first | second
    · have took := one.took first
      exact ⟨Nat.le_trans took.last two.later, fun more => (took.beyond more).thenTo two.leads⟩
    · have took := two.took second
      refine ⟨Nat.le_trans one.leads.offset_le took.last, fun more => ?_⟩
      by_cases ended : s'.lexer.kind = .endOfFile
      -- The text had not ended, and now it has.
      · have bare := one.clean.lexer.ended.mp ended
        have some := List.length_pos_iff.mpr fun bare => more (one.begun.ended.mpr bare)
        have less : s'.lexer.start.length < s.lexer.start.length := by
          rw [Cursor.length, bare]
          exact some
        exact (Cursor.LeadsBeyond.mk one.leads less).thenTo two.leads
      · exact one.leads.thenBeyond (took.beyond ended)
  · rw [Piece.nodes_append]
    exact (one.line.carry two.lasts).append two.line order one.leads.offset_le two.later
  · obtain ⟨passed, passes, same⟩ := one.shows
    obtain ⟨passed', passes', same'⟩ := two.shows
    refine ⟨passed ++ passed', passes.trans passes', ?_⟩
    rw [Piece.nodes_append, List.flatMap_append, List.filter_append, same, same']
    refine congrArg (· ++ _) (List.flatMap_congr fun id member => ?_)
    obtain ⟨_, _, spans, -⟩ := one.line.within id member
    obtain ⟨_, there⟩ := (Store.exists_shape?_iff s'.store id).mpr ⟨_, spans⟩
    exact (one.clean.nested.shown_carry two.clean.nested two.lasts (Store.lt_size_of_shape? there)).symm

/-- What else was left behind may be forgotten, and so may empty slots. -/
theorem Stretch.forget (stretch : Stretch text s s' pieces) (same : Piece.nodes pieces = Piece.nodes others)
    (taken : Piece.token ∈ others → Piece.token ∈ pieces) : Stretch text s s' others :=
  { stretch with
    took := fun member => stretch.took (taken member)
    line := same ▸ stretch.line
    shows := same ▸ stretch.shows }

/-! ## Tokens and nodes -/

/-- The way over one token, before any node is made. -/
theorem stretch_behind (clean : IsClean text s) (reread : s.lexer.Reread text other)
    (mark : other.kind.isShown = false)
    (more : s.lexer.kind ≠ .endOfFile → other.kind ≠ .endOfFile) :
    Stretch text s (behind s other) [.token] := by
  have order := reread.on.leads.offset_le
  obtain ⟨found, comments, after⟩ := other.scansTo_scan.comments
  refine ⟨clean.lexer, clean.behind reread, ?_, ?_, .refl _, fun comment member => ?_,
    fun _ => .ofBehind reread more, Store.inLine_nil, ⟨[other.token], reread.passes, ?_⟩⟩
  · rw [← reread.start]
    exact reread.on.scan_leads
  · exact Nat.le_trans clean.last (by rw [← reread.start]; exact order)
  · rw [show (Parser.behind s other).lexer.comments = _ from comments] at member
    rcases Array.mem_append.mp member with old | new
    · exact .inl (reread.comments ▸ old)
    · rw [← reread.start]
      exact .inr (Nat.le_trans order (after comment new))
  · rw [List.filter_singleton, show other.token.kind = other.kind from rfl, mark]
    rfl

/-- The way over one token, with a node for it. -/
theorem stretch_leaf (shape : Shape) (flags : Flags) (clean : IsClean text s)
    (reread : s.lexer.Reread text other) (more : s.lexer.kind ≠ .endOfFile → other.kind ≠ .endOfFile)
    {stop : Nat} (leaf : shape.children = []) (order : s.lexer.start.offset ≤ stop)
    (within : stop ≤ other.cursor.offset) (place : Text.IsBoundary text stop)
    (token : shape.token? text s.lexer.start.offset stop =
      if other.kind.isShown then some other.token else none) :
    Stretch text s (adding (behind s other) shape flags s.lexer.start.offset stop)
      [.token, .slot (some s.store.nodes.size)] := by
  have start : s.lexer.start.offset = other.start.offset := by rw [reread.start]
  have long := reread.on.leads.offset_le
  have scans := other.scansTo_scan
  obtain ⟨found, comments, after⟩ := scans.comments
  have behindStart : ∀ comment ∈ (behind s other).lexer.comments,
      comment ∈ s.lexer.comments ∨ s.lexer.start.offset ≤ comment.start := by
    intro comment member
    rw [show (Parser.behind s other).lexer.comments = _ from comments] at member
    rcases Array.mem_append.mp member with old | new
    · exact .inl (reread.comments ▸ old)
    · rw [start]
      exact .inr (Nat.le_trans long (after comment new))
  have lasts : s.store.LastsIn (adding (behind s other) shape flags s.lexer.start.offset stop).store :=
    Store.lastsIn_add _ _ _ _ _
  have clean' : IsClean text (adding (behind s other) shape flags s.lexer.start.offset stop) := by
    refine (clean.behind reread).adding order clean.lexer.start.isBoundary place ?_ ?_ ?_
    · rw [leaf]
      exact Store.inLine_nil
    · rw [start]
      exact reread.on.scan_leads.offset_le
    · exact fun comment member => (behindStart comment member).imp_left (clean.lexer.comments.before comment)
  have spans : (adding (behind s other) shape flags s.lexer.start.offset stop).store.span?
      s.store.nodes.size = some (s.lexer.start.offset, stop) := by
    rw [show (adding (behind s other) shape flags s.lexer.start.offset stop).store.span? _ = _ from
      Store.span?_add s.store _ shape flags _ stop, if_pos rfl]
  have found : (adding (behind s other) shape flags s.lexer.start.offset stop).store.shape?
      (some s.store.nodes.size) = some shape := by
    rw [show (adding (behind s other) shape flags s.lexer.start.offset stop).store.shape? _ = _ from
      Store.shape?_add s.store shape flags _ stop _, if_pos rfl]
  refine ⟨clean.lexer, clean', ?_, ?_, lasts, behindStart, fun _ => ?_, ?_,
    ⟨[other.token], reread.passes, ?_⟩⟩
  · rw [← reread.start]
    exact reread.on.scan_leads
  · exact Nat.le_trans clean.last (start ▸ long)
  · have took := Took.ofBehind reread more
    exact ⟨took.last, took.beyond⟩
  · exact Store.inLine_singleton spans (Nat.le_refl _) order within
  · change _ = [s.store.nodes.size].flatMap _
    rw [List.flatMap_singleton, clean'.nested.shown_eq found, Store.token?_eq _ _ found spans, token, leaf,
      List.flatMap_nil, List.append_nil, List.filter_singleton, show other.token.kind = other.kind from rfl]
    cases other.kind.isShown <;> rfl

/-- A node is made of the slots of a stretch, and spans it. -/
theorem Stretch.node (stretch : Stretch text s s' pieces) {shape : Shape} (flags : Flags)
    (slots : Piece.slots pieces = shape.visible) (taken : Piece.token ∈ pieces)
    (compound : shape.isCompound = true) :
    Stretch text s (adding s' shape flags s.lexer.start.offset s'.lastEnd)
      [.token, .slot (some s'.store.nodes.size)] := by
  have took := stretch.took taken
  have children : Piece.nodes pieces = shape.children := congrArg (List.filterMap id) slots
  have lasts : s'.store.LastsIn (adding s' shape flags s.lexer.start.offset s'.lastEnd).store :=
    Store.lastsIn_add _ _ _ _ _
  have clean : IsClean text (adding s' shape flags s.lexer.start.offset s'.lastEnd) := by
    refine stretch.clean.adding took.last stretch.begun.start.isBoundary stretch.clean.place
      (children ▸ stretch.line) stretch.leads.offset_le fun comment member => ?_
    exact (stretch.comments comment member).imp_left (stretch.begun.comments.before comment)
  have spans : (adding s' shape flags s.lexer.start.offset s'.lastEnd).store.span?
      s'.store.nodes.size = some (s.lexer.start.offset, s'.lastEnd) := by
    rw [show (adding s' shape flags s.lexer.start.offset s'.lastEnd).store.span? _ = _ from
      Store.span?_add s'.store _ shape flags _ _, if_pos rfl]
  have found : (adding s' shape flags s.lexer.start.offset s'.lastEnd).store.shape?
      (some s'.store.nodes.size) = some shape := by
    rw [show (adding s' shape flags s.lexer.start.offset s'.lastEnd).store.shape? _ = _ from
      Store.shape?_add s'.store shape flags _ _ _, if_pos rfl]
  obtain ⟨passed, passes, same⟩ := stretch.shows
  refine ⟨stretch.begun, clean, stretch.leads, stretch.later, stretch.lasts.trans lasts,
    stretch.comments, fun _ => ⟨took.last, took.beyond⟩,
    Store.inLine_singleton spans (Nat.le_refl _) took.last (Nat.le_refl _), passed, passes, ?_⟩
  change _ = [s'.store.nodes.size].flatMap _
  rw [same, List.flatMap_singleton, clean.nested.shown_eq found, Store.token?_eq _ _ found spans,
    Shape.token?_of_isCompound compound, Option.toList_none, List.nil_append, children]
  refine List.flatMap_congr fun child listed => ?_
  obtain ⟨_, _, there, -⟩ := stretch.line.within child (children ▸ listed)
  obtain ⟨_, also⟩ := (Store.exists_shape?_iff s'.store child).mpr ⟨_, there⟩
  exact (stretch.clean.nested.shown_carry clean.nested lasts (Store.lt_size_of_shape? also)).symm

end Clean

end Parser

end Unflatten
