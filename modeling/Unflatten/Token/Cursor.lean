import Unflatten.Token.Comment

/-! # A place in the source

A `Cursor` holds the text that is left and the number of bytes before it.  Its steps
keep the two in agreement, and each of them leaves a text that is no longer than
before (`Cursor.length`). -/

set_option autoImplicit false

namespace Unflatten

/-- The text from a place on, with the byte offset of the place. -/
structure Cursor where
  rest : List Char
  offset : Nat
  deriving DecidableEq, Repr, Inhabited

namespace Cursor

/-- The start of a text. -/
def ofText (text : List Char) : Cursor := ⟨text, 0⟩

/-- The number of characters left. -/
def length (cursor : Cursor) : Nat := cursor.rest.length

/-- The place behind the next character. -/
def step (cursor : Cursor) : Cursor :=
  match cursor.rest with
  | [] => cursor
  | c :: rest => ⟨rest, cursor.offset + c.utf8Size⟩

/-- The place behind the next characters. -/
def advance (cursor : Cursor) : Nat → Cursor
  | 0 => cursor
  | count + 1 => cursor.step.advance count

/-- Whether the text that is left starts with the given one. -/
def startsWith (cursor : Cursor) (text : List Char) : Bool := text.isPrefixOf cursor.rest

/-- The place behind all characters of a class. -/
def skipWhile (cursor : Cursor) (inClass : Char → Bool) : Cursor :=
  go cursor.rest cursor.offset
where
  go : List Char → Nat → Cursor
    | [], offset => ⟨[], offset⟩
    | c :: rest, offset =>
      if inClass c then go rest (offset + c.utf8Size) else ⟨c :: rest, offset⟩

/-- The text from one place to a later one. -/
def textTo (start stop : Cursor) : List Char :=
  Text.takeBytes (stop.offset - start.offset) start.rest

/-- Whether the next character satisfies a test. -/
def next (cursor : Cursor) (test : Char → Bool) : Bool :=
  match cursor.rest with
  | [] => false
  | c :: _ => test c

theorem length_step_le (cursor : Cursor) : cursor.step.length ≤ cursor.length := by
  unfold step length
  split <;> simp_all

theorem length_step_lt {cursor : Cursor} {c : Char} {rest : List Char}
    (here : cursor.rest = c :: rest) : cursor.step.length < cursor.length := by
  simp [step, length, here]

theorem length_advance_le (cursor : Cursor) (count : Nat) :
    (cursor.advance count).length ≤ cursor.length := by
  induction count generalizing cursor with
  | zero => exact Nat.le_refl _
  | succ count ih => exact Nat.le_trans (ih cursor.step) cursor.length_step_le

theorem length_skipWhile_le (cursor : Cursor) (inClass : Char → Bool) :
    (cursor.skipWhile inClass).length ≤ cursor.length := by
  have bound : ∀ (text : List Char) (offset : Nat),
      (skipWhile.go inClass text offset).length ≤ text.length := by
    intro text
    induction text with
    | nil => intro offset; exact Nat.le_refl _
    | cons c rest ih =>
      intro offset
      unfold skipWhile.go
      split
      · exact Nat.le_succ_of_le (ih _)
      · exact Nat.le_refl _
  exact bound cursor.rest cursor.offset

end Cursor

end Unflatten
