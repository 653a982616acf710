import Mathlib
import Unflatten.Token.Lexer

/-! # Places lead to later places

Every reader of the lexer starts at a place and answers a later one.  `Cursor.LeadsTo` says that a
stretch of text stands between two places and that the offsets count its bytes, and
`Cursor.LeadsBeyond` that the stretch is not empty.  So every place that a lexer reaches lies in
its text (`Cursor.IsIn`), between two characters. -/

set_option autoImplicit false

namespace Unflatten

/-! ## Bytes -/

namespace Text

@[simp] theorem byteCount_nil : byteCount [] = 0 := rfl

theorem foldl_utf8Size (text : List Char) (count : Nat) :
    text.foldl (fun count c => count + c.utf8Size) count = count + byteCount text := by
  induction text generalizing count with
  | nil => rfl
  | cons c rest ih =>
    rw [byteCount, List.foldl_cons, List.foldl_cons, ih, ih]
    omega

@[simp] theorem byteCount_cons (c : Char) (rest : List Char) :
    byteCount (c :: rest) = c.utf8Size + byteCount rest := by
  rw [byteCount, List.foldl_cons, foldl_utf8Size, Nat.zero_add]

@[simp] theorem byteCount_append (first second : List Char) :
    byteCount (first ++ second) = byteCount first + byteCount second := by
  rw [byteCount, List.foldl_append, foldl_utf8Size]
  rfl

theorem takeBytes_append (first second : List Char) :
    takeBytes (byteCount first) (first ++ second) = first := by
  induction first with
  | nil => cases second <;> rfl
  | cons c rest ih =>
    have filled := c.utf8Size_pos
    rw [byteCount_cons, List.cons_append, takeBytes, if_neg (by omega), Nat.add_sub_cancel_left, ih]

theorem dropBytes_append (first second : List Char) :
    dropBytes (byteCount first) (first ++ second) = second := by
  induction first with
  | nil => cases second <;> rfl
  | cons c rest ih =>
    have filled := c.utf8Size_pos
    rw [byteCount_cons, List.cons_append, dropBytes, if_neg (by omega), Nat.add_sub_cancel_left, ih]

/-- An offset between two characters of a text, or at one of its ends. -/
def IsBoundary (text : List Char) (offset : Nat) : Prop :=
  ∃ front back, text = front ++ back ∧ offset = byteCount front

theorem IsBoundary.le {text : List Char} {offset : Nat} (boundary : IsBoundary text offset) :
    offset ≤ byteCount text := by
  obtain ⟨front, back, rfl, rfl⟩ := boundary
  rw [byteCount_append]
  exact Nat.le_add_right _ _

end Text

namespace Cursor

/-! ## From place to place -/

/-- A stretch of text stands between two places. -/
def LeadsTo (start stop : Cursor) : Prop :=
  ∃ front, start.rest = front ++ stop.rest ∧ stop.offset = start.offset + Text.byteCount front

/-- At least one character stands between two places. -/
structure LeadsBeyond (start stop : Cursor) : Prop where
  leads : start.LeadsTo stop
  less : stop.length < start.length

/-- A place in a text. -/
def IsIn (cursor : Cursor) (text : List Char) : Prop := (ofText text).LeadsTo cursor

section Leading
variable {first second third cursor : Cursor} {text : List Char}

theorem LeadsTo.refl (cursor : Cursor) : cursor.LeadsTo cursor := ⟨[], rfl, rfl⟩

theorem LeadsTo.trans (one : first.LeadsTo second) (two : second.LeadsTo third) :
    first.LeadsTo third := by
  obtain ⟨front, rest, offset⟩ := one
  obtain ⟨back, rest', offset'⟩ := two
  refine ⟨front ++ back, ?_, ?_⟩
  · rw [rest, rest', List.append_assoc]
  · rw [offset', offset, Text.byteCount_append, Nat.add_assoc]

theorem LeadsTo.offset_le (leads : first.LeadsTo second) : first.offset ≤ second.offset := by
  obtain ⟨front, -, offset⟩ := leads
  omega

theorem LeadsTo.length_le (leads : first.LeadsTo second) : second.length ≤ first.length := by
  obtain ⟨front, rest, -⟩ := leads
  simp only [length, rest, List.length_append]
  omega

/-- What stands between two places is the text from one to the other. -/
theorem LeadsTo.rest_eq (leads : first.LeadsTo second) :
    first.rest = first.textTo second ++ second.rest := by
  obtain ⟨front, rest, offset⟩ := leads
  have same : first.textTo second = front := by
    rw [textTo, offset, Nat.add_sub_cancel_left, rest, Text.takeBytes_append]
  rw [same, rest]

theorem LeadsBeyond.offset_lt (beyond : first.LeadsBeyond second) :
    first.offset < second.offset := by
  obtain ⟨⟨front, rest, offset⟩, less⟩ := beyond
  cases front with
  | nil =>
    rw [length, length, rest] at less
    exact absurd less (Nat.lt_irrefl _)
  | cons c front =>
    have filled := c.utf8Size_pos
    rw [Text.byteCount_cons] at offset
    omega

theorem LeadsBeyond.thenTo (one : first.LeadsBeyond second) (two : second.LeadsTo third) :
    first.LeadsBeyond third :=
  ⟨one.leads.trans two, Nat.lt_of_le_of_lt two.length_le one.less⟩

theorem LeadsTo.thenBeyond (one : first.LeadsTo second) (two : second.LeadsBeyond third) :
    first.LeadsBeyond third :=
  ⟨one.trans two.leads, Nat.lt_of_lt_of_le two.less one.length_le⟩

theorem IsIn.then (inside : first.IsIn text) (leads : first.LeadsTo second) : second.IsIn text :=
  LeadsTo.trans inside leads

theorem IsIn.isBoundary (inside : cursor.IsIn text) : Text.IsBoundary text cursor.offset := by
  obtain ⟨front, rest, offset⟩ := inside
  exact ⟨front, cursor.rest, rest, by rw [offset, ofText, Nat.zero_add]⟩

/-- The text that is left at a place is what stands behind its offset. -/
theorem IsIn.rest_eq (inside : cursor.IsIn text) : cursor.rest = Text.dropBytes cursor.offset text := by
  obtain ⟨front, rest, offset⟩ := inside
  have split : text = front ++ cursor.rest := rest
  rw [offset, ofText, Nat.zero_add, split, Text.dropBytes_append]

/-- At the end of a text all bytes are counted. -/
theorem IsIn.offset_eq (inside : cursor.IsIn text) (ended : cursor.rest = []) :
    cursor.offset = Text.byteCount text := by
  obtain ⟨front, rest, offset⟩ := inside
  have split : text = front ++ cursor.rest := rest
  rw [offset, ofText, Nat.zero_add, split, ended, List.append_nil]

end Leading

/-! ## Readers lead on -/

section Readers
variable {cursor : Cursor}

theorem leadsTo_step (cursor : Cursor) : cursor.LeadsTo cursor.step := by
  obtain ⟨text, offset⟩ := cursor
  cases text with
  | nil => exact .refl _
  | cons c rest => exact ⟨[c], rfl, by simp [step]⟩

theorem leadsBeyond_step {c : Char} {rest : List Char} (here : cursor.rest = c :: rest) :
    cursor.LeadsBeyond cursor.step := ⟨cursor.leadsTo_step, length_step_lt here⟩

theorem leadsTo_advance (cursor : Cursor) (count : Nat) : cursor.LeadsTo (cursor.advance count) := by
  induction count generalizing cursor with
  | zero => exact .refl _
  | succ count ih => exact cursor.leadsTo_step.trans (ih cursor.step)

theorem leadsTo_skipWhile (cursor : Cursor) (inClass : Char → Bool) :
    cursor.LeadsTo (cursor.skipWhile inClass) := by
  have all : ∀ (text : List Char) (offset : Nat),
      (Cursor.mk text offset).LeadsTo (skipWhile.go inClass text offset) := by
    intro text
    induction text with
    | nil => exact fun offset => .refl _
    | cons c rest ih =>
      intro offset
      rw [skipWhile.go]
      split
      · exact (leadsTo_step ⟨c :: rest, offset⟩).trans (ih _)
      · exact .refl _
  exact all cursor.rest cursor.offset

/-- A character of the class is skipped. -/
theorem leadsBeyond_skipWhile {inClass : Char → Bool} {c : Char} {rest : List Char}
    (here : cursor.rest = c :: rest) (member : inClass c = true) :
    cursor.LeadsBeyond (cursor.skipWhile inClass) := by
  have same : cursor.skipWhile inClass = cursor.step.skipWhile inClass := by
    simp only [skipWhile, step, here, skipWhile.go, if_pos member]
  rw [same]
  exact (leadsBeyond_step here).thenTo (leadsTo_skipWhile _ _)

theorem leadsTo_skipExponent (cursor : Cursor) : cursor.LeadsTo cursor.skipExponent := by
  have sign : cursor.LeadsTo (if cursor.step.next (fun c => c = '+' ∨ c = '-') then cursor.step.step
      else cursor.step) := by
    split
    · exact cursor.leadsTo_step.trans (leadsTo_step _)
    · exact cursor.leadsTo_step
  unfold skipExponent
  simp only
  generalize (if cursor.step.next (fun c => c = '+' ∨ c = '-') then cursor.step.step
    else cursor.step) = digits at sign
  split
  · split
    · exact sign.trans (leadsTo_skipWhile _ _)
    · exact .refl _
  · exact .refl _

/-- A number starts with a digit, or with a point before one. -/
theorem leadsBeyond_skipNumber {c : Char} {rest : List Char} (here : cursor.rest = c :: rest)
    (opens : (c.isDigit || (c = '.' && cursor.step.next Char.isDigit)) = true) :
    cursor.LeadsBeyond cursor.skipNumber := by
  unfold skipNumber
  simp only
  split
  · exact (leadsBeyond_step here).thenTo ((leadsTo_step _).trans (leadsTo_skipWhile _ _))
  · refine .thenTo ?_ (leadsTo_skipExponent _)
    by_cases digit : c.isDigit = true
    · have whole : cursor.LeadsBeyond (cursor.skipWhile fun c => c.isDigit || c = '_') :=
        leadsBeyond_skipWhile here (by rw [digit, Bool.true_or])
      split
      · exact whole.thenTo ((leadsTo_step _).trans (leadsTo_skipWhile _ _))
      · exact whole
    · have point : c = '.' := by
        have both := (Bool.or_eq_true_iff.mp opens).resolve_left digit
        simpa using (Bool.and_eq_true_iff.mp both).1
      subst point
      have stays : (cursor.skipWhile fun c => c.isDigit || c = '_') = cursor := by
        obtain ⟨_, offset⟩ := cursor
        simp only at here
        subst here
        rfl
      rw [stays, if_pos (by rw [next, here]; rfl)]
      exact (leadsBeyond_step here).thenTo (leadsTo_skipWhile _ _)

theorem leadsTo_readHex (cursor : Cursor) (most count value : Nat) :
    cursor.LeadsTo (cursor.readHex most count value).2.2 := by
  induction most generalizing cursor count value with
  | zero => exact .refl _
  | succ most ih =>
    unfold readHex
    split
    · split
      · exact cursor.leadsTo_step.trans (ih _ _ _)
      · exact .refl _
    · exact .refl _

theorem leadsTo_readCode (cursor : Cursor) (least most : Nat) :
    cursor.LeadsTo (cursor.readCode least most).2 := cursor.leadsTo_readHex most 0 0

theorem leadsTo_readOctal (cursor : Cursor) (most value : Nat) :
    cursor.LeadsTo (cursor.readOctal most value).2 := by
  induction most generalizing cursor value with
  | zero => exact .refl _
  | succ most ih =>
    unfold readOctal
    split
    · split
      · exact cursor.leadsTo_step.trans (ih _ _)
      · exact .refl _
    · exact .refl _

theorem leadsTo_readUnicode (cursor : Cursor) : cursor.LeadsTo cursor.readUnicode.2 := by
  have code := cursor.leadsTo_readCode 4 4
  have braced := cursor.leadsTo_step.trans (cursor.step.leadsTo_readCode 1 6)
  unfold readUnicode
  split
  · simp only
    split
    · exact braced.trans (leadsTo_step _)
    · exact braced
  · simp only
    split
    · split
      · have second := code.trans ((leadsTo_advance _ 2).trans (leadsTo_readCode _ 4 4))
        split
        · rename_i pair
          rw [pair] at second
          split
          · exact second
          · exact code
        · exact code
      · exact code
    · exact code

theorem leadsTo_readEscape (cursor : Cursor) : cursor.LeadsTo cursor.readEscape.2 := by
  have after := cursor.leadsTo_step
  unfold readEscape
  split
  · exact .refl _
  · simp only
    split
    · exact after
    · exact after
    · exact after
    · exact after
    · exact after
    · exact after
    · exact after.trans (leadsTo_readCode _ 2 2)
    · exact after.trans (leadsTo_readUnicode _)
    · split
      · exact after.trans (leadsTo_step _)
      · exact after
    · exact after
    · exact after
    · exact after
    · split
      · exact after
      · split
        · exact after.trans (leadsTo_readOctal _ _ _)
        · exact after

theorem leadsTo_readString (quote : Char) (cursor : Cursor) (value : List Char) :
    cursor.LeadsTo (readString quote cursor value).2.1 := by
  fun_induction readString quote cursor value with
  | case1 => exact .refl _
  | case2 => exact leadsTo_step _
  | case3 cursor value rest here differs escape ih =>
    exact ((leadsTo_step _).trans (leadsTo_readEscape _)).trans ih
  | case4 => exact .refl _
  | case5 cursor value c rest here differs noEscape noEnd ih => exact (leadsTo_step _).trans ih

theorem leadsTo_readPattern (inClass : Bool) (text : List Char) (offset : Nat) :
    (Cursor.mk text offset).LeadsTo (readPattern inClass text offset).1 := by
  fun_induction readPattern inClass text offset with
  | case1 => exact .refl _
  | case2 => exact ⟨['\\'], rfl, rfl⟩
  | case3 inClass offset c more ih =>
    have escaped : (Cursor.mk ('\\' :: c :: more) offset).LeadsTo ⟨more, offset + 1 + c.utf8Size⟩ :=
      ⟨['\\', c], rfl, Nat.add_assoc _ _ _⟩
    exact escaped.trans ih
  | case4 => exact .refl _
  | case5 inClass c rest offset _ _ closes =>
    have slash : c = '/' := of_decide_eq_true (Bool.and_eq_true_iff.mp closes).1
    exact ⟨['/'], by rw [slash]; rfl, rfl⟩
  | case6 inClass c rest offset _ _ _ ih => exact (leadsTo_step ⟨c :: rest, offset⟩).trans ih

theorem leadsTo_skipBlockComment (text : List Char) (offset : Nat) :
    (Cursor.mk text offset).LeadsTo (skipBlockComment text offset).1 := by
  fun_induction skipBlockComment text offset with
  | case1 => exact .refl _
  | case2 rest offset => exact ⟨['*', '/'], rfl, rfl⟩
  | case3 c rest offset closing ih => exact (leadsTo_step ⟨c :: rest, offset⟩).trans ih

end Readers

end Cursor

end Unflatten
