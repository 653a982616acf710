import Unflatten.Printer.Quoted
import Unflatten.Proofs.Token.Lexemes
import Unflatten.Proofs.Token.Scanning

/-! # Quoted strings are read back

Each character of a string is written as itself or as an escape, and either is read as the
character (`readString_quoteChar`).  A character beyond the basic plane is written as two escapes,
which are read as one.  So scanning a quoted string finds the string and nothing else
(`scan_quote`). -/

set_option autoImplicit false

namespace Unflatten

namespace Cursor
variable {c : Char} {text value : List Char} {offset : Nat}

/-! ## Hexadecimal digits -/

theorem hexDigit_upper (digit : Nat) : isHexDigit (Nat.digitChar (digit % 16)).toUpper = true ∧
    hexValue (Nat.digitChar (digit % 16)).toUpper = digit % 16 ∧
    (Nat.digitChar (digit % 16)).toUpper ≠ '\x7b' := by
  have each : ∀ d : Fin 16, isHexDigit (Nat.digitChar d).toUpper = true ∧
      hexValue (Nat.digitChar d).toUpper = d ∧ (Nat.digitChar d).toUpper ≠ '\x7b' := by decide
  exact each ⟨digit % 16, Nat.mod_lt _ (by decide)⟩

/-- The last digits of a number are read on top of what was read before. -/
theorem readHex_upperHex (digits most count number before : Nat) (text : List Char) (offset : Nat) :
    ∃ place, (Cursor.mk (upperHex digits number ++ text) offset).readHex (digits + most) count before =
      (Cursor.mk text place).readHex most (count + digits)
        (before * 16 ^ digits + number % 16 ^ digits) := by
  induction digits generalizing most number text with
  | zero => exact ⟨offset, by simp [upperHex, Nat.mod_one]⟩
  | succ digits ih =>
    obtain ⟨place, read⟩ := ih (most + 1) (number / 16)
      ((Nat.digitChar (number % 16)).toUpper :: text)
    obtain ⟨isHex, isValue, -⟩ := hexDigit_upper number
    refine ⟨place + (Nat.digitChar (number % 16)).toUpper.utf8Size, ?_⟩
    have split : before * 16 ^ (digits + 1) + number % 16 ^ (digits + 1) =
        (before * 16 ^ digits + number / 16 % 16 ^ digits) * 16 + number % 16 := by
      rw [Nat.pow_succ', Nat.mod_mul]
      ring
    rw [upperHex, List.append_assoc, List.singleton_append, Nat.add_assoc, Nat.add_comm 1 most, read,
      readHex]
    simp only [isHex, if_true, isValue, step]
    rw [split]
    rfl

theorem readCode_upperHex (digits number : Nat) (small : number < 16 ^ digits) (text : List Char)
    (offset : Nat) : ∃ place, (Cursor.mk (upperHex digits number ++ text) offset).readCode digits digits =
      (some number, ⟨text, place⟩) := by
  obtain ⟨place, read⟩ := readHex_upperHex digits 0 0 number 0 text offset
  refine ⟨place, ?_⟩
  rw [Nat.add_zero] at read
  rw [readCode, read, readHex, Nat.mod_eq_of_lt small]
  simp

theorem codePoint_toNat (c : Char) : codePoint (some c.toNat) = c := by
  rw [codePoint]
  split
  · exact Char.ofNat_toNat c
  · exact absurd c.valid ‹_›

/-! ## Escapes -/

theorem next_upperHex (number : Nat) (text : List Char) (offset : Nat) :
    (Cursor.mk (upperHex 4 number ++ text) offset).next (· = '\x7b') = false :=
  decide_eq_false (hexDigit_upper (number / 16 / 16 / 16)).2.2

theorem readUnicode_basic (small : c.toNat < 0x10000) (text : List Char) (offset : Nat) :
    ∃ place, (Cursor.mk (upperHex 4 c.toNat ++ text) offset).readUnicode = (c, ⟨text, place⟩) := by
  obtain ⟨place, read⟩ := readCode_upperHex 4 c.toNat small text offset
  -- no character is a surrogate
  have single : ¬(0xd800 ≤ c.toNat ∧ c.toNat < 0xdc00 ∧
      (Cursor.mk text place).startsWith ['\\', 'u'] = true) := by
    rintro ⟨least, most, -⟩
    rcases c.valid with low | ⟨high, -⟩
    · exact absurd low (Nat.not_lt_of_le least)
    · have code : c.val.toNat = c.toNat := rfl
      omega
  refine ⟨place, ?_⟩
  rw [readUnicode, next_upperHex]
  simp only [Bool.false_eq_true, if_false, read, if_neg single, codePoint_toNat]

/-- Two surrogates are one character. -/
theorem readUnicode_pair {high low : Nat} (isHigh : 0xd800 ≤ high ∧ high < 0xdc00)
    (isLow : 0xdc00 ≤ low ∧ low < 0xe000)
    (whole : 0x10000 + (high - 0xd800) * 1024 + (low - 0xdc00) = c.toNat) (text : List Char)
    (offset : Nat) : ∃ place, (Cursor.mk (upperHex 4 high ++ '\\' :: 'u' :: (upperHex 4 low ++ text))
      offset).readUnicode = (c, ⟨text, place⟩) := by
  obtain ⟨middle, first⟩ := readCode_upperHex 4 high (by omega)
    ('\\' :: 'u' :: (upperHex 4 low ++ text)) offset
  obtain ⟨place, second⟩ := readCode_upperHex 4 low (by omega) text
    (middle + '\\'.utf8Size + 'u'.utf8Size)
  have opens : 0xd800 ≤ high ∧ high < 0xdc00 ∧
      (Cursor.mk ('\\' :: 'u' :: (upperHex 4 low ++ text)) middle).startsWith ['\\', 'u'] = true :=
    ⟨isHigh.1, isHigh.2, rfl⟩
  refine ⟨place, ?_⟩
  rw [readUnicode, next_upperHex]
  simp only [Bool.false_eq_true, if_false, first, if_pos opens, advance, step, second, if_pos isLow,
    whole, codePoint_toNat]

theorem readString_escape {escape : List Char} {after : Nat}
    (read : (Cursor.mk (escape ++ text) (offset + '\\'.utf8Size)).readEscape = ([c], ⟨text, after⟩)) :
    readString '"' ⟨'\\' :: escape ++ text, offset⟩ value = readString '"' ⟨text, after⟩ (c :: value) := by
  rw [readString]
  simp only [List.cons_append, step, read]
  rfl

theorem readString_plain (noQuote : c ≠ '"') (noEscape : c ≠ '\\') (noEnd : ¬(c = '\n' ∨ c = '\r')) :
    readString '"' ⟨c :: text, offset⟩ value =
      readString '"' ⟨text, offset + c.utf8Size⟩ (c :: value) := by
  rw [readString]
  simp only [if_neg noQuote, if_neg noEscape, if_neg noEnd, step]

theorem readEscape_hex (small : c.toNat < 0x100) :
    ∃ place, (Cursor.mk ('x' :: upperHex 2 c.toNat ++ text) offset).readEscape = ([c], ⟨text, place⟩) := by
  obtain ⟨place, read⟩ := readCode_upperHex 2 c.toNat small text (offset + 'x'.utf8Size)
  refine ⟨place, ?_⟩
  simp only [List.cons_append, readEscape, step, read, codePoint_toNat]

theorem readEscape_unicode {code : List Char} {place : Nat}
    (read : (Cursor.mk (code ++ text) (offset + 'u'.utf8Size)).readUnicode = (c, ⟨text, place⟩)) :
    (Cursor.mk ('u' :: code ++ text) offset).readEscape = ([c], ⟨text, place⟩) := by
  simp only [List.cons_append, readEscape, step, read]

/-- The escapes of the units of a character are read as the character. -/
theorem readString_units (c : Char) (text value : List Char) (offset : Nat) :
    ∃ place, readString '"' ⟨((Text.units c).flatMap fun unit => '\\' :: 'u' :: upperHex 4 unit) ++ text,
      offset⟩ value = readString '"' ⟨text, place⟩ (c :: value) := by
  rw [Text.units]
  split
  · rename_i small
    obtain ⟨place, read⟩ := readUnicode_basic small text (offset + '\\'.utf8Size + 'u'.utf8Size)
    rw [List.flatMap_singleton]
    exact ⟨place, readString_escape (readEscape_unicode read)⟩
  · rename_i large
    have bound : c.toNat < 0x110000 := by
      rcases c.valid with low | ⟨-, high⟩
      · exact Nat.lt_trans low (by decide)
      · exact high
    generalize isHigh : 0xd800 + (c.toNat - 0x10000) / 1024 = high
    generalize isLow : 0xdc00 + (c.toNat - 0x10000) % 1024 = low
    obtain ⟨place, read⟩ := @readUnicode_pair c high low ⟨by omega, by omega⟩ ⟨by omega, by omega⟩
      (by omega) text (offset + '\\'.utf8Size + 'u'.utf8Size)
    refine ⟨place, ?_⟩
    have joined : [high, low].flatMap (fun unit => '\\' :: 'u' :: upperHex 4 unit) =
        '\\' :: 'u' :: (upperHex 4 high ++ '\\' :: 'u' :: upperHex 4 low) := by
      simp
    rw [joined]
    refine readString_escape (readEscape_unicode ?_)
    rwa [List.append_assoc]

/-- What stands for a character in a literal is read as the character. -/
theorem readString_quoteChar (asciiOnly : Bool) (c : Char) (text value : List Char) (offset : Nat) :
    ∃ place, readString '"' ⟨quoteChar asciiOnly c ++ text, offset⟩ value =
      readString '"' ⟨text, place⟩ (c :: value) := by
  unfold quoteChar
  split
  · exact ⟨_, readString_escape rfl⟩
  · exact ⟨_, readString_escape rfl⟩
  · exact ⟨_, readString_escape rfl⟩
  · exact ⟨_, readString_escape rfl⟩
  · exact ⟨_, readString_escape rfl⟩
  · exact ⟨_, readString_escape rfl⟩
  · exact ⟨_, readString_escape rfl⟩
  · rename_i noQuote noEscape noFeed noReturn _ _ _
    split
    · rename_i control
      obtain ⟨place, read⟩ := @readEscape_hex c text (offset + '\\'.utf8Size) (by
        rcases control with low | rfl
        · exact Nat.lt_trans low (by decide)
        · decide)
      exact ⟨place, readString_escape read⟩
    · split
      · exact readString_units c text value offset
      · exact ⟨_, readString_plain noQuote noEscape (not_or.mpr ⟨noFeed, noReturn⟩)⟩

/-- A string is read back up to its closing quote. -/
theorem readString_quoted (asciiOnly : Bool) (string rest value : List Char) (offset : Nat) :
    ∃ place, readString '"' ⟨string.flatMap (quoteChar asciiOnly) ++ '"' :: rest, offset⟩ value =
      (value.reverse ++ string, ⟨rest, place⟩, true) := by
  induction string generalizing value offset with
  | nil =>
    refine ⟨offset + '"'.utf8Size, ?_⟩
    rw [List.flatMap_nil, List.nil_append, readString, List.append_nil]
    rfl
  | cons c string ih =>
    obtain ⟨middle, first⟩ := readString_quoteChar asciiOnly c
      (string.flatMap (quoteChar asciiOnly) ++ '"' :: rest) value offset
    obtain ⟨place, others⟩ := ih (c :: value) middle
    refine ⟨place, ?_⟩
    rw [List.flatMap_cons, List.append_assoc, first, others, List.reverse_cons, List.append_assoc,
      List.singleton_append]

end Cursor

/-- A quoted string is read as the string, whatever follows. -/
theorem reads_quote (string : String) (asciiOnly : Bool) (rest : List Char) :
    Lexeme.Reads ⟨.stringLiteral, string⟩ (quote string asciiOnly).toList rest := by
  have spelled : (quote string asciiOnly).toList =
      '"' :: (string.toList.flatMap (quoteChar asciiOnly) ++ ['"']) := String.toList_ofList
  rw [spelled]
  refine ⟨List.cons_ne_nil _ _, fun offset => rfl, fun offset => ?_⟩
  obtain ⟨place, read⟩ := Cursor.readString_quoted asciiOnly string.toList rest [] (offset + '"'.utf8Size)
  refine ⟨⟨rest, place⟩, rfl, ?_⟩
  have opening : (Cursor.mk ('"' :: (string.toList.flatMap (quoteChar asciiOnly) ++ ['"']) ++ rest)
      offset).step = ⟨string.toList.flatMap (quoteChar asciiOnly) ++ '"' :: rest, offset + '"'.utf8Size⟩ := by
    rw [List.cons_append, List.append_assoc]
    rfl
  rw [Cursor.tokenAt]
  simp only [List.cons_append, true_or, if_true]
  rw [← List.cons_append, opening, read]
  simp

/-! ## The whole text -/

namespace Lexer

/-- Where nothing is left a scan finds the end of the text and collects nothing. -/
theorem scan_of_nil {lexer : Lexer} (bare : lexer.cursor.rest = []) :
    lexer.scan.kind = .endOfFile ∧ lexer.scan.comments = lexer.comments ∧
      lexer.scan.errors = lexer.errors := by
  have noTrivia : lexer.cursor.triviaAt? = none := by
    unfold Cursor.triviaAt?
    rw [bare]
  have ended : lexer.cursor.tokenAt = ⟨.endOfFile, lexer.cursor, "", none⟩ := by
    unfold Cursor.tokenAt
    rw [bare]
  have read : lexer.scan = read { lexer with
      fullStart := lexer.cursor.offset, lineBreakBefore := false, value := "" } := settle_of_none noTrivia
  rw [read]
  refine ⟨congrArg ReadToken.kind ended, rfl, ?_⟩
  change lexer.errors ++ lexer.cursor.tokenAt.error?.toArray = lexer.errors
  rw [ended]
  exact Array.append_empty

end Lexer

/-- A quoted string is scanned as one token: a string that spans the whole text and has the value
that was quoted.  Behind it the text ends, and nothing is wrong with it. -/
theorem scan_quote (value : String) (asciiOnly keepTrivia : Bool) :
    let text := (quote value asciiOnly).toList
    let first := (Lexer.ofText text keepTrivia).scan
    first.kind = .stringLiteral ∧ first.value = value ∧
      first.fullStart = 0 ∧ first.start.offset = 0 ∧ first.cursor.offset = Text.byteCount text ∧
      first.text = quote value asciiOnly ∧
      first.scan.kind = .endOfFile ∧ first.scan.errors = #[] ∧ first.scan.comments = #[] := by
  intro text first
  have reads := reads_quote value asciiOnly []
  have place : Cursor.ofText text = ⟨(quote value asciiOnly).toList ++ [], 0⟩ := by
    rw [List.append_nil]
    rfl
  obtain ⟨after, bare, token⟩ := reads.read 0
  rw [← place] at token
  have noTrivia : (Cursor.ofText text).triviaAt? = none := by
    rw [place]
    exact reads.bare 0
  have read : first = (Lexer.ofText text keepTrivia).read := Lexer.settle_of_none noTrivia
  have leads : (Cursor.ofText text).LeadsTo after := by
    have isAt := (Cursor.ofText text).tokenAt_isAt.leads
    rwa [token] at isAt
  have cursor : first.cursor = after := by
    rw [read]
    exact congrArg ReadToken.after token
  have whole : first.text = quote value asciiOnly := by
    have spans := leads.rest_eq
    rw [bare, List.append_nil] at spans
    rw [Lexer.text, cursor, read]
    exact (congrArg String.ofList spans.symm).trans String.ofList_toList
  obtain ⟨ended, comments, errors⟩ := Lexer.scan_of_nil (cursor ▸ bare : first.cursor.rest = [])
  refine ⟨?_, ?_, ?_, ?_, ?_, whole, ended, ?_, ?_⟩
  · rw [read]
    exact congrArg ReadToken.kind token
  · rw [read]
    exact congrArg ReadToken.value token
  · rw [read]
    rfl
  · rw [read]
    rfl
  · rw [cursor]
    exact Cursor.IsIn.offset_eq leads bare
  · rw [errors, read]
    change #[] ++ (Cursor.ofText text).tokenAt.error?.toArray = #[]
    rw [token]
    rfl
  · rw [comments, read]
    rfl

end Unflatten
