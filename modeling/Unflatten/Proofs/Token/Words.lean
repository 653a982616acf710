import Unflatten.Proofs.Token.Lexemes
import Unflatten.Token.Precedence

/-! # Words that are read as they are written

Which words are read as one token depends on the character behind them: a name and a number need
one that cannot continue them (`stops`), an operator between operands stands before a space, and a
sign must not meet another. -/

set_option autoImplicit false

namespace Unflatten

/-- What may stand right behind an operand. -/
def stops : List Char := [' ', '(', ')', '[', ']', ',', ';', '+', '-', '.']

/-- The text goes on with one of some characters, or ends. -/
def GoesOn (text : List Char) (characters : List Char) : Prop := ∀ c ∈ text.head?, c ∈ characters

theorem GoesOn.of_mem {c : Char} {text characters : List Char} (stop : c ∈ characters) :
    GoesOn (c :: text) characters := fun other here => by
  cases here
  exact stop

/-! ## What a token starts with -/

namespace Cursor
variable {c : Char} {rest : List Char} {offset : Nat}

/-- A token that starts so is neither a string nor a number. -/
structure OpensMark (c : Char) (rest : List Char) : Prop where
  noQuote : ¬(c = '"' ∨ c = '\'')
  noDigit : c.isDigit = false
  noPoint : ¬(c = '.' ∧ ∃ d ∈ rest.head?, d.isDigit = true)

theorem OpensMark.noNumber (opens : OpensMark c rest) :
    (c.isDigit || (c = '.' && (Cursor.mk (c :: rest) offset).step.next Char.isDigit)) = false := by
  rw [opens.noDigit, Bool.false_or, Bool.and_eq_false_iff, decide_eq_false_iff_not]
  by_contra both
  obtain ⟨point, digit⟩ := not_or.mp both
  refine opens.noPoint ⟨not_not.mp point, ?_⟩
  cases rest with
  | nil => exact absurd rfl digit
  | cons d rest => exact ⟨d, rfl, Bool.eq_true_of_not_eq_false digit⟩

theorem tokenAt_mark {text : List Char} {kind : TokenKind} (opens : OpensMark c rest)
    (found : (punctuators.find? fun entry => (Cursor.mk (c :: rest) offset).startsWith entry.1) =
      some (text, kind)) :
    (Cursor.mk (c :: rest) offset).tokenAt =
      ⟨kind, (Cursor.mk (c :: rest) offset).advance text.length, "", none⟩ := by
  simp only [tokenAt, if_neg opens.noQuote, opens.noNumber, Bool.false_eq_true, if_false, found]

theorem tokenAt_name (opens : OpensMark c rest) (starts : isIdentifierStart c = true)
    (found : (punctuators.find? fun entry => (Cursor.mk (c :: rest) offset).startsWith entry.1) = none) :
    (Cursor.mk (c :: rest) offset).tokenAt =
      ⟨(TokenKind.keyword? (String.ofList ((Cursor.mk (c :: rest) offset).textTo
          (Cursor.mk (c :: rest) offset).skipIdentifier))).getD .identifier,
        (Cursor.mk (c :: rest) offset).skipIdentifier,
        String.ofList ((Cursor.mk (c :: rest) offset).textTo
          (Cursor.mk (c :: rest) offset).skipIdentifier), none⟩ := by
  simp only [tokenAt, if_neg opens.noQuote, opens.noNumber, Bool.false_eq_true, if_false, found,
    if_pos starts]

end Cursor

/-! ## Punctuators -/

namespace TokenKind

/-- A punctuator that the printer puts between spaces. -/
def isSpaced (kind : TokenKind) : Bool :=
  kind.isAssignment || (kind.binaryPrecedence?.isSome && !kind.isKeyword) || kind == .question ||
    kind == .colon

/-- No other punctuator starts with one of these. -/
def standsAlone : TokenKind → Bool
  | .openParen | .closeParen | .openBracket | .closeBracket | .comma | .semicolon | .tilde
  | .plusPlus | .minusMinus => true
  | _ => false

/-- A sign that is part of another punctuator if one of these characters follows. -/
def joins : TokenKind → List Char
  | .plus => ['+', '=']
  | .minus => ['-', '=']
  | .exclamation => ['=']
  | _ => []

variable {kind : TokenKind} {rest : List Char} {c : Char}

theorem reads_spaced (spaced : kind.isSpaced = true) :
    kind.lexeme.Reads kind.text.toList (' ' :: rest) := by
  cases kind <;> first
    | exact absurd spaced Bool.false_ne_true
    | exact ⟨List.cons_ne_nil _ _, fun _ => rfl, fun _ => ⟨_, rfl, rfl⟩⟩

theorem reads_alone (alone : kind.standsAlone = true) : kind.lexeme.Reads kind.text.toList rest := by
  cases kind <;> first
    | exact absurd alone Bool.false_ne_true
    | exact ⟨List.cons_ne_nil _ _, fun _ => rfl, fun _ => ⟨_, rfl, rfl⟩⟩

theorem reads_dot (letter : c.isDigit = false) : dot.lexeme.Reads dot.text.toList (c :: rest) := by
  have opens : Cursor.OpensMark '.' (c :: rest) := by
    refine ⟨by decide, rfl, ?_⟩
    rintro ⟨-, d, here, digit⟩
    cases here
    rw [letter] at digit
    cases digit
  exact ⟨List.cons_ne_nil _ _, fun _ => rfl, fun _ => ⟨_, rfl, Cursor.tokenAt_mark opens rfl⟩⟩

/-- A text is no prefix of one with another second character. -/
theorem isPrefixOf_eq_false {text : List Char} {first other : Char} (second : text[1]? = some other)
    (apart : other ≠ c) : text.isPrefixOf (first :: c :: rest) = false := by
  rcases text with _ | ⟨one, _ | ⟨two, more⟩⟩
  · cases second
  · cases second
  · cases second
    rw [List.isPrefixOf, List.isPrefixOf, beq_eq_false_iff_ne.mpr apart, Bool.false_and,
      Bool.and_false]

/-- The punctuators that are tried before one. -/
def earlier (kind : TokenKind) : List (List Char × TokenKind) :=
  punctuators.takeWhile fun entry => entry.2 != kind

/-- What starts with a sign and is tried before it goes on with a character that joins. -/
theorem find?_sign {sign : Char}
    (split : ∃ later, punctuators = kind.earlier ++ ([sign], kind) :: later)
    (longer : ∀ entry ∈ kind.earlier, entry.1.head? ∈ [some sign] →
      entry.1[1]? ∈ kind.joins.map some)
    (filled : ∀ entry ∈ kind.earlier, entry.1 ≠ []) (apart : c ∉ kind.joins) (offset : Nat) :
    (punctuators.find? fun entry => (Cursor.mk (sign :: c :: rest) offset).startsWith entry.1) =
      some ([sign], kind) := by
  rw [List.find?_eq_some_iff_append]
  refine ⟨?_, ?_⟩
  · simp [Cursor.startsWith]
  · obtain ⟨later, split⟩ := split
    refine ⟨kind.earlier, later, split, fun entry member => ?_⟩
    rw [Bool.not_eq_true', Cursor.startsWith]
    by_cases same : entry.1.head? ∈ [some sign]
    · obtain ⟨other, joined, second⟩ := List.mem_map.mp (longer entry member same)
      refine isPrefixOf_eq_false second.symm ?_
      rintro rfl
      exact apart joined
    · obtain ⟨first, others, listed⟩ := List.exists_cons_of_ne_nil (filled entry member)
      have other : first ≠ sign := by
        rintro rfl
        rw [listed] at same
        exact same List.mem_cons_self
      rw [listed, List.isPrefixOf, beq_eq_false_iff_ne.mpr other, Bool.false_and]

/-- A sign is read alone where nothing joins it. -/
theorem reads_sign (sign : kind = .plus ∨ kind = .minus ∨ kind = .exclamation)
    (apart : c ∉ kind.joins) : kind.lexeme.Reads kind.text.toList (c :: rest) := by
  have found : ∀ offset, (punctuators.find? fun entry =>
      (Cursor.mk (kind.text.toList ++ c :: rest) offset).startsWith entry.1) =
        some (kind.text.toList, kind) := by
    intro offset
    rcases sign with rfl | rfl | rfl <;> exact find?_sign ⟨_, rfl⟩ (by decide) (by decide) apart offset
  have opens : ∀ s ∈ ['+', '-', '!'], Cursor.OpensMark s (c :: rest) := by
    intro s listed
    simp only [List.mem_cons, List.not_mem_nil, or_false] at listed
    rcases listed with rfl | rfl | rfl <;>
      exact ⟨by decide, rfl, fun both => absurd both.1 (by decide)⟩
  rcases sign with rfl | rfl | rfl <;>
    exact ⟨List.cons_ne_nil _ _, fun _ => rfl, fun offset =>
      ⟨_, rfl, Cursor.tokenAt_mark (opens _ (by decide)) (found offset)⟩⟩

end TokenKind

/-! ## Names -/

/-- A word that is read as a name or a keyword. -/
def IsName (text : String) : Prop :=
  ∃ first others, text.toList = first :: others ∧ isIdentifierStart first = true ∧
    ∀ c ∈ others, isIdentifierPart c = true

section Names
variable {c : Char} {word rest : List Char}

/-- The blanks beyond ASCII that the lexer passes. -/
def farBlanks : List Nat := [0x85, 0xa0, 0x1680, 0x2000, 0x2001, 0x2002, 0x2003, 0x2004, 0x2005,
  0x2006, 0x2007, 0x2008, 0x2009, 0x200a, 0x2028, 0x2029, 0x202f, 0x205f, 0x3000, 0xfeff]

theorem mem_farBlanks (far : c.toNat ≥ 0x80) (blank : Text.isBlank c = true ∨ c = '\ufeff') :
    c.toNat ∈ farBlanks := by
  rcases blank with blank | rfl
  · simp only [Text.isBlank, Bool.or_eq_true, Bool.and_eq_true, decide_eq_true_eq, beq_iff_eq] at blank
    simp only [farBlanks, List.mem_cons, List.not_mem_nil, or_false]
    omega
  · decide

/-- No letter is a blank. -/
theorem not_isAlphabetic_of_mem (blank : c.toNat ∈ farBlanks) : Text.isAlphabetic c = false := by
  have apart : (Text.alphabeticRanges.toList.all fun range => farBlanks.all fun code =>
      decide (code < range.1 ∨ range.2 < code)) = true := by decide +kernel
  have far : ∀ code ∈ farBlanks, 0x80 ≤ code := by decide
  rw [Text.isAlphabetic, Bool.or_eq_false_iff]
  constructor
  · have beyond : 0x80 ≤ c.val.toNat := far _ blank
    simp only [Char.isAlpha, Char.isUpper, Char.isLower, Bool.or_eq_false_iff, Bool.and_eq_false_iff,
      decide_eq_false_iff_not, UInt32.le_iff_toNat_le, ge_iff_le]
    have upper : 'Z'.val.toNat = 90 := rfl
    have lower : 'z'.val.toNat = 122 := rfl
    omega
  · rw [Bool.and_eq_false_iff]
    right
    rw [Text.inRanges, ← Array.any_toList, List.any_eq_false]
    intro range member
    have here := List.all_eq_true.mp (List.all_eq_true.mp apart range member) _ blank
    simp only [decide_eq_true_eq] at here
    simp only [Bool.and_eq_true, decide_eq_true_eq, not_and]
    omega

theorem isIdentifierStart_of_ascii (near : c.toNat < 0x80) :
    isIdentifierStart c = (c == '$' || c == '_' || c.isAlpha) := by
  rw [isIdentifierStart, Text.isAlphabetic, decide_eq_false (Nat.not_le.mpr near), Bool.false_and,
    Bool.or_false]

theorem isIdentifierPart_of_ascii (near : c.toNat < 0x80) :
    isIdentifierPart c = (c == '$' || c == '_' || c.isAlpha || c.isAlphanum) := by
  rw [isIdentifierPart, isIdentifierStart_of_ascii near, Text.isAlphanumeric,
    decide_eq_false (Nat.not_le.mpr near), Bool.false_and, Bool.or_false]

theorem isIdentifierStart_ne {other : Char} (starts : isIdentifierStart c = true)
    (odd : isIdentifierStart other = false) : c ≠ other := by
  rintro rfl
  rw [starts] at odd
  cases odd

/-- Trivia starts with a slash or with something blank. -/
theorem triviaAt?_eq_none (noSlash : c ≠ '/') (noEnd : isLineEnd c = false)
    (noBlank : isAsciiBlank c = false) (noFarBlank : c.toNat ∉ farBlanks) (offset : Nat) :
    (Cursor.mk (c :: rest) offset).triviaAt? = none := by
  have noSeparator : ¬(c = '\u2028' ∨ c = '\u2029') := by
    rintro (rfl | rfl) <;> exact noFarBlank (by decide)
  have noTrivia : ¬(c.toNat ≥ 0x80 ∧ (Text.isBlank c ∨ c = '\ufeff')) := fun both =>
    noFarBlank (mem_farBlanks both.1 both.2)
  unfold Cursor.triviaAt?
  split
  · rfl
  · rename_i opening
    cases opening
    exact absurd rfl noSlash
  · rename_i opening
    cases opening
    exact absurd rfl noSlash
  · rename_i opening
    cases opening
    rw [noEnd, noBlank, if_neg noSeparator, if_neg noTrivia]
    rfl

/-- No trivia starts with a letter. -/
theorem triviaAt?_of_starts (starts : isIdentifierStart c = true) (offset : Nat) :
    (Cursor.mk (c :: rest) offset).triviaAt? = none := by
  refine triviaAt?_eq_none (isIdentifierStart_ne starts (by decide)) ?_ ?_ ?_ offset
  · rw [isLineEnd, Bool.or_eq_false_iff, beq_eq_false_iff_ne, beq_eq_false_iff_ne]
    exact ⟨isIdentifierStart_ne starts (by decide), isIdentifierStart_ne starts (by decide)⟩
  · simp only [isAsciiBlank, Bool.or_eq_false_iff, beq_eq_false_iff_ne]
    exact ⟨⟨⟨isIdentifierStart_ne starts (by decide), isIdentifierStart_ne starts (by decide)⟩,
      isIdentifierStart_ne starts (by decide)⟩, isIdentifierStart_ne starts (by decide)⟩
  · intro blank
    rw [isIdentifierStart, not_isAlphabetic_of_mem blank, Bool.or_false, Bool.or_eq_true, beq_iff_eq,
      beq_iff_eq] at starts
    rcases starts with rfl | rfl <;> exact absurd blank (by decide)

theorem bounds_of_isDigit (digit : c.isDigit = true) : 48 ≤ c.toNat ∧ c.toNat ≤ 57 := by
  simp only [Char.isDigit, Bool.and_eq_true, decide_eq_true_eq, UInt32.le_iff_toNat_le, ge_iff_le]
    at digit
  exact digit

theorem isDigit_ne {other : Char} (digit : c.isDigit = true) (odd : other.isDigit = false) :
    c ≠ other := by
  rintro rfl
  rw [digit] at odd
  cases odd

theorem isIdentifierStart_of_isDigit (digit : c.isDigit = true) : isIdentifierStart c = false := by
  have bounds := bounds_of_isDigit digit
  have code : c.toNat = c.val.toNat := rfl
  have noLetter : c.isAlpha = false := by
    simp only [Char.isAlpha, Char.isUpper, Char.isLower, Bool.or_eq_false_iff,
      Bool.and_eq_false_iff, decide_eq_false_iff_not, UInt32.le_iff_toNat_le, ge_iff_le]
    have upper : 'A'.val.toNat = 65 := rfl
    have lower : 'a'.val.toNat = 97 := rfl
    omega
  rw [isIdentifierStart_of_ascii (by omega), noLetter, Bool.or_false, Bool.or_eq_false_iff,
    beq_eq_false_iff_ne, beq_eq_false_iff_ne]
  exact ⟨isDigit_ne digit (by decide), isDigit_ne digit (by decide)⟩

theorem opensMark_of_starts (starts : isIdentifierStart c = true) : Cursor.OpensMark c rest := by
  refine ⟨?_, ?_, fun both => isIdentifierStart_ne starts (by decide) both.1⟩
  · rintro (same | same) <;> exact isIdentifierStart_ne starts (by decide) same
  · by_contra digit
    rw [Bool.not_eq_false] at digit
    rw [isIdentifierStart_of_isDigit digit] at starts
    cases starts

/-- No punctuator starts with a letter. -/
theorem find?_of_starts (starts : isIdentifierStart c = true) (offset : Nat) :
    (punctuators.find? fun entry => (Cursor.mk (c :: rest) offset).startsWith entry.1) = none := by
  have odd : ∀ entry ∈ punctuators, ∃ first others, entry.1 = first :: others ∧
      isIdentifierStart first = false := by
    have each : (punctuators.all fun entry => entry.1.head?.any fun first =>
        !isIdentifierStart first) = true := by decide +kernel
    intro entry member
    obtain ⟨first, head, noLetter⟩ := (Option.any_eq_true ..).mp (List.all_eq_true.mp each entry member)
    obtain ⟨others, listed⟩ := List.head?_eq_some_iff.mp head
    exact ⟨first, others, listed, by simpa using noLetter⟩
  refine List.find?_eq_none.mpr fun entry member => ?_
  obtain ⟨first, others, listed, noLetter⟩ := odd entry member
  have other : first ≠ c := (isIdentifierStart_ne starts noLetter).symm
  rw [Cursor.startsWith, listed, List.isPrefixOf, beq_eq_false_iff_ne.mpr other, Bool.false_and]
  exact Bool.false_ne_true

/-- A name is read up to what cannot continue it. -/
theorem IsName.reads {text : String} (name : IsName text) (ends : GoesOn rest stops) :
    Lexeme.Reads ⟨(TokenKind.keyword? text).getD .identifier, text⟩ text.toList rest := by
  obtain ⟨first, others, listed, starts, continues⟩ := name
  have each : ∀ c ∈ text.toList, isIdentifierPart c = true := by
    rw [listed]
    exact List.forall_mem_cons.mpr ⟨by rw [isIdentifierPart, starts, Bool.true_or], continues⟩
  have behind : ∀ c ∈ rest.head?, isIdentifierPart c = false := by
    have odd : (stops.all fun c => decide (c.toNat < 0x80) &&
        !(c == '$' || c == '_' || c.isAlpha || c.isAlphanum)) = true := by decide
    intro c here
    have facts := List.all_eq_true.mp odd c (ends c here)
    rw [Bool.and_eq_true, decide_eq_true_eq, Bool.not_eq_true'] at facts
    rw [isIdentifierPart_of_ascii facts.1, facts.2]
  have skipped : ∀ offset, (Cursor.mk (text.toList ++ rest) offset).skipIdentifier =
      ⟨rest, offset + Text.byteCount text.toList⟩ := Cursor.skipWhile_append each behind
  refine ⟨by rw [listed]; exact List.cons_ne_nil _ _, fun offset => ?_, fun offset => ?_⟩
  · rw [listed]
    exact triviaAt?_of_starts starts offset
  · refine ⟨⟨rest, offset + Text.byteCount text.toList⟩, rfl, ?_⟩
    have read := @Cursor.tokenAt_name first (others ++ rest) offset (opensMark_of_starts starts) starts
      (find?_of_starts starts offset)
    rw [← List.cons_append, ← listed, skipped offset, Cursor.textTo_append, String.ofList_toList] at read
    exact read

theorem TokenKind.isName_text {kind : TokenKind} (keyword : kind.isKeyword = true) :
    IsName kind.text := by
  have spelled : (kind.text.toList.head?.any isIdentifierStart &&
      kind.text.toList.tail.all isIdentifierPart) = true := by
    cases kind <;> first
      | exact absurd keyword Bool.false_ne_true
      | rfl
  rw [Bool.and_eq_true] at spelled
  obtain ⟨first, head, starts⟩ := (Option.any_eq_true ..).mp spelled.1
  obtain ⟨others, listed⟩ := List.head?_eq_some_iff.mp head
  refine ⟨first, others, listed, starts, List.all_eq_true.mp ?_⟩
  have continues := spelled.2
  rwa [listed] at continues

theorem TokenKind.keyword?_text {kind : TokenKind} (keyword : kind.isKeyword = true) :
    keyword? kind.text = some kind := by
  cases kind <;> first
    | exact absurd keyword Bool.false_ne_true
    | rfl

theorem TokenKind.reads_keyword {kind : TokenKind} (keyword : kind.isKeyword = true)
    (ends : GoesOn rest stops) : kind.lexeme.Reads kind.text.toList rest := by
  have reads := (isName_text keyword).reads ends
  rw [keyword?_text keyword] at reads
  rwa [TokenKind.lexeme, if_pos keyword]

end Names

/-! ## Numbers -/

section Numbers
variable {digits rest : List Char}

/-- What may stand right behind a number. -/
def numberStops : List Char := [' ', '(', ')', '[', ']', ',', ';', '+', '-']

theorem numberStops_subset_stops : numberStops ⊆ stops := by decide

theorem tokenAt_number {c : Char} {offset : Nat} (digit : c.isDigit = true) :
    (Cursor.mk (c :: rest) offset).tokenAt =
      ⟨.numericLiteral, (Cursor.mk (c :: rest) offset).skipNumber,
        String.ofList ((Cursor.mk (c :: rest) offset).textTo (Cursor.mk (c :: rest) offset).skipNumber),
        none⟩ := by
  have noQuote : ¬(c = '"' ∨ c = '\'') := by
    rintro (same | same) <;> exact isDigit_ne digit (by decide) same
  simp only [Cursor.tokenAt, if_neg noQuote, digit, Bool.true_or, if_true]

theorem skipNumber_append (filled : digits ≠ [])
    (each : ∀ c ∈ digits, c.isDigit = true) (ends : GoesOn rest numberStops)
    (offset : Nat) : (Cursor.mk (digits ++ rest) offset).skipNumber =
      ⟨rest, offset + Text.byteCount digits⟩ := by
  have plain : (numberStops.all fun c => !"xXoObB".toList.contains c && !(c.isDigit || c = '_') &&
      !decide (c = '.') && !decide (c = 'e' ∨ c = 'E')) = true := by decide
  have odd : ∀ c ∈ rest.head?, ((("xXoObB".toList.contains c = false ∧ (c.isDigit || c = '_') = false) ∧
      decide (c = '.') = false) ∧ decide (c = 'e' ∨ c = 'E') = false) := by
    intro c here
    have facts := List.all_eq_true.mp plain c (ends c here)
    simpa only [Bool.and_eq_true, Bool.not_eq_true'] using facts
  have behind : ∀ (test : Char → Bool) (place : Nat), (∀ c ∈ rest.head?, test c = false) →
      (Cursor.mk rest place).next test = false := by
    intro test place none
    cases rest with
    | nil => rfl
    | cons c rest => exact none c rfl
  -- neither the mark of a radix nor a point nor an exponent follows
  have noMark : (Cursor.mk (digits ++ rest) offset).step.next
      (fun c => "xXoObB".toList.contains c) = false := by
    rcases digits with _ | ⟨first, _ | ⟨second, others⟩⟩
    · exact absurd rfl filled
    · exact behind _ _ fun c here => (odd c here).1.1.1
    · have digit := each second (List.mem_cons_of_mem _ List.mem_cons_self)
      have different : second ∉ "xXoObB".toList := by
        intro member
        have plain : ("xXoObB".toList.all fun c => !c.isDigit) = true := by decide
        have noDigit := List.all_eq_true.mp plain second member
        rw [digit] at noDigit
        cases noDigit
      exact Bool.eq_false_iff.mpr fun contains => different (List.contains_iff_mem.mp contains)
  have whole : (Cursor.mk (digits ++ rest) offset).skipWhile (fun c => c.isDigit || c = '_') =
      ⟨rest, offset + Text.byteCount digits⟩ :=
    Cursor.skipWhile_append (fun c member => by rw [each c member, Bool.true_or])
      (fun c here => (odd c here).1.1.2) offset
  simp only [Cursor.skipNumber, noMark, Bool.and_false, Bool.false_eq_true, if_false, whole,
    Cursor.skipExponent, behind _ _ fun c here => (odd c here).1.2,
    behind _ _ fun c here => (odd c here).2]

/-- Digits are read up to what cannot continue them. -/
theorem reads_digits (filled : digits ≠ []) (each : ∀ c ∈ digits, c.isDigit = true)
    (ends : GoesOn rest numberStops) :
    Lexeme.Reads ⟨.numericLiteral, String.ofList digits⟩ digits rest := by
  obtain ⟨first, others, rfl⟩ := List.exists_cons_of_ne_nil filled
  have digit := each first List.mem_cons_self
  refine ⟨filled, fun offset => ?_, fun offset => ⟨⟨rest, offset + Text.byteCount (first :: others)⟩, rfl, ?_⟩⟩
  · have bounds := bounds_of_isDigit digit
    refine triviaAt?_eq_none (isDigit_ne digit (by decide)) ?_ ?_ ?_ offset
    · rw [isLineEnd, Bool.or_eq_false_iff, beq_eq_false_iff_ne, beq_eq_false_iff_ne]
      exact ⟨isDigit_ne digit (by decide), isDigit_ne digit (by decide)⟩
    · simp only [isAsciiBlank, Bool.or_eq_false_iff, beq_eq_false_iff_ne]
      exact ⟨⟨⟨isDigit_ne digit (by decide), isDigit_ne digit (by decide)⟩,
        isDigit_ne digit (by decide)⟩, isDigit_ne digit (by decide)⟩
    · have far : ∀ code ∈ farBlanks, 0x80 ≤ code := by decide
      intro blank
      have beyond := far _ blank
      omega
  · rw [List.cons_append, tokenAt_number digit, ← List.cons_append, skipNumber_append filled each ends,
      Cursor.textTo_append]

end Numbers

end Unflatten
