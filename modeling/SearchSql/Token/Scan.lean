import SearchSql.Text.Quoted
import SearchSql.Token.Basic

/-!
# Reading tokens from text

A text is a sequence of lexemes with gaps between them. A gap is made of blank characters, comments
from two hyphens to the end of the line, and comments between `/*` and `*/`; a comment that is never
closed reaches to the end of the text. The lexeme after a gap is decided by its first characters:
a quoted string or name, a number, a bare name or reserved word, an operator or delimiter. Text that
starts none of these is one invalid token, so that reading never fails.

Each reader splits its input into the characters it takes and the rest. `gap_append` and
`lexeme_append` say that nothing is lost or reordered, and `lexeme_text_ne_nil` that a lexeme is
never empty, which is why `tokensFrom` ends.
-/

set_option autoImplicit false

namespace SearchSql.Token

open Text

/-- What is wrong with text that is no token of the dialect. -/
inductive LexicalFault where
  | unterminatedString
  | unterminatedName
  | emptyName
  | unexpectedCharacter (c : Char)

/-- The fault in words. -/
def LexicalFault.message : LexicalFault → String
  | .unterminatedString => "unterminated string literal"
  | .unterminatedName => "unterminated quoted identifier"
  | .emptyName => "empty quoted identifier"
  | .unexpectedCharacter c => "unexpected character: " ++ c.toString

theorem length_dropWhile_le (p : Char → Bool) (cs : List Char) :
    (cs.dropWhile p).length ≤ cs.length :=
  (List.dropWhile_suffix p).length_le

/-! ## Gaps -/

/-- Splits the rest of a comment after `/*` behind its `*/`. -/
def blockComment : List Char → List Char × List Char
  | [] => ([], [])
  | '*' :: '/' :: cs => (['*', '/'], cs)
  | c :: cs => (c :: (blockComment cs).1, (blockComment cs).2)

/-- A comment and what is behind it are the whole text. -/
theorem blockComment_append (cs : List Char) :
    (blockComment cs).1 ++ (blockComment cs).2 = cs := by
  fun_induction blockComment cs with
  | case1 => rfl
  | case2 => rfl
  | case3 c cs _ ih => simp [ih]

/-- Behind a comment the text is no longer than before. -/
theorem length_blockComment_le (cs : List Char) : (blockComment cs).2.length ≤ cs.length := by
  have h := congrArg List.length (blockComment_append cs)
  simp only [List.length_append] at h
  omega

/-- Splits off the longest gap. -/
def gap (cs : List Char) : List Char × List Char :=
  match cs with
  | [] => ([], [])
  | '-' :: '-' :: rest =>
      let line := rest.takeWhile (· ≠ '\n')
      let next := gap (rest.dropWhile (· ≠ '\n'))
      ('-' :: '-' :: (line ++ next.1), next.2)
  | '/' :: '*' :: rest =>
      let comment := blockComment rest
      let next := gap comment.2
      ('/' :: '*' :: (comment.1 ++ next.1), next.2)
  | c :: rest =>
      if isBlank c then (c :: (gap rest).1, (gap rest).2) else ([], c :: rest)
termination_by cs.length
decreasing_by
  · have := length_dropWhile_le (· ≠ '\n') rest
    simp only [List.length_cons]
    omega
  · have := length_blockComment_le rest
    simp only [List.length_cons]
    omega
  · simp

/-- A gap and what is behind it are the whole text. -/
theorem gap_append (cs : List Char) : (gap cs).1 ++ (gap cs).2 = cs := by
  fun_induction gap cs with
  | case1 => rfl
  | case2 rest line next ih =>
    simp only [List.cons_append, List.append_assoc, next, line]
    rw [ih, List.takeWhile_append_dropWhile]
  | case3 rest comment next ih =>
    simp only [List.cons_append, List.append_assoc, next, comment]
    rw [ih, blockComment_append]
  | case4 c rest _ _ _ ih => simp [ih]
  | case5 => rfl

/-! ## Lexemes -/

/-- A lexeme: its kind, the characters it takes, and the characters after it. -/
structure Lexeme where
  kind : TokenKind
  text : List Char
  rest : List Char

/-- The inside of a quoted string or name: its value, unless the closing mark is missing, the
characters up to and including that mark, and the characters after it. -/
structure QuotedBody where
  value : Option (List Char)
  text : List Char
  rest : List Char

/-- Reads up to the closing `mark`. A doubled mark stands for one mark, and a backslash before an
`escapable` character for that character; any other backslash stands for itself. -/
def quotedBody (mark : Char) (escapable : Char → Bool) : List Char → QuotedBody
  | [] => ⟨none, [], []⟩
  | [c] => if c = mark then ⟨some [], [c], []⟩ else ⟨none, [c], []⟩
  | c :: d :: cs =>
      if c = mark then
        if d = mark then
          let body := quotedBody mark escapable cs
          ⟨body.value.map (mark :: ·), c :: d :: body.text, body.rest⟩
        else ⟨some [], [c], d :: cs⟩
      else if c = '\\' ∧ escapable d = true then
        let body := quotedBody mark escapable cs
        ⟨body.value.map (d :: ·), c :: d :: body.text, body.rest⟩
      else
        let body := quotedBody mark escapable (d :: cs)
        ⟨body.value.map (c :: ·), c :: body.text, body.rest⟩

/-- The characters that a backslash escapes in a string. -/
def isEscapable (c : Char) : Bool := c == quoteMark || c == doubleMark || c == '\\'

/-- The kind of a string with the given value, if it is closed. -/
def stringKind : Option (List Char) → TokenKind
  | some value => .string (String.ofList value)
  | none => .invalid LexicalFault.unterminatedString.message

/-- The kind of a quoted name with the given value, if it is closed; the name may not be empty. -/
def quotedNameKind : Option (List Char) → TokenKind
  | some [] => .invalid LexicalFault.emptyName.message
  | some value => .quotedName (String.ofList value)
  | none => .invalid LexicalFault.unterminatedName.message

/-- The string that starts with the delimiter `mark`. -/
def stringLexeme (mark : Char) (cs : List Char) : Lexeme :=
  let body := quotedBody mark isEscapable cs
  ⟨stringKind body.value, mark :: body.text, body.rest⟩

/-- The quoted name that starts with a backtick. -/
def quotedNameLexeme (cs : List Char) : Lexeme :=
  let body := quotedBody backtick (fun _ => false) cs
  ⟨quotedNameKind body.value, backtick :: body.text, body.rest⟩

/-- The fractional part of a number: a point and the digits after it. A point before a letter is
no part of the number. -/
def fraction : List Char → List Char × List Char
  | '.' :: cs =>
      if cs.head?.any isAlphabetic then ([], '.' :: cs)
      else ('.' :: cs.takeWhile Char.isDigit, cs.dropWhile Char.isDigit)
  | cs => ([], cs)

/-- The sign that may stand before the digits of an exponent. -/
def exponentSign : List Char → List Char × List Char
  | '+' :: cs => (['+'], cs)
  | '-' :: cs => (['-'], cs)
  | cs => ([], cs)

/-- The exponent of a number; without digits there is none. -/
def exponent : List Char → List Char × List Char
  | [] => ([], [])
  | e :: cs =>
      let signed := exponentSign cs
      if (e = 'e' ∨ e = 'E') ∧ signed.2.head?.any Char.isDigit = true then
        (e :: (signed.1 ++ signed.2.takeWhile Char.isDigit), signed.2.dropWhile Char.isDigit)
      else ([], e :: cs)

/-- The number at the start of `cs`, real if it has a fraction or an exponent. -/
def numberLexeme (cs : List Char) : Lexeme :=
  let digits := cs.takeWhile Char.isDigit
  let part := fraction (cs.dropWhile Char.isDigit)
  let power := exponent part.2
  ⟨if part.1.isEmpty && power.1.isEmpty then .integer else .real,
    digits ++ part.1 ++ power.1, power.2⟩

/-- The kind of the bare text `text`: a reserved word or a name. -/
def bareKind (text : String) : TokenKind :=
  match Keyword.ofText? text with
  | some word => .keyword word
  | none => .name text

/-- The bare name or reserved word that starts with `c`. -/
def nameLexeme (c : Char) (cs : List Char) : Lexeme :=
  let text := c :: cs.takeWhile isNamePart
  ⟨bareKind (String.ofList text), text, cs.dropWhile isNamePart⟩

/-- The symbol written as the single character `c`. -/
def singleSymbol? : Char → Option Symbol
  | '(' => some .leftParen
  | ')' => some .rightParen
  | '[' => some .leftBracket
  | ']' => some .rightBracket
  | '\x7b' => some .leftBrace
  | '\x7d' => some .rightBrace
  | ',' => some .comma
  | ';' => some .semicolon
  | '.' => some .dot
  | '+' => some .plus
  | '-' => some .minus
  | '*' => some .star
  | '/' => some .slash
  | '%' => some .percent
  | '^' => some .caret
  | '=' => some .eq
  | '<' => some .lt
  | '>' => some .gt
  | _ => none

/-- The symbol written as the two characters `c` and `d`. -/
def doubleSymbol? : Char → Char → Option Symbol
  | '<', '=' => some .ltEq
  | '<', '>' => some .notEq
  | '>', '=' => some .gtEq
  | '!', '=' => some .notEq
  | _, _ => none

/-- The kind of the single character `c`. -/
def singleKind (c : Char) : TokenKind :=
  match singleSymbol? c with
  | some sign => .symbol sign
  | none => .invalid (LexicalFault.unexpectedCharacter c).message

/-- The lexeme that is the single character `c`. -/
def singleLexeme (c : Char) (cs : List Char) : Lexeme := ⟨singleKind c, [c], cs⟩

/-- The operator or delimiter that starts with `c`, the longer of two that fit. -/
def symbolLexeme (c : Char) : List Char → Lexeme
  | [] => singleLexeme c []
  | d :: cs =>
      match doubleSymbol? c d with
      | some sign => ⟨.symbol sign, [c, d], cs⟩
      | none => singleLexeme c (d :: cs)

/-- The lexeme at the start of `c :: cs`, where `c` is not blank and starts no comment. -/
def lexeme (c : Char) (cs : List Char) : Lexeme :=
  if c = quoteMark ∨ c = doubleMark then stringLexeme c cs
  else if c = backtick then quotedNameLexeme cs
  else if c.isDigit ∨ (c = '.' ∧ cs.head?.any Char.isDigit = true) then numberLexeme (c :: cs)
  else if isNameStart c then nameLexeme c cs
  else symbolLexeme c cs

/-! ## Kinds of lexemes -/

/-- Between quotes stands a string or a fault. -/
theorem stringLexeme_kind (mark : Char) (cs : List Char) :
    (∃ text, (stringLexeme mark cs).kind = .string text) ∨
      ∃ fault, (stringLexeme mark cs).kind = .invalid fault := by
  show (∃ text, stringKind _ = .string text) ∨ ∃ fault, stringKind _ = .invalid fault
  cases (quotedBody mark isEscapable cs).value with
  | none => exact .inr ⟨_, rfl⟩
  | some value => exact .inl ⟨_, rfl⟩

/-- Between backticks stands a name or a fault. -/
theorem quotedNameLexeme_kind (cs : List Char) :
    (∃ name, (quotedNameLexeme cs).kind = .quotedName name) ∨
      ∃ fault, (quotedNameLexeme cs).kind = .invalid fault := by
  show (∃ name, quotedNameKind _ = .quotedName name) ∨ ∃ fault, quotedNameKind _ = .invalid fault
  match (quotedBody backtick (fun _ => false) cs).value with
  | none | some [] => exact .inr ⟨_, rfl⟩
  | some (c :: value) => exact .inl ⟨_, rfl⟩

/-- A number is an integer or a real number. -/
theorem numberLexeme_kind (cs : List Char) :
    (numberLexeme cs).kind = .integer ∨ (numberLexeme cs).kind = .real := by
  show (if _ then TokenKind.integer else .real) = _ ∨ (if _ then TokenKind.integer else .real) = _
  split
  · exact .inl rfl
  · exact .inr rfl

/-- A bare text is a reserved word or a name. -/
theorem bareKind_cases (text : String) :
    (∃ word, bareKind text = .keyword word) ∨ ∃ name, bareKind text = .name name := by
  unfold bareKind
  split
  · exact .inl ⟨_, rfl⟩
  · exact .inr ⟨_, rfl⟩

/-- A bare word is reserved or a name. -/
theorem nameLexeme_kind (c : Char) (cs : List Char) :
    (∃ word, (nameLexeme c cs).kind = .keyword word) ∨
      ∃ name, (nameLexeme c cs).kind = .name name := by
  dsimp only [nameLexeme]
  exact bareKind_cases _

/-- Anything else is a symbol or a fault. -/
theorem symbolLexeme_kind (c : Char) (cs : List Char) :
    (∃ sign, (symbolLexeme c cs).kind = .symbol sign) ∨
      ∃ fault, (symbolLexeme c cs).kind = .invalid fault := by
  have hsingle : (∃ sign, singleKind c = .symbol sign) ∨ ∃ fault, singleKind c = .invalid fault := by
    unfold singleKind
    split
    · exact .inl ⟨_, rfl⟩
    · exact .inr ⟨_, rfl⟩
  fun_cases symbolLexeme c cs with
  | case1 => exact hsingle
  | case2 d cs sign h => exact .inl ⟨sign, rfl⟩
  | case3 d cs h => exact hsingle

/-! ## Nothing is lost -/

/-- What stands between quotes and what is behind it are the whole text. -/
theorem quotedBody_append (mark : Char) (escapable : Char → Bool) (cs : List Char) :
    (quotedBody mark escapable cs).text ++ (quotedBody mark escapable cs).rest = cs := by
  fun_induction quotedBody mark escapable cs <;> simp_all +zetaDelta

theorem fraction_append (cs : List Char) : (fraction cs).1 ++ (fraction cs).2 = cs := by
  fun_cases fraction cs <;> simp [List.takeWhile_append_dropWhile]

theorem exponentSign_append (cs : List Char) :
    (exponentSign cs).1 ++ (exponentSign cs).2 = cs := by
  fun_cases exponentSign cs <;> simp

theorem exponent_append (cs : List Char) : (exponent cs).1 ++ (exponent cs).2 = cs := by
  fun_cases exponent cs with
  | case1 => rfl
  | case2 e cs signed _ =>
    simp only [List.cons_append, List.append_assoc, List.takeWhile_append_dropWhile]
    rw [exponentSign_append]
  | case3 => rfl

/-- A number and what is behind it are the whole text. -/
theorem numberLexeme_append (cs : List Char) :
    (numberLexeme cs).text ++ (numberLexeme cs).rest = cs := by
  simp only [numberLexeme, List.append_assoc]
  rw [exponent_append, fraction_append, List.takeWhile_append_dropWhile]

/-- A symbol and what is behind it are the whole text. -/
theorem symbolLexeme_append (c : Char) (cs : List Char) :
    (symbolLexeme c cs).text ++ (symbolLexeme c cs).rest = c :: cs := by
  fun_cases symbolLexeme c cs <;> rfl

/-- A lexeme and what follows it make up the text it was read from. -/
theorem lexeme_append (c : Char) (cs : List Char) :
    (lexeme c cs).text ++ (lexeme c cs).rest = c :: cs := by
  fun_cases lexeme c cs with
  | case1 _ => simp [stringLexeme, quotedBody_append]
  | case2 _ h => simp [quotedNameLexeme, quotedBody_append, h]
  | case3 _ _ _ => exact numberLexeme_append (c :: cs)
  | case4 _ _ _ _ => simp [nameLexeme, List.takeWhile_append_dropWhile]
  | case5 _ _ _ _ => exact symbolLexeme_append c cs

/-- A digit is no letter. -/
theorem isAlphabetic_eq_false_of_isDigit {c : Char} (h : c.isDigit = true) :
    isAlphabetic c = false := by
  have hrange : 48 ≤ c.toNat ∧ c.toNat ≤ 57 := by
    simp only [Char.isDigit, Bool.and_eq_true, decide_eq_true_eq, ge_iff_le,
      UInt32.le_iff_toNat_le] at h
    exact h
  have hsmall : c.toNat < 128 := by omega
  have hbelow {least : UInt32} (hleast : 57 < least.toNat) : ¬ least ≤ c.val := fun hle =>
    Nat.not_le.2 (Nat.lt_of_le_of_lt hrange.2 hleast) (UInt32.le_iff_toNat_le.1 hle)
  have halpha : c.isAlpha = false := by
    show (decide ('A'.val ≤ c.val ∧ c.val ≤ 'Z'.val) ||
      decide ('a'.val ≤ c.val) && decide (c.val ≤ 'z'.val)) = false
    rw [decide_eq_false fun hupper => hbelow (by decide) hupper.1,
      decide_eq_false (hbelow (by decide)), Bool.false_or, Bool.false_and]
  simp [isAlphabetic, hsmall, halpha]

/-- A number has at least one character. -/
theorem numberLexeme_text_ne_nil {c : Char} {cs : List Char}
    (h : c.isDigit = true ∨ (c = '.' ∧ cs.head?.any Char.isDigit = true)) :
    (numberLexeme (c :: cs)).text ≠ [] := by
  rcases h with h | ⟨rfl, h⟩
  · simp [numberLexeme, h]
  · cases cs with
    | nil => simp at h
    | cons d ds =>
      have hd : d.isDigit = true := by simpa using h
      simp [numberLexeme, fraction, isAlphabetic_eq_false_of_isDigit hd]

/-- A lexeme takes at least one character. -/
theorem lexeme_text_ne_nil (c : Char) (cs : List Char) : (lexeme c cs).text ≠ [] := by
  fun_cases lexeme c cs with
  | case1 _ => simp [stringLexeme]
  | case2 _ _ => simp [quotedNameLexeme]
  | case3 _ _ h => exact numberLexeme_text_ne_nil h
  | case4 _ _ _ _ => simp [nameLexeme]
  | case5 _ _ _ _ => fun_cases symbolLexeme c cs <;> simp [singleLexeme]

/-- Every lexeme takes at least one character. -/
theorem lexeme_rest_length (c : Char) (cs : List Char) :
    (lexeme c cs).rest.length ≤ cs.length := by
  have happend := congrArg List.length (lexeme_append c cs)
  have hpos : 0 < (lexeme c cs).text.length := List.length_pos_iff.2 (lexeme_text_ne_nil c cs)
  simp only [List.length_append, List.length_cons] at happend
  omega

/-! ## Token lists -/

/-- The tokens of the text `cs`, which starts at byte `offset`. -/
def tokensFrom (offset : Nat) (cs : List Char) : List Token :=
  let blank := gap cs
  let start := offset + byteLength blank.1
  match _hrest : blank.2 with
  | [] => [Token.endOfInput start]
  | c :: rest =>
      let next := lexeme c rest
      let stop := start + byteLength next.text
      ⟨next.kind, String.ofList next.text, ⟨start, stop⟩⟩ :: tokensFrom stop next.rest
termination_by cs.length
decreasing_by
  have happend := congrArg List.length (gap_append cs)
  have hlexeme := lexeme_rest_length c rest
  simp only [List.length_append] at happend
  simp only [blank] at _hrest
  rw [_hrest, List.length_cons] at happend
  omega

/-- The tokens of `source`, closed by an end of input. -/
def tokenize (source : String) : List Token := tokensFrom 0 source.toList

end SearchSql.Token
