import SearchSql.Grammar.Lookahead
import SearchSql.Grammar.Operators
import SearchSql.Proofs.View

/-!
# Deciding by what is in sight

Where a token list is compared with another, only the tokens in front of the first that ends the
input, or ends the statement, are in sight (`inSight`). What the grammar decides by the tokens ahead
it decides by those in sight (`Shortsighted.eq`, `startsFieldEquals_inSight`,
`startsNestedAll_inSight`), and it does not depend on where tokens stand, nor on the spelling of
words (`View.Lawful`).
-/

set_option autoImplicit false

namespace SearchSql

/-- A view under which the parser cannot tell tokens apart. -/
structure View.Lawful (V : View) : Prop where
  merge (s t : Span) : V.span (s.merge t) = (V.span s).merge (V.span t)
  bare (value : String) (span : Span) :
    V.ident ⟨value, false, span⟩ = ⟨V.word value, false, V.span span⟩
  quoted (value : String) (span : Span) :
    V.ident ⟨value, true, span⟩ = ⟨value, true, V.span span⟩
  upper (word : String) : Text.upper (V.word word) = Text.upper word
  dot (word : String) : V.word ("." ++ word) = "." ++ V.word word
  minus (word : String) : V.word ("-" ++ word) = "-" ++ V.word word
  join (words : List String) : V.word (String.join words) = String.join (words.map V.word)
  readSigned (word : String) : Number.readSigned (V.word word) = Number.readSigned word
  readUnsigned (word : String) : Number.readUnsigned (V.word word) = Number.readUnsigned word
  readReal (word : String) : Number.readReal (V.word word) = Number.readReal word

namespace TokenKind

variable {V : View}

/-- What may be a name is seen as such; a view keeps all such properties of kinds. -/
@[simp] theorem isNameLike_view (k : TokenKind) : (k.view V).isNameLike = k.isNameLike := by
  cases k <;> rfl

@[simp] theorem isBareName_view (k : TokenKind) : (k.view V).isBareName = k.isBareName := by
  cases k <;> rfl

@[simp] theorem isString_view (k : TokenKind) : (k.view V).isString = k.isString := by
  cases k <;> rfl

@[simp] theorem isNumber_view (k : TokenKind) : (k.view V).isNumber = k.isNumber := by
  cases k <;> rfl

/-- A sign is seen as itself, and nothing else is seen as one. -/
@[simp] theorem view_eq_symbol_iff (k : TokenKind) (sign : Symbol) :
    k.view V = .symbol sign ↔ k = .symbol sign := by
  cases k <;> simp [view]

/-- The same is true of reserved words. -/
@[simp] theorem view_eq_keyword_iff (k : TokenKind) (word : Keyword) :
    k.view V = .keyword word ↔ k = .keyword word := by
  cases k <;> simp [view]

@[simp] theorem view_eq_endOfInput_iff (k : TokenKind) : k.view V = .endOfInput ↔ k = .endOfInput := by
  cases k <;> simp [view]

@[simp] theorem view_eq_integer_iff (k : TokenKind) : k.view V = .integer ↔ k = .integer := by
  cases k <;> simp [view]

theorem beq_symbol_view (k : TokenKind) (sign : Symbol) :
    (k.view V == .symbol sign) = (k == .symbol sign) := by
  cases k <;> rfl

theorem bne_symbol_view (k : TokenKind) (sign : Symbol) :
    (k.view V != .symbol sign) = (k != .symbol sign) :=
  congrArg (!·) (k.beq_symbol_view sign)

/-- A bare word is seen as the same word, up to the case of its letters. -/
theorem bareWord?_view (hV : V.Lawful) (k : TokenKind) : (k.view V).bareWord? = k.bareWord? := by
  cases k <;> simp [view, bareWord?, hV.upper]

/-- So it is the word that it was. -/
theorem isWord_view (hV : V.Lawful) (k : TokenKind) (word : String) :
    (k.view V).isWord word = k.isWord word := by
  cases k <;> simp [view, isWord, Text.sameWord, hV.upper]

/-- Whether a token of this kind may stand behind what a rule reads. Only a test may begin with one of
them, which is `IN`, only an empty list of arguments, which is a closing parenthesis, and only a list
goes on with one of them, which is the comma. -/
def isBorder : TokenKind → Bool
  | .endOfInput => true
  | .symbol sign => sign == .semicolon || sign == .rightParen || sign == .comma
  | .keyword word => word.startsClause || word == .IN
  | _ => false

/-- What may stand behind a rule differs from what may not. -/
theorem ne_of_isBorder {k k' : TokenKind} (h : k.isBorder = true) (h' : k'.isBorder = false) :
    k ≠ k' := by
  rintro rfl
  rw [h] at h'
  cases h'

/-- No name stands behind a rule where it ends, nor a string, a number or a bare word. -/
theorem not_isNameLike_of_isBorder {k : TokenKind} (h : k.isBorder = true) :
    k.isNameLike = false := by
  cases k with
  | keyword word => cases word <;> first | rfl | cases h
  | endOfInput | symbol => rfl
  | _ => cases h

theorem bareWord?_of_isBorder {k : TokenKind} (h : k.isBorder = true) : k.bareWord? = none := by
  cases k with
  | name => cases h
  | _ => rfl

theorem not_isBareName_of_isBorder {k : TokenKind} (h : k.isBorder = true) :
    k.isBareName = false := by
  cases k with
  | name => cases h
  | _ => rfl

theorem not_isString_of_isBorder {k : TokenKind} (h : k.isBorder = true) : k.isString = false := by
  cases k with
  | string => cases h
  | _ => rfl

theorem not_isNumber_of_isBorder {k : TokenKind} (h : k.isBorder = true) : k.isNumber = false := by
  cases k with
  | integer | real => cases h
  | _ => rfl

end TokenKind

namespace Grammar

variable {γ : Type} {V : View}

/-! ## Deciding by kinds -/

theorem Connective.ofKind?_view (k : TokenKind) : ofKind? (k.view V) = ofKind? k := by
  cases k <;> rfl

theorem arithmeticOp_ofKind?_view (hV : V.Lawful) (k : TokenKind) :
    ArithmeticOp.ofKind? (k.view V) = ArithmeticOp.ofKind? k := by
  cases k <;> simp [TokenKind.view, ArithmeticOp.ofKind?, Text.sameWord, hV.upper]

theorem Test.ofWord?_view (negated : Bool) (first second : TokenKind) :
    ofWord? negated (first.view V) (second.view V) = ofWord? negated first second := by
  cases second with
  | name value =>
    cases first with
    | keyword word => cases word <;> rfl
    | _ => rfl
  | _ => cases first <;> rfl

/-- A test is known by the kinds of its tokens, which are seen as they are. -/
theorem Test.ofKinds?_view (first second third : TokenKind) :
    ofKinds? (first.view V) (second.view V) (third.view V) = ofKinds? first second third := by
  cases first with
  | symbol sign => cases second <;> cases sign <;> rfl
  | keyword word =>
    cases word with
    | NOT =>
      show (ofWord? true (second.view V) (third.view V)).map _ = (ofWord? true second third).map _
      rw [ofWord?_view]
    | IS =>
      cases second with
      | keyword next => cases next <;> rfl
      | _ => rfl
    | _ => cases second <;> rfl
  | _ => rfl

/-- So is the beginning of a constant. -/
theorem startsConstant_view (hV : V.Lawful) (first second third : TokenKind) :
    startsConstant (first.view V) (second.view V) (third.view V) =
      startsConstant first second third := by
  have hsecond : (second.view V).isNumber = second.isNumber := second.isNumber_view
  cases first with
  | name value =>
    show startsDatetimeConstant (.name (V.word value)) _ _ = startsDatetimeConstant (.name value) _ _
    unfold startsDatetimeConstant
    rw [show TokenKind.bareWord? (.name (V.word value)) = TokenKind.bareWord? (.name value) from
      congrArg some (hV.upper value), TokenKind.bne_symbol_view, TokenKind.beq_symbol_view]
  | symbol sign => cases sign <;> first | rfl | exact hsecond
  | keyword word =>
    cases word with
    | DATE | TIME | TIMESTAMP => exact congrArg (true && ·) second.isString_view
    | _ => rfl
  | _ => rfl

/-- So is the form of an operand. -/
theorem operandForm?_view (hV : V.Lawful) (first second third : TokenKind) :
    operandForm? (first.view V) (second.view V) (third.view V) = operandForm? first second third := by
  unfold operandForm?
  rw [startsConstant_view hV, TokenKind.beq_symbol_view]
  cases first with
  | symbol sign =>
    cases sign with
    | dot =>
      show (if _ then _ else if (second.view V).isBareName then _ else _) = _
      rw [second.isBareName_view]
    | _ => rfl
  | keyword word => cases word <;> rfl
  | _ => rfl

/-! ## What is in sight -/

/-- Whether a comparison of token lists may end at a token of this kind. -/
def IsEndKind (k : TokenKind) : Prop := k = .endOfInput ∨ k = .symbol .semicolon

/-- Kinds of tokens at which a comparison of token lists may end. -/
structure EndKinds (ends : TokenKind → Bool) : Prop where
  endOfInput : ends .endOfInput = true
  eq_or_eq {k : TokenKind} : ends k = true → IsEndKind k

variable {ends : TokenKind → Bool}

/-- The tokens in front of the first that ends the comparison. -/
def inSight (ends : TokenKind → Bool) (tokens : List Token) : List Token :=
  tokens.takeWhile fun t => !ends t.kind

/-- The kind of the token `k` places ahead, where everything out of sight counts as the end of the
input. -/
def kindAt (tokens : List Token) (k : Nat) : TokenKind := (tokens[k]?.map Token.kind).getD .endOfInput

@[simp] theorem kindAt_nil (k : Nat) : kindAt [] k = .endOfInput := rfl

@[simp] theorem kindAt_cons_zero (t : Token) (ts : List Token) : kindAt (t :: ts) 0 = t.kind := rfl

@[simp] theorem kindAt_cons_succ (t : Token) (ts : List Token) (k : Nat) :
    kindAt (t :: ts) (k + 1) = kindAt ts k := rfl

/-- The kind of a token ahead is that of the token, as seen. -/
theorem kindAt_map (tokens : List Token) (k : Nat) :
    kindAt (tokens.map (Token.view V)) k = (kindAt tokens k).view V := by
  unfold kindAt
  rw [List.getElem?_map]
  cases tokens[k]? <;> rfl

/-- A token that ends nothing is in sight. -/
theorem inSight_cons {t : Token} (ts : List Token) (h : ends t.kind = false) :
    inSight ends (t :: ts) = t :: inSight ends ts := by
  simp [inSight, h]

/-- A token at which the comparison ends is not. -/
theorem inSight_cons_of_ends {t : Token} (ts : List Token) (h : ends t.kind = true) :
    inSight ends (t :: ts) = [] := by
  simp [inSight, h]

/-- A function of the kinds of three tokens for which nothing counts that is out of sight. -/
structure Shortsighted (g : TokenKind → TokenKind → TokenKind → γ) : Prop where
  first (second third : TokenKind) :
    g .endOfInput second third = g .endOfInput .endOfInput .endOfInput
  first' (second third : TokenKind) :
    g (.symbol .semicolon) second third = g .endOfInput .endOfInput .endOfInput
  second (first third : TokenKind) : g first .endOfInput third = g first .endOfInput .endOfInput
  second' (first third : TokenKind) :
    g first (.symbol .semicolon) third = g first .endOfInput .endOfInput
  third (first second : TokenKind) : g first second (.symbol .semicolon) = g first second .endOfInput

/-- If the first token is out of sight, so are the others. -/
theorem Shortsighted.of_first {g : TokenKind → TokenKind → TokenKind → γ} (hg : Shortsighted g)
    (hends : EndKinds ends) {k : TokenKind} (hk : ends k = true) (second third : TokenKind) :
    g k second third = g .endOfInput .endOfInput .endOfInput := by
  obtain rfl | rfl := hends.eq_or_eq hk
  · exact hg.first second third
  · exact hg.first' second third

/-- If the second token is out of sight, so is the third. -/
theorem Shortsighted.of_second {g : TokenKind → TokenKind → TokenKind → γ} (hg : Shortsighted g)
    (hends : EndKinds ends) {k : TokenKind} (hk : ends k = true) (first third : TokenKind) :
    g first k third = g first .endOfInput .endOfInput := by
  obtain rfl | rfl := hends.eq_or_eq hk
  · exact hg.second first third
  · exact hg.second' first third

/-- The third token alone may be out of sight. -/
theorem Shortsighted.of_third {g : TokenKind → TokenKind → TokenKind → γ} (hg : Shortsighted g)
    (hends : EndKinds ends) {k : TokenKind} (hk : ends k = true) (first second : TokenKind) :
    g first second k = g first second .endOfInput := by
  obtain rfl | rfl := hends.eq_or_eq hk
  · rfl
  · exact hg.third first second

/-- What is decided by three kinds is decided by what is in sight. -/
theorem Shortsighted.eq {g : TokenKind → TokenKind → TokenKind → γ} (hg : Shortsighted g)
    (hends : EndKinds ends) (c : Cursor) :
    g (c.peek 0).kind (c.peek 1).kind (c.peek 2).kind =
      g (kindAt (inSight ends c.ahead) 0) (kindAt (inSight ends c.ahead) 1)
        (kindAt (inSight ends c.ahead) 2) := by
  obtain ⟨passed, ahead, closing, hclosing⟩ := c
  have hkind : closing.kind = .endOfInput := eq_of_beq hclosing
  -- Behind the first kind that ends the sight nothing matters, wherever it stands among the three.
  rcases ahead with _ | ⟨t, _ | ⟨u, ahead⟩⟩
  · simp [Cursor.peek, inSight, kindAt, hkind]
  · cases ht : ends t.kind with
    | true =>
      rw [inSight_cons_of_ends [] ht]
      exact hg.of_first hends ht _ _
    | false =>
      rw [inSight_cons [] ht]
      simp [Cursor.peek, inSight, kindAt, hkind]
  · cases ht : ends t.kind with
    | true =>
      rw [inSight_cons_of_ends (u :: ahead) ht]
      exact hg.of_first hends ht _ _
    | false =>
      rw [inSight_cons (u :: ahead) ht]
      cases hu : ends u.kind with
      | true =>
        rw [inSight_cons_of_ends ahead hu]
        exact hg.of_second hends hu _ _
      | false =>
        rw [inSight_cons ahead hu]
        cases ahead with
        | nil => simp [Cursor.peek, inSight, kindAt, hkind]
        | cons v ahead =>
          cases hv : ends v.kind with
          | true =>
            rw [inSight_cons_of_ends ahead hv]
            exact hg.of_third hends hv _ _
          | false => rw [inSight_cons ahead hv]; rfl

/-- No test is found by what is out of sight. -/
theorem shortsighted_testKinds : Shortsighted Test.ofKinds? where
  first _ _ := rfl
  first' _ _ := rfl
  second first third := by
    cases first with
    | symbol sign => cases sign <;> rfl
    | keyword word => cases word <;> rfl
    | _ => rfl
  second' first third := by
    cases first with
    | symbol sign => cases sign <;> rfl
    | keyword word => cases word <;> rfl
    | _ => rfl
  third first second := by
    cases first with
    | symbol sign =>
      cases sign with
      | lt | gt =>
        cases second with
        | symbol next => cases next <;> rfl
        | _ => rfl
      | _ => rfl
    | keyword word =>
      cases word with
      | NOT | IS =>
        cases second with
        | keyword next => cases next <;> rfl
        | _ => rfl
      | _ => rfl
    | _ => rfl

/-- Nor is a constant. -/
theorem shortsighted_startsConstant : Shortsighted startsConstant where
  first _ _ := rfl
  first' _ _ := rfl
  second first third := by
    cases first with
    | name value => rfl
    | symbol sign => cases sign <;> rfl
    | keyword word => cases word <;> rfl
    | _ => rfl
  second' first third := by
    cases first with
    | name value => rfl
    | symbol sign => cases sign <;> rfl
    | keyword word => cases word <;> rfl
    | _ => rfl
  third first second := by
    cases first with
    | name value => rfl
    | symbol sign => cases sign <;> rfl
    | keyword word => cases word <;> rfl
    | _ => rfl

/-- Nor is the form of an operand. -/
theorem shortsighted_operandForm? : Shortsighted operandForm? where
  first _ _ := rfl
  first' _ _ := rfl
  second first third := by
    unfold operandForm?
    rw [shortsighted_startsConstant.second first third]
  second' first third := by
    unfold operandForm?
    rw [shortsighted_startsConstant.second' first third]
    rfl
  third first second := by
    unfold operandForm?
    rw [shortsighted_startsConstant.third first second]

/-! ## Names ahead -/

/-- Tokens of which the first, if there is one, may stand behind what a rule reads. -/
def Border (tokens : List Token) : Prop := (kindAt tokens 0).isBorder = true

instance (tokens : List Token) : Decidable (Border tokens) :=
  inferInstanceAs (Decidable ((kindAt tokens 0).isBorder = true))

/-- Where a comparison ends, a rule may end as well. -/
theorem IsEndKind.isBorder {k : TokenKind} (h : IsEndKind k) : k.isBorder = true := by
  obtain rfl | rfl := h <;> rfl

theorem IsEndKind.ne_rightParen {k : TokenKind} (h : IsEndKind k) : k ≠ .symbol .rightParen := by
  obtain rfl | rfl := h <;> nofun

/-- What is out of sight begins with a token at which the comparison ends. -/
theorem inSight_append (hends : EndKinds ends) (tokens : List Token) :
    ∃ hidden, IsEndKind (kindAt hidden 0) ∧ tokens = inSight ends tokens ++ hidden := by
  refine ⟨tokens.dropWhile fun t => !ends t.kind, ?_, List.takeWhile_append_dropWhile.symm⟩
  have hnot := List.head?_dropWhile_not (fun t : Token => !ends t.kind) tokens
  generalize tokens.dropWhile (fun t => !ends t.kind) = hidden at hnot
  cases hidden with
  | nil => exact .inl rfl
  | cons t ts => exact hends.eq_or_eq (by simpa using hnot)

namespace Border

variable {hidden : List Token}

theorem not_isNameLike {t : Token} (h : Border (t :: hidden)) : t.kind.isNameLike = false :=
  TokenKind.not_isNameLike_of_isBorder h

theorem not_isBareName {t : Token} (h : Border (t :: hidden)) : t.kind.isBareName = false :=
  TokenKind.not_isBareName_of_isBorder h

theorem ne_symbol {t : Token} (h : Border (t :: hidden)) {sign : Symbol}
    (hsign : (TokenKind.symbol sign).isBorder = false) : (t.kind == .symbol sign) = false := by
  rw [beq_eq_false_iff_ne]
  exact TokenKind.ne_of_isBorder h hsign

/-- The segments of a name do not go on where a rule may end. -/
theorem afterSegments_append (h : Border hidden) (tokens : List Token) :
    afterSegments (tokens ++ hidden) = afterSegments tokens ++ hidden := by
  fun_induction afterSegments tokens with
  | case1 dot segment rest hcond ih =>
    rw [List.cons_append, List.cons_append, afterSegments, if_pos hcond]
    exact ih
  | case2 dot segment rest hcond =>
    rw [List.cons_append, List.cons_append, afterSegments, if_neg hcond]
  | case3 tokens hshort =>
    match tokens, hidden with
    | [], [] => rfl
    | [], [t] => rfl
    | [], t :: u :: hidden =>
      rw [List.nil_append, afterSegments, h.ne_symbol (show (TokenKind.symbol .dot).isBorder = false from rfl), Bool.false_and, if_neg nofun]
    | [t], [] => rfl
    | [t], u :: hidden =>
      rw [List.singleton_append, afterSegments, h.not_isNameLike, Bool.and_false, if_neg nofun]
    | t :: u :: rest, _ => exact (hshort t u rest rfl).elim

/-- Nor does the first of them. -/
theorem afterIdent?_append (h : Border hidden) (tokens : List Token) :
    afterIdent? (tokens ++ hidden) = (afterIdent? tokens).map (· ++ hidden) := by
  match tokens, hidden with
  | [], [] => rfl
  | [], [t] => simp [afterIdent?, h.not_isNameLike]
  | [], t :: u :: hidden =>
    simp [afterIdent?, h.not_isNameLike, h.ne_symbol (show (TokenKind.symbol .dot).isBorder = false from rfl)]
  | [t], [] => cases ht : t.kind.isNameLike <;> simp [afterIdent?, ht]
  | [t], u :: hidden => cases ht : t.kind.isNameLike <;> simp [afterIdent?, ht, h.not_isBareName]
  | t :: u :: rest, _ =>
    cases ht : t.kind.isNameLike with
    | true => simp [afterIdent?, ht]
    | false =>
      cases hu : t.kind == .symbol .dot && u.kind.isBareName <;> simp [afterIdent?, ht, hu]

/-- Nor does a name. -/
theorem afterName?_append (h : Border hidden) (tokens : List Token) :
    afterName? (tokens ++ hidden) = (afterName? tokens).map (· ++ hidden) := by
  unfold afterName?
  rw [h.afterIdent?_append, Option.map_map, Option.map_map]
  exact congrArg (fun f => Option.map f _) (funext fun rest => h.afterSegments_append rest)

/-- Nor does a field. -/
theorem afterField?_append (h : Border hidden) (tokens : List Token) :
    afterField? (tokens ++ hidden) = (afterField? tokens).map (· ++ hidden) := by
  have hname := h.afterName?_append tokens
  match tokens, hidden with
  | [], [] => rfl
  | [], t :: hidden =>
    have hstring : t.kind.isString = false := TokenKind.not_isString_of_isBorder h
    show (if t.kind.isString = true then some hidden else afterName? (t :: hidden)) = none
    rw [hstring, if_neg nofun]
    exact hname
  | t :: tokens, _ =>
    cases hstring : t.kind.isString with
    | true => simp [afterField?, hstring]
    | false => simpa [afterField?, hstring] using hname

theorem bareWord?_eq_none {t : Token} (h : Border (t :: hidden)) : t.kind.bareWord? = none :=
  TokenKind.bareWord?_of_isBorder h

/-- Whether a relevance function starts behind its field is decided by what is in sight. -/
theorem startsFieldEquals_append (h : Border hidden) (tokens : List Token) :
    startsFieldEquals (tokens ++ hidden) = startsFieldEquals tokens := by
  unfold startsFieldEquals
  rw [h.afterField?_append]
  cases afterField? tokens with
  | none => rfl
  | some rest =>
    match rest, hidden with
    | [], [] | [], [t] | [], [t, u] | [a], [] | [a], [t] | [a, b], [] => rfl
    | [], t :: u :: v :: hidden => simp [h.ne_symbol (show (TokenKind.symbol .eq).isBorder = false from rfl)]
    | [a], t :: u :: hidden => simp [h.bareWord?_eq_none]
    | [a, b], t :: hidden => simp [h.ne_symbol (show (TokenKind.symbol .leftParen).isBorder = false from rfl)]
    | a :: b :: c :: rest, _ => rfl

/-- Whether a path and all of its fields follow a name in sight is decided by what is in sight. -/
theorem startsNestedAll_append (h : Border hidden)
    (hclose : kindAt hidden 0 ≠ .symbol .rightParen) {tokens : List Token} (hne : tokens ≠ []) :
    startsNestedAll (tokens ++ hidden) = startsNestedAll tokens := by
  match tokens, hidden with
  | [a], [] => rfl
  | [a], t :: hidden => simp [startsNestedAll, h.ne_symbol (show (TokenKind.symbol .leftParen).isBorder = false from rfl)]
  | a :: b :: rest, hidden =>
    rw [List.cons_append, List.cons_append]
    simp only [startsNestedAll]
    rw [h.afterName?_append]
    cases afterName? rest with
    | none => rfl
    | some rest =>
      match rest, hidden with
      | [], [] | [], [t] | [], [t, u] | [a], [] | [a], [t] | [a, b], [] => rfl
      | [], t :: u :: v :: hidden => simp [h.ne_symbol (show (TokenKind.symbol .dot).isBorder = false from rfl)]
      | [a], t :: u :: hidden => simp [h.ne_symbol (show (TokenKind.symbol .star).isBorder = false from rfl)]
      | [a, b], t :: hidden => simp [show t.kind ≠ .symbol .rightParen from hclose]
      | a :: b :: c :: rest, _ => rfl

end Border

/-- A relevance function behind its field is found within sight. -/
theorem startsFieldEquals_inSight (hends : EndKinds ends) (tokens : List Token) :
    startsFieldEquals (inSight ends tokens) = startsFieldEquals tokens := by
  obtain ⟨hidden, hhidden, heq⟩ := inSight_append hends tokens
  have happend := Border.startsFieldEquals_append hhidden.isBorder (inSight ends tokens)
  rw [← heq] at happend
  exact happend.symm

/-- So is a nested field with a star. -/
theorem startsNestedAll_inSight (hends : EndKinds ends) {tokens : List Token}
    (hne : inSight ends tokens ≠ []) :
    startsNestedAll (inSight ends tokens) = startsNestedAll tokens := by
  obtain ⟨hidden, hhidden, heq⟩ := inSight_append hends tokens
  have happend := Border.startsNestedAll_append hhidden.isBorder hhidden.ne_rightParen hne
  rw [← heq] at happend
  exact happend.symm

/-- Looking over a name comes to the same place in the tokens as seen; so it does for all parts of
it. -/
theorem afterSegments_map (tokens : List Token) :
    afterSegments (tokens.map (Token.view V)) = (afterSegments tokens).map (Token.view V) := by
  fun_induction afterSegments tokens with
  | case1 dot segment rest hcond ih =>
    rw [List.map_cons, List.map_cons, afterSegments, if_pos]
    · exact ih
    · simpa [Token.view, TokenKind.beq_symbol_view] using hcond
  | case2 dot segment rest hcond =>
    rw [List.map_cons, List.map_cons, afterSegments, if_neg]
    simpa [Token.view, TokenKind.beq_symbol_view] using hcond
  | case3 tokens hshort =>
    match tokens with
    | [] | [t] => rfl
    | t :: u :: rest => exact (hshort t u rest rfl).elim

theorem afterIdent?_map (tokens : List Token) :
    afterIdent? (tokens.map (Token.view V)) =
      (afterIdent? tokens).map (List.map (Token.view V)) := by
  match tokens with
  | [] => rfl
  | [t] => cases ht : t.kind.isNameLike <;> simp [afterIdent?, Token.view, ht]
  | t :: u :: rest =>
    cases ht : t.kind.isNameLike with
    | true => simp [afterIdent?, Token.view, ht]
    | false =>
      cases hu : t.kind == .symbol .dot && u.kind.isBareName <;>
        simp [afterIdent?, Token.view, TokenKind.beq_symbol_view, ht, hu]

theorem afterName?_map (tokens : List Token) :
    afterName? (tokens.map (Token.view V)) = (afterName? tokens).map (List.map (Token.view V)) := by
  unfold afterName?
  rw [afterIdent?_map, Option.map_map, Option.map_map]
  exact congrArg (fun f => Option.map f _) (funext afterSegments_map)

theorem afterField?_map (tokens : List Token) :
    afterField? (tokens.map (Token.view V)) =
      (afterField? tokens).map (List.map (Token.view V)) := by
  cases tokens with
  | nil => rfl
  | cons t tokens =>
    have hname := afterName?_map (V := V) (t :: tokens)
    cases hstring : t.kind.isString with
    | true => simp [afterField?, Token.view, hstring]
    | false =>
      show (if (t.kind.view V).isString = true then _ else afterName? ((t :: tokens).map _)) =
        Option.map _ (if t.kind.isString = true then _ else afterName? (t :: tokens))
      rw [TokenKind.isString_view, hstring, if_neg nofun, if_neg nofun]
      exact hname

/-- A relevance function behind its field is seen as one. -/
theorem startsFieldEquals_map (hV : V.Lawful) (tokens : List Token) :
    startsFieldEquals (tokens.map (Token.view V)) = startsFieldEquals tokens := by
  unfold startsFieldEquals
  rw [afterField?_map]
  cases afterField? tokens with
  | none => rfl
  | some rest =>
    match rest with
    | [] | [a] | [a, b] => rfl
    | a :: b :: c :: rest =>
      simp [Token.view, TokenKind.beq_symbol_view, TokenKind.bareWord?_view hV]

/-- A nested field with a star is seen as one. -/
theorem startsNestedAll_map (tokens : List Token) :
    startsNestedAll (tokens.map (Token.view V)) = startsNestedAll tokens := by
  match tokens with
  | [] | [a] => rfl
  | a :: b :: rest =>
    rw [List.map_cons, List.map_cons]
    simp only [startsNestedAll]
    rw [afterName?_map]
    cases afterName? rest with
    | none => simp [Token.view, TokenKind.beq_symbol_view]
    | some rest =>
      match rest with
      | [] | [c] | [c, d] => simp [Token.view, TokenKind.beq_symbol_view]
      | c :: d :: e :: rest => simp [Token.view, TokenKind.beq_symbol_view]

end Grammar

end SearchSql
