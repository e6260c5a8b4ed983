import SearchSql.Token.Cursor
import SearchSql.Vocabulary.Datetime
import SearchSql.Vocabulary.Function

/-!
# Deciding by the tokens ahead

Where the grammar offers several forms, a few tokens ahead decide between them. Nothing is taken.
Only a qualified name may have any length: `afterName?` gives the tokens behind one, which are a
suffix of the tokens given (`afterName?_suffix`).

The words `DATE`, `TIME` and `TIMESTAMP` start a literal in front of a string, a call in front of a
parenthesis, and are names otherwise.
-/

set_option autoImplicit false

namespace SearchSql.Grammar

/-- The tokens behind the segments that follow the first segment of a name. -/
def afterSegments : List Token → List Token
  | dot :: segment :: rest =>
      if dot.kind == .symbol .dot && segment.kind.isNameLike then afterSegments rest
      else dot :: segment :: rest
  | tokens => tokens

/-- The tokens behind an identifier, which may have a dot in front. -/
def afterIdent? : List Token → Option (List Token)
  | [] => none
  | first :: rest =>
      if first.kind.isNameLike then some rest
      else
        match rest with
        | [] => none
        | second :: rest =>
            if first.kind == .symbol .dot && second.kind.isBareName then some rest else none

/-- The tokens behind a qualified name. -/
def afterName? (tokens : List Token) : Option (List Token) := (afterIdent? tokens).map afterSegments

theorem afterSegments_suffix (tokens : List Token) : afterSegments tokens <:+ tokens := by
  fun_induction afterSegments tokens with
  | case1 dot segment rest _ ih =>
    exact ih.trans ⟨[dot, segment], rfl⟩
  | case2 => exact List.suffix_refl _
  | case3 => exact List.suffix_refl _

theorem afterIdent?_suffix {tokens rest : List Token} (h : afterIdent? tokens = some rest) :
    rest <:+ tokens := by
  fun_cases afterIdent? tokens with
  | case1 => simp [afterIdent?] at h
  | case2 first rest' hf =>
    simp only [afterIdent?, hf, if_true, Option.some.injEq] at h
    exact h ▸ List.suffix_cons first rest'
  | case3 first hf => simp [afterIdent?, hf] at h
  | case4 first hf second rest' hs =>
    simp only [afterIdent?, hf, hs, if_true, Bool.false_eq_true, if_false, Option.some.injEq] at h
    exact h ▸ ⟨[first, second], rfl⟩
  | case5 first hf second rest' hs => simp [afterIdent?, hf, hs] at h

theorem afterName?_suffix {tokens rest : List Token} (h : afterName? tokens = some rest) :
    rest <:+ tokens := by
  obtain ⟨middle, hm, rfl⟩ := Option.map_eq_some_iff.1 h
  exact (afterSegments_suffix middle).trans (afterIdent?_suffix hm)

/-- The tokens behind a field of a relevance function: a string or a qualified name. -/
def afterField? : List Token → Option (List Token)
  | [] => none
  | first :: rest => if first.kind.isString then some rest else afterName? (first :: rest)

/-- Whether a relevance function written behind its field starts here, as in
`field = MATCH_QUERY(`. -/
def startsFieldEquals (tokens : List Token) : Bool :=
  match afterField? tokens with
  | some (sign :: function :: open_ :: _) =>
      sign.kind == .symbol .eq
        && (function.kind.bareWord?.bind fieldEqualsKind?).isSome
        && open_.kind == .symbol .leftParen
  | _ => false

/-- Whether the function name here is followed by a path and all of its fields, as in
`NESTED(path.*)`. -/
def startsNestedAll : List Token → Bool
  | _ :: open_ :: rest =>
      open_.kind == .symbol .leftParen &&
        match afterName? rest with
        | some (dot :: star :: close :: _) =>
            dot.kind == .symbol .dot && star.kind == .symbol .star &&
              close.kind == .symbol .rightParen
        | _ => false
  | _ => false

/-- Whether the word is `DATE`, `TIME` or `TIMESTAMP`. -/
def isTemporalWord : Keyword → Bool
  | .DATE | .TIME | .TIMESTAMP => true
  | _ => false

/-- Whether tokens of these kinds start a word for the current date or time. With anything between
the parentheses it is a call instead. -/
def startsDatetimeConstant (first second third : TokenKind) : Bool :=
  (first.bareWord?.bind DatetimeConstant.ofText?).isSome &&
    (second != .symbol .leftParen || third == .symbol .rightParen)

/-- Whether tokens of these kinds start a constant. -/
def startsConstant (first second third : TokenKind) : Bool :=
  match first with
  | .string _ | .integer | .real | .symbol .leftBrace => true
  | .keyword .TRUE | .keyword .FALSE | .keyword .NULL | .keyword .INTERVAL => true
  | .symbol .plus | .symbol .minus => second.isNumber
  | .keyword word => isTemporalWord word && second.isString
  | .name _ => startsDatetimeConstant first second third
  | _ => false

theorem startsConstant_name (word : String) (second third : TokenKind) :
    startsConstant (.name word) second third =
      ((DatetimeConstant.ofText? word).isSome &&
        (second != .symbol .leftParen || third == .symbol .rightParen)) := by
  unfold startsConstant startsDatetimeConstant
  dsimp only
  rw [TokenKind.bareWord?, Option.bind_some, DatetimeConstant.ofText?_upper]

/-- The forms of an operand. -/
inductive OperandForm where
  | parenthesized | constant | call | column
  deriving DecidableEq, Repr

/-- The form of the operand that tokens of these kinds start. -/
def operandForm? (first second third : TokenKind) : Option OperandForm :=
  let opens := second == .symbol .leftParen
  if startsConstant first second third then some .constant
  else
    match first with
    | .symbol .leftParen => some .parenthesized
    | .symbol .dot => if second.isBareName then some .column else none
    | .keyword .CASE | .keyword .CAST => some .call
    | .keyword .DATETIME => some (if opens then .call else .column)
    | .keyword word =>
        if isTemporalWord word && opens then some .call
        else if word.isNameLike then some .column
        else none
    | .name _ => some (if opens then .call else .column)
    | .quotedName _ => some .column
    | _ => none

/-- Whether an argument with a name starts here, as in `query = 'text'`. -/
def startsNamedArgument (first second : TokenKind) : Bool :=
  (first.isWord "query" || first.isWord "fields") && second == .symbol .eq

/-- Whether a token of this kind may be a piece of a pattern written without quotes. -/
def isPatternPiece : TokenKind → Bool
  | .name _ | .integer | .real => true
  | .symbol .percent | .symbol .minus | .symbol .star | .symbol .dot => true
  | .keyword word => word.isNameLike
  | _ => false

/-- The tokens that a pattern written without quotes is made of. Each starts where the one before
ends, which is at `stop` for the first. -/
def plainPattern : Option Nat → List Token → List Token
  | _, [] => []
  | stop, t :: ts =>
      if isPatternPiece t.kind && stop.all (· == t.span.start) then
        t :: plainPattern (some t.span.stop) ts
      else []

theorem plainPattern_prefix (stop : Option Nat) (tokens : List Token) :
    plainPattern stop tokens <+: tokens := by
  induction tokens generalizing stop with
  | nil => exact List.nil_prefix
  | cons t ts ih =>
    unfold plainPattern
    split
    · exact (List.prefix_cons_inj t).2 (ih _)
    · exact List.nil_prefix

end SearchSql.Grammar

namespace SearchSql.Cursor

/-- The form of the operand under the cursor. -/
def operandForm? (c : Cursor) : Option Grammar.OperandForm :=
  Grammar.operandForm? (c.peek 0).kind (c.peek 1).kind (c.peek 2).kind

/-- Whether the cursor is at a constant. -/
def startsConstant (c : Cursor) : Bool :=
  Grammar.startsConstant (c.peek 0).kind (c.peek 1).kind (c.peek 2).kind

end SearchSql.Cursor
