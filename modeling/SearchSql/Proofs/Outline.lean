import SearchSql.Grammar.Constants
import SearchSql.Proofs.NumberText

/-!
# Outlines of trees

The outline of a tree says, token by token and in order, what its written form is made of. A `Mark`
stands for one token: a reserved word, a symbol, a name, a value. Between the marks stand remarks,
which take no token and recall the parts of the tree that may be written in more than one way.

`Mark.token` is the token that the written form has for a mark, and `Mark.Denotes` says of any token
that it stands for the mark, however it is written.
-/

set_option autoImplicit false

namespace SearchSql

open Grammar (TemporalKind)
open Number (Binary64 Layout)

/-! ## Marks and remarks -/

/-- A value that the string behind a word for a date or time denotes. -/
inductive Grammar.TemporalValue where
  | date (value : Time.Date)
  | time (value : Time.Clock)
  | timestamp (value : Time.Timestamp)

namespace Grammar.TemporalValue

/-- The kind of literal that has the value. -/
def kind : TemporalValue → TemporalKind
  | date _ => .date
  | time _ => .time
  | timestamp _ => .timestamp

/-- The literal with the value. -/
def literal : TemporalValue → Literal
  | date value => .date value
  | time value => .time value
  | timestamp value => .timestamp value

/-- The text that is written for the value. -/
def text : TemporalValue → String
  | date value => value.text
  | time value => value.text
  | timestamp value => value.text ' '

end Grammar.TemporalValue

open Grammar (TemporalValue)

/-- What a single token stands for. -/
inductive Mark where
  | keyword (word : Keyword)
  | symbol (sign : Symbol)
  /-- A word that is known by its spelling: the name of a function, an option, a unit or a type. -/
  | word (text : String)
  /-- An identifier, which is written bare or between backticks. -/
  | name (value : String) (bare : Bool)
  | string (value : String)
  | temporal (value : TemporalValue)
  | integer (value : Int)
  | real (value : Binary64)
  | weight (value : Binary64)
  /-- A number of rows. -/
  | count (value : Nat)
  /-- A token of a pattern without quotes. -/
  | verbatim (token : Token)
  | ending

/-- A part of a tree that the outline recalls in front of its marks. -/
inductive Remark where
  | ident (name : Ident)
  | qualified (name : QualifiedName)
  | alias (name : Ident)
  /-- A constant that is a number, which may be an integer and zero. -/
  | number (zero : Bool) (span : Span)
  /-- A boost behind the field with the given span. -/
  | boost (field : Span)
  | limit (span : Span)
  /-- A relevance function with named arguments. -/
  | named
  /-- A literal that denotes no value. -/
  | malformed

/-- An element of an outline. -/
inductive Item where
  | mark (mark : Mark)
  | remark (remark : Remark)

namespace Item

/-- The mark, if the element is one. -/
def mark? : Item → Option Mark
  | mark m => some m
  | remark _ => none

/-- The remark, if the element is one. -/
def remark? : Item → Option Remark
  | mark _ => none
  | remark r => some r

/-- A reserved word. -/
abbrev keyword (word : Keyword) : Item := .mark (.keyword word)

/-- A symbol. -/
abbrev symbol (sign : Symbol) : Item := .mark (.symbol sign)

/-- A word known by its spelling. -/
abbrev word (text : String) : Item := .mark (.word text)

/-- A string. -/
abbrev string (value : String) : Item := .mark (.string value)

end Item

/-- The marks of an outline. -/
def marks (items : List Item) : List Mark := items.filterMap Item.mark?

/-- The remarks of an outline. -/
def remarks (items : List Item) : List Remark := items.filterMap Item.remark?

@[simp] theorem marks_nil : marks [] = [] := rfl

/-- Two outlines in a row have the marks of both. -/
@[simp] theorem marks_append (is js : List Item) : marks (is ++ js) = marks is ++ marks js :=
  List.filterMap_append

@[simp] theorem marks_cons_mark (m : Mark) (is : List Item) :
    marks (.mark m :: is) = m :: marks is := rfl

@[simp] theorem marks_cons_remark (r : Remark) (is : List Item) :
    marks (.remark r :: is) = marks is := rfl

/-- The marks of an outline are its elements that are marks. -/
theorem mem_marks {m : Mark} {is : List Item} : m ∈ marks is ↔ .mark m ∈ is := by
  unfold marks
  rw [List.mem_filterMap]
  constructor
  · rintro ⟨i, hi, heq⟩
    cases i with
    | mark n => exact Option.some.inj heq ▸ hi
    | remark r => cases heq
  · intro h
    exact ⟨_, h, rfl⟩

/-- The remarks of an outline are its elements that are remarks. -/
theorem mem_remarks {r : Remark} {is : List Item} : r ∈ remarks is ↔ .remark r ∈ is := by
  unfold remarks
  rw [List.mem_filterMap]
  constructor
  · rintro ⟨i, hi, heq⟩
    cases i with
    | mark n => cases heq
    | remark r => exact Option.some.inj heq ▸ hi
  · intro h
    exact ⟨_, h, rfl⟩

/-- Outlines with a symbol between them. -/
def separated (sign : Symbol) : List (List Item) → List Item
  | [] => []
  | is :: rest => is ++ rest.flatMap (.symbol sign :: ·)

/-- A last outline has a symbol in front. -/
theorem separated_concat (sign : Symbol) {first : List Item} {rest : List (List Item)}
    (last : List Item) :
    separated sign (first :: rest ++ [last]) =
      separated sign (first :: rest) ++ .symbol sign :: last := by
  simp [separated]

/-! ## Outlines of names and values -/

/-- The outline of an identifier. A dot in front of a bare one is a token of its own. -/
def Ident.outline (name : Ident) : List Item :=
  .remark (.ident name) ::
    if name.isBare then
      match name.value.toList with
      | '.' :: cs => [.symbol .dot, .mark (.name (String.ofList cs) true)]
      | _ => [.mark (.name name.value true)]
    else [.mark (.name name.value false)]

/-- The outline of a qualified name. -/
def QualifiedName.outline (name : QualifiedName) : List Item :=
  .remark (.qualified name) :: separated .dot (name.parts.map Ident.outline)

/-- The outline of a field. -/
def Field.outline : Field → List Item
  | .name n => n.outline
  | .quoted value _ => [.string value]

/-- Where a field was read. -/
def Field.span : Field → Span
  | .name n => n.span
  | .quoted _ span => span

/-- The outline of a field with its boost. -/
def WeightedField.outline (f : WeightedField) : List Item :=
  f.field.outline ++
    match f.weight with
    | some weight => [.remark (.boost f.field.span), .symbol .caret, .mark (.weight weight)]
    | none => []

/-- The outline of fields in brackets. -/
def bracketed (fs : List WeightedField) : List Item :=
  .symbol .leftBracket :: separated .comma (fs.map WeightedField.outline) ++ [.symbol .rightBracket]

/-- The outline of the fields of a named argument. -/
def namedFields : List WeightedField → List Item
  | [f] => f.outline
  | fs => bracketed fs

/-- The outline of a relevance call without its options and closing parenthesis, from the name of
its function and the outline of its query. -/
def RelevanceForm.outline (form : RelevanceForm) (name : String) (query : List Item) : List Item :=
  match form with
  | .noField => .word name :: .symbol .leftParen :: query
  | .field f => .word name :: .symbol .leftParen :: f.outline ++ .symbol .comma :: query
  | .fields fs => .word name :: .symbol .leftParen :: bracketed fs ++ .symbol .comma :: query
  | .fieldEquals f | .fieldEqualsMulti f =>
      f.outline ++ .symbol .eq :: .word name :: .symbol .leftParen :: query
  | .named fs =>
      .word name :: .symbol .leftParen :: .remark .named :: .word "query" :: .symbol .eq :: query ++
        .symbol .comma :: .word "fields" :: .symbol .eq :: namedFields fs

/-- The outline of an option of `HIGHLIGHT`, with the comma in front. -/
def HighlightOption.outline (o : HighlightOption) : List Item :=
  [.symbol .comma, .word o.name, .symbol .eq, .string o.value]

/-- The symbol that a comparison is written as. -/
def ComparisonOp.sign : ComparisonOp → Symbol
  | .eq => .eq
  | .notEq => .notEq
  | .lt => .lt
  | .ltEq => .ltEq
  | .gt => .gt
  | .gtEq => .gtEq

/-- The outline of an arithmetic operator. -/
def ArithmeticOp.outline : ArithmeticOp → Item
  | .add => .symbol .plus
  | .subtract => .symbol .minus
  | .multiply => .symbol .star
  | .divide => .symbol .slash
  | .modulo => .symbol .percent
  | .wholeDivide => .word "DIV"
  | .wholeModulo => .word "MOD"

/-- The outline of a negation, if there is one. -/
def negationOutline (negated : Bool) : List Item := if negated then [.keyword .NOT] else []

/-- The outline of a direction. -/
def Direction.outline : Direction → Item
  | .ascending => .keyword .ASC
  | .descending => .keyword .DESC

/-- The outline of a place of nulls. -/
def NullOrder.outline : NullOrder → List Item
  | .first => [.keyword .NULLS, .keyword .FIRST]
  | .last => [.keyword .NULLS, .keyword .LAST]

/-- The remark in front of a constant, if it is a number. -/
def Literal.remark (value : Literal) (span : Span) : List Item :=
  match value with
  | .integer n => [.remark (.number (n == 0) span)]
  | .real _ => [.remark (.number false span)]
  | _ => []

/-! ## Outlines of expressions -/

mutual

/-- The outline of an expression. -/
def Expr.outline : Expr → List Item
  | .not operand _ => .keyword .NOT :: operand.outline
  | .and left right => left.outline ++ .keyword .AND :: right.outline
  | .or left right => left.outline ++ .keyword .OR :: right.outline
  | .predicate p => p.outline

/-- The outline of a predicate. -/
def Predicate.outline : Predicate → List Item
  | .comparison op left right => left.outline ++ .symbol op.sign :: right.outline
  | .isNull target negated _ =>
      target.outline ++ .keyword .IS :: negationOutline negated ++ [.keyword .NULL]
  | .between target negated low high =>
      target.outline ++ negationOutline negated ++ .keyword .BETWEEN :: low.outline ++
        .keyword .AND :: high.outline
  | .like left negated pattern =>
      left.outline ++ negationOutline negated ++ .keyword .LIKE :: pattern.outline
  | .regexp left negated pattern =>
      left.outline ++ negationOutline negated ++ .keyword .REGEXP :: pattern.outline
  | .within target negated items _ =>
      target.outline ++ negationOutline negated ++ .keyword .IN :: .symbol .leftParen ::
        separated .comma (outlineAll items) ++ [.symbol .rightParen]
  | .atom a => a.outline

/-- The outline of an atom. -/
def Atom.outline : Atom → List Item
  | .constant c => c.outline
  | .column name => name.outline
  | .call f => f.outline
  | .parenthesized inner _ => .symbol .leftParen :: inner.outline ++ [.symbol .rightParen]
  | .arithmetic op left right => left.outline ++ op.outline :: right.outline

/-- The outline of a constant. -/
def Constant.outline : Constant → List Item
  | ⟨value, span⟩ => value.remark span ++ value.outline

/-- The outline of a literal. -/
def Literal.outline : Literal → List Item
  | .string value => [.string value]
  | .integer value => (if value < 0 then [.symbol .minus] else []) ++ [.mark (.integer value)]
  | .real value => (if value.negative then [.symbol .minus] else []) ++ [.mark (.real value)]
  | .boolean value => [.keyword (if value then .TRUE else .FALSE)]
  | .null => [.keyword .NULL]
  | .date value => [.keyword .DATE, .mark (.temporal (.date value))]
  | .time value => [.keyword .TIME, .mark (.temporal (.time value))]
  | .timestamp value => [.keyword .TIMESTAMP, .mark (.temporal (.timestamp value))]
  | .interval amount unit => .keyword .INTERVAL :: amount.outline ++ [.word unit.text]
  | .datetime name parens =>
      .word name.text :: if parens then [.symbol .leftParen, .symbol .rightParen] else []
  | .malformed _ _ _ => [.remark .malformed]

/-- The outline of a call. -/
def Call.outline : Call → List Item
  | ⟨shape, _⟩ => shape.outline

/-- The outline of a call of some shape. -/
def CallShape.outline : CallShape → List Item
  | .nestedAll name path =>
      .word name :: .symbol .leftParen :: path.outline ++
        [.symbol .dot, .symbol .star, .symbol .rightParen]
  | .scalar name _ args =>
      .word name :: .symbol .leftParen :: separated .comma (outlineAll args) ++
        [.symbol .rightParen]
  | .case operand branches otherwise =>
      .keyword .CASE :: outlineOptional [] operand ++ outlineBranches branches ++
        outlineOptional [.keyword .ELSE] otherwise ++ [.keyword .END]
  | .cast expr target =>
      .keyword .CAST :: .symbol .leftParen :: expr.outline ++
        [.keyword .AS, .word target.text, .symbol .rightParen]
  | .ranking function args window =>
      .word function.text :: .symbol .leftParen :: separated .comma (outlineAll args) ++
        .symbol .rightParen :: window.outline
  | .windowed aggregate window => aggregate.outline ++ window.outline
  | .aggregate aggregate => aggregate.outline
  | .filtered aggregate orderBy filter =>
      aggregate.outline ++ outlineOptionalOrder orderBy ++ filter.outline
  | .score name relevance weight =>
      .word name :: .symbol .leftParen :: relevance.outline ++
        (match weight with
        | some w => [.symbol .comma, .mark (.weight w)]
        | none => []) ++ [.symbol .rightParen]
  | .relevance relevance => relevance.outline
  | .highlight field options =>
      .word "HIGHLIGHT" :: .symbol .leftParen :: field.outline ++
        options.flatMap HighlightOption.outline ++ [.symbol .rightParen]
  | .position substring string =>
      .word "POSITION" :: .symbol .leftParen :: substring.outline ++
        .keyword .IN :: string.outline ++ [.symbol .rightParen]
  | .extract unit arg =>
      .word "EXTRACT" :: .symbol .leftParen :: .word unit.text :: .keyword .FROM :: arg.outline ++
        [.symbol .rightParen]
  | .getFormat target format =>
      .word "GET_FORMAT" :: .symbol .leftParen :: .word target.text :: .symbol .comma ::
        format.outline ++ [.symbol .rightParen]
  | .timestamp function unit first second =>
      .word function.text :: .symbol .leftParen :: .word unit.text :: .symbol .comma ::
        first.outline ++ .symbol .comma :: second.outline ++ [.symbol .rightParen]

/-- The outline of a branch. -/
def CaseBranch.outline : CaseBranch → List Item
  | ⟨condition, result⟩ =>
      .keyword .WHEN :: condition.outline ++ .keyword .THEN :: result.outline

/-- The outline of an aggregate call. -/
def Aggregate.outline : Aggregate → List Item
  | .regular function arg =>
      .word function.text :: .symbol .leftParen :: arg.outline ++ [.symbol .rightParen]
  | .countStar => [.word "COUNT", .symbol .leftParen, .symbol .star, .symbol .rightParen]
  | .countDistinct args =>
      .word "COUNT" :: .symbol .leftParen :: .keyword .DISTINCT ::
        separated .comma (outlineAll args) ++ [.symbol .rightParen]
  | .percentile function field percent compression =>
      .word function.text :: .symbol .leftParen :: field.outline ++ .symbol .comma ::
        percent.outline ++ outlineOptionalConstant compression ++ [.symbol .rightParen]

/-- The outline of a window. -/
def Window.outline : Window → List Item
  | ⟨partition, orderBy, _⟩ =>
      .keyword .OVER :: .symbol .leftParen :: outlineOptionalPartition partition ++
        outlineOptionalOrder orderBy ++ [.symbol .rightParen]

/-- The outline of a partition. -/
def PartitionBy.outline : PartitionBy → List Item
  | ⟨exprs, _⟩ => .keyword .PARTITION :: .keyword .BY :: separated .comma (outlineAll exprs)

/-- The outline of an order. -/
def OrderBy.outline : OrderBy → List Item
  | ⟨items, _⟩ => .keyword .ORDER :: .keyword .BY :: separated .comma (outlineItems items)

/-- The outline of an expression to order by. -/
def OrderItem.outline : OrderItem → List Item
  | ⟨expr, direction, nulls⟩ =>
      expr.outline ++ direction.elim [] ([·.outline]) ++ nulls.elim [] NullOrder.outline

/-- The outline of a filter. -/
def Filter.outline : Filter → List Item
  | ⟨condition, _⟩ =>
      .keyword .FILTER :: .symbol .leftParen :: .keyword .WHERE :: condition.outline ++
        [.symbol .rightParen]

/-- The outline of a full-text search. -/
def Relevance.outline : Relevance → List Item
  | ⟨name, form, query, options⟩ =>
      form.outline name query.outline ++ outlineOptions options ++ [.symbol .rightParen]

/-- The outline of a search text or option value. -/
def SearchValue.outline : SearchValue → List Item
  | .name n => n.outline
  | .constant c => c.outline

/-- The outline of an option, with the comma in front. -/
def RelevanceOption.outline : RelevanceOption → List Item
  | ⟨name, quotedName, value⟩ =>
      .symbol .comma :: (if quotedName then .string name else .word name) :: .symbol .eq ::
        value.outline

/-- The outlines of expressions. -/
def outlineAll : List Expr → List (List Item)
  | [] => []
  | e :: es => e.outline :: outlineAll es

/-- The outlines of expressions to order by. -/
def outlineItems : List OrderItem → List (List Item)
  | [] => []
  | i :: is => i.outline :: outlineItems is

/-- The outline of branches. -/
def outlineBranches : List CaseBranch → List Item
  | [] => []
  | b :: bs => b.outline ++ outlineBranches bs

/-- The outline of options. -/
def outlineOptions : List RelevanceOption → List Item
  | [] => []
  | o :: os => o.outline ++ outlineOptions os

/-- The outline of an expression behind `before`, if there is one. -/
def outlineOptional (before : List Item) : Option Expr → List Item
  | none => []
  | some e => before ++ e.outline

/-- The outline of a constant behind a comma, if there is one. -/
def outlineOptionalConstant : Option Constant → List Item
  | none => []
  | some c => .symbol .comma :: c.outline

/-- The outline of a partition, if there is one. -/
def outlineOptionalPartition : Option PartitionBy → List Item
  | none => []
  | some p => p.outline

/-- The outline of an order, if there is one. -/
def outlineOptionalOrder : Option OrderBy → List Item
  | none => []
  | some o => o.outline

end

/-- Expressions are outlined one by one. -/
theorem outlineAll_eq_map (es : List Expr) : outlineAll es = es.map Expr.outline := by
  induction es with
  | nil => rfl
  | cons e es ih => simp [outlineAll, ih]

/-- Expressions to order by are outlined one by one. -/
theorem outlineItems_eq_map (is : List OrderItem) :
    outlineItems is = is.map OrderItem.outline := by
  induction is with
  | nil => rfl
  | cons i is ih => simp [outlineItems, ih]

/-- Branches are outlined in a row. -/
theorem outlineBranches_eq_flatMap (bs : List CaseBranch) :
    outlineBranches bs = bs.flatMap CaseBranch.outline := by
  induction bs with
  | nil => rfl
  | cons b bs ih => simp [outlineBranches, ih]

/-- Options are outlined in a row. -/
theorem outlineOptions_eq_flatMap (os : List RelevanceOption) :
    outlineOptions os = os.flatMap RelevanceOption.outline := by
  induction os with
  | nil => rfl
  | cons o os ih => simp [outlineOptions, ih]

/-! ## Outlines of statements -/

/-- The outline of an alias. -/
def aliasOutline (name : Ident) : List Item :=
  .remark (.alias name) :: .keyword .AS :: name.outline

/-- The outline of a quantifier. -/
def Quantifier.outline : Quantifier → Item
  | .all => .keyword .ALL
  | .distinct => .keyword .DISTINCT

/-- The outline of an item of the select list. -/
def SelectItem.outline : SelectItem → List Item
  | .star _ => [.symbol .star]
  | .expr e name => e.outline ++ name.elim [] aliasOutline

/-- The outline of a condition behind `word`. -/
def Condition.outline (word : Keyword) (c : Condition) : List Item :=
  .keyword word :: c.expr.outline

/-- The outline of a grouping. -/
def GroupBy.outline (g : GroupBy) : List Item :=
  .keyword .GROUP :: .keyword .BY :: separated .comma (g.exprs.map Expr.outline)

/-- The outline of a limit. -/
def Limit.outline (l : Limit) : List Item :=
  [.remark (.limit l.span), .keyword .LIMIT, .mark (.count l.count)] ++
    l.offset.elim [] fun offset => [.keyword .OFFSET, .mark (.count offset)]

/-- The outline of the clauses behind the relation of a query. -/
def clausesOutline (condition : Option Condition) (groupBy : Option GroupBy)
    (having : Option Condition) (orderBy : Option OrderBy) (limit : Option Limit) : List Item :=
  condition.elim [] (Condition.outline .WHERE) ++ groupBy.elim [] GroupBy.outline ++
    having.elim [] (Condition.outline .HAVING) ++ orderBy.elim [] OrderBy.outline ++
    limit.elim [] Limit.outline

mutual

/-- The outline of a query. -/
def Query.outline : Query → List Item
  | ⟨quantifier, items, relation, condition, groupBy, having, orderBy, limit, _⟩ =>
      .keyword .SELECT :: quantifier.elim [] ([·.outline]) ++
        separated .comma (items.map SelectItem.outline) ++ fromOutline relation ++
        clausesOutline condition groupBy having orderBy limit

/-- The outline of a relation. -/
def Relation.outline : Relation → List Item
  | .table name aliasName => name.outline ++ aliasName.elim [] aliasOutline
  | .subquery query aliasName _ =>
      .symbol .leftParen :: query.outline ++ .symbol .rightParen :: aliasOutline aliasName

/-- The outline of the relation behind `FROM`, if there is one. -/
def fromOutline : Option Relation → List Item
  | none => []
  | some relation => .keyword .FROM :: relation.outline

end

/-- The outline of a pattern. A pattern without quotes consists of the tokens of its text. -/
def Pattern.outline : Pattern → List Item
  | .quoted value => [.string value]
  | .plain value => (Token.tokensOf value.toList).dropLast.map fun t => .mark (.verbatim t)

/-- The outline of a statement. -/
def Statement.outline : Statement → List Item
  | .select query => query.outline
  | .showTables tables _ =>
      .keyword .SHOW :: .keyword .TABLES :: .keyword .LIKE :: tables.pattern.outline
  | .describe tables columns _ =>
      .keyword .DESCRIBE :: .keyword .TABLES :: .keyword .LIKE :: tables.pattern.outline ++
        columns.elim [] fun c => .keyword .COLUMNS :: .keyword .LIKE :: c.pattern.outline

/-! ## Tokens of marks -/

/-- The token that is written for a mark, without its place. -/
def Mark.token : Mark → Token
  | keyword k => .ofKeyword k
  | symbol sign => .ofSymbol sign
  | word text => ⟨Token.bareKind text, text, default⟩
  | name value bare => if bare then .ofName value else .ofQuotedName value
  | string value => .ofString value
  | temporal value => .ofString value.text
  | integer value => numeralToken (Nat.toDigits 10 value.natAbs)
  | real value => numeralToken (Layout.literal.magnitude value)
  | weight value => numeralToken (Layout.weight.magnitude value)
  | count value => numeralToken (Nat.toDigits 10 value)
  | verbatim token => token
  | ending => .ending

/-- The tokens that are written for an outline. -/
def writtenTokens (items : List Item) : List Token := (marks items).map Mark.token

@[simp] theorem writtenTokens_nil : writtenTokens [] = [] := rfl

/-- Two outlines in a row are written in a row. -/
@[simp] theorem writtenTokens_append (is js : List Item) :
    writtenTokens (is ++ js) = writtenTokens is ++ writtenTokens js := by
  simp [writtenTokens]

/-- A mark is written as its token. -/
@[simp] theorem writtenTokens_cons_mark (m : Mark) (is : List Item) :
    writtenTokens (.mark m :: is) = m.token :: writtenTokens is := rfl

/-- Nothing is written for a remark. -/
@[simp] theorem writtenTokens_cons_remark (r : Remark) (is : List Item) :
    writtenTokens (.remark r :: is) = writtenTokens is := rfl

/-- Whether a token stands for a mark. Words may be spelled in any case of their letters, names may be
written bare or between backticks or be words that are reserved elsewhere, and values are compared by
what they denote, dates and times by what the library reads. -/
def Mark.Denotes (library : Time.Library) (t : Token) : Mark → Prop
  | keyword k => t.kind = .keyword k
  | symbol sign => t.kind = .symbol sign
  | word text => ∃ v, t.kind = Token.bareKind v ∧ Text.sameWord v text = true
  | name value _ =>
      t.kind = .name value ∨ t.kind = .quotedName value ∨
        ∃ k, t.kind = .keyword k ∧ k.isNameLike = true ∧ t.text = value
  | string value => t.kind = .string value
  | temporal value =>
      ∃ written, t.kind = .string written ∧ value.kind.read library written = .ok value.literal
  | integer value =>
      t.kind = .integer ∧
        Number.readSigned ((if value < 0 then "-" else "") ++ t.text) = .ok value
  | real value =>
      t.kind = .real ∧
        Number.readReal ((if value.negative then "-" else "") ++ t.text) = .ok value
  | weight value => t.kind.isNumber = true ∧ Number.readReal t.text = .ok value
  | count value => t.kind = .integer ∧ Number.readUnsigned t.text = .ok value
  | verbatim token => t.kind = token.kind ∧ t.text = token.text
  | ending => t.kind = .endOfInput

/-- Whether what is written for the element can be read back: names have the form of names, values are
in the range that is read, and real numbers are finite. -/
def Item.Legible : Item → Prop
  | mark (.word text) => Ident.isBareForm text.toList = true
  | mark (.name value true) => Token.IsName value
  | mark (.name value false) => value ≠ ""
  | mark (.integer value) => -Number.signedBound ≤ value ∧ value < Number.signedBound
  | mark (.real value) => value.isFinite = true
  | mark (.weight value) => value.negative = false ∧ value.isFinite = true
  | mark (.count value) => value < Number.unsignedBound
  | remark (.qualified name) => name.parts ≠ [] ∧ ∀ part ∈ name.parts, part.value ≠ ""
  | remark .malformed => False
  | _ => True

end SearchSql
