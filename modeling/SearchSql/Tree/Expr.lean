import SearchSql.Number.Real
import SearchSql.Time.Library
import SearchSql.Tree.Name
import SearchSql.Vocabulary.DataType
import SearchSql.Vocabulary.Function

/-!
# Expressions

An expression has three layers, one for each ladder of operators. `Expr` combines predicates by
`NOT`, `AND` and `OR`; `Predicate` compares and tests; `Atom` is arithmetic over constants, columns,
function calls and parenthesised expressions. A parenthesis is the only way from an inner layer back
to the outermost, apart from the arguments of calls.

Function calls have one constructor of `CallShape` for each shape of argument list. Nodes that are
read from more than their children carry the span they were read from.
-/

set_option autoImplicit false

namespace SearchSql

/-- Comparison operators. -/
inductive ComparisonOp where
  | eq | notEq | lt | ltEq | gt | gtEq
  deriving DecidableEq, Repr

/-- The spelling of a comparison operator. -/
def ComparisonOp.text : ComparisonOp → String
  | .eq => "="
  | .notEq => "!="
  | .lt => "<"
  | .ltEq => "<="
  | .gt => ">"
  | .gtEq => ">="

/-- Arithmetic operators. The last two are written as words. -/
inductive ArithmeticOp where
  | add | subtract | multiply | divide | modulo | wholeDivide | wholeModulo
  deriving DecidableEq, Repr

/-- The spelling of an arithmetic operator. -/
def ArithmeticOp.text : ArithmeticOp → String
  | .add => "+"
  | .subtract => "-"
  | .multiply => "*"
  | .divide => "/"
  | .modulo => "%"
  | .wholeDivide => "DIV"
  | .wholeModulo => "MOD"

/-- The kinds of literal whose text may fail to denote a value. -/
inductive LiteralKind where
  | integer | real | date | time | timestamp
  deriving DecidableEq, Repr

/-- The kind in words. -/
def LiteralKind.text : LiteralKind → String
  | .integer => "integer"
  | .real => "real"
  | .date => "date"
  | .time => "time"
  | .timestamp => "timestamp"

/-- Why the text of a literal denotes no value. -/
inductive LiteralFault where
  | integer (fault : Number.IntegerFault)
  | real (fault : Number.RealFault)
  | time (fault : Time.TimeFault)
  deriving DecidableEq, Repr

/-- The fault in words. -/
def LiteralFault.message : LiteralFault → String
  | .integer fault => fault.message
  | .real fault => fault.message
  | .time fault => fault.message

/-- Whether nulls come first or last. -/
inductive NullOrder where
  | first | last
  deriving DecidableEq, Repr

/-- Whether an order is ascending or descending. -/
inductive Direction where
  | ascending | descending
  deriving DecidableEq, Repr

/-- A field that a relevance function searches. A quoted one may contain wildcards. -/
inductive Field where
  | name (name : QualifiedName)
  | quoted (value : String) (span : Span)
  deriving DecidableEq, Repr

/-- A field with an optional boost. -/
structure WeightedField where
  field : Field
  weight : Option Number.Binary64
  deriving DecidableEq, Repr

/-- The written form of a relevance call together with the fields it searches. The two are one value, so
that the type carries an invariant that a form and a target kept apart would need: a call written as an
equation has a single field for its target, one with `[...]` or named arguments a list of fields, and one
of the `QUERY` kind none. -/
inductive RelevanceForm where
  /-- `QUERY('text')` -/
  | noField
  /-- `MATCH(field, 'text')` -/
  | field (field : Field)
  /-- `MULTI_MATCH([field, ...], 'text')` -/
  | fields (fields : List WeightedField)
  /-- `field = MATCH_QUERY('text')` -/
  | fieldEquals (field : Field)
  /-- `field = MULTI_MATCH('text')` -/
  | fieldEqualsMulti (field : Field)
  /-- `MULTI_MATCH(query = 'text', fields = [field, ...])` -/
  | named (fields : List WeightedField)
  deriving DecidableEq, Repr

/-- An option of `HIGHLIGHT`. -/
structure HighlightOption where
  name : String
  value : String
  deriving DecidableEq, Repr

mutual

/-- The logical layer. -/
inductive Expr where
  | not (operand : Expr) (span : Span)
  | and (left right : Expr)
  | or (left right : Expr)
  | predicate (predicate : Predicate)

/-- The layer of predicates. -/
inductive Predicate where
  | comparison (op : ComparisonOp) (left right : Predicate)
  | isNull (target : Predicate) (negated : Bool) (span : Span)
  | between (target : Predicate) (negated : Bool) (low high : Predicate)
  | like (left : Predicate) (negated : Bool) (pattern : Predicate)
  | regexp (left : Predicate) (negated : Bool) (pattern : Predicate)
  | within (target : Predicate) (negated : Bool) (items : List Expr) (span : Span)
  | atom (atom : Atom)

/-- The arithmetic layer. -/
inductive Atom where
  | constant (constant : Constant)
  | column (name : QualifiedName)
  | call (call : Call)
  | parenthesized (inner : Expr) (span : Span)
  | arithmetic (op : ArithmeticOp) (left right : Atom)

/-- A literal and where it was read. -/
structure Constant where
  value : Literal
  span : Span

/-- A literal value. A number has its sign applied; a malformed literal keeps its text. -/
inductive Literal where
  | string (value : String)
  | integer (value : Int)
  | real (value : Number.Binary64)
  | boolean (value : Bool)
  | null
  | date (value : Time.Date)
  | time (value : Time.Clock)
  | timestamp (value : Time.Timestamp)
  | interval (amount : Expr) (unit : DatetimeUnit)
  | datetime (name : DatetimeConstant) (parens : Bool)
  | malformed (kind : LiteralKind) (text : String) (fault : LiteralFault)

/-- A function call and where it was read. -/
structure Call where
  shape : CallShape
  span : Span

/-- The shape of a function call. Names are kept as written. -/
inductive CallShape where
  /-- `NESTED(path.*)` -/
  | nestedAll (name : String) (path : QualifiedName)
  | scalar (name : String) (category : ScalarCategory) (args : List Expr)
  /-- `CASE operand WHEN condition THEN result ... ELSE otherwise END` -/
  | case (operand : Option Expr) (branches : List CaseBranch) (otherwise : Option Expr)
  | cast (expr : Expr) (target : DataType)
  | ranking (function : RankingFunction) (args : List Expr) (window : Window)
  | windowed (aggregate : Aggregate) (window : Window)
  | aggregate (aggregate : Aggregate)
  /-- An aggregate of the rows that pass a filter. -/
  | filtered (aggregate : Aggregate) (orderBy : Option OrderBy) (filter : Filter)
  | score (name : String) (relevance : Relevance) (weight : Option Number.Binary64)
  | relevance (relevance : Relevance)
  | highlight (field : Field) (options : List HighlightOption)
  /-- `POSITION(substring IN string)` -/
  | position (substring string : Expr)
  /-- `EXTRACT(unit FROM arg)` -/
  | extract (unit : DatetimeUnit) (arg : Expr)
  | getFormat (target : FormatTarget) (format : Expr)
  | timestamp (function : TimestampFunction) (unit : DatetimeUnit) (first second : Expr)

/-- `WHEN condition THEN result` -/
structure CaseBranch where
  condition : Expr
  result : Expr

/-- An aggregate call. -/
inductive Aggregate where
  | regular (function : AggregateFunction) (arg : Expr)
  /-- `COUNT(*)` -/
  | countStar
  /-- `COUNT(DISTINCT arg, ...)` -/
  | countDistinct (args : List Expr)
  | percentile (function : PercentileFunction) (field : Expr) (percent : Constant)
      (compression : Option Constant)

/-- `OVER (PARTITION BY ... ORDER BY ...)` -/
structure Window where
  partitionBy : Option PartitionBy
  orderBy : Option OrderBy
  span : Span

/-- `PARTITION BY expr, ...` -/
structure PartitionBy where
  exprs : List Expr
  span : Span

/-- `ORDER BY item, ...` -/
structure OrderBy where
  items : List OrderItem
  span : Span

/-- An expression to order by. Direction and place of nulls are kept only if written. -/
structure OrderItem where
  expr : Expr
  direction : Option Direction
  nulls : Option NullOrder

/-- `FILTER (WHERE condition)` -/
structure Filter where
  condition : Expr
  span : Span

/-- A full-text search. -/
structure Relevance where
  name : String
  form : RelevanceForm
  query : SearchValue
  options : List RelevanceOption

/-- The value of a search text or of an option. -/
inductive SearchValue where
  | name (name : QualifiedName)
  | constant (constant : Constant)

/-- An option of a relevance function. Its name may be written as a string. -/
structure RelevanceOption where
  name : String
  quotedName : Bool
  value : SearchValue

end

/-- The expression that is nothing more than an atom. -/
def Expr.ofAtom (a : Atom) : Expr := .predicate (.atom a)

/-- The atom that an expression consists of, if it is nothing more. -/
def Expr.atom? : Expr → Option Atom
  | .predicate (.atom a) => some a
  | _ => none

theorem Expr.atom?_eq_some_iff {e : Expr} {a : Atom} : e.atom? = some a ↔ e = .ofAtom a := by
  constructor
  · intro h
    unfold Expr.atom? at h
    split at h
    · simp only [Option.some.injEq] at h
      rw [h]
      rfl
    · simp at h
  · rintro rfl
    rfl

end SearchSql
