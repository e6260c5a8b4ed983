import SearchSql.Tree.Expr

/-!
# Statements

A query selects from at most one relation, which may be a query in parentheses with an alias. The
catalogue statements list the tables, or the columns of tables, whose names match a pattern.
-/

set_option autoImplicit false

namespace SearchSql

/-- Whether a query keeps all rows or distinct ones. -/
inductive Quantifier where
  | all | distinct
  deriving DecidableEq, Repr

/-- An item of the select list. -/
inductive SelectItem where
  | star (span : Span)
  | expr (expr : Expr) (aliasName : Option Ident)

/-- The condition of a `WHERE` or `HAVING` clause. -/
structure Condition where
  expr : Expr
  span : Span

/-- `GROUP BY expr, ...` -/
structure GroupBy where
  exprs : List Expr
  span : Span

/-- `LIMIT count OFFSET offset` -/
structure Limit where
  count : Nat
  offset : Option Nat
  span : Span
  deriving DecidableEq, Repr

mutual

/-- A query. A clause that was left out, or could not be read, is absent. -/
structure Query where
  quantifier : Option Quantifier
  items : List SelectItem
  relation : Option Relation
  condition : Option Condition
  groupBy : Option GroupBy
  having : Option Condition
  orderBy : Option OrderBy
  limit : Option Limit
  span : Span

/-- What a query selects from. -/
inductive Relation where
  | table (name : QualifiedName) (aliasName : Option Ident)
  | subquery (query : Query) (aliasName : Ident) (span : Span)

end

/-- A pattern for names: a string, or text written without quotes and kept as it is. -/
inductive Pattern where
  | quoted (value : String)
  | plain (value : String)
  deriving DecidableEq, Repr

/-- The pattern without quotes. -/
def Pattern.value : Pattern → String
  | .quoted value => value
  | .plain value => value

/-- A pattern behind `LIKE`. -/
structure NameFilter where
  pattern : Pattern
  span : Span
  deriving DecidableEq, Repr

/-- A statement of the dialect. -/
inductive Statement where
  | select (query : Query)
  /-- `SHOW TABLES LIKE pattern` -/
  | showTables (tables : NameFilter) (span : Span)
  /-- `DESCRIBE TABLES LIKE pattern COLUMNS LIKE pattern` -/
  | describe (tables : NameFilter) (columns : Option NameFilter) (span : Span)

end SearchSql
