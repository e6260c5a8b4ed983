import SearchSql.Text.Word

/-!
# Reserved words

The reserved words of the dialect. Function names, units and type names are not reserved: they are
ordinary names, told apart by their spelling where the grammar asks for them. A few words that only
matter in one place may also be used as names.
-/

set_option autoImplicit false

namespace SearchSql

/-- A reserved word, named by its upper-case spelling. -/
inductive Keyword where
  | SELECT | FROM | WHERE | GROUP | BY | HAVING | ORDER | LIMIT | OFFSET | AS | ALL | DISTINCT
  | ASC | DESC | NULLS | FIRST | LAST
  | AND | OR | NOT | IS | NULL | TRUE | FALSE | BETWEEN | LIKE | REGEXP | IN
  | CASE | WHEN | THEN | ELSE | END | CAST
  | OVER | PARTITION | FILTER
  | SHOW | DESCRIBE | TABLES | COLUMNS
  | INTERVAL | DATE | TIME | TIMESTAMP | DATETIME
  deriving DecidableEq, Repr

namespace Keyword

/-- All reserved words. -/
def all : List Keyword :=
  [
    .SELECT, .FROM, .WHERE, .GROUP, .BY, .HAVING, .ORDER, .LIMIT, .OFFSET, .AS, .ALL, .DISTINCT,
    .ASC, .DESC, .NULLS, .FIRST, .LAST, .AND, .OR, .NOT, .IS, .NULL, .TRUE, .FALSE, .BETWEEN,
    .LIKE, .REGEXP, .IN, .CASE, .WHEN, .THEN, .ELSE, .END, .CAST, .OVER, .PARTITION, .FILTER,
    .SHOW, .DESCRIBE, .TABLES, .COLUMNS, .INTERVAL, .DATE, .TIME, .TIMESTAMP, .DATETIME
  ]

/-- The upper-case spelling. -/
def text : Keyword → String
  | .SELECT => "SELECT"
  | .FROM => "FROM"
  | .WHERE => "WHERE"
  | .GROUP => "GROUP"
  | .BY => "BY"
  | .HAVING => "HAVING"
  | .ORDER => "ORDER"
  | .LIMIT => "LIMIT"
  | .OFFSET => "OFFSET"
  | .AS => "AS"
  | .ALL => "ALL"
  | .DISTINCT => "DISTINCT"
  | .ASC => "ASC"
  | .DESC => "DESC"
  | .NULLS => "NULLS"
  | .FIRST => "FIRST"
  | .LAST => "LAST"
  | .AND => "AND"
  | .OR => "OR"
  | .NOT => "NOT"
  | .IS => "IS"
  | .NULL => "NULL"
  | .TRUE => "TRUE"
  | .FALSE => "FALSE"
  | .BETWEEN => "BETWEEN"
  | .LIKE => "LIKE"
  | .REGEXP => "REGEXP"
  | .IN => "IN"
  | .CASE => "CASE"
  | .WHEN => "WHEN"
  | .THEN => "THEN"
  | .ELSE => "ELSE"
  | .END => "END"
  | .CAST => "CAST"
  | .OVER => "OVER"
  | .PARTITION => "PARTITION"
  | .FILTER => "FILTER"
  | .SHOW => "SHOW"
  | .DESCRIBE => "DESCRIBE"
  | .TABLES => "TABLES"
  | .COLUMNS => "COLUMNS"
  | .INTERVAL => "INTERVAL"
  | .DATE => "DATE"
  | .TIME => "TIME"
  | .TIMESTAMP => "TIMESTAMP"
  | .DATETIME => "DATETIME"

/-- The reserved word spelled `word`, in any case of its letters. -/
def ofText? (word : String) : Option Keyword := Text.findSpelling all text word

/-- Whether the word may stand wherever a name may. -/
def isNameLike : Keyword → Bool
  | .FIRST | .LAST | .TABLES | .COLUMNS | .DATE | .TIME | .TIMESTAMP | .DATETIME => true
  | _ => false

/-- Whether the word starts a clause of a query after the select list. -/
def startsClause : Keyword → Bool
  | .FROM | .WHERE | .GROUP | .HAVING | .ORDER | .LIMIT => true
  | _ => false

theorem mem_all (k : Keyword) : k ∈ all := by
  cases k <;> decide

end Keyword

end SearchSql
