import SearchSql.Grammar.Names
import SearchSql.Grammar.Nonterminal
import SearchSql.Grammar.Recovery

/-!
# Queries

Each clause of a query is read on its own: when it fails, it is left out of the tree and the next
clause is read from the boundary behind it. Only a query with a relation may filter, group or order
its rows.
-/

set_option autoImplicit false

namespace SearchSql.Grammar

open SearchSql.Grammar.Parser

/-- Runs `p` within parentheses that hold a query. -/
def Parser.subquery {α : Type} (p : Parser α) : Parser α :=
  between (fun s => { s with subqueries := s.subqueries + 1 })
    (fun s => { s with subqueries := s.subqueries - 1 }) p

/-- An item of the select list. -/
def selectItemRule (call : Callee) (starAllowed : Bool) : Parser SelectItem := do
  if starAllowed && (← atSymbol .star) then return .star (← take)
  let expr ← call .wholeExpr
  return .expr expr (← optionalAlias)

/-- The select list, in which only the first item may be a star. -/
def selectItemsRule (call : Callee) : Parser (List SelectItem) :=
  commaList "select element" (call (.selectItem true)) (call (.selectItem false))

/-- `FROM table alias` or `FROM (query) alias` -/
def relationRule (call : Callee) : Parser Relation := do
  let _ ← keyword .FROM
  if ← atSymbol .leftParen then
    let start ← take
    let query ← nest 2 (subquery (call .query))
    let _ ← symbol .rightParen
    let _ ← takeKeyword .AS
    let name ← ident
    return .subquery query name (← spanFrom start)
  let name ← qualifiedName
  return .table name (← optionalAlias)

/-- `WHERE condition` or `HAVING condition` -/
def conditionRule (call : Callee) (word : Keyword) : Parser Condition := do
  let start ← keyword word
  let expr ← call .wholeExpr
  return ⟨expr, ← spanFrom start⟩

/-- `GROUP BY expr, ...` -/
def groupByRule (call : Callee) : Parser GroupBy := do
  let start ← keyword .GROUP
  let _ ← keyword .BY
  let exprs ← commaSeparated "GROUP BY item" (call .wholeExpr)
  return ⟨exprs, ← spanFrom start⟩

/-- `LIMIT count`, `LIMIT offset, count` or `LIMIT count OFFSET offset` -/
def Parser.limit : Parser Limit := do
  let start ← keyword .LIMIT
  let first ← count
  if ← takeSymbol .comma then
    let rows ← count
    return ⟨rows, some first, ← spanFrom start⟩
  if ← takeKeyword .OFFSET then
    let offset ← count
    return ⟨first, some offset, ← spanFrom start⟩
  return ⟨first, none, ← spanFrom start⟩

/-- `ALL` or `DISTINCT` -/
def Parser.quantifier : Parser (Option Quantifier) := do
  if ← takeKeyword .ALL then return some .all
  if ← takeKeyword .DISTINCT then return some .distinct
  return none

/-- The clause `p` and its end, if it is allowed and `word` stands here. -/
def Parser.clause {α : Type} (allowed : Bool) (word : Keyword) (p : Parser α) :
    Parser (Option α) := do
  if allowed && (← atKeyword word) then
    let found ← recover p
    clauseEnd
    return found
  return none

/-- The limit, behind which no boundary is required. -/
def Parser.limitClause : Parser (Option Limit) := do
  if ← atKeyword .LIMIT then recover limit else return none

/-- A query. -/
def queryRule (call : Callee) : Parser Query := do
  let start ← keyword .SELECT
  let quantifier ← quantifier
  let items ← recover (call .selectItems)
  clauseEnd
  let hasRelation ← atKeyword .FROM
  let relation ← clause hasRelation .FROM (call .relation)
  let condition ← clause hasRelation .WHERE (call (.condition .WHERE))
  let groupBy ← clause hasRelation .GROUP (call .groupBy)
  let having ← clause hasRelation .HAVING (call (.condition .HAVING))
  let orderBy ← clause hasRelation .ORDER (call .orderBy)
  let limit ← limitClause
  return ⟨quantifier, items.getD [], relation, condition, groupBy, having, orderBy, limit,
    ← spanFrom start⟩

end SearchSql.Grammar
