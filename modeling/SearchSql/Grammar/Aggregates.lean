import SearchSql.Grammar.Calls
import SearchSql.Grammar.Constants

/-!
# Aggregates and windows

An aggregate may be computed over a window, or over the rows that pass a filter. Behind an
aggregate, `ORDER BY` belongs to it only if a filter follows, and to the query otherwise; which of
the two it is shows only after the whole clause has been read, so reading it is an attempt.
-/

set_option autoImplicit false

namespace SearchSql.Grammar

open SearchSql.Grammar.Parser

/-- An aggregate of one argument, or one of the special forms of `COUNT`. -/
def aggregateRule (call : Callee) (function : AggregateFunction) : Parser Aggregate := do
  let _ ← callName
  let aggregate ← form
  let _ ← symbol .rightParen
  return aggregate
where
  form : Parser Aggregate := do
    if function == .count then
      if ← takeSymbol .star then return .countStar
      if ← takeKeyword .DISTINCT then
        return .countDistinct (← commaSeparated "COUNT argument" (call .wholeExpr))
    return .regular function (← call .wholeExpr)

/-- `PERCENTILE(field, percent, compression)`, of which the last may be left out -/
def percentileRule (call : Callee) (function : PercentileFunction) : Parser Aggregate := do
  let _ ← callName
  let field ← call .wholeExpr
  let _ ← symbol .comma
  let percent ← number
  let compression ← if ← takeSymbol .comma then some <$> number else pure none
  let _ ← symbol .rightParen
  return .percentile function field percent compression

/-- `ORDER BY item, ...` -/
def orderByRule (call : Callee) : Parser OrderBy := do
  let start ← keyword .ORDER
  let _ ← keyword .BY
  let items ← commaSeparated "ORDER BY item" (call .orderItem)
  return ⟨items, ← spanFrom start⟩

/-- `ASC` or `DESC` -/
def direction : Parser (Option Direction) := do
  if ← takeKeyword .ASC then return some .ascending
  if ← takeKeyword .DESC then return some .descending
  return none

/-- `NULLS FIRST` or `NULLS LAST` -/
def nullOrder : Parser (Option NullOrder) := do
  if ← takeKeyword .NULLS then
    if ← takeKeyword .FIRST then return some .first
    if ← takeKeyword .LAST then return some .last
    rejectCurrent "FIRST or LAST"
  return none

/-- An expression to order by. -/
def orderItemRule (call : Callee) : Parser OrderItem := do
  let expr ← call .wholeExpr
  let direction ← direction
  let nulls ← nullOrder
  return ⟨expr, direction, nulls⟩

/-- `PARTITION BY expr, ...`, if it stands here -/
def partitionBy (call : Callee) : Parser (Option PartitionBy) := do
  if ← atKeyword .PARTITION then
    let start ← take
    let _ ← keyword .BY
    let exprs ← commaSeparated "PARTITION BY item" (call .wholeExpr)
    return some ⟨exprs, ← spanFrom start⟩
  return none

/-- `OVER (PARTITION BY ... ORDER BY ...)` -/
def windowRule (call : Callee) : Parser Window := do
  let start ← keyword .OVER
  let _ ← symbol .leftParen
  let partitionBy ← partitionBy call
  let orderBy ← if ← atKeyword .ORDER then some <$> call .orderBy else pure none
  let _ ← symbol .rightParen
  return ⟨partitionBy, orderBy, ← spanFrom start⟩

/-- `FILTER (WHERE condition)` -/
def filterRule (call : Callee) : Parser Filter := do
  let start ← keyword .FILTER
  let _ ← symbol .leftParen
  let _ ← keyword .WHERE
  let condition ← call .wholeExpr
  let _ ← symbol .rightParen
  return ⟨condition, ← spanFrom start⟩

/-- A ranking function over a window. -/
def rankingRule (call : Callee) (function : RankingFunction) : Parser CallShape := do
  let _ ← callName
  let args ← call .arguments
  return .ranking function args (← call .window)

/-- `ORDER BY ... FILTER (...)` -/
def orderedFilter (call : Callee) : Parser (OrderBy × Filter) := do
  let orderBy ← call .orderBy
  return (orderBy, ← call .filter)

/-- The call that an aggregate becomes by what follows it. -/
def aggregateTailRule (call : Callee) (aggregate : Aggregate) : Parser CallShape := do
  if ← atKeyword .OVER then return .windowed aggregate (← call .window)
  if ← atKeyword .FILTER then return .filtered aggregate none (← call .filter)
  if ← atKeyword .ORDER then
    match ← attempt "ordered aggregate filter" (orderedFilter call) with
    | some (orderBy, filter) => return .filtered aggregate (some orderBy) filter
    | none => return .aggregate aggregate
  return .aggregate aggregate

end SearchSql.Grammar
