import SearchSql.Grammar.Aggregates
import SearchSql.Grammar.Expressions
import SearchSql.Grammar.Queries
import SearchSql.Grammar.Relevance

/-!
# Tying the rules together

`rule` assigns to each nonterminal its rule. `derive` runs the rule of a nonterminal, which may go
on to others, one unit of fuel for each. The repetitions inside a rule cost nothing, so what is
needed does not depend on the length of the input: each level of nesting passes through fewer than
`fuelPerLevel` rules.
-/

set_option autoImplicit false

namespace SearchSql.Grammar

/-- The rule of a nonterminal. -/
def rule (call : Callee) : {α : Type} → Nonterminal α → Parser α
  | _, .expr least => exprRule call least
  | _, .predicate least => predicateRule call least
  | _, .arithmetic least => arithmeticRule call least
  | _, .operand => operandRule call
  | _, .parenthesized => parenthesizedRule call
  | _, .constant => constantRule call
  | _, .interval => intervalRule call
  | _, .call => callRule call
  | _, .shape family => shapeRule call family
  | _, .arguments => argumentsRule call
  | _, .scalar category => scalarRule call category
  | _, .case => caseRule call
  | _, .cast => castRule call
  | _, .ranking function => rankingRule call function
  | _, .aggregate function => aggregateRule call function
  | _, .percentile function => percentileRule call function
  | _, .aggregateTail aggregate => aggregateTailRule call aggregate
  | _, .window => windowRule call
  | _, .filter => filterRule call
  | _, .orderBy => orderByRule call
  | _, .orderItem => orderItemRule call
  | _, .score => scoreRule call
  | _, .relevance kind => relevanceRule call kind
  | _, .fieldEquals => fieldEqualsRule call
  | _, .namedArguments => namedArgumentsRule call
  | _, .searchValue => searchValueRule call
  | _, .relevanceOptions => relevanceOptionsRule call
  | _, .position => positionRule call
  | _, .extract => extractRule call
  | _, .getFormat => getFormatRule call
  | _, .timestamp function => timestampRule call function
  | _, .selectItems => selectItemsRule call
  | _, .selectItem starAllowed => selectItemRule call starAllowed
  | _, .relation => relationRule call
  | _, .condition word => conditionRule call word
  | _, .groupBy => groupByRule call
  | _, .query => queryRule call

/-- Runs the rule of a nonterminal. Each rule that is run on the way takes one unit of fuel. -/
def derive : Nat → {α : Type} → Nonterminal α → Parser α
  | 0, _, _ => throw .outOfFuel
  | fuel + 1, _, nonterminal => rule (derive fuel) nonterminal

theorem derive_succ (fuel : Nat) {α : Type} (nonterminal : Nonterminal α) :
    derive (fuel + 1) nonterminal = rule (derive fuel) nonterminal := rfl

/-- More than the rules that follow one another without a further level of nesting. -/
def fuelPerLevel : Nat := 20

/-- The fuel that a parse under the given settings needs at most. -/
def fuelFor (settings : Settings) : Nat := fuelPerLevel * (settings.nestingLimit + 1)

end SearchSql.Grammar
