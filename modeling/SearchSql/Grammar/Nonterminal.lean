import SearchSql.Grammar.Lookahead
import SearchSql.Grammar.Operators
import SearchSql.Grammar.Parser
import SearchSql.Tree.Query

/-!
# The recursive rules

Expressions hold calls, calls hold expressions, and queries hold both. A `Nonterminal` names a rule
that can come to itself again, together with what it builds. The rules themselves are written
against a `Callee`, which runs the rule of a name, so that each of them is an ordinary function;
what ties them together is in `SearchSql.Grammar.Derivation`.
-/

set_option autoImplicit false

namespace SearchSql.Grammar

/-- The rules that can come to themselves again, by the type of what they build. -/
inductive Nonterminal : Type → Type where
  /-- An expression whose connectives bind at least as tightly as `least`. -/
  | expr (least : Nat) : Nonterminal Expr
  /-- A predicate whose tests bind at least as tightly as `least`. -/
  | predicate (least : Nat) : Nonterminal Predicate
  /-- Arithmetic whose operators bind at least as tightly as `least`. -/
  | arithmetic (least : Nat) : Nonterminal Atom
  | operand : Nonterminal Atom
  | parenthesized : Nonterminal Atom
  | constant : Nonterminal Constant
  | interval : Nonterminal Literal
  | call : Nonterminal Call
  | shape (family : FunctionFamily) : Nonterminal CallShape
  | arguments : Nonterminal (List Expr)
  | scalar (category : ScalarCategory) : Nonterminal CallShape
  | case : Nonterminal CallShape
  | cast : Nonterminal CallShape
  | ranking (function : RankingFunction) : Nonterminal CallShape
  | aggregate (function : AggregateFunction) : Nonterminal Aggregate
  | percentile (function : PercentileFunction) : Nonterminal Aggregate
  /-- What may follow an aggregate: a window or a filter. -/
  | aggregateTail (aggregate : Aggregate) : Nonterminal CallShape
  | window : Nonterminal Window
  | filter : Nonterminal Filter
  | orderBy : Nonterminal OrderBy
  | orderItem : Nonterminal OrderItem
  | score : Nonterminal CallShape
  | relevance (kind : RelevanceKind) : Nonterminal Relevance
  /-- A relevance function behind the field it searches. -/
  | fieldEquals : Nonterminal Relevance
  | namedArguments : Nonterminal (SearchValue × List WeightedField)
  | searchValue : Nonterminal SearchValue
  | relevanceOptions : Nonterminal (List RelevanceOption)
  | position : Nonterminal CallShape
  | extract : Nonterminal CallShape
  | getFormat : Nonterminal CallShape
  | timestamp (function : TimestampFunction) : Nonterminal CallShape
  | selectItems : Nonterminal (List SelectItem)
  /-- An item of the select list, which may be a star if `starAllowed` holds. -/
  | selectItem (starAllowed : Bool) : Nonterminal SelectItem
  | relation : Nonterminal Relation
  /-- The condition behind `word`. -/
  | condition (word : Keyword) : Nonterminal Condition
  | groupBy : Nonterminal GroupBy
  | query : Nonterminal Query

/-- A way to run the rule of every nonterminal. -/
abbrev Callee : Type 1 := ∀ {α : Type}, Nonterminal α → Parser α

namespace Nonterminal

/-- A whole expression. -/
abbrev wholeExpr : Nonterminal Expr := .expr 0

end Nonterminal

end SearchSql.Grammar
