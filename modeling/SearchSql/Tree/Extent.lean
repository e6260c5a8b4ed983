import SearchSql.Tree.Query

/-!
# The spans of nodes

A node without a span of its own covers its outermost children.
-/

set_option autoImplicit false

namespace SearchSql

/-- The span of an atom. -/
def Atom.span : Atom → Span
  | .constant c => c.span
  | .column name => name.span
  | .call f => f.span
  | .parenthesized _ span => span
  | .arithmetic _ left right => left.span.merge right.span

/-- The span of a predicate. -/
def Predicate.span : Predicate → Span
  | .comparison _ left right => left.span.merge right.span
  | .isNull _ _ span => span
  | .between target _ _ high => target.span.merge high.span
  | .like left _ pattern => left.span.merge pattern.span
  | .regexp left _ pattern => left.span.merge pattern.span
  | .within _ _ _ span => span
  | .atom a => a.span

/-- The span of an expression. -/
def Expr.span : Expr → Span
  | .not _ span => span
  | .and left right => left.span.merge right.span
  | .or left right => left.span.merge right.span
  | .predicate p => p.span

/-- The span of a statement. -/
def Statement.span : Statement → Span
  | .select query => query.span
  | .showTables _ span => span
  | .describe _ _ span => span

end SearchSql
