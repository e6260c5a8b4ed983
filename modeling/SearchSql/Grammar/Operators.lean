import SearchSql.Token.Cursor
import SearchSql.Tree.Expr

/-!
# Operators

The operators of the three layers of an expression. An operator of higher precedence binds tighter;
all of them group to the left, since a right operand is read at the precedence above its operator.
-/

set_option autoImplicit false

namespace SearchSql.Grammar

/-- Connectives of the logical layer. -/
inductive Connective where
  | and | or
  deriving DecidableEq, Repr

namespace Connective

/-- How tightly a connective binds. -/
def precedence : Connective → Nat
  | .and => 2
  | .or => 1

/-- The connective that a token of this kind is. -/
def ofKind? : TokenKind → Option Connective
  | .keyword .AND => some .and
  | .keyword .OR => some .or
  | _ => none

/-- The expression that joins two others. -/
def join : Connective → Expr → Expr → Expr
  | .and => .and
  | .or => .or

end Connective

/-- How tightly `NOT` binds its operand: tighter than any connective. -/
def notPrecedence : Nat := 3

/-- Operators of the layer of predicates, most of which may be negated. -/
inductive Test where
  | comparison (op : ComparisonOp)
  | isNull (negated : Bool)
  | between (negated : Bool)
  | like (negated : Bool)
  | regexp (negated : Bool)
  | within (negated : Bool)
  deriving DecidableEq, Repr

namespace Test

/-- How tightly a test binds. -/
def precedence : Test → Nat
  | .comparison _ => 6
  | .isNull _ => 5
  | .between _ => 4
  | .like _ => 3
  | .regexp _ => 2
  | .within _ => 1

/-- The test written as the reserved word of kind `first`. The word `IN` is one only in front of a
parenthesis. -/
def ofWord? (negated : Bool) (first second : TokenKind) : Option Test :=
  match first, second with
  | .keyword .BETWEEN, _ => some (.between negated)
  | .keyword .LIKE, _ => some (.like negated)
  | .keyword .REGEXP, _ => some (.regexp negated)
  | .keyword .IN, .symbol .leftParen => some (.within negated)
  | _, _ => none

/-- The test at the start of three tokens, and how many of them it takes. The two characters of a
comparison may stand apart. Of `IS NULL` the last word is not taken. -/
def ofKinds? (first second third : TokenKind) : Option (Test × Nat) :=
  match first, second with
  | .symbol .eq, _ => some (.comparison .eq, 1)
  | .symbol .notEq, _ => some (.comparison .notEq, 1)
  | .symbol .ltEq, _ => some (.comparison .ltEq, 1)
  | .symbol .gtEq, _ => some (.comparison .gtEq, 1)
  | .symbol .lt, .symbol .eq => some (.comparison .ltEq, 2)
  | .symbol .lt, .symbol .gt => some (.comparison .notEq, 2)
  | .symbol .lt, _ => some (.comparison .lt, 1)
  | .symbol .gt, .symbol .eq => some (.comparison .gtEq, 2)
  | .symbol .gt, _ => some (.comparison .gt, 1)
  | .keyword .IS, .keyword .NOT => some (.isNull true, 2)
  | .keyword .IS, _ => some (.isNull false, 1)
  | .keyword .NOT, _ => (ofWord? true second third).map (·, 2)
  | _, _ => (ofWord? false first second).map (·, 1)

/-- The test under the cursor, and how many tokens it takes. -/
def at? (c : Cursor) : Option (Test × Nat) :=
  ofKinds? (c.peek 0).kind (c.peek 1).kind (c.peek 2).kind

end Test

end SearchSql.Grammar

namespace SearchSql.ArithmeticOp

/-- How tightly an arithmetic operator binds. -/
def precedence : ArithmeticOp → Nat
  | .multiply | .divide | .modulo | .wholeDivide | .wholeModulo => 2
  | .add | .subtract => 1

/-- The arithmetic operator that a token of this kind is. The words `DIV` and `MOD` are ordinary
names everywhere else. -/
def ofKind? : TokenKind → Option ArithmeticOp
  | .symbol .plus => some .add
  | .symbol .minus => some .subtract
  | .symbol .star => some .multiply
  | .symbol .slash => some .divide
  | .symbol .percent => some .modulo
  | .name word =>
      if Text.sameWord word "DIV" then some .wholeDivide
      else if Text.sameWord word "MOD" then some .wholeModulo
      else none
  | _ => none

end SearchSql.ArithmeticOp
