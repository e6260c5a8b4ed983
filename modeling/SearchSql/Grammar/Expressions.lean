import SearchSql.Grammar.Calls
import SearchSql.Tree.Extent

/-!
# Expressions

Each layer of an expression reads an operand of the layer below and then, as long as an operator of
its own follows that binds tightly enough, the operator and its right operand.
-/

set_option autoImplicit false

namespace SearchSql.Grammar

open SearchSql.Grammar.Parser

/-- An operand of a connective: a predicate, or one that `NOT` negates. -/
def logicalOperand (call : Callee) : Parser Expr := do
  if ← atKeyword .NOT then
    let start ← take
    let operand ← call (.expr notPrecedence)
    return .not operand (← spanFrom start)
  return .predicate (← call (.predicate 0))

/-- The connective under the cursor and its right operand, added to `left`. -/
def logicalStep (call : Callee) (least : Nat) (left : Expr) : Parser (ForInStep Expr) := do
  match Connective.ofKind? (← current).kind with
  | none => return .done left
  | some op =>
      if op.precedence < least then return .done left
      skip 1
      let right ← call (.expr (op.precedence + 1))
      return .yield (op.join left right)

/-- An expression, which counts as one level of nesting. -/
def exprRule (call : Callee) (least : Nat) : Parser Expr :=
  nest 1 do
    let left ← logicalOperand call
    loop left (logicalStep call least)

/-- The predicate that `test` makes of `left` and of what follows. -/
def testRule (call : Callee) (left : Predicate) : Test → Parser Predicate
  | .comparison op => do
      let right ← call (.predicate ((Test.comparison op).precedence + 1))
      return .comparison op left right
  | .isNull negated => do
      let stop ← keyword .NULL
      return .isNull left negated (left.span.merge stop)
  | .between negated => do
      let low ← call (.predicate ((Test.between negated).precedence + 1))
      let _ ← keyword .AND
      let high ← call (.predicate ((Test.between negated).precedence + 1))
      return .between left negated low high
  | .like negated => do
      let pattern ← call (.predicate ((Test.like negated).precedence + 1))
      return .like left negated pattern
  | .regexp negated => do
      let pattern ← call (.predicate ((Test.regexp negated).precedence + 1))
      return .regexp left negated pattern
  | .within negated => do
      let _ ← symbol .leftParen
      let items ← commaSeparated "IN list item" (call .wholeExpr)
      let _ ← symbol .rightParen
      return .within left negated items (← spanFrom left.span)

/-- Whether `test` is the `IN` that separates the operands of `POSITION`. -/
def State.isSeparator (s : State) : Test → Bool
  | .within _ => s.separatorDepth == some s.depth
  | _ => false

/-- The test under the cursor and its operands, added to `left`. -/
def predicateStep (call : Callee) (least : Nat) (left : Predicate) :
    Parser (ForInStep Predicate) := do
  let s ← get
  match Test.at? s.cursor with
  | none => return .done left
  | some (test, width) =>
      if test.precedence < least || s.isSeparator test then return .done left
      skip width
      return .yield (← testRule call left test)

/-- A predicate. -/
def predicateRule (call : Callee) (least : Nat) : Parser Predicate := do
  let left ← call (.arithmetic 0)
  loop (.atom left) (predicateStep call least)

/-- The arithmetic operator under the cursor and its right operand, added to `left`. -/
def arithmeticStep (call : Callee) (least : Nat) (left : Atom) : Parser (ForInStep Atom) := do
  match ArithmeticOp.ofKind? (← current).kind with
  | none => return .done left
  | some op =>
      if op.precedence < least then return .done left
      skip 1
      let right ← call (.arithmetic (op.precedence + 1))
      return .yield (.arithmetic op left right)

/-- Arithmetic over operands. -/
def arithmeticRule (call : Callee) (least : Nat) : Parser Atom := do
  let left ← call .operand
  loop left (arithmeticStep call least)

/-- A relevance function behind the field it searches, as an operand. -/
def fieldEqualsCall (call : Callee) : Parser Call := do
  let start := (← current).span
  let relevance ← call .fieldEquals
  return ⟨.relevance relevance, ← spanFrom start⟩

/-- An operand of arithmetic. -/
def operandRule (call : Callee) : Parser Atom := do
  let cursor := (← get).cursor
  if startsFieldEquals cursor.ahead then return .call (← fieldEqualsCall call)
  match cursor.operandForm? with
  | some .parenthesized => call .parenthesized
  | some .constant => return .constant (← call .constant)
  | some .call => return .call (← call .call)
  | some .column => return .column (← qualifiedName)
  | none =>
      reject
        (.noAlternative "expression" ["constant", "column name", "function call", "'('"]
          cursor.current)

/-- `(expr)` -/
def parenthesizedRule (call : Callee) : Parser Atom := do
  let start ← symbol .leftParen
  let inner ← call .wholeExpr
  let _ ← symbol .rightParen
  return .parenthesized inner (← spanFrom start)

end SearchSql.Grammar
