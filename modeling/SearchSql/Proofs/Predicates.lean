import SearchSql.Grammar.Operators
import SearchSql.Tree.Query

/-!
# The predicates in a tree

Tests bind with different strength, and a tree shows how they were grouped. The outermost test of a
predicate has a target on its left, and may have further operands on its right (`Predicate.target?`,
`Predicate.operands`). A predicate is `Ranked` if these are grouped as the strength of its test
demands. `IS NULL` and `IN` end in a token of their own, so whatever follows them has them as its
target.

The predicates of a tree are collected from all its parts (`Statement.predicates`), the targets and
operands of other predicates among them.
-/

set_option autoImplicit false

namespace SearchSql

open Grammar (Test)

/-! ## The grouping of a predicate -/

namespace Predicate

/-- The outermost test of a predicate. -/
def test? : Predicate → Option Test
  | .comparison op _ _ => some (.comparison op)
  | .isNull _ negated _ => some (.isNull negated)
  | .between _ negated _ _ => some (.between negated)
  | .like _ negated _ => some (.like negated)
  | .regexp _ negated _ => some (.regexp negated)
  | .within _ negated _ _ => some (.within negated)
  | .atom _ => none

/-- How tightly the outermost test of a predicate binds. An atom holds together more tightly than any
test. -/
def precedence : Predicate → Nat
  | .atom _ => 7
  | .comparison _ _ _ => 6
  | .isNull _ _ _ => 5
  | .between _ _ _ _ => 4
  | .like _ _ _ => 3
  | .regexp _ _ _ => 2
  | .within _ _ _ _ => 1

/-- What the outermost test of a predicate is about. -/
def target? : Predicate → Option Predicate
  | .comparison _ target _ | .isNull target _ _ | .between target _ _ _ | .like target _ _
  | .regexp target _ _ | .within target _ _ _ => some target
  | .atom _ => none

/-- The predicates on the right of the outermost test of a predicate. The items of `IN` are
expressions. -/
def operands : Predicate → List Predicate
  | .comparison _ _ right => [right]
  | .between _ _ low high => [low, high]
  | .like _ _ pattern | .regexp _ _ pattern => [pattern]
  | .isNull _ _ _ | .within _ _ _ _ | .atom _ => []

/-- Whether a predicate ends in a token of its outermost test. -/
def isClosed : Predicate → Bool
  | .isNull _ _ _ | .within _ _ _ _ => true
  | _ => false

/-- Whether a predicate is an atom. -/
def isAtom : Predicate → Bool
  | .atom _ => true
  | _ => false

/-- The outermost test of a predicate binds less tightly than those of its operands, and no more
tightly than that of its target, unless the target ends in a token of its own test. -/
structure Ranked (p : Predicate) : Prop where
  target : ∀ q ∈ p.target?, p.precedence ≤ q.precedence ∨ q.isClosed = true
  operands : ∀ q ∈ p.operands, p.precedence < q.precedence

end Predicate

/-! ## Collecting predicates -/

mutual

/-- The predicates in an expression. -/
def Expr.predicates : Expr → List Predicate
  | .not operand _ => operand.predicates
  | .and left right => left.predicates ++ right.predicates
  | .or left right => left.predicates ++ right.predicates
  | .predicate p => p.predicates

/-- The predicates in a predicate, itself among them. -/
def Predicate.predicates : Predicate → List Predicate
  | .comparison op left right =>
      .comparison op left right :: (left.predicates ++ right.predicates)
  | .isNull target negated span => .isNull target negated span :: target.predicates
  | .between target negated low high =>
      .between target negated low high ::
        (target.predicates ++ low.predicates ++ high.predicates)
  | .like left negated pattern =>
      .like left negated pattern :: (left.predicates ++ pattern.predicates)
  | .regexp left negated pattern =>
      .regexp left negated pattern :: (left.predicates ++ pattern.predicates)
  | .within target negated items span =>
      .within target negated items span :: (target.predicates ++ predicatesAll items)
  | .atom a => .atom a :: a.predicates

/-- The predicates in an atom. -/
def Atom.predicates : Atom → List Predicate
  | .constant c => c.predicates
  | .column _ => []
  | .call f => f.predicates
  | .parenthesized inner _ => inner.predicates
  | .arithmetic _ left right => left.predicates ++ right.predicates

/-- The predicates in a constant. -/
def Constant.predicates : Constant → List Predicate
  | ⟨value, _⟩ => value.predicates

/-- The predicates in a literal, of which only an interval has any. -/
def Literal.predicates : Literal → List Predicate
  | .interval amount _ => amount.predicates
  | _ => []

/-- The predicates in a call. -/
def Call.predicates : Call → List Predicate
  | ⟨shape, _⟩ => shape.predicates

/-- The predicates in a call of some shape. -/
def CallShape.predicates : CallShape → List Predicate
  | .nestedAll _ _ => []
  | .scalar _ _ args => predicatesAll args
  | .case operand branches otherwise =>
      predicatesOptional operand ++ predicatesBranches branches ++ predicatesOptional otherwise
  | .cast expr _ => expr.predicates
  | .ranking _ args window => predicatesAll args ++ window.predicates
  | .windowed aggregate window => aggregate.predicates ++ window.predicates
  | .aggregate aggregate => aggregate.predicates
  | .filtered aggregate orderBy filter =>
      aggregate.predicates ++ predicatesOrder orderBy ++ filter.predicates
  | .score _ relevance _ => relevance.predicates
  | .relevance relevance => relevance.predicates
  | .highlight _ _ => []
  | .position substring string => substring.predicates ++ string.predicates
  | .extract _ arg => arg.predicates
  | .getFormat _ format => format.predicates
  | .timestamp _ _ first second => first.predicates ++ second.predicates

/-- The predicates in a branch. -/
def CaseBranch.predicates : CaseBranch → List Predicate
  | ⟨condition, result⟩ => condition.predicates ++ result.predicates

/-- The predicates in an aggregate. -/
def Aggregate.predicates : Aggregate → List Predicate
  | .regular _ arg => arg.predicates
  | .countStar => []
  | .countDistinct args => predicatesAll args
  | .percentile _ field percent compression =>
      field.predicates ++ percent.predicates ++ predicatesConstant compression

/-- The predicates in a window. -/
def Window.predicates : Window → List Predicate
  | ⟨partition, orderBy, _⟩ => predicatesPartition partition ++ predicatesOrder orderBy

/-- The predicates in a partition. -/
def PartitionBy.predicates : PartitionBy → List Predicate
  | ⟨exprs, _⟩ => predicatesAll exprs

/-- The predicates in an order. -/
def OrderBy.predicates : OrderBy → List Predicate
  | ⟨items, _⟩ => predicatesItems items

/-- The predicates in an expression to order by. -/
def OrderItem.predicates : OrderItem → List Predicate
  | ⟨expr, _, _⟩ => expr.predicates

/-- The predicates in a filter. -/
def Filter.predicates : Filter → List Predicate
  | ⟨condition, _⟩ => condition.predicates

/-- The predicates in a full-text search. -/
def Relevance.predicates : Relevance → List Predicate
  | ⟨_, _, query, options⟩ => query.predicates ++ predicatesOptions options

/-- The predicates in a search text or option value. -/
def SearchValue.predicates : SearchValue → List Predicate
  | .name _ => []
  | .constant c => c.predicates

/-- The predicates in an option. -/
def RelevanceOption.predicates : RelevanceOption → List Predicate
  | ⟨_, _, value⟩ => value.predicates

/-- The predicates in expressions. -/
def predicatesAll : List Expr → List Predicate
  | [] => []
  | e :: es => e.predicates ++ predicatesAll es

/-- The predicates in expressions to order by. -/
def predicatesItems : List OrderItem → List Predicate
  | [] => []
  | i :: is => i.predicates ++ predicatesItems is

/-- The predicates in branches. -/
def predicatesBranches : List CaseBranch → List Predicate
  | [] => []
  | b :: bs => b.predicates ++ predicatesBranches bs

/-- The predicates in options. -/
def predicatesOptions : List RelevanceOption → List Predicate
  | [] => []
  | o :: os => o.predicates ++ predicatesOptions os

/-- The predicates in the expression, if there is one. -/
def predicatesOptional : Option Expr → List Predicate
  | none => []
  | some e => e.predicates

/-- The predicates in the constant, if there is one. -/
def predicatesConstant : Option Constant → List Predicate
  | none => []
  | some c => c.predicates

/-- The predicates in the partition, if there is one. -/
def predicatesPartition : Option PartitionBy → List Predicate
  | none => []
  | some p => p.predicates

/-- The predicates in the order, if there is one. -/
def predicatesOrder : Option OrderBy → List Predicate
  | none => []
  | some o => o.predicates

end

theorem mem_predicatesAll {p : Predicate} {es : List Expr} :
    p ∈ predicatesAll es ↔ ∃ e ∈ es, p ∈ e.predicates := by
  induction es with
  | nil => simp [predicatesAll]
  | cons e es ih => simp [predicatesAll, ih]

theorem mem_predicatesItems {p : Predicate} {is : List OrderItem} :
    p ∈ predicatesItems is ↔ ∃ i ∈ is, p ∈ i.predicates := by
  induction is with
  | nil => simp [predicatesItems]
  | cons i is ih => simp [predicatesItems, ih]

theorem mem_predicatesBranches {p : Predicate} {bs : List CaseBranch} :
    p ∈ predicatesBranches bs ↔ ∃ b ∈ bs, p ∈ b.predicates := by
  induction bs with
  | nil => simp [predicatesBranches]
  | cons b bs ih => simp [predicatesBranches, ih]

theorem mem_predicatesOptions {p : Predicate} {os : List RelevanceOption} :
    p ∈ predicatesOptions os ↔ ∃ o ∈ os, p ∈ o.predicates := by
  induction os with
  | nil => simp [predicatesOptions]
  | cons o os ih => simp [predicatesOptions, ih]

/-! ## The predicates in statements -/

/-- The predicates in an item of the select list. -/
def SelectItem.predicates : SelectItem → List Predicate
  | .star _ => []
  | .expr e _ => e.predicates

mutual

/-- The predicates in a query. -/
def Query.predicates : Query → List Predicate
  | ⟨_, items, relation, condition, groupBy, having, orderBy, _, _⟩ =>
      items.flatMap SelectItem.predicates ++ predicatesFrom relation ++
        condition.elim [] (·.expr.predicates) ++ groupBy.elim [] (predicatesAll ·.exprs) ++
          having.elim [] (·.expr.predicates) ++ predicatesOrder orderBy

/-- The predicates in a relation. -/
def Relation.predicates : Relation → List Predicate
  | .table _ _ => []
  | .subquery query _ _ => query.predicates

/-- The predicates in the relation behind `FROM`, if there is one. -/
def predicatesFrom : Option Relation → List Predicate
  | none => []
  | some relation => relation.predicates

end

/-- The predicates in a statement. -/
def Statement.predicates : Statement → List Predicate
  | .select query => query.predicates
  | .showTables _ _ | .describe _ _ _ => []

end SearchSql
