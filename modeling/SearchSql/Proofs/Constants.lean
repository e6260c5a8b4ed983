import SearchSql.Tree.Query

/-!
# The constants in a tree

`Statement.constants` collects the constants from all parts of a tree. An interval is a constant with
an expression inside it, so constants may stand in one another. Besides those that are operands of
expressions, there are the numbers of a percentile and the texts and option values of a full-text
search.
-/

set_option autoImplicit false

namespace SearchSql

/-- What a literal without a value was read from, and what is wrong with it. -/
def Literal.malformed? : Literal → Option (LiteralKind × String × LiteralFault)
  | .malformed kind text fault => some (kind, text, fault)
  | _ => none

theorem Literal.malformed?_eq_some {value : Literal} {kind : LiteralKind} {text : String}
    {fault : LiteralFault} :
    value.malformed? = some (kind, text, fault) ↔ value = .malformed kind text fault := by
  cases value <;> simp [malformed?]

/-! ## Constants in expressions -/

mutual

/-- The constants in an expression. -/
def Expr.constants : Expr → List Constant
  | .not operand _ => operand.constants
  | .and left right => left.constants ++ right.constants
  | .or left right => left.constants ++ right.constants
  | .predicate p => p.constants

/-- The constants in a predicate. -/
def Predicate.constants : Predicate → List Constant
  | .comparison _ left right => left.constants ++ right.constants
  | .isNull target _ _ => target.constants
  | .between target _ low high => target.constants ++ low.constants ++ high.constants
  | .like left _ pattern => left.constants ++ pattern.constants
  | .regexp left _ pattern => left.constants ++ pattern.constants
  | .within target _ items _ => target.constants ++ constantsAll items
  | .atom a => a.constants

/-- The constants in an atom. -/
def Atom.constants : Atom → List Constant
  | .constant c => c.constants
  | .column _ => []
  | .call f => f.constants
  | .parenthesized inner _ => inner.constants
  | .arithmetic _ left right => left.constants ++ right.constants

/-- The constants in a constant, itself among them. -/
def Constant.constants : Constant → List Constant
  | ⟨value, span⟩ => ⟨value, span⟩ :: value.constants

/-- The constants in a literal, of which only an interval has any. -/
def Literal.constants : Literal → List Constant
  | .interval amount _ => amount.constants
  | _ => []

/-- The constants in a call. -/
def Call.constants : Call → List Constant
  | ⟨shape, _⟩ => shape.constants

/-- The constants in a call of some shape. -/
def CallShape.constants : CallShape → List Constant
  | .nestedAll _ _ => []
  | .scalar _ _ args => constantsAll args
  | .case operand branches otherwise =>
      constantsOptional operand ++ constantsBranches branches ++ constantsOptional otherwise
  | .cast expr _ => expr.constants
  | .ranking _ args window => constantsAll args ++ window.constants
  | .windowed aggregate window => aggregate.constants ++ window.constants
  | .aggregate aggregate => aggregate.constants
  | .filtered aggregate orderBy filter =>
      aggregate.constants ++ constantsOrder orderBy ++ filter.constants
  | .score _ relevance _ => relevance.constants
  | .relevance relevance => relevance.constants
  | .highlight _ _ => []
  | .position substring string => substring.constants ++ string.constants
  | .extract _ arg => arg.constants
  | .getFormat _ format => format.constants
  | .timestamp _ _ first second => first.constants ++ second.constants

/-- The constants in a branch. -/
def CaseBranch.constants : CaseBranch → List Constant
  | ⟨condition, result⟩ => condition.constants ++ result.constants

/-- The constants in an aggregate. -/
def Aggregate.constants : Aggregate → List Constant
  | .regular _ arg => arg.constants
  | .countStar => []
  | .countDistinct args => constantsAll args
  | .percentile _ field percent compression =>
      field.constants ++ percent.constants ++ constantsConstant compression

/-- The constants in a window. -/
def Window.constants : Window → List Constant
  | ⟨partition, orderBy, _⟩ => constantsPartition partition ++ constantsOrder orderBy

/-- The constants in a partition. -/
def PartitionBy.constants : PartitionBy → List Constant
  | ⟨exprs, _⟩ => constantsAll exprs

/-- The constants in an order. -/
def OrderBy.constants : OrderBy → List Constant
  | ⟨items, _⟩ => constantsItems items

/-- The constants in an expression to order by. -/
def OrderItem.constants : OrderItem → List Constant
  | ⟨expr, _, _⟩ => expr.constants

/-- The constants in a filter. -/
def Filter.constants : Filter → List Constant
  | ⟨condition, _⟩ => condition.constants

/-- The constants in a full-text search. -/
def Relevance.constants : Relevance → List Constant
  | ⟨_, _, query, options⟩ => query.constants ++ constantsOptions options

/-- The constants in a search text or option value. -/
def SearchValue.constants : SearchValue → List Constant
  | .name _ => []
  | .constant c => c.constants

/-- The constants in an option. -/
def RelevanceOption.constants : RelevanceOption → List Constant
  | ⟨_, _, value⟩ => value.constants

/-- The constants in expressions. -/
def constantsAll : List Expr → List Constant
  | [] => []
  | e :: es => e.constants ++ constantsAll es

/-- The constants in expressions to order by. -/
def constantsItems : List OrderItem → List Constant
  | [] => []
  | i :: is => i.constants ++ constantsItems is

/-- The constants in branches. -/
def constantsBranches : List CaseBranch → List Constant
  | [] => []
  | b :: bs => b.constants ++ constantsBranches bs

/-- The constants in options. -/
def constantsOptions : List RelevanceOption → List Constant
  | [] => []
  | o :: os => o.constants ++ constantsOptions os

/-- The constants in the expression, if there is one. -/
def constantsOptional : Option Expr → List Constant
  | none => []
  | some e => e.constants

/-- The constants in the constant, if there is one. -/
def constantsConstant : Option Constant → List Constant
  | none => []
  | some c => c.constants

/-- The constants in the partition, if there is one. -/
def constantsPartition : Option PartitionBy → List Constant
  | none => []
  | some p => p.constants

/-- The constants in the order, if there is one. -/
def constantsOrder : Option OrderBy → List Constant
  | none => []
  | some o => o.constants

end

theorem mem_constantsAll {c : Constant} {es : List Expr} :
    c ∈ constantsAll es ↔ ∃ e ∈ es, c ∈ e.constants := by
  induction es with
  | nil => simp [constantsAll]
  | cons e es ih => simp [constantsAll, ih]

theorem mem_constantsItems {c : Constant} {is : List OrderItem} :
    c ∈ constantsItems is ↔ ∃ i ∈ is, c ∈ i.constants := by
  induction is with
  | nil => simp [constantsItems]
  | cons i is ih => simp [constantsItems, ih]

theorem mem_constantsBranches {c : Constant} {bs : List CaseBranch} :
    c ∈ constantsBranches bs ↔ ∃ b ∈ bs, c ∈ b.constants := by
  induction bs with
  | nil => simp [constantsBranches]
  | cons b bs ih => simp [constantsBranches, ih]

theorem mem_constantsOptions {c : Constant} {os : List RelevanceOption} :
    c ∈ constantsOptions os ↔ ∃ o ∈ os, c ∈ o.constants := by
  induction os with
  | nil => simp [constantsOptions]
  | cons o os ih => simp [constantsOptions, ih]

/-! ## Constants in statements -/

/-- The constants in an item of the select list. -/
def SelectItem.constants : SelectItem → List Constant
  | .star _ => []
  | .expr e _ => e.constants

mutual

/-- The constants in a query. -/
def Query.constants : Query → List Constant
  | ⟨_, items, relation, condition, groupBy, having, orderBy, _, _⟩ =>
      items.flatMap SelectItem.constants ++ constantsFrom relation ++
        condition.elim [] (·.expr.constants) ++ groupBy.elim [] (constantsAll ·.exprs) ++
          having.elim [] (·.expr.constants) ++ constantsOrder orderBy

/-- The constants in a relation. -/
def Relation.constants : Relation → List Constant
  | .table _ _ => []
  | .subquery query _ _ => query.constants

/-- The constants in the relation behind `FROM`, if there is one. -/
def constantsFrom : Option Relation → List Constant
  | none => []
  | some relation => relation.constants

end

/-- The constants in a statement. -/
def Statement.constants : Statement → List Constant
  | .select query => query.constants
  | .showTables _ _ | .describe _ _ _ => []

end SearchSql
