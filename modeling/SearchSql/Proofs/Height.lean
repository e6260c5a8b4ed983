import SearchSql.Proofs.Need

/-!
# Heights of trees

`Statement.height 1` is the height of a tree. An operator that joins its operands from the left adds
`chain` to the height of its left operand, so that `Statement.height 0` takes a chain of operators,
however long it is, for a single node: it bounds how deep those go who follow the left operands of a
chain in a loop.

What a tree consists of besides its nodes has no height: names, fields, patterns, numbers of rows.
-/

set_option autoImplicit false

namespace SearchSql

mutual

/-- The height of an expression. -/
def Expr.height (chain : Nat) : Expr → Nat
  | .not operand _ => operand.height chain + 1
  | .and left right => max (left.height chain + chain) (right.height chain + 1)
  | .or left right => max (left.height chain + chain) (right.height chain + 1)
  | .predicate p => p.height chain + 1

/-- The height of a predicate. -/
def Predicate.height (chain : Nat) : Predicate → Nat
  | .comparison _ left right => max (left.height chain + chain) (right.height chain + 1)
  | .isNull target _ _ => target.height chain + chain
  | .between target _ low high =>
      max (target.height chain + chain) (max (low.height chain) (high.height chain) + 1)
  | .like left _ pattern => max (left.height chain + chain) (pattern.height chain + 1)
  | .regexp left _ pattern => max (left.height chain + chain) (pattern.height chain + 1)
  | .within target _ items _ => max (target.height chain + chain) (heightAll chain items + 1)
  | .atom a => a.height chain + 1

/-- The height of an atom. -/
def Atom.height (chain : Nat) : Atom → Nat
  | .constant c => c.height chain + 1
  | .column _ => 1
  | .call f => f.height chain + 1
  | .parenthesized inner _ => inner.height chain + 1
  | .arithmetic _ left right => max (left.height chain + chain) (right.height chain + 1)

/-- The height of a constant. -/
def Constant.height (chain : Nat) : Constant → Nat
  | ⟨value, _⟩ => value.height chain + 1

/-- The height of a literal. -/
def Literal.height (chain : Nat) : Literal → Nat
  | .interval amount _ => amount.height chain + 1
  | _ => 1

/-- The height of a call. -/
def Call.height (chain : Nat) : Call → Nat
  | ⟨shape, _⟩ => shape.height chain + 1

/-- The height of a call of some shape. -/
def CallShape.height (chain : Nat) : CallShape → Nat
  | .nestedAll _ _ => 1
  | .scalar _ _ args => heightAll chain args + 1
  | .case operand branches otherwise =>
      max (heightOptional chain operand)
        (max (heightBranches chain branches) (heightOptional chain otherwise)) + 1
  | .cast expr _ => expr.height chain + 1
  | .ranking _ args window => max (heightAll chain args) (window.height chain) + 1
  | .windowed aggregate window => max (aggregate.height chain) (window.height chain) + 1
  | .aggregate aggregate => aggregate.height chain + 1
  | .filtered aggregate orderBy filter =>
      max (aggregate.height chain)
        (max (heightOptionalOrder chain orderBy) (filter.height chain)) + 1
  | .score _ relevance _ => relevance.height chain + 1
  | .relevance relevance => relevance.height chain + 1
  | .highlight _ _ => 1
  | .position substring string => max (substring.height chain) (string.height chain) + 1
  | .extract _ arg => arg.height chain + 1
  | .getFormat _ format => format.height chain + 1
  | .timestamp _ _ first second => max (first.height chain) (second.height chain) + 1

/-- The height of a branch. -/
def CaseBranch.height (chain : Nat) : CaseBranch → Nat
  | ⟨condition, result⟩ => max (condition.height chain) (result.height chain) + 1

/-- The height of an aggregate. -/
def Aggregate.height (chain : Nat) : Aggregate → Nat
  | .regular _ arg => arg.height chain + 1
  | .countStar => 1
  | .countDistinct args => heightAll chain args + 1
  | .percentile _ field percent compression =>
      max (field.height chain)
        (max (percent.height chain) (heightOptionalConstant chain compression)) + 1

/-- The height of a window. -/
def Window.height (chain : Nat) : Window → Nat
  | ⟨partition, orderBy, _⟩ =>
      max (heightOptionalPartition chain partition) (heightOptionalOrder chain orderBy) + 1

/-- The height of a partition. -/
def PartitionBy.height (chain : Nat) : PartitionBy → Nat
  | ⟨exprs, _⟩ => heightAll chain exprs + 1

/-- The height of an order. -/
def OrderBy.height (chain : Nat) : OrderBy → Nat
  | ⟨items, _⟩ => heightItems chain items + 1

/-- The height of an expression to order by. -/
def OrderItem.height (chain : Nat) : OrderItem → Nat
  | ⟨expr, _, _⟩ => expr.height chain + 1

/-- The height of a filter. -/
def Filter.height (chain : Nat) : Filter → Nat
  | ⟨condition, _⟩ => condition.height chain + 1

/-- The height of a full-text search. -/
def Relevance.height (chain : Nat) : Relevance → Nat
  | ⟨_, _, query, options⟩ => max (query.height chain) (heightOptions chain options) + 1

/-- The height of a search text or option value. -/
def SearchValue.height (chain : Nat) : SearchValue → Nat
  | .name _ => 1
  | .constant c => c.height chain + 1

/-- The height of an option. -/
def RelevanceOption.height (chain : Nat) : RelevanceOption → Nat
  | ⟨_, _, value⟩ => value.height chain + 1

/-- The height of the highest of some expressions. -/
def heightAll (chain : Nat) : List Expr → Nat
  | [] => 0
  | e :: es => max (e.height chain) (heightAll chain es)

/-- The height of the highest of some expressions to order by. -/
def heightItems (chain : Nat) : List OrderItem → Nat
  | [] => 0
  | i :: is => max (i.height chain) (heightItems chain is)

/-- The height of the highest of some branches. -/
def heightBranches (chain : Nat) : List CaseBranch → Nat
  | [] => 0
  | b :: bs => max (b.height chain) (heightBranches chain bs)

/-- The height of the highest of some options. -/
def heightOptions (chain : Nat) : List RelevanceOption → Nat
  | [] => 0
  | o :: os => max (o.height chain) (heightOptions chain os)

/-- The height of an expression, if there is one. -/
def heightOptional (chain : Nat) : Option Expr → Nat
  | none => 0
  | some e => e.height chain

/-- The height of a constant, if there is one. -/
def heightOptionalConstant (chain : Nat) : Option Constant → Nat
  | none => 0
  | some c => c.height chain

/-- The height of a partition, if there is one. -/
def heightOptionalPartition (chain : Nat) : Option PartitionBy → Nat
  | none => 0
  | some p => p.height chain

/-- The height of an order, if there is one. -/
def heightOptionalOrder (chain : Nat) : Option OrderBy → Nat
  | none => 0
  | some o => o.height chain

end

section

variable {chain k : Nat}

/-- Some expressions are as low as each of them. -/
theorem heightAll_le_iff {es : List Expr} :
    heightAll chain es ≤ k ↔ ∀ e ∈ es, e.height chain ≤ k := by
  induction es with
  | nil => simp [heightAll]
  | cons e es ih => simp only [heightAll, Nat.max_le, ih, List.forall_mem_cons]

/-- Some expressions to order by are as low as each of them. -/
theorem heightItems_le_iff {is : List OrderItem} :
    heightItems chain is ≤ k ↔ ∀ i ∈ is, i.height chain ≤ k := by
  induction is with
  | nil => simp [heightItems]
  | cons i is ih => simp only [heightItems, Nat.max_le, ih, List.forall_mem_cons]

/-- Some branches are as low as each of them. -/
theorem heightBranches_le_iff {bs : List CaseBranch} :
    heightBranches chain bs ≤ k ↔ ∀ b ∈ bs, b.height chain ≤ k := by
  induction bs with
  | nil => simp [heightBranches]
  | cons b bs ih => simp only [heightBranches, Nat.max_le, ih, List.forall_mem_cons]

/-- Some options are as low as each of them. -/
theorem heightOptions_le_iff {os : List RelevanceOption} :
    heightOptions chain os ≤ k ↔ ∀ o ∈ os, o.height chain ≤ k := by
  induction os with
  | nil => simp [heightOptions]
  | cons o os ih => simp only [heightOptions, Nat.max_le, ih, List.forall_mem_cons]

end

/-! ## Statements -/

/-- The height of an item of the select list. -/
def SelectItem.height (chain : Nat) : SelectItem → Nat
  | .star _ => 1
  | .expr e _ => e.height chain + 1

/-- The height of a condition. -/
def Condition.height (chain : Nat) (c : Condition) : Nat := c.expr.height chain + 1

/-- The height of a grouping. -/
def GroupBy.height (chain : Nat) (g : GroupBy) : Nat := heightAll chain g.exprs + 1

mutual

/-- The height of a query. -/
def Query.height (chain : Nat) : Query → Nat
  | ⟨_, items, relation, condition, groupBy, having, orderBy, _, _⟩ =>
      max (greatest (SelectItem.height chain) items) (max (heightFrom chain relation)
        (max (orZero (Condition.height chain) condition)
          (max (orZero (GroupBy.height chain) groupBy)
            (max (orZero (Condition.height chain) having)
              (orZero (OrderBy.height chain) orderBy))))) + 1

/-- The height of a relation. -/
def Relation.height (chain : Nat) : Relation → Nat
  | .table _ _ => 1
  | .subquery query _ _ => query.height chain + 1

/-- The height of the relation behind `FROM`, if there is one. -/
def heightFrom (chain : Nat) : Option Relation → Nat
  | none => 0
  | some relation => relation.height chain

end

/-- The height of a statement. -/
def Statement.height (chain : Nat) : Statement → Nat
  | .select query => query.height chain + 1
  | .showTables _ _ | .describe _ _ _ => 1

/-- The greatest value is bounded by what bounds every value. -/
theorem greatest_le_iff {α : Type} {f : α → Nat} {k : Nat} {xs : List α} :
    greatest f xs ≤ k ↔ ∀ x ∈ xs, f x ≤ k := by
  induction xs with
  | nil => simp [greatest]
  | cons x xs ih => simp only [greatest, Nat.max_le, ih, List.forall_mem_cons]

/-- The value of what may be missing is bounded if it is where there is one. -/
theorem orZero_le_iff {α : Type} {f : α → Nat} {k : Nat} {x : Option α} :
    orZero f x ≤ k ↔ ∀ a ∈ x, f a ≤ k := by
  cases x <;> simp [orZero]

end SearchSql
