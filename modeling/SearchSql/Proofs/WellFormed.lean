import SearchSql.Tree.Query
import SearchSql.Vocabulary.Datetime

/-!
# Well-formed trees

What the types of the tree leave open and every parse keeps to: names are not empty, lists that the
grammar asks for have an item, numbers are finite, and each form of a relevance call comes with the
fields that it can be written with. A query may have lost parts of itself to errors; one that was read
without any has all that belongs together (`Query.WellFormed` with `strict`).
-/

set_option autoImplicit false

namespace SearchSql

/-! ## Names and fields -/

/-- A name has characters. -/
def Ident.WellFormed (name : Ident) : Prop := name.value ≠ ""

/-- A qualified name has segments, and each of them has characters. -/
def QualifiedName.WellFormed (name : QualifiedName) : Prop :=
  name.parts ≠ [] ∧ ∀ part ∈ name.parts, part.WellFormed

/-- The name of a field that is not quoted is well-formed. -/
def Field.WellFormed : Field → Prop
  | .name n => n.WellFormed
  | .quoted _ _ => True

/-- The boost of a field is finite. -/
def WeightedField.WellFormed (f : WeightedField) : Prop :=
  f.field.WellFormed ∧ ∀ w ∈ f.weight, w.isFinite = true

/-- The ways to write a relevance call. -/
inductive SearchStyle where
  | standard
  /-- Behind the field and an equals sign. -/
  | fieldEquals
  | namedArguments
  deriving DecidableEq, Repr

/-- The fields that a relevance call searches. -/
inductive SearchScope where
  | noField
  | single (field : Field)
  | multi (fields : List WeightedField)
  deriving DecidableEq, Repr

/-- The fields that are searched are well-formed. -/
def SearchScope.WellFormed : SearchScope → Prop
  | .noField => True
  | .single f => f.WellFormed
  | .multi fs => ∀ f ∈ fs, f.WellFormed

namespace RelevanceForm

/-- The way a relevance call is written. -/
def style : RelevanceForm → SearchStyle
  | .noField | .field _ | .fields _ => .standard
  | .fieldEquals _ | .fieldEqualsMulti _ => .fieldEquals
  | .named _ => .namedArguments

/-- The fields that a relevance call searches. The one in front of an equals sign has no boost. -/
def scope : RelevanceForm → SearchScope
  | .noField => .noField
  | .field f | .fieldEquals f => .single f
  | .fields fs | .named fs => .multi fs
  | .fieldEqualsMulti f => .multi [⟨f, none⟩]

/-- In front of an equals sign stands one field without a boost, and named arguments are for at least
one field. -/
structure WellFormed (form : RelevanceForm) : Prop where
  scope : form.scope.WellFormed
  fieldEquals : form.style = .fieldEquals →
    (∃ f, form.scope = .single f) ∨ ∃ f, form.scope = .multi [⟨f, none⟩]
  namedArguments : form.style = .namedArguments → ∃ fs, fs ≠ [] ∧ form.scope = .multi fs

end RelevanceForm

/-! ## Expressions -/

mutual

/-- Whether an expression is well-formed. -/
def Expr.WellFormed : Expr → Prop
  | .not operand _ => operand.WellFormed
  | .and left right => left.WellFormed ∧ right.WellFormed
  | .or left right => left.WellFormed ∧ right.WellFormed
  | .predicate p => p.WellFormed

/-- Whether a predicate is well-formed: `IN` has items. -/
def Predicate.WellFormed : Predicate → Prop
  | .comparison _ left right => left.WellFormed ∧ right.WellFormed
  | .isNull target _ _ => target.WellFormed
  | .between target _ low high => target.WellFormed ∧ low.WellFormed ∧ high.WellFormed
  | .like left _ pattern => left.WellFormed ∧ pattern.WellFormed
  | .regexp left _ pattern => left.WellFormed ∧ pattern.WellFormed
  | .within target _ items _ => target.WellFormed ∧ items ≠ [] ∧ WellFormedAll items
  | .atom a => a.WellFormed

/-- Whether an atom is well-formed. -/
def Atom.WellFormed : Atom → Prop
  | .constant c => c.WellFormed
  | .column name => name.WellFormed
  | .call f => f.WellFormed
  | .parenthesized inner _ => inner.WellFormed
  | .arithmetic _ left right => left.WellFormed ∧ right.WellFormed

/-- Whether a constant is well-formed. -/
def Constant.WellFormed : Constant → Prop
  | ⟨value, _⟩ => value.WellFormed

/-- Whether a literal is well-formed: a real number is finite. -/
def Literal.WellFormed : Literal → Prop
  | .real value => value.isFinite = true
  | .interval amount _ => amount.WellFormed
  | _ => True

/-- Whether a call is well-formed. -/
def Call.WellFormed : Call → Prop
  | ⟨shape, _⟩ => shape.WellFormed

/-- Whether a call of some shape is well-formed: `CASE` has branches, the weight of a score is finite,
and time is counted in a single unit. -/
def CallShape.WellFormed : CallShape → Prop
  | .nestedAll _ path => path.WellFormed
  | .scalar _ _ args => WellFormedAll args
  | .case operand branches otherwise =>
      WellFormedOptional operand ∧ branches ≠ [] ∧ WellFormedBranches branches ∧
        WellFormedOptional otherwise
  | .cast expr _ => expr.WellFormed
  | .ranking _ args window => WellFormedAll args ∧ window.WellFormed
  | .windowed aggregate window => aggregate.WellFormed ∧ window.WellFormed
  | .aggregate aggregate => aggregate.WellFormed
  | .filtered aggregate orderBy filter =>
      aggregate.WellFormed ∧ WellFormedOptionalOrder orderBy ∧ filter.WellFormed
  | .score _ relevance weight => relevance.WellFormed ∧ ∀ w ∈ weight, w.isFinite = true
  | .relevance relevance => relevance.WellFormed
  | .highlight field _ => field.WellFormed
  | .position substring string => substring.WellFormed ∧ string.WellFormed
  | .extract _ arg => arg.WellFormed
  | .getFormat _ format => format.WellFormed
  | .timestamp _ unit first second =>
      unit.isSingle = true ∧ first.WellFormed ∧ second.WellFormed

/-- Whether a branch is well-formed. -/
def CaseBranch.WellFormed : CaseBranch → Prop
  | ⟨condition, result⟩ => condition.WellFormed ∧ result.WellFormed

/-- Whether an aggregate is well-formed: `DISTINCT` has arguments. -/
def Aggregate.WellFormed : Aggregate → Prop
  | .regular _ arg => arg.WellFormed
  | .countStar => True
  | .countDistinct args => args ≠ [] ∧ WellFormedAll args
  | .percentile _ field percent compression =>
      field.WellFormed ∧ percent.WellFormed ∧ WellFormedOptionalConstant compression

/-- Whether a window is well-formed. -/
def Window.WellFormed : Window → Prop
  | ⟨partition, orderBy, _⟩ =>
      WellFormedOptionalPartition partition ∧ WellFormedOptionalOrder orderBy

/-- Whether a partition is well-formed: it has an expression. -/
def PartitionBy.WellFormed : PartitionBy → Prop
  | ⟨exprs, _⟩ => exprs ≠ [] ∧ WellFormedAll exprs

/-- Whether an order is well-formed: it has an item. -/
def OrderBy.WellFormed : OrderBy → Prop
  | ⟨items, _⟩ => items ≠ [] ∧ WellFormedItems items

/-- Whether an expression to order by is well-formed. -/
def OrderItem.WellFormed : OrderItem → Prop
  | ⟨expr, _, _⟩ => expr.WellFormed

/-- Whether a filter is well-formed. -/
def Filter.WellFormed : Filter → Prop
  | ⟨condition, _⟩ => condition.WellFormed

/-- Whether a full-text search is well-formed. -/
def Relevance.WellFormed : Relevance → Prop
  | ⟨_, form, query, options⟩ =>
      form.WellFormed ∧ query.WellFormed ∧ WellFormedOptions options

/-- Whether a search text or option value is well-formed. -/
def SearchValue.WellFormed : SearchValue → Prop
  | .name n => n.WellFormed
  | .constant c => c.WellFormed

/-- Whether an option is well-formed. -/
def RelevanceOption.WellFormed : RelevanceOption → Prop
  | ⟨_, _, value⟩ => value.WellFormed

/-- Whether all expressions are well-formed. -/
def WellFormedAll : List Expr → Prop
  | [] => True
  | e :: es => e.WellFormed ∧ WellFormedAll es

/-- Whether all expressions to order by are well-formed. -/
def WellFormedItems : List OrderItem → Prop
  | [] => True
  | i :: is => i.WellFormed ∧ WellFormedItems is

/-- Whether all branches are well-formed. -/
def WellFormedBranches : List CaseBranch → Prop
  | [] => True
  | b :: bs => b.WellFormed ∧ WellFormedBranches bs

/-- Whether all options are well-formed. -/
def WellFormedOptions : List RelevanceOption → Prop
  | [] => True
  | o :: os => o.WellFormed ∧ WellFormedOptions os

/-- Whether the expression is well-formed, if there is one. -/
def WellFormedOptional : Option Expr → Prop
  | none => True
  | some e => e.WellFormed

/-- Whether the constant is well-formed, if there is one. -/
def WellFormedOptionalConstant : Option Constant → Prop
  | none => True
  | some c => c.WellFormed

/-- Whether the partition is well-formed, if there is one. -/
def WellFormedOptionalPartition : Option PartitionBy → Prop
  | none => True
  | some p => p.WellFormed

/-- Whether the order is well-formed, if there is one. -/
def WellFormedOptionalOrder : Option OrderBy → Prop
  | none => True
  | some o => o.WellFormed

end

theorem wellFormedAll_iff {es : List Expr} : WellFormedAll es ↔ ∀ e ∈ es, e.WellFormed := by
  induction es with
  | nil => simp [WellFormedAll]
  | cons e es ih => simp [WellFormedAll, ih]

theorem wellFormedItems_iff {is : List OrderItem} :
    WellFormedItems is ↔ ∀ i ∈ is, i.WellFormed := by
  induction is with
  | nil => simp [WellFormedItems]
  | cons i is ih => simp [WellFormedItems, ih]

theorem wellFormedBranches_iff {bs : List CaseBranch} :
    WellFormedBranches bs ↔ ∀ b ∈ bs, b.WellFormed := by
  induction bs with
  | nil => simp [WellFormedBranches]
  | cons b bs ih => simp [WellFormedBranches, ih]

theorem wellFormedOptions_iff {os : List RelevanceOption} :
    WellFormedOptions os ↔ ∀ o ∈ os, o.WellFormed := by
  induction os with
  | nil => simp [WellFormedOptions]
  | cons o os ih => simp [WellFormedOptions, ih]

/-! ## Statements -/

namespace SelectItem

/-- Whether an item of the select list is a star. -/
def isStar : SelectItem → Bool
  | .star _ => true
  | .expr _ _ => false

/-- Whether an item of the select list is well-formed. -/
def WellFormed : SelectItem → Prop
  | .star _ => True
  | .expr e aliasName => e.WellFormed ∧ ∀ name ∈ aliasName, name.WellFormed

end SelectItem

/-- Whether a grouping is well-formed: it has an expression. -/
def GroupBy.WellFormed (g : GroupBy) : Prop := g.exprs ≠ [] ∧ ∀ e ∈ g.exprs, e.WellFormed

mutual

/-- Whether a query is well-formed. Only the first of its items may be a star. If it was read without
an error, it has items, and rows are filtered, grouped and ordered only where there is a relation that
they come from. -/
def Query.WellFormed (strict : Bool) : Query → Prop
  | ⟨_, items, relation, condition, groupBy, having, orderBy, _, _⟩ =>
      (∀ i ∈ items, i.WellFormed) ∧ (∀ i ∈ items.tail, i.isStar = false) ∧
        WellFormedFrom strict relation ∧ (∀ c ∈ condition, c.expr.WellFormed) ∧
          (∀ g ∈ groupBy, g.WellFormed) ∧ (∀ c ∈ having, c.expr.WellFormed) ∧
            (∀ o ∈ orderBy, o.WellFormed) ∧
              (strict = true → items ≠ [] ∧
                (condition.isSome ∨ groupBy.isSome ∨ having.isSome ∨ orderBy.isSome →
                  relation.isSome))

/-- Whether a relation is well-formed. -/
def Relation.WellFormed (strict : Bool) : Relation → Prop
  | .table name aliasName => name.WellFormed ∧ ∀ other ∈ aliasName, other.WellFormed
  | .subquery query aliasName _ => query.WellFormed strict ∧ aliasName.WellFormed

/-- Whether the relation behind `FROM` is well-formed, if there is one. -/
def WellFormedFrom (strict : Bool) : Option Relation → Prop
  | none => True
  | some relation => relation.WellFormed strict

end

/-- Whether a statement is well-formed. -/
def Statement.WellFormed (strict : Bool) : Statement → Prop
  | .select query => query.WellFormed strict
  | .showTables _ _ | .describe _ _ _ => True

end SearchSql
