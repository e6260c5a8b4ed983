import SearchSql.Tree.Query

/-!
# The levels that a tree needs

`Statement.need` counts the levels of nesting that reading a statement takes, on the tree alone. A
whole expression takes one level more than what is in it (`Expr.inner`). The left operand of a
connective is read under the level of the connective, its right operand under a further one. A call
takes a level of its own, except for a relevance function behind its field, which is read without
one. A query in parentheses takes two.
-/

set_option autoImplicit false

namespace SearchSql

/-- Whether the field is written in front of the function, with an equals sign between them. -/
def RelevanceForm.isFieldEquals : RelevanceForm → Bool
  | .fieldEquals _ => true
  | .fieldEqualsMulti _ => true
  | _ => false

mutual

/-- The levels that an expression needs under its own. -/
def Expr.inner : Expr → Nat
  | .not operand _ => operand.inner + 1
  | .and left right => max left.inner (right.inner + 1)
  | .or left right => max left.inner (right.inner + 1)
  | .predicate p => p.need

/-- The levels that a predicate needs. -/
def Predicate.need : Predicate → Nat
  | .comparison _ left right => max left.need right.need
  | .isNull target _ _ => target.need
  | .between target _ low high => max target.need (max low.need high.need)
  | .like left _ pattern => max left.need pattern.need
  | .regexp left _ pattern => max left.need pattern.need
  | .within target _ items _ => max target.need (needAll items)
  | .atom a => a.need

/-- The levels that an atom needs. -/
def Atom.need : Atom → Nat
  | .constant c => c.need
  | .column _ => 0
  | .call f => f.need
  | .parenthesized e _ => e.inner + 1
  | .arithmetic _ left right => max left.need right.need

/-- The levels that a constant needs. -/
def Constant.need : Constant → Nat
  | ⟨value, _⟩ => value.need

/-- The levels that a literal needs. -/
def Literal.need : Literal → Nat
  | .interval amount _ => amount.inner + 1
  | _ => 0

/-- The levels that a call needs. -/
def Call.need : Call → Nat
  | ⟨.relevance r, _⟩ => if r.form.isFieldEquals then r.need else r.need + 1
  | ⟨shape, _⟩ => shape.inner + 1

/-- The levels that a call of some shape needs under its own. -/
def CallShape.inner : CallShape → Nat
  | .nestedAll _ _ => 0
  | .scalar _ _ args => needAll args
  | .case operand branches otherwise =>
      max (needOptional operand) (max (needBranches branches) (needOptional otherwise))
  | .cast e _ => e.inner + 1
  | .ranking _ args window => max (needAll args) window.need
  | .windowed aggregate window => max aggregate.need window.need
  | .aggregate aggregate => aggregate.need
  | .filtered aggregate orderBy filter =>
      max aggregate.need (max (needOptionalOrder orderBy) filter.need)
  | .score _ relevance _ => relevance.need
  | .relevance relevance => relevance.need
  | .highlight _ _ => 0
  | .position substring string => max (substring.inner + 1) (string.inner + 1)
  | .extract _ arg => arg.inner + 1
  | .getFormat _ format => format.inner + 1
  | .timestamp _ _ first second => max (first.inner + 1) (second.inner + 1)

/-- The levels that a branch needs. -/
def CaseBranch.need : CaseBranch → Nat
  | ⟨condition, result⟩ => max (condition.inner + 1) (result.inner + 1)

/-- The levels that the arguments of an aggregate need. -/
def Aggregate.need : Aggregate → Nat
  | .regular _ arg => arg.inner + 1
  | .countStar => 0
  | .countDistinct args => needAll args
  | .percentile _ field percent compression =>
      max (field.inner + 1) (max percent.need (needOptionalConstant compression))

/-- The levels that a window needs. -/
def Window.need : Window → Nat
  | ⟨none, orderBy, _⟩ => needOptionalOrder orderBy
  | ⟨some partition, orderBy, _⟩ => max partition.need (needOptionalOrder orderBy)

/-- The levels that a partition needs. -/
def PartitionBy.need : PartitionBy → Nat
  | ⟨exprs, _⟩ => needAll exprs

/-- The levels that an order needs. -/
def OrderBy.need : OrderBy → Nat
  | ⟨items, _⟩ => needItems items

/-- The levels that an expression to order by needs. -/
def OrderItem.need : OrderItem → Nat
  | ⟨e, _, _⟩ => e.inner + 1

/-- The levels that a filter needs. -/
def Filter.need : Filter → Nat
  | ⟨condition, _⟩ => condition.inner + 1

/-- The levels that the values of a full-text search need. -/
def Relevance.need : Relevance → Nat
  | ⟨_, _, query, options⟩ => max query.need (needOptions options)

/-- The levels that a search text or option value needs. -/
def SearchValue.need : SearchValue → Nat
  | .name _ => 0
  | .constant c => c.need

/-- The levels that an option needs. -/
def RelevanceOption.need : RelevanceOption → Nat
  | ⟨_, _, value⟩ => value.need

/-- The levels that any of the expressions needs. -/
def needAll : List Expr → Nat
  | [] => 0
  | e :: es => max (e.inner + 1) (needAll es)

/-- The levels that any of the expressions to order by needs. -/
def needItems : List OrderItem → Nat
  | [] => 0
  | i :: is => max i.need (needItems is)

/-- The levels that any of the branches needs. -/
def needBranches : List CaseBranch → Nat
  | [] => 0
  | b :: bs => max b.need (needBranches bs)

/-- The levels that any of the options needs. -/
def needOptions : List RelevanceOption → Nat
  | [] => 0
  | o :: os => max o.need (needOptions os)

/-- The levels that an expression needs, if there is one. -/
def needOptional : Option Expr → Nat
  | none => 0
  | some e => e.inner + 1

/-- The levels that a constant needs, if there is one. -/
def needOptionalConstant : Option Constant → Nat
  | none => 0
  | some c => c.need

/-- The levels that an order needs, if there is one. -/
def needOptionalOrder : Option OrderBy → Nat
  | none => 0
  | some o => o.need

end

/-- The levels that a whole expression needs. -/
def Expr.need (e : Expr) : Nat := e.inner + 1

/-- The levels that an item of the select list needs. -/
def SelectItem.need : SelectItem → Nat
  | .star _ => 0
  | .expr e _ => e.need

/-- The greatest of the numbers that `f` gives for the items of a list. -/
def greatest {α : Type} (f : α → Nat) : List α → Nat
  | [] => 0
  | a :: as => max (f a) (greatest f as)

/-- The number that `f` gives for what is there, if it is. -/
def orZero {α : Type} (f : α → Nat) : Option α → Nat
  | none => 0
  | some a => f a

mutual

/-- The levels that a query needs. -/
def Query.need : Query → Nat
  | ⟨_, items, relation, condition, groupBy, having, orderBy, _, _⟩ =>
      max (greatest SelectItem.need items) (max (needFrom relation)
        (max (orZero (fun c => c.expr.need) condition)
          (max (orZero (fun g => greatest Expr.need g.exprs) groupBy)
            (max (orZero (fun c => c.expr.need) having) (orZero OrderBy.need orderBy)))))

/-- The levels that a relation needs. -/
def Relation.need : Relation → Nat
  | .table _ _ => 0
  | .subquery query _ _ => query.need + 2

/-- The levels that the relation behind `FROM` needs, if there is one. -/
def needFrom : Option Relation → Nat
  | none => 0
  | some relation => relation.need

end

/-- The levels of nesting that reading a statement takes. -/
def Statement.need : Statement → Nat
  | .select query => query.need
  | .showTables _ _ => 0
  | .describe _ _ _ => 0

section

variable {α : Type}

/-- The greatest value of two lists is the greater of the two. -/
theorem greatest_append (f : α → Nat) (xs ys : List α) :
    greatest f (xs ++ ys) = max (greatest f xs) (greatest f ys) := by
  induction xs with
  | nil => exact (Nat.zero_max _).symm
  | cons x xs ih =>
    show max (f x) (greatest f (xs ++ ys)) = max (max (f x) (greatest f xs)) (greatest f ys)
    rw [ih, Nat.max_assoc]

/-- The greatest value does not depend on the order. -/
@[simp] theorem greatest_reverse (f : α → Nat) (xs : List α) :
    greatest f xs.reverse = greatest f xs := by
  induction xs with
  | nil => rfl
  | cons x xs ih =>
    rw [List.reverse_cons, greatest_append, ih]
    show max (greatest f xs) (max (f x) 0) = max (f x) (greatest f xs)
    omega

end

/-- Some expressions need what the neediest does. -/
theorem needAll_eq (es : List Expr) : needAll es = greatest Expr.need es := by
  induction es with
  | nil => rfl
  | cons e es ih => exact congrArg (max (e.inner + 1)) ih

/-- Some expressions to order by need what the neediest does. -/
theorem needItems_eq (is : List OrderItem) : needItems is = greatest OrderItem.need is := by
  induction is with
  | nil => rfl
  | cons i is ih => exact congrArg (max i.need) ih

/-- Some branches need what the neediest does. -/
theorem needBranches_eq (bs : List CaseBranch) : needBranches bs = greatest CaseBranch.need bs := by
  induction bs with
  | nil => rfl
  | cons b bs ih => exact congrArg (max b.need) ih

/-- Some options need what the neediest does. -/
theorem needOptions_eq (os : List RelevanceOption) :
    needOptions os = greatest RelevanceOption.need os := by
  induction os with
  | nil => rfl
  | cons o os ih => exact congrArg (max o.need) ih

theorem needOptional_eq (e : Option Expr) : needOptional e = orZero Expr.need e := by
  cases e <;> rfl

theorem needOptionalConstant_eq (c : Option Constant) :
    needOptionalConstant c = orZero Constant.need c := by
  cases c <;> rfl

theorem needOptionalOrder_eq (o : Option OrderBy) :
    needOptionalOrder o = orZero OrderBy.need o := by
  cases o <;> rfl

theorem needFrom_eq (r : Option Relation) : needFrom r = orZero Relation.need r := by
  cases r <;> rfl

end SearchSql
