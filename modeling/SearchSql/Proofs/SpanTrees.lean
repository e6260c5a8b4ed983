import SearchSql.Token.Basic
import SearchSql.Tree.Extent

/-!
# The spans of a tree

`Statement.spanTree` keeps of a tree only its spans: those it stores, and those of the nodes whose
span is made of their children's. Children stand in the order in which they are written. Only the
text and the fields of a full-text search with named arguments may be written in either order.

A tree of spans is `Nested` if each span covers some tokens and the spans below it, and if what
stands behind something else is behind it in the text, too.
-/

set_option autoImplicit false

namespace SearchSql

/-- Spans and the spans below them. -/
inductive SpanTree where
  | node (span : Span) (children : List SpanTree)
  /-- Parts of a node without a span of its own. -/
  | group (children : List SpanTree)
  /-- Two parts that may be written in either order. -/
  | either (first second : SpanTree)

/-- A span with nothing below it. -/
abbrev SpanTree.leaf (span : Span) : SpanTree := .node span []

mutual

/-- All spans of a tree, each in front of those below it. -/
def SpanTree.spans : SpanTree → List Span
  | .node span children => span :: spansAll children
  | .group children => spansAll children
  | .either first second => first.spans ++ second.spans

/-- All spans of some trees. -/
def spansAll : List SpanTree → List Span
  | [] => []
  | t :: ts => t.spans ++ spansAll ts

end

/-- The span reaches from the start of a token to the end of the same token or a later one. Neither
is the end of the input. -/
def Span.Covers (tokens : List Token) (span : Span) : Prop :=
  ∃ (i j : Nat) (t u : Token), i ≤ j ∧ tokens[i]? = some t ∧ tokens[j]? = some u ∧
    t.isEnd = false ∧ u.isEnd = false ∧ span = ⟨t.span.start, u.span.stop⟩

/-- The first tree ends where the second one starts, or in front of it. -/
def SpanTree.Precedes (t u : SpanTree) : Prop := ∀ x ∈ t.spans, ∀ y ∈ u.spans, x.stop ≤ y.start

/-- Every span is that of some tokens and contains the spans below it; and what stands in a row is in
a row in the text. -/
inductive SpanTree.Nested (tokens : List Token) : SpanTree → Prop where
  | node {span : Span} {children : List SpanTree} : span.Covers tokens → span.start < span.stop →
      (∀ x ∈ spansAll children, span.contains x = true) → children.Pairwise Precedes →
      (∀ t ∈ children, t.Nested tokens) → (SpanTree.node span children).Nested tokens
  | group {children : List SpanTree} : children.Pairwise Precedes →
      (∀ t ∈ children, t.Nested tokens) → (SpanTree.group children).Nested tokens
  | either {first second : SpanTree} : first.Precedes second ∨ second.Precedes first →
      first.Nested tokens → second.Nested tokens → (SpanTree.either first second).Nested tokens

/-! ## Spans of what is read -/

/-- The span of an identifier. -/
def Ident.spanTree (name : Ident) : SpanTree := .leaf name.span

/-- The spans of a name and its segments. -/
def QualifiedName.spanTree (name : QualifiedName) : SpanTree :=
  .node name.span (name.parts.map Ident.spanTree)

/-- The spans of a field. -/
def Field.spanTree : Field → SpanTree
  | .name n => n.spanTree
  | .quoted _ span => .leaf span

/-- The spans of a field with its boost. -/
def WeightedField.spanTree (f : WeightedField) : SpanTree := f.field.spanTree

/-- The spans of the fields of a full-text search and of its text, which has the spans `text`. -/
def RelevanceForm.spanTrees (text : SpanTree) : RelevanceForm → List SpanTree
  | .noField => [text]
  | .field f | .fieldEquals f | .fieldEqualsMulti f => [f.spanTree, text]
  | .fields fs => fs.map WeightedField.spanTree ++ [text]
  | .named fs => [.either text (.group (fs.map WeightedField.spanTree))]

mutual

/-- The spans of an expression. -/
def Expr.spanTree : Expr → SpanTree
  | .not operand span => .node span [operand.spanTree]
  | .and left right => .node (left.span.merge right.span) [left.spanTree, right.spanTree]
  | .or left right => .node (left.span.merge right.span) [left.spanTree, right.spanTree]
  | .predicate p => p.spanTree

/-- The spans of a predicate. -/
def Predicate.spanTree : Predicate → SpanTree
  | .comparison _ left right => .node (left.span.merge right.span) [left.spanTree, right.spanTree]
  | .isNull target _ span => .node span [target.spanTree]
  | .between target _ low high =>
      .node (target.span.merge high.span) [target.spanTree, low.spanTree, high.spanTree]
  | .like left _ pattern => .node (left.span.merge pattern.span) [left.spanTree, pattern.spanTree]
  | .regexp left _ pattern => .node (left.span.merge pattern.span) [left.spanTree, pattern.spanTree]
  | .within target _ items span => .node span (target.spanTree :: spanTreesAll items)
  | .atom a => a.spanTree

/-- The spans of an atom. -/
def Atom.spanTree : Atom → SpanTree
  | .constant c => c.spanTree
  | .column name => name.spanTree
  | .call f => f.spanTree
  | .parenthesized inner span => .node span [inner.spanTree]
  | .arithmetic _ left right => .node (left.span.merge right.span) [left.spanTree, right.spanTree]

/-- The spans of a constant. -/
def Constant.spanTree : Constant → SpanTree
  | ⟨value, span⟩ => .node span value.spanTrees

/-- The spans inside a literal. -/
def Literal.spanTrees : Literal → List SpanTree
  | .interval amount _ => [amount.spanTree]
  | _ => []

/-- The spans of a call. -/
def Call.spanTree : Call → SpanTree
  | ⟨shape, span⟩ => .node span shape.spanTrees

/-- The spans inside a call of some shape. -/
def CallShape.spanTrees : CallShape → List SpanTree
  | .nestedAll _ path => [path.spanTree]
  | .scalar _ _ args => spanTreesAll args
  | .case operand branches otherwise =>
      spanTreesOptional operand ++ spanTreesBranches branches ++ spanTreesOptional otherwise
  | .cast expr _ => [expr.spanTree]
  | .ranking _ args window => spanTreesAll args ++ [window.spanTree]
  | .windowed aggregate window => aggregate.spanTrees ++ [window.spanTree]
  | .aggregate aggregate => aggregate.spanTrees
  | .filtered aggregate orderBy filter =>
      aggregate.spanTrees ++ spanTreesOptionalOrder orderBy ++ [filter.spanTree]
  | .score _ relevance _ => relevance.spanTrees
  | .relevance relevance => relevance.spanTrees
  | .highlight field _ => [field.spanTree]
  | .position substring string => [substring.spanTree, string.spanTree]
  | .extract _ arg => [arg.spanTree]
  | .getFormat _ format => [format.spanTree]
  | .timestamp _ _ first second => [first.spanTree, second.spanTree]

/-- The spans of a branch. -/
def CaseBranch.spanTree : CaseBranch → SpanTree
  | ⟨condition, result⟩ => .group [condition.spanTree, result.spanTree]

/-- The spans inside an aggregate. -/
def Aggregate.spanTrees : Aggregate → List SpanTree
  | .regular _ arg => [arg.spanTree]
  | .countStar => []
  | .countDistinct args => spanTreesAll args
  | .percentile _ field percent compression =>
      field.spanTree :: percent.spanTree :: spanTreesOptionalConstant compression

/-- The spans of a window. -/
def Window.spanTree : Window → SpanTree
  | ⟨partition, orderBy, span⟩ =>
      .node span (spanTreesOptionalPartition partition ++ spanTreesOptionalOrder orderBy)

/-- The spans of a partition. -/
def PartitionBy.spanTree : PartitionBy → SpanTree
  | ⟨exprs, span⟩ => .node span (spanTreesAll exprs)

/-- The spans of an order. -/
def OrderBy.spanTree : OrderBy → SpanTree
  | ⟨items, span⟩ => .node span (spanTreesItems items)

/-- The spans of an expression to order by. -/
def OrderItem.spanTree : OrderItem → SpanTree
  | ⟨expr, _, _⟩ => expr.spanTree

/-- The spans of a filter. -/
def Filter.spanTree : Filter → SpanTree
  | ⟨condition, span⟩ => .node span [condition.spanTree]

/-- The spans inside a full-text search. -/
def Relevance.spanTrees : Relevance → List SpanTree
  | ⟨_, form, query, options⟩ => form.spanTrees query.spanTree ++ spanTreesOptions options

/-- The spans of a search text or option value. -/
def SearchValue.spanTree : SearchValue → SpanTree
  | .name n => n.spanTree
  | .constant c => c.spanTree

/-- The spans of an option. -/
def RelevanceOption.spanTree : RelevanceOption → SpanTree
  | ⟨_, _, value⟩ => value.spanTree

/-- The spans of some expressions. -/
def spanTreesAll : List Expr → List SpanTree
  | [] => []
  | e :: es => e.spanTree :: spanTreesAll es

/-- The spans of some expressions to order by. -/
def spanTreesItems : List OrderItem → List SpanTree
  | [] => []
  | i :: is => i.spanTree :: spanTreesItems is

/-- The spans of some branches. -/
def spanTreesBranches : List CaseBranch → List SpanTree
  | [] => []
  | b :: bs => b.spanTree :: spanTreesBranches bs

/-- The spans of some options. -/
def spanTreesOptions : List RelevanceOption → List SpanTree
  | [] => []
  | o :: os => o.spanTree :: spanTreesOptions os

/-- The spans of an expression, if there is one. -/
def spanTreesOptional : Option Expr → List SpanTree
  | none => []
  | some e => [e.spanTree]

/-- The spans of a constant, if there is one. -/
def spanTreesOptionalConstant : Option Constant → List SpanTree
  | none => []
  | some c => [c.spanTree]

/-- The spans of a partition, if there is one. -/
def spanTreesOptionalPartition : Option PartitionBy → List SpanTree
  | none => []
  | some p => [p.spanTree]

/-- The spans of an order, if there is one. -/
def spanTreesOptionalOrder : Option OrderBy → List SpanTree
  | none => []
  | some o => [o.spanTree]

end

/-- The spans of an item of the select list. -/
def SelectItem.spanTree : SelectItem → SpanTree
  | .star span => .leaf span
  | .expr e name => .group (e.spanTree :: (name.map Ident.spanTree).toList)

/-- The spans of a condition. -/
def Condition.spanTree (c : Condition) : SpanTree := .node c.span [c.expr.spanTree]

/-- The spans of a grouping. -/
def GroupBy.spanTree (g : GroupBy) : SpanTree := .node g.span (g.exprs.map Expr.spanTree)

/-- The span of a limit. -/
def Limit.spanTree (l : Limit) : SpanTree := .leaf l.span

mutual

/-- The spans of a query, clause by clause. -/
def Query.spanTree : Query → SpanTree
  | ⟨_, items, relation, condition, groupBy, having, orderBy, limit, span⟩ =>
      .node span (items.map SelectItem.spanTree ++ spanTreesFrom relation ++
        (condition.map Condition.spanTree).toList ++ (groupBy.map GroupBy.spanTree).toList ++
        (having.map Condition.spanTree).toList ++ (orderBy.map OrderBy.spanTree).toList ++
        (limit.map Limit.spanTree).toList)

/-- The spans of a relation. -/
def Relation.spanTree : Relation → SpanTree
  | .table name aliasName => .group (name.spanTree :: (aliasName.map Ident.spanTree).toList)
  | .subquery query aliasName span => .node span [query.spanTree, aliasName.spanTree]

/-- The spans of a relation, if there is one. -/
def spanTreesFrom : Option Relation → List SpanTree
  | none => []
  | some relation => [relation.spanTree]

end

/-- The span of a pattern behind `LIKE`. -/
def NameFilter.spanTree (f : NameFilter) : SpanTree := .leaf f.span

/-- The spans of a statement. -/
def Statement.spanTree : Statement → SpanTree
  | .select query => query.spanTree
  | .showTables tables span => .node span [tables.spanTree]
  | .describe tables columns span =>
      .node span (tables.spanTree :: (columns.map NameFilter.spanTree).toList)

/-! ## Lists of spans -/

/-- The spans of some expressions are those of each. -/
theorem spanTreesAll_eq (es : List Expr) : spanTreesAll es = es.map Expr.spanTree := by
  induction es with
  | nil => rfl
  | cons e es ih => exact congrArg (e.spanTree :: ·) ih

/-- The spans of some expressions to order by are those of each. -/
theorem spanTreesItems_eq (is : List OrderItem) :
    spanTreesItems is = is.map OrderItem.spanTree := by
  induction is with
  | nil => rfl
  | cons i is ih => exact congrArg (i.spanTree :: ·) ih

/-- The spans of some branches are those of each. -/
theorem spanTreesBranches_eq (bs : List CaseBranch) :
    spanTreesBranches bs = bs.map CaseBranch.spanTree := by
  induction bs with
  | nil => rfl
  | cons b bs ih => exact congrArg (b.spanTree :: ·) ih

/-- The spans of some options are those of each. -/
theorem spanTreesOptions_eq (os : List RelevanceOption) :
    spanTreesOptions os = os.map RelevanceOption.spanTree := by
  induction os with
  | nil => rfl
  | cons o os ih => exact congrArg (o.spanTree :: ·) ih

/-- The spans of an expression that may be missing are its own, if there is one. -/
theorem spanTreesOptional_eq (e : Option Expr) :
    spanTreesOptional e = (e.map Expr.spanTree).toList := by
  cases e <;> rfl

theorem spanTreesOptionalConstant_eq (c : Option Constant) :
    spanTreesOptionalConstant c = (c.map Constant.spanTree).toList := by
  cases c <;> rfl

theorem spanTreesOptionalPartition_eq (p : Option PartitionBy) :
    spanTreesOptionalPartition p = (p.map PartitionBy.spanTree).toList := by
  cases p <;> rfl

theorem spanTreesOptionalOrder_eq (o : Option OrderBy) :
    spanTreesOptionalOrder o = (o.map OrderBy.spanTree).toList := by
  cases o <;> rfl

theorem spanTreesFrom_eq (r : Option Relation) :
    spanTreesFrom r = (r.map Relation.spanTree).toList := by
  cases r <;> rfl

/-- The spans of some trees are those of each, in a row. -/
theorem spansAll_eq (ts : List SpanTree) : spansAll ts = ts.flatMap SpanTree.spans := by
  induction ts with
  | nil => rfl
  | cons t ts ih => rw [spansAll, ih, List.flatMap_cons]

/-- A span is among those of some trees if it is in one of them. -/
theorem mem_spansAll {x : Span} {ts : List SpanTree} :
    x ∈ spansAll ts ↔ ∃ t ∈ ts, x ∈ t.spans := by
  rw [spansAll_eq, List.mem_flatMap]

/-! ## The spans of nodes without a span of their own -/

/-- The tree of an atom is a node with the span of the atom. -/
theorem Atom.spanTree_eq (a : Atom) : ∃ children, a.spanTree = .node a.span children := by
  cases a with
  | constant c =>
    obtain ⟨value, span⟩ := c
    exact ⟨_, rfl⟩
  | call f =>
    obtain ⟨shape, span⟩ := f
    exact ⟨_, rfl⟩
  | column | parenthesized | arithmetic => exact ⟨_, rfl⟩

/-- A predicate has its own span at the top of its tree. -/
theorem Predicate.spanTree_eq (p : Predicate) : ∃ children, p.spanTree = .node p.span children := by
  cases p with
  | atom a => exact a.spanTree_eq
  | comparison | isNull | between | like | regexp | within => exact ⟨_, rfl⟩

/-- An expression has its own span at the top of its tree. -/
theorem Expr.spanTree_eq (e : Expr) : ∃ children, e.spanTree = .node e.span children := by
  cases e with
  | predicate p => exact p.spanTree_eq
  | not | and | or => exact ⟨_, rfl⟩

end SearchSql
