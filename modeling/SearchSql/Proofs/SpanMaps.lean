import SearchSql.Proofs.RuleLikeness
import SearchSql.Proofs.SpanTrees
import SearchSql.Proofs.View

/-!
# The spans of what is seen

Under a lawful view, the spans of a tree are those of the tree itself, each as seen
(`Statement.spanTree_view`), also where a node has no span of its own.
-/

set_option autoImplicit false

namespace SearchSql

open Grammar

mutual

/-- The tree with its spans changed by `f`. -/
def SpanTree.map (f : Span → Span) : SpanTree → SpanTree
  | .node span children => .node (f span) (mapAll f children)
  | .group children => .group (mapAll f children)
  | .either first second => .either (first.map f) (second.map f)

/-- The trees with their spans changed by `f`. -/
def mapAll (f : Span → Span) : List SpanTree → List SpanTree
  | [] => []
  | t :: ts => t.map f :: mapAll f ts

end

theorem mapAll_eq (f : Span → Span) (ts : List SpanTree) :
    mapAll f ts = ts.map (SpanTree.map f) := by
  induction ts with
  | nil => rfl
  | cons t ts ih => exact congrArg (t.map f :: ·) ih

mutual

/-- The spans of a changed tree are the changed spans. -/
theorem SpanTree.spans_map (f : Span → Span) (t : SpanTree) : (t.map f).spans = t.spans.map f := by
  match t with
  | .node span children =>
    simp only [SpanTree.map, SpanTree.spans, List.map_cons, spansAll_mapAll f children]
  | .group children => simp only [SpanTree.map, SpanTree.spans, spansAll_mapAll f children]
  | .either first second =>
    simp only [SpanTree.map, SpanTree.spans, List.map_append, SpanTree.spans_map f first,
      SpanTree.spans_map f second]

theorem spansAll_mapAll (f : Span → Span) (ts : List SpanTree) :
    spansAll (mapAll f ts) = (spansAll ts).map f := by
  match ts with
  | [] => rfl
  | t :: ts =>
    simp only [mapAll, spansAll, List.map_append, SpanTree.spans_map f t, spansAll_mapAll f ts]

end

variable {V : View} (hV : V.Lawful)

include hV

/-- A name as seen stands where it is seen to stand. -/
theorem Ident.span_view (name : Ident) : (V.ident name).span = V.span name.span := by
  obtain ⟨value, quoted, span⟩ := name
  cases quoted with
  | true => rw [hV.quoted]
  | false => rw [hV.bare]

theorem Ident.spanTree_view (name : Ident) :
    (V.ident name).spanTree = name.spanTree.map V.span := by
  rw [spanTree, spanTree, Ident.span_view hV]
  rfl

/-- The segments of a name as seen stand where they are seen to stand. -/
theorem QualifiedName.spanTree_view (name : QualifiedName) :
    (name.view V).spanTree = name.spanTree.map V.span := by
  simp only [view, spanTree, SpanTree.map, mapAll_eq, List.map_map]
  refine congrArg _ (List.map_congr_left fun part _ => ?_)
  exact part.spanTree_view hV

theorem Field.spanTree_view (f : Field) : (f.view V).spanTree = f.spanTree.map V.span := by
  cases f with
  | name n => exact n.spanTree_view hV
  | quoted value span => rfl

theorem mapAll_fields (fs : List WeightedField) :
    (fs.map (WeightedField.view V)).map WeightedField.spanTree =
      mapAll V.span (fs.map WeightedField.spanTree) := by
  rw [mapAll_eq, List.map_map, List.map_map]
  exact List.map_congr_left fun f _ => f.field.spanTree_view hV

/-- The parts of a relevance function as seen are its parts, where they are seen to stand. -/
theorem RelevanceForm.spanTrees_view (form : RelevanceForm) (text : SpanTree) :
    (form.view V).spanTrees (text.map V.span) = mapAll V.span (form.spanTrees text) := by
  have happend (ts : List SpanTree) : mapAll V.span ts ++ [text.map V.span] =
      mapAll V.span (ts ++ [text]) := by
    rw [mapAll_eq, mapAll_eq, List.map_append]
    rfl
  cases form with
  | noField => rfl
  | field f | fieldEquals f | fieldEqualsMulti f =>
    simp only [view, spanTrees, mapAll, f.spanTree_view hV]
  | fields fs => simp only [view, spanTrees, mapAll_fields hV, happend]
  | named fs => simp only [view, spanTrees, mapAll_fields hV, mapAll, SpanTree.map]

theorem Expr.span_view (e : Expr) : (e.view V).span = V.span e.span := by
  cases e with
  | not _ _ => simp only [Expr.view, Expr.span]
  | and left right | or left right =>
    simp only [Expr.view, Expr.span, hV.merge, Expr.span_view left, Expr.span_view right]
  | predicate p => simp only [Expr.view, Expr.span, Predicate.span_view hV p]

omit hV in
theorem mapAll_append (f : Span → Span) (ts us : List SpanTree) :
    mapAll f (ts ++ us) = mapAll f ts ++ mapAll f us := by
  rw [mapAll_eq, mapAll_eq, mapAll_eq, List.map_append]

omit hV

mutual

/-- The tree of places of an expression as seen is its tree with the places as seen. One theorem for
each type of the tree says so, by the recursion of the tree. -/
theorem Expr.spanTree_view (hV : V.Lawful) (e : Expr) :
    (e.view V).spanTree = e.spanTree.map V.span := by
  match e with
  | .not operand _ =>
    simp only [Expr.view, Expr.spanTree, SpanTree.map, mapAll, Expr.spanTree_view hV operand]
  | .and left right | .or left right =>
    simp only [Expr.view, Expr.spanTree, SpanTree.map, mapAll, hV.merge, Expr.span_view hV,
      Expr.spanTree_view hV left, Expr.spanTree_view hV right]
  | .predicate p => simp only [Expr.view, Expr.spanTree, Predicate.spanTree_view hV p]

theorem Predicate.spanTree_view (hV : V.Lawful) (p : Predicate) :
    (p.view V).spanTree = p.spanTree.map V.span := by
  match p with
  | .comparison _ left right | .like left _ right | .regexp left _ right =>
    simp only [Predicate.view, Predicate.spanTree, SpanTree.map, mapAll, hV.merge,
      Predicate.span_view hV, Predicate.spanTree_view hV left, Predicate.spanTree_view hV right]
  | .isNull target _ _ =>
    simp only [Predicate.view, Predicate.spanTree, SpanTree.map, mapAll,
      Predicate.spanTree_view hV target]
  | .between target _ low high =>
    simp only [Predicate.view, Predicate.spanTree, SpanTree.map, mapAll, hV.merge,
      Predicate.span_view hV, Predicate.spanTree_view hV target, Predicate.spanTree_view hV low,
      Predicate.spanTree_view hV high]
  | .within target _ items _ =>
    simp only [Predicate.view, Predicate.spanTree, SpanTree.map, mapAll,
      Predicate.spanTree_view hV target, spanTreesAll_view hV items]
  | .atom a => simp only [Predicate.view, Predicate.spanTree, Atom.spanTree_view hV a]

theorem Atom.spanTree_view (hV : V.Lawful) (a : Atom) :
    (a.view V).spanTree = a.spanTree.map V.span := by
  match a with
  | .constant c => simp only [Atom.view, Atom.spanTree, Constant.spanTree_view hV c]
  | .column name => simp only [Atom.view, Atom.spanTree, name.spanTree_view hV]
  | .call f => simp only [Atom.view, Atom.spanTree, Call.spanTree_view hV f]
  | .parenthesized inner _ =>
    simp only [Atom.view, Atom.spanTree, SpanTree.map, mapAll, Expr.spanTree_view hV inner]
  | .arithmetic _ left right =>
    simp only [Atom.view, Atom.spanTree, SpanTree.map, mapAll, hV.merge, Atom.span_view hV,
      Atom.spanTree_view hV left, Atom.spanTree_view hV right]

theorem Constant.spanTree_view (hV : V.Lawful) (c : Constant) :
    (c.view V).spanTree = c.spanTree.map V.span := by
  match c with
  | ⟨value, _⟩ =>
    simp only [Constant.view, Constant.spanTree, SpanTree.map, Literal.spanTrees_view hV value]

theorem Literal.spanTrees_view (hV : V.Lawful) (l : Literal) :
    (l.view V).spanTrees = mapAll V.span l.spanTrees := by
  match l with
  | .interval amount _ =>
    simp only [Literal.view, Literal.spanTrees, mapAll, Expr.spanTree_view hV amount]
  | .malformed _ _ _ | .string _ | .integer _ | .real _ | .boolean _ | .null | .date _ | .time _
  | .timestamp _ | .datetime _ _ => simp only [Literal.view, Literal.spanTrees, mapAll]

theorem Call.spanTree_view (hV : V.Lawful) (f : Call) :
    (f.view V).spanTree = f.spanTree.map V.span := by
  match f with
  | ⟨shape, _⟩ =>
    simp only [Call.view, Call.spanTree, SpanTree.map, CallShape.spanTrees_view hV shape]

theorem CallShape.spanTrees_view (hV : V.Lawful) (f : CallShape) :
    (f.view V).spanTrees = mapAll V.span f.spanTrees := by
  match f with
  | .nestedAll _ path =>
    simp only [CallShape.view, CallShape.spanTrees, mapAll, path.spanTree_view hV]
  | .scalar _ _ args => simp only [CallShape.view, CallShape.spanTrees, spanTreesAll_view hV args]
  | .case operand branches otherwise =>
    simp only [CallShape.view, CallShape.spanTrees, mapAll_append,
      spanTreesOptional_view hV operand,
      spanTreesBranches_view hV branches, spanTreesOptional_view hV otherwise]
  | .cast expr _ =>
    simp only [CallShape.view, CallShape.spanTrees, mapAll, Expr.spanTree_view hV expr]
  | .ranking _ args window =>
    simp only [CallShape.view, CallShape.spanTrees, mapAll_append, mapAll,
      spanTreesAll_view hV args,
      Window.spanTree_view hV window]
  | .windowed aggregate window =>
    simp only [CallShape.view, CallShape.spanTrees, mapAll_append, mapAll,
      Aggregate.spanTrees_view hV aggregate, Window.spanTree_view hV window]
  | .aggregate aggregate =>
    simp only [CallShape.view, CallShape.spanTrees, Aggregate.spanTrees_view hV aggregate]
  | .filtered aggregate orderBy filter =>
    simp only [CallShape.view, CallShape.spanTrees, mapAll_append, mapAll,
      Aggregate.spanTrees_view hV aggregate, spanTreesOptionalOrder_view hV orderBy,
      Filter.spanTree_view hV filter]
  | .score _ relevance _ | .relevance relevance =>
    simp only [CallShape.view, CallShape.spanTrees, Relevance.spanTrees_view hV relevance]
  | .highlight field _ =>
    simp only [CallShape.view, CallShape.spanTrees, mapAll, field.spanTree_view hV]
  | .position substring string =>
    simp only [CallShape.view, CallShape.spanTrees, mapAll, Expr.spanTree_view hV substring,
      Expr.spanTree_view hV string]
  | .extract _ arg | .getFormat _ arg =>
    simp only [CallShape.view, CallShape.spanTrees, mapAll, Expr.spanTree_view hV arg]
  | .timestamp _ _ first second =>
    simp only [CallShape.view, CallShape.spanTrees, mapAll, Expr.spanTree_view hV first,
      Expr.spanTree_view hV second]

theorem CaseBranch.spanTree_view (hV : V.Lawful) (b : CaseBranch) :
    (b.view V).spanTree = b.spanTree.map V.span := by
  match b with
  | ⟨condition, result⟩ =>
    simp only [CaseBranch.view, CaseBranch.spanTree, SpanTree.map, mapAll,
      Expr.spanTree_view hV condition, Expr.spanTree_view hV result]

theorem Aggregate.spanTrees_view (hV : V.Lawful) (a : Aggregate) :
    (a.view V).spanTrees = mapAll V.span a.spanTrees := by
  match a with
  | .regular _ arg =>
    simp only [Aggregate.view, Aggregate.spanTrees, mapAll, Expr.spanTree_view hV arg]
  | .countStar => simp only [Aggregate.view, Aggregate.spanTrees, mapAll]
  | .countDistinct args =>
    simp only [Aggregate.view, Aggregate.spanTrees, spanTreesAll_view hV args]
  | .percentile _ field percent compression =>
    simp only [Aggregate.view, Aggregate.spanTrees, mapAll, Expr.spanTree_view hV field,
      Constant.spanTree_view hV percent, spanTreesOptionalConstant_view hV compression]

theorem Window.spanTree_view (hV : V.Lawful) (w : Window) :
    (w.view V).spanTree = w.spanTree.map V.span := by
  match w with
  | ⟨partition, orderBy, _⟩ =>
    simp only [Window.view, Window.spanTree, SpanTree.map, mapAll_append,
      spanTreesOptionalPartition_view hV partition, spanTreesOptionalOrder_view hV orderBy]

theorem PartitionBy.spanTree_view (hV : V.Lawful) (p : PartitionBy) :
    (p.view V).spanTree = p.spanTree.map V.span := by
  match p with
  | ⟨exprs, _⟩ =>
    simp only [PartitionBy.view, PartitionBy.spanTree, SpanTree.map, spanTreesAll_view hV exprs]

theorem OrderBy.spanTree_view (hV : V.Lawful) (o : OrderBy) :
    (o.view V).spanTree = o.spanTree.map V.span := by
  match o with
  | ⟨items, _⟩ =>
    simp only [OrderBy.view, OrderBy.spanTree, SpanTree.map, spanTreesItems_view hV items]

theorem OrderItem.spanTree_view (hV : V.Lawful) (i : OrderItem) :
    (i.view V).spanTree = i.spanTree.map V.span := by
  match i with
  | ⟨expr, _, _⟩ => simp only [OrderItem.view, OrderItem.spanTree, Expr.spanTree_view hV expr]

theorem Filter.spanTree_view (hV : V.Lawful) (f : Filter) :
    (f.view V).spanTree = f.spanTree.map V.span := by
  match f with
  | ⟨condition, _⟩ =>
    simp only [Filter.view, Filter.spanTree, SpanTree.map, mapAll, Expr.spanTree_view hV condition]

theorem Relevance.spanTrees_view (hV : V.Lawful) (r : Relevance) :
    (r.view V).spanTrees = mapAll V.span r.spanTrees := by
  match r with
  | ⟨_, form, query, options⟩ =>
    simp only [Relevance.view, Relevance.spanTrees, mapAll_append,
      SearchValue.spanTree_view hV query,
      form.spanTrees_view hV, spanTreesOptions_view hV options]

theorem SearchValue.spanTree_view (hV : V.Lawful) (v : SearchValue) :
    (v.view V).spanTree = v.spanTree.map V.span := by
  match v with
  | .name n => simp only [SearchValue.view, SearchValue.spanTree, n.spanTree_view hV]
  | .constant c => simp only [SearchValue.view, SearchValue.spanTree, Constant.spanTree_view hV c]

theorem RelevanceOption.spanTree_view (hV : V.Lawful) (o : RelevanceOption) :
    (o.view V).spanTree = o.spanTree.map V.span := by
  match o with
  | ⟨_, _, value⟩ =>
    simp only [RelevanceOption.view, RelevanceOption.spanTree, SearchValue.spanTree_view hV value]

theorem spanTreesAll_view (hV : V.Lawful) (es : List Expr) :
    spanTreesAll (viewAll V es) = mapAll V.span (spanTreesAll es) := by
  match es with
  | [] => rfl
  | e :: es =>
    simp only [viewAll, spanTreesAll, mapAll, Expr.spanTree_view hV e, spanTreesAll_view hV es]

theorem spanTreesItems_view (hV : V.Lawful) (is : List OrderItem) :
    spanTreesItems (viewItems V is) = mapAll V.span (spanTreesItems is) := by
  match is with
  | [] => rfl
  | i :: is =>
    simp only [viewItems, spanTreesItems, mapAll, OrderItem.spanTree_view hV i,
      spanTreesItems_view hV is]

theorem spanTreesBranches_view (hV : V.Lawful) (bs : List CaseBranch) :
    spanTreesBranches (viewBranches V bs) = mapAll V.span (spanTreesBranches bs) := by
  match bs with
  | [] => rfl
  | b :: bs =>
    simp only [viewBranches, spanTreesBranches, mapAll, CaseBranch.spanTree_view hV b,
      spanTreesBranches_view hV bs]

theorem spanTreesOptions_view (hV : V.Lawful) (os : List RelevanceOption) :
    spanTreesOptions (viewOptions V os) = mapAll V.span (spanTreesOptions os) := by
  match os with
  | [] => rfl
  | o :: os =>
    simp only [viewOptions, spanTreesOptions, mapAll, RelevanceOption.spanTree_view hV o,
      spanTreesOptions_view hV os]

theorem spanTreesOptional_view (hV : V.Lawful) (e : Option Expr) :
    spanTreesOptional (viewOptional V e) = mapAll V.span (spanTreesOptional e) := by
  match e with
  | none => rfl
  | some e => simp only [viewOptional, spanTreesOptional, mapAll, Expr.spanTree_view hV e]

theorem spanTreesOptionalConstant_view (hV : V.Lawful) (c : Option Constant) :
    spanTreesOptionalConstant (viewOptionalConstant V c) =
      mapAll V.span (spanTreesOptionalConstant c) := by
  match c with
  | none => rfl
  | some c =>
    simp only [viewOptionalConstant, spanTreesOptionalConstant, mapAll, Constant.spanTree_view hV c]

theorem spanTreesOptionalPartition_view (hV : V.Lawful) (p : Option PartitionBy) :
    spanTreesOptionalPartition (viewOptionalPartition V p) =
      mapAll V.span (spanTreesOptionalPartition p) := by
  match p with
  | none => rfl
  | some p =>
    simp only [viewOptionalPartition, spanTreesOptionalPartition, mapAll,
      PartitionBy.spanTree_view hV p]

theorem spanTreesOptionalOrder_view (hV : V.Lawful) (o : Option OrderBy) :
    spanTreesOptionalOrder (viewOptionalOrder V o) = mapAll V.span (spanTreesOptionalOrder o) := by
  match o with
  | none => rfl
  | some o =>
    simp only [viewOptionalOrder, spanTreesOptionalOrder, mapAll, OrderBy.spanTree_view hV o]

end

/-! ## Queries and statements -/

theorem Expr.spanTrees_map (hV : V.Lawful) (es : List Expr) :
    (es.map (Expr.view V)).map Expr.spanTree = mapAll V.span (es.map Expr.spanTree) := by
  rw [← viewAll_eq, ← spanTreesAll_eq, ← spanTreesAll_eq, spanTreesAll_view hV]

/-- The spans of a part that may be left out. -/
theorem mapAll_toList {α β : Type} {f : Span → Span} {tree : α → SpanTree} {tree' : β → SpanTree}
    {view : α → β} (h : ∀ a, tree' (view a) = (tree a).map f) (a : Option α) :
    ((a.map view).map tree').toList = mapAll f (a.map tree).toList := by
  cases a with
  | none => rfl
  | some a => simp only [Option.map_some, Option.toList_some, h, mapAll]

theorem SelectItem.spanTree_view (hV : V.Lawful) (i : SelectItem) :
    (i.view V).spanTree = i.spanTree.map V.span := by
  cases i with
  | star span => rfl
  | expr e name =>
    simp only [view, spanTree, SpanTree.map, mapAll, Expr.spanTree_view hV,
      mapAll_toList (Ident.spanTree_view hV)]

theorem Condition.spanTree_view (hV : V.Lawful) (c : Condition) :
    (c.view V).spanTree = c.spanTree.map V.span := by
  simp only [view, spanTree, SpanTree.map, mapAll, Expr.spanTree_view hV]

theorem GroupBy.spanTree_view (hV : V.Lawful) (g : GroupBy) :
    (g.view V).spanTree = g.spanTree.map V.span := by
  simp only [view, spanTree, SpanTree.map, Expr.spanTrees_map hV]

mutual

theorem Query.spanTree_view (hV : V.Lawful) (q : Query) :
    (q.view V).spanTree = q.spanTree.map V.span := by
  match q with
  | ⟨_, items, relation, condition, groupBy, having, orderBy, limit, _⟩ =>
    have hitems : (items.map (SelectItem.view V)).map SelectItem.spanTree =
        mapAll V.span (items.map SelectItem.spanTree) := by
      rw [mapAll_eq, List.map_map, List.map_map]
      exact List.map_congr_left fun i _ => i.spanTree_view hV
    have hlimit (l : Limit) : (l.view V).spanTree = l.spanTree.map V.span := rfl
    simp only [Query.view, Query.spanTree, SpanTree.map, mapAll_append, hitems,
      spanTreesFrom_view hV relation, mapAll_toList (Condition.spanTree_view hV),
      mapAll_toList (GroupBy.spanTree_view hV), mapAll_toList (OrderBy.spanTree_view hV),
      mapAll_toList hlimit]

theorem Relation.spanTree_view (hV : V.Lawful) (r : Relation) :
    (r.view V).spanTree = r.spanTree.map V.span := by
  match r with
  | .table name aliasName =>
    simp only [Relation.view, Relation.spanTree, SpanTree.map, mapAll, name.spanTree_view hV,
      mapAll_toList (Ident.spanTree_view hV)]
  | .subquery query aliasName _ =>
    simp only [Relation.view, Relation.spanTree, SpanTree.map, mapAll, Query.spanTree_view hV query,
      aliasName.spanTree_view hV]

theorem spanTreesFrom_view (hV : V.Lawful) (r : Option Relation) :
    spanTreesFrom (viewFrom V r) = mapAll V.span (spanTreesFrom r) := by
  match r with
  | none => rfl
  | some r => simp only [viewFrom, spanTreesFrom, mapAll, Relation.spanTree_view hV r]

end

/-- The spans of a statement as seen are its spans as seen. -/
theorem Statement.spanTree_view (hV : V.Lawful) (st : Statement) :
    (st.view V).spanTree = st.spanTree.map V.span := by
  have hfilter (f : NameFilter) : (f.view V).spanTree = f.spanTree.map V.span := rfl
  cases st with
  | select query => exact query.spanTree_view hV
  | showTables tables span => rfl
  | describe tables columns span =>
    simp only [view, spanTree, SpanTree.map, mapAll, mapAll_toList hfilter, hfilter]

end SearchSql
