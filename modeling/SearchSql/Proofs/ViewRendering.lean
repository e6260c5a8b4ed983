import SearchSql.Proofs.View

/-!
# Views that keep the text

A view that keeps the words, and of every identifier what is written for it, keeps what is written for
a whole tree (`Statement.render_view`). The places of a tree and the quotes of its names are not
written.
-/

set_option autoImplicit false

namespace SearchSql

/-- Whether the view keeps what is written. -/
structure View.KeepsText (V : View) : Prop where
  ident : ∀ name : Ident, (V.ident name).render = name.render
  word : ∀ text, V.word text = text

/-- A list is written as before if its elements are. -/
theorem map_render_view {α : Type} {view : α → α} {render : α → String}
    (h : ∀ a, render (view a) = render a) (as : List α) :
    (as.map view).map render = as.map render := by
  rw [List.map_map]
  exact congrArg (List.map · as) (funext h)

/-- So is what may be missing. -/
theorem elim_render_view {α : Type} {view : α → α} {render : α → String}
    (h : ∀ a, render (view a) = render a) (a : Option α) :
    (a.map view).elim "" render = a.elim "" render := by
  cases a with
  | none => rfl
  | some a => exact h a

section

set_option linter.unusedSectionVars false

variable {V : View} (hV : V.KeepsText)

include hV

/-! ## Parts without subtrees -/

/-- An option keeps its name. -/
theorem View.KeepsText.optionName (quoted : Bool) (name : String) :
    V.optionName quoted name = name := by
  cases quoted with
  | true => rfl
  | false => exact hV.word name

/-- A malformed literal keeps its text. -/
theorem View.KeepsText.literalText (kind : LiteralKind) (text : String) :
    V.literalText kind text = text := by
  cases kind with
  | integer => exact hV.word text
  | real => exact hV.word text
  | date => rfl
  | time => rfl
  | timestamp => rfl

/-- A name is written as before, since its segments keep their values. -/
theorem QualifiedName.render_view (name : QualifiedName) : (name.view V).render = name.render := by
  simp only [view, render, map_render_view hV.ident]

theorem Field.render_view (f : Field) : (f.view V).render = f.render := by
  cases f with
  | name n => exact n.render_view hV
  | quoted value span => rfl

theorem WeightedField.render_view (f : WeightedField) : (f.view V).render = f.render := by
  simp only [view, render, Field.render_view hV]

theorem renderNamedFields_view (fs : List WeightedField) :
    renderNamedFields (fs.map (WeightedField.view V)) = renderNamedFields fs := by
  rcases fs with _ | ⟨f, _ | ⟨g, fs⟩⟩
  · rfl
  · exact f.render_view hV
  · have hmap := map_render_view (WeightedField.render_view hV) (f :: g :: fs)
    exact congrArg (fun texts => "[" ++ commaSeparated texts ++ "]") hmap

theorem RelevanceForm.render_view (form : RelevanceForm) (name query : String) :
    (form.view V).render name query = form.render name query := by
  cases form <;> simp only [view, render, Field.render_view hV, renderNamedFields_view hV,
    map_render_view (WeightedField.render_view hV)]

theorem HighlightOption.render_view (o : HighlightOption) : (o.view V).render = o.render := by
  simp only [view, render, hV.word]

theorem renderAlias_view (name : Option Ident) :
    renderAlias (name.map V.ident) = renderAlias name := by
  cases name with
  | none => rfl
  | some name => exact congrArg (" AS " ++ ·) (hV.ident name)

/-! ## Expressions -/

mutual

/-- An expression is written as before. One theorem for each type of the tree says so, by the
recursion of the tree. -/
theorem Expr.render_view (e : Expr) : (e.view V).render = e.render := by
  match e with
  | .not operand span => simp only [Expr.view, Expr.render, Expr.render_view operand]
  | .and left right =>
    simp only [Expr.view, Expr.render, Expr.render_view left, Expr.render_view right]
  | .or left right =>
    simp only [Expr.view, Expr.render, Expr.render_view left, Expr.render_view right]
  | .predicate p => simp only [Expr.view, Expr.render, Predicate.render_view p]

theorem Predicate.render_view (p : Predicate) : (p.view V).render = p.render := by
  match p with
  | .comparison _ left right =>
    simp only [Predicate.view, Predicate.render, Predicate.render_view left,
      Predicate.render_view right]
  | .isNull target _ _ =>
    simp only [Predicate.view, Predicate.render, Predicate.render_view target]
  | .between target _ low high =>
    simp only [Predicate.view, Predicate.render, Predicate.render_view target,
      Predicate.render_view low, Predicate.render_view high]
  | .like left _ pattern =>
    simp only [Predicate.view, Predicate.render, Predicate.render_view left,
      Predicate.render_view pattern]
  | .regexp left _ pattern =>
    simp only [Predicate.view, Predicate.render, Predicate.render_view left,
      Predicate.render_view pattern]
  | .within target _ items _ =>
    simp only [Predicate.view, Predicate.render, Predicate.render_view target, renderAll_view items]
  | .atom a => simp only [Predicate.view, Predicate.render, Atom.render_view a]

theorem Atom.render_view (a : Atom) : (a.view V).render = a.render := by
  match a with
  | .constant c => simp only [Atom.view, Atom.render, Constant.render_view c]
  | .column name => simp only [Atom.view, Atom.render, QualifiedName.render_view hV]
  | .call f => simp only [Atom.view, Atom.render, Call.render_view f]
  | .parenthesized inner _ => simp only [Atom.view, Atom.render, Expr.render_view inner]
  | .arithmetic op left right =>
    simp only [Atom.view, Atom.render, Atom.render_view left, Atom.render_view right]

theorem Constant.render_view (c : Constant) : (c.view V).render = c.render := by
  match c with
  | ⟨value, span⟩ => simp only [Constant.view, Constant.render, Literal.render_view value]

theorem Literal.render_view (l : Literal) : (l.view V).render = l.render := by
  match l with
  | .interval amount _ => simp only [Literal.view, Literal.render, Expr.render_view amount]
  | .malformed kind text fault => simp only [Literal.view, Literal.render, hV.literalText]
  | .string _ | .integer _ | .real _ | .boolean _ | .null | .date _ | .time _ | .timestamp _
  | .datetime _ _ => simp only [Literal.view]

theorem Call.render_view (f : Call) : (f.view V).render = f.render := by
  match f with
  | ⟨shape, span⟩ => simp only [Call.view, Call.render, CallShape.render_view shape]

theorem CallShape.render_view (f : CallShape) : (f.view V).render = f.render := by
  match f with
  | .nestedAll name path =>
    show V.word name ++ "(" ++ (path.view V).render ++ ".*)" = _
    rw [hV.word, QualifiedName.render_view hV]
    rfl
  | .scalar name _ args =>
    show V.word name ++ "(" ++ commaSeparated (renderAll (viewAll V args)) ++ ")" = _
    rw [hV.word, renderAll_view args]
    rfl
  | .case operand branches otherwise =>
    show "CASE" ++ renderOptional " " (viewOptional V operand) ++
      renderBranches (viewBranches V branches) ++
      renderOptional " ELSE " (viewOptional V otherwise) ++ " END" = _
    rw [renderOptional_view _ operand, renderBranches_view branches,
      renderOptional_view _ otherwise]
    rfl
  | .cast expr target =>
    exact congrArg ("CAST(" ++ · ++ " AS " ++ target.text ++ ")") (Expr.render_view expr)
  | .ranking function args window =>
    show function.text ++ "(" ++ commaSeparated (renderAll (viewAll V args)) ++ ") " ++
      (window.view V).render = _
    rw [renderAll_view args, Window.render_view window]
    rfl
  | .windowed aggregate window =>
    show (aggregate.view V).render ++ " " ++ (window.view V).render = _
    rw [Aggregate.render_view aggregate, Window.render_view window]
    rfl
  | .aggregate aggregate => exact Aggregate.render_view aggregate
  | .filtered aggregate orderBy filter =>
    show (aggregate.view V).render ++ renderOptionalOrder " " (viewOptionalOrder V orderBy) ++ " " ++
      (filter.view V).render = _
    rw [Aggregate.render_view aggregate, renderOptionalOrder_view _ orderBy,
      Filter.render_view filter]
    rfl
  | .score name relevance weight =>
    show V.word name ++ "(" ++ (relevance.view V).render ++ _ ++ ")" = _
    rw [hV.word, Relevance.render_view relevance]
    rfl
  | .relevance relevance => exact Relevance.render_view relevance
  | .highlight field options =>
    show "HIGHLIGHT(" ++ (field.view V).render ++
      String.join ((options.map (HighlightOption.view V)).map HighlightOption.render) ++ ")" = _
    rw [Field.render_view hV, map_render_view (HighlightOption.render_view hV)]
    rfl
  | .position substring string =>
    show "POSITION(" ++ (substring.view V).render ++ " IN " ++ (string.view V).render ++ ")" = _
    rw [Expr.render_view substring, Expr.render_view string]
    rfl
  | .extract unit arg =>
    exact congrArg ("EXTRACT(" ++ unit.text ++ " FROM " ++ · ++ ")") (Expr.render_view arg)
  | .getFormat target format =>
    exact congrArg ("GET_FORMAT(" ++ target.text ++ ", " ++ · ++ ")") (Expr.render_view format)
  | .timestamp function unit first second =>
    show function.text ++ "(" ++ unit.text ++ ", " ++ (first.view V).render ++ ", " ++
      (second.view V).render ++ ")" = _
    rw [Expr.render_view first, Expr.render_view second]
    rfl

theorem CaseBranch.render_view (b : CaseBranch) : (b.view V).render = b.render := by
  match b with
  | ⟨condition, result⟩ =>
    simp only [CaseBranch.view, CaseBranch.render, Expr.render_view condition,
      Expr.render_view result]

theorem Aggregate.render_view (a : Aggregate) : (a.view V).render = a.render := by
  match a with
  | .regular function arg =>
    exact congrArg (function.text ++ "(" ++ · ++ ")") (Expr.render_view arg)
  | .countStar => rfl
  | .countDistinct args =>
    exact congrArg ("COUNT(DISTINCT " ++ commaSeparated · ++ ")") (renderAll_view args)
  | .percentile function field percent compression =>
    show function.text ++ "(" ++ (field.view V).render ++ ", " ++ (percent.view V).render ++
      renderOptionalConstant ", " (viewOptionalConstant V compression) ++ ")" = _
    rw [Expr.render_view field, Constant.render_view percent,
      renderOptionalConstant_view _ compression]
    rfl

theorem Window.render_view (w : Window) : (w.view V).render = w.render := by
  match w with
  | ⟨none, orderBy, span⟩ =>
    simp only [Window.view, viewOptionalPartition, Window.render, renderOptionalOrder_view _ orderBy]
  | ⟨some partition, orderBy, span⟩ =>
    simp only [Window.view, viewOptionalPartition, Window.render, PartitionBy.render_view partition,
      renderOptionalOrder_view _ orderBy]

theorem PartitionBy.render_view (p : PartitionBy) : (p.view V).render = p.render := by
  match p with
  | ⟨exprs, span⟩ =>
    exact congrArg ("PARTITION BY " ++ commaSeparated ·) (renderAll_view exprs)

theorem OrderBy.render_view (o : OrderBy) : (o.view V).render = o.render := by
  match o with
  | ⟨items, span⟩ => simp only [OrderBy.view, OrderBy.render, renderItems_view items]

theorem OrderItem.render_view (i : OrderItem) : (i.view V).render = i.render := by
  match i with
  | ⟨expr, direction, nulls⟩ =>
    simp only [OrderItem.view, OrderItem.render, Expr.render_view expr]

theorem Filter.render_view (f : Filter) : (f.view V).render = f.render := by
  match f with
  | ⟨condition, span⟩ =>
    exact congrArg ("FILTER(WHERE " ++ · ++ ")") (Expr.render_view condition)

theorem Relevance.render_view (r : Relevance) : (r.view V).render = r.render := by
  match r with
  | ⟨name, form, query, options⟩ =>
    simp only [Relevance.view, Relevance.render, RelevanceForm.render_view hV, hV.word,
      SearchValue.render_view query, renderOptions_view options]

theorem SearchValue.render_view (v : SearchValue) : (v.view V).render = v.render := by
  match v with
  | .name n => simp only [SearchValue.view, SearchValue.render, QualifiedName.render_view hV]
  | .constant c => simp only [SearchValue.view, SearchValue.render, Constant.render_view c]

theorem RelevanceOption.render_view (o : RelevanceOption) : (o.view V).render = o.render := by
  match o with
  | ⟨name, quotedName, value⟩ =>
    simp only [RelevanceOption.view, RelevanceOption.render, hV.optionName,
      SearchValue.render_view value]

theorem renderAll_view (es : List Expr) : renderAll (viewAll V es) = renderAll es := by
  match es with
  | [] => rfl
  | e :: es => simp only [viewAll, renderAll, Expr.render_view e, renderAll_view es]

theorem renderItems_view (is : List OrderItem) : renderItems (viewItems V is) = renderItems is := by
  match is with
  | [] => rfl
  | i :: is => simp only [viewItems, renderItems, OrderItem.render_view i, renderItems_view is]

theorem renderBranches_view (bs : List CaseBranch) :
    renderBranches (viewBranches V bs) = renderBranches bs := by
  match bs with
  | [] => rfl
  | b :: bs =>
    simp only [viewBranches, renderBranches, CaseBranch.render_view b, renderBranches_view bs]

theorem renderOptions_view (os : List RelevanceOption) :
    renderOptions (viewOptions V os) = renderOptions os := by
  match os with
  | [] => rfl
  | o :: os =>
    simp only [viewOptions, renderOptions, RelevanceOption.render_view o, renderOptions_view os]

theorem renderOptional_view (before : String) (e : Option Expr) :
    renderOptional before (viewOptional V e) = renderOptional before e := by
  match e with
  | none => rfl
  | some e => simp only [viewOptional, renderOptional, Expr.render_view e]

theorem renderOptionalConstant_view (before : String) (c : Option Constant) :
    renderOptionalConstant before (viewOptionalConstant V c) = renderOptionalConstant before c := by
  match c with
  | none => rfl
  | some c => simp only [viewOptionalConstant, renderOptionalConstant, Constant.render_view c]

theorem renderOptionalOrder_view (before : String) (o : Option OrderBy) :
    renderOptionalOrder before (viewOptionalOrder V o) = renderOptionalOrder before o := by
  match o with
  | none => rfl
  | some o => simp only [viewOptionalOrder, renderOptionalOrder, OrderBy.render_view o]

end

/-! ## Queries and statements -/

theorem SelectItem.render_view (i : SelectItem) : (i.view V).render = i.render := by
  cases i with
  | star span => rfl
  | expr e name => simp only [view, render, Expr.render_view hV, renderAlias_view hV]

/-- A clause that is written for an expression is written the same for what is seen of it. -/
theorem renderClauses_view (condition : Option Condition) (groupBy : Option GroupBy)
    (having : Option Condition) (orderBy : Option OrderBy) (limit : Option Limit) :
    renderClauses (condition.map (Condition.view V)) (groupBy.map (GroupBy.view V))
        (having.map (Condition.view V)) (orderBy.map (OrderBy.view V)) (limit.map (Limit.view V)) =
      renderClauses condition groupBy having orderBy limit := by
  have hcondition (word : String) (c : Condition) :
      word ++ (c.view V).expr.render = word ++ c.expr.render :=
    congrArg (word ++ ·) (c.expr.render_view hV)
  have hgroup (g : GroupBy) : " GROUP BY " ++ commaSeparated ((g.view V).exprs.map Expr.render) =
      " GROUP BY " ++ commaSeparated (g.exprs.map Expr.render) :=
    congrArg (" GROUP BY " ++ commaSeparated ·) (map_render_view (Expr.render_view hV) g.exprs)
  have horder (o : OrderBy) : " " ++ (o.view V).render = " " ++ o.render :=
    congrArg (" " ++ ·) (o.render_view hV)
  have hlimit (l : Limit) : " " ++ (l.view V).render = " " ++ l.render := rfl
  unfold renderClauses
  rw [elim_render_view (hcondition " WHERE "), elim_render_view hgroup,
    elim_render_view (hcondition " HAVING "), elim_render_view horder, elim_render_view hlimit]

mutual

/-- So is a query. -/
theorem Query.render_view (q : Query) : (q.view V).render = q.render := by
  match q with
  | ⟨quantifier, items, relation, condition, groupBy, having, orderBy, limit, span⟩ =>
    simp only [Query.view, Query.render, map_render_view (SelectItem.render_view hV),
      renderFrom_view relation, renderClauses_view hV]

theorem Relation.render_view (r : Relation) : (r.view V).render = r.render := by
  match r with
  | .table name aliasName =>
    simp only [Relation.view, Relation.render, QualifiedName.render_view hV, renderAlias_view hV]
  | .subquery query aliasName span =>
    simp only [Relation.view, Relation.render, Query.render_view query, hV.ident]

theorem renderFrom_view (r : Option Relation) : renderFrom (viewFrom V r) = renderFrom r := by
  match r with
  | none => rfl
  | some r => simp only [viewFrom, renderFrom, Relation.render_view r]

end

/-- So is a pattern, with or without quotes. -/
theorem Pattern.render_view (p : Pattern) : (p.view V).render = p.render := by
  cases p with
  | quoted value => rfl
  | plain value => exact hV.word value

/-- What is written for a statement is written for what is seen of it. -/
theorem Statement.render_view (s : Statement) : (s.view V).render = s.render := by
  cases s with
  | select query => exact query.render_view hV
  | showTables tables span =>
    exact congrArg ("SHOW TABLES LIKE " ++ ·) (tables.pattern.render_view hV)
  | describe tables columns span =>
    have hcolumns : (columns.map (NameFilter.view V)).elim ""
          (" COLUMNS LIKE " ++ ·.pattern.render) =
        columns.elim "" (" COLUMNS LIKE " ++ ·.pattern.render) :=
      elim_render_view (fun c : NameFilter =>
        congrArg (" COLUMNS LIKE " ++ ·) (c.pattern.render_view hV)) columns
    have htables := tables.pattern.render_view hV
    show "DESCRIBE TABLES LIKE " ++ (tables.pattern.view V).render ++
      (columns.map (NameFilter.view V)).elim "" (" COLUMNS LIKE " ++ ·.pattern.render) = _
    rw [htables, hcolumns]
    rfl

end

end SearchSql
