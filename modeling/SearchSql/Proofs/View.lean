import SearchSql.Token.Basic
import SearchSql.Tree.Rendering

/-!
# Views of trees

A view changes the spans, the identifiers and the words of a tree, and nothing else: `view` applies
it everywhere. Shifting a tree in its text, forgetting its places and folding the case of its names
are views.

Views compose (`Statement.view_view`), and the view that changes nothing gives the tree itself
(`Statement.view_id`).
-/

set_option autoImplicit false

namespace SearchSql

/-- A way to see the spans, the identifiers and the words of a tree. Words are the names of
functions and options, and texts written without quotes. -/
structure View where
  span : Span → Span
  ident : Ident → Ident
  word : String → String

/-- A kind of token as seen. -/
def TokenKind.view (V : View) : TokenKind → TokenKind
  | .name value => .name (V.word value)
  | kind => kind

/-- A token as seen. -/
def Token.view (V : View) (t : Token) : Token := ⟨t.kind.view V, V.word t.text, V.span t.span⟩

/-- The name of an option, which is a word unless it is written as a string. -/
def View.optionName (V : View) (quoted : Bool) (name : String) : String :=
  if quoted then name else V.word name

/-- The text of a literal without a value, which is a word if it is a number. -/
def View.literalText (V : View) (kind : LiteralKind) (text : String) : String :=
  match kind with
  | .integer | .real => V.word text
  | _ => text

/-- The name as seen. -/
def QualifiedName.view (V : View) (name : QualifiedName) : QualifiedName :=
  ⟨name.parts.map V.ident, V.span name.span⟩

/-- The field as seen. -/
def Field.view (V : View) : Field → Field
  | .name n => .name (n.view V)
  | .quoted value span => .quoted value (V.span span)

/-- The field with its boost, as seen. -/
def WeightedField.view (V : View) (f : WeightedField) : WeightedField := ⟨f.field.view V, f.weight⟩

/-- The form of a relevance call as seen. -/
def RelevanceForm.view (V : View) : RelevanceForm → RelevanceForm
  | .noField => .noField
  | .field f => .field (f.view V)
  | .fields fs => .fields (fs.map (WeightedField.view V))
  | .fieldEquals f => .fieldEquals (f.view V)
  | .fieldEqualsMulti f => .fieldEqualsMulti (f.view V)
  | .named fs => .named (fs.map (WeightedField.view V))

/-- The option of `HIGHLIGHT` as seen. -/
def HighlightOption.view (V : View) (o : HighlightOption) : HighlightOption := ⟨V.word o.name, o.value⟩

mutual

/-- The expression as seen. -/
def Expr.view (V : View) : Expr → Expr
  | .not operand span => .not (operand.view V) (V.span span)
  | .and left right => .and (left.view V) (right.view V)
  | .or left right => .or (left.view V) (right.view V)
  | .predicate p => .predicate (p.view V)

/-- The predicate as seen. -/
def Predicate.view (V : View) : Predicate → Predicate
  | .comparison op left right => .comparison op (left.view V) (right.view V)
  | .isNull target negated span => .isNull (target.view V) negated (V.span span)
  | .between target negated low high => .between (target.view V) negated (low.view V) (high.view V)
  | .like left negated pattern => .like (left.view V) negated (pattern.view V)
  | .regexp left negated pattern => .regexp (left.view V) negated (pattern.view V)
  | .within target negated items span =>
      .within (target.view V) negated (viewAll V items) (V.span span)
  | .atom a => .atom (a.view V)

/-- The atom as seen. -/
def Atom.view (V : View) : Atom → Atom
  | .constant c => .constant (c.view V)
  | .column name => .column (name.view V)
  | .call f => .call (f.view V)
  | .parenthesized inner span => .parenthesized (inner.view V) (V.span span)
  | .arithmetic op left right => .arithmetic op (left.view V) (right.view V)

/-- The constant as seen. -/
def Constant.view (V : View) : Constant → Constant
  | ⟨value, span⟩ => ⟨value.view V, V.span span⟩

/-- The literal as seen. -/
def Literal.view (V : View) : Literal → Literal
  | .interval amount unit => .interval (amount.view V) unit
  | .string value => .string value
  | .integer value => .integer value
  | .real value => .real value
  | .boolean value => .boolean value
  | .null => .null
  | .date value => .date value
  | .time value => .time value
  | .timestamp value => .timestamp value
  | .datetime name parens => .datetime name parens
  | .malformed kind text fault => .malformed kind (V.literalText kind text) fault

/-- The call as seen. -/
def Call.view (V : View) : Call → Call
  | ⟨shape, span⟩ => ⟨shape.view V, V.span span⟩

/-- The call of some shape as seen. -/
def CallShape.view (V : View) : CallShape → CallShape
  | .nestedAll name path => .nestedAll (V.word name) (path.view V)
  | .scalar name category args => .scalar (V.word name) category (viewAll V args)
  | .case operand branches otherwise =>
      .case (viewOptional V operand) (viewBranches V branches) (viewOptional V otherwise)
  | .cast expr target => .cast (expr.view V) target
  | .ranking function args window => .ranking function (viewAll V args) (window.view V)
  | .windowed aggregate window => .windowed (aggregate.view V) (window.view V)
  | .aggregate aggregate => .aggregate (aggregate.view V)
  | .filtered aggregate orderBy filter =>
      .filtered (aggregate.view V) (viewOptionalOrder V orderBy) (filter.view V)
  | .score name relevance weight => .score (V.word name) (relevance.view V) weight
  | .relevance relevance => .relevance (relevance.view V)
  | .highlight field options => .highlight (field.view V) (options.map (HighlightOption.view V))
  | .position substring string => .position (substring.view V) (string.view V)
  | .extract unit arg => .extract unit (arg.view V)
  | .getFormat target format => .getFormat target (format.view V)
  | .timestamp function unit first second =>
      .timestamp function unit (first.view V) (second.view V)

/-- The branch as seen. -/
def CaseBranch.view (V : View) : CaseBranch → CaseBranch
  | ⟨condition, result⟩ => ⟨condition.view V, result.view V⟩

/-- The aggregate as seen. -/
def Aggregate.view (V : View) : Aggregate → Aggregate
  | .regular function arg => .regular function (arg.view V)
  | .countStar => .countStar
  | .countDistinct args => .countDistinct (viewAll V args)
  | .percentile function field percent compression =>
      .percentile function (field.view V) (percent.view V) (viewOptionalConstant V compression)

/-- The window as seen. -/
def Window.view (V : View) : Window → Window
  | ⟨partition, orderBy, span⟩ =>
      ⟨viewOptionalPartition V partition, viewOptionalOrder V orderBy, V.span span⟩

/-- The partition as seen. -/
def PartitionBy.view (V : View) : PartitionBy → PartitionBy
  | ⟨exprs, span⟩ => ⟨viewAll V exprs, V.span span⟩

/-- The order as seen. -/
def OrderBy.view (V : View) : OrderBy → OrderBy
  | ⟨items, span⟩ => ⟨viewItems V items, V.span span⟩

/-- The expression to order by as seen. -/
def OrderItem.view (V : View) : OrderItem → OrderItem
  | ⟨expr, direction, nulls⟩ => ⟨expr.view V, direction, nulls⟩

/-- The filter as seen. -/
def Filter.view (V : View) : Filter → Filter
  | ⟨condition, span⟩ => ⟨condition.view V, V.span span⟩

/-- The full-text search as seen. -/
def Relevance.view (V : View) : Relevance → Relevance
  | ⟨name, form, query, options⟩ =>
      ⟨V.word name, form.view V, query.view V, viewOptions V options⟩

/-- The search text or option value as seen. -/
def SearchValue.view (V : View) : SearchValue → SearchValue
  | .name n => .name (n.view V)
  | .constant c => .constant (c.view V)

/-- The option as seen. -/
def RelevanceOption.view (V : View) : RelevanceOption → RelevanceOption
  | ⟨name, quotedName, value⟩ => ⟨V.optionName quotedName name, quotedName, value.view V⟩

/-- The expressions as seen. -/
def viewAll (V : View) : List Expr → List Expr
  | [] => []
  | e :: es => e.view V :: viewAll V es

/-- The expressions to order by as seen. -/
def viewItems (V : View) : List OrderItem → List OrderItem
  | [] => []
  | i :: is => i.view V :: viewItems V is

/-- The branches as seen. -/
def viewBranches (V : View) : List CaseBranch → List CaseBranch
  | [] => []
  | b :: bs => b.view V :: viewBranches V bs

/-- The options as seen. -/
def viewOptions (V : View) : List RelevanceOption → List RelevanceOption
  | [] => []
  | o :: os => o.view V :: viewOptions V os

/-- The expression as seen, if there is one. -/
def viewOptional (V : View) : Option Expr → Option Expr
  | none => none
  | some e => some (e.view V)

/-- The constant as seen, if there is one. -/
def viewOptionalConstant (V : View) : Option Constant → Option Constant
  | none => none
  | some c => some (c.view V)

/-- The partition as seen, if there is one. -/
def viewOptionalPartition (V : View) : Option PartitionBy → Option PartitionBy
  | none => none
  | some p => some (p.view V)

/-- The order as seen, if there is one. -/
def viewOptionalOrder (V : View) : Option OrderBy → Option OrderBy
  | none => none
  | some o => some (o.view V)

end

/-- The item of the select list as seen. -/
def SelectItem.view (V : View) : SelectItem → SelectItem
  | .star span => .star (V.span span)
  | .expr e name => .expr (e.view V) (name.map V.ident)

/-- The condition as seen. -/
def Condition.view (V : View) (c : Condition) : Condition := ⟨c.expr.view V, V.span c.span⟩

/-- The grouping as seen. -/
def GroupBy.view (V : View) (g : GroupBy) : GroupBy := ⟨g.exprs.map (Expr.view V), V.span g.span⟩

/-- The limit as seen. -/
def Limit.view (V : View) (l : Limit) : Limit := ⟨l.count, l.offset, V.span l.span⟩

mutual

/-- The query as seen. -/
def Query.view (V : View) : Query → Query
  | ⟨quantifier, items, relation, condition, groupBy, having, orderBy, limit, span⟩ =>
      ⟨quantifier, items.map (SelectItem.view V), viewFrom V relation,
        condition.map (Condition.view V), groupBy.map (GroupBy.view V), having.map (Condition.view V),
        orderBy.map (OrderBy.view V), limit.map (Limit.view V), V.span span⟩

/-- The relation as seen. -/
def Relation.view (V : View) : Relation → Relation
  | .table name aliasName => .table (name.view V) (aliasName.map V.ident)
  | .subquery query aliasName span =>
      .subquery (query.view V) (V.ident aliasName) (V.span span)

/-- The relation behind `FROM` as seen, if there is one. -/
def viewFrom (V : View) : Option Relation → Option Relation
  | none => none
  | some relation => some (relation.view V)

end

/-- The pattern as seen. -/
def Pattern.view (V : View) : Pattern → Pattern
  | .quoted value => .quoted value
  | .plain value => .plain (V.word value)

/-- The names selected by a pattern, as seen. -/
def NameFilter.view (V : View) (f : NameFilter) : NameFilter := ⟨f.pattern.view V, V.span f.span⟩

/-- The statement as seen. -/
def Statement.view (V : View) : Statement → Statement
  | .select query => .select (query.view V)
  | .showTables tables span => .showTables (tables.view V) (V.span span)
  | .describe tables columns span =>
      .describe (tables.view V) (columns.map (NameFilter.view V)) (V.span span)

variable (V : View)

/-- To see a list is to see its elements; the tree is seen by recursion, which takes a function of
its own for each kind of list. -/
theorem viewAll_eq (es : List Expr) : viewAll V es = es.map (Expr.view V) := by
  induction es with
  | nil => rfl
  | cons e es ih => exact congrArg (e.view V :: ·) ih

theorem viewItems_eq (is : List OrderItem) : viewItems V is = is.map (OrderItem.view V) := by
  induction is with
  | nil => rfl
  | cons i is ih => exact congrArg (i.view V :: ·) ih

theorem viewBranches_eq (bs : List CaseBranch) : viewBranches V bs = bs.map (CaseBranch.view V) := by
  induction bs with
  | nil => rfl
  | cons b bs ih => exact congrArg (b.view V :: ·) ih

theorem viewOptions_eq (os : List RelevanceOption) :
    viewOptions V os = os.map (RelevanceOption.view V) := by
  induction os with
  | nil => rfl
  | cons o os ih => exact congrArg (o.view V :: ·) ih

theorem viewOptional_eq (e : Option Expr) : viewOptional V e = e.map (Expr.view V) := by
  cases e <;> rfl

theorem viewOptionalConstant_eq (c : Option Constant) :
    viewOptionalConstant V c = c.map (Constant.view V) := by
  cases c <;> rfl

theorem viewOptionalOrder_eq (o : Option OrderBy) :
    viewOptionalOrder V o = o.map (OrderBy.view V) := by
  cases o <;> rfl

theorem viewOptionalPartition_eq (p : Option PartitionBy) :
    viewOptionalPartition V p = p.map (PartitionBy.view V) := by
  cases p <;> rfl

theorem viewFrom_eq (r : Option Relation) : viewFrom V r = r.map (Relation.view V) := by
  cases r <;> rfl

/-! ## One view behind another -/

/-- What `W` shows of what `V` shows. -/
def View.comp (W V : View) : View where
  span s := W.span (V.span s)
  ident name := W.ident (V.ident name)
  word text := W.word (V.word text)

variable (W : View)

theorem QualifiedName.view_view (name : QualifiedName) :
    (name.view V).view W = name.view (W.comp V) := by
  simp only [view, List.map_map]
  rfl

theorem Field.view_view (f : Field) : (f.view V).view W = f.view (W.comp V) := by
  cases f with
  | name n => exact congrArg Field.name (n.view_view V W)
  | quoted value span => rfl

theorem WeightedField.view_view (f : WeightedField) :
    (f.view V).view W = f.view (W.comp V) := by
  simp only [view, Field.view_view]

theorem RelevanceForm.view_view (f : RelevanceForm) :
    (f.view V).view W = f.view (W.comp V) := by
  have hfields (fs : List WeightedField) : (fs.map (WeightedField.view V)).map
      (WeightedField.view W) = fs.map (WeightedField.view (W.comp V)) := by
    rw [List.map_map]
    exact congrArg (List.map · fs) (funext fun f => f.view_view V W)
  cases f <;> simp only [view, Field.view_view, hfields]

mutual

/-- What is seen of what is seen is seen at once, through both views. One lemma for each type of the
tree says so, by the recursion of the tree. -/
theorem Expr.view_view (e : Expr) : (e.view V).view W = e.view (W.comp V) := by
  match e with
  | .not operand span => simp only [Expr.view, Expr.view_view operand]; rfl
  | .and left right => simp only [Expr.view, Expr.view_view left, Expr.view_view right]
  | .or left right => simp only [Expr.view, Expr.view_view left, Expr.view_view right]
  | .predicate p => simp only [Expr.view, Predicate.view_view p]

theorem Predicate.view_view (p : Predicate) : (p.view V).view W = p.view (W.comp V) := by
  match p with
  | .comparison _ left right =>
    simp only [Predicate.view, Predicate.view_view left, Predicate.view_view right]
  | .isNull target _ _ => simp only [Predicate.view, Predicate.view_view target]; rfl
  | .between target _ low high =>
    simp only [Predicate.view, Predicate.view_view target, Predicate.view_view low,
      Predicate.view_view high]
  | .like left _ pattern =>
    simp only [Predicate.view, Predicate.view_view left, Predicate.view_view pattern]
  | .regexp left _ pattern =>
    simp only [Predicate.view, Predicate.view_view left, Predicate.view_view pattern]
  | .within target _ items _ =>
    simp only [Predicate.view, Predicate.view_view target, viewAll_viewAll items]; rfl
  | .atom a => simp only [Predicate.view, Atom.view_view a]

theorem Atom.view_view (a : Atom) : (a.view V).view W = a.view (W.comp V) := by
  match a with
  | .constant c => simp only [Atom.view, Constant.view_view c]
  | .column name => simp only [Atom.view, QualifiedName.view_view]
  | .call f => simp only [Atom.view, Call.view_view f]
  | .parenthesized inner _ => simp only [Atom.view, Expr.view_view inner]; rfl
  | .arithmetic _ left right => simp only [Atom.view, Atom.view_view left, Atom.view_view right]

theorem Constant.view_view (c : Constant) : (c.view V).view W = c.view (W.comp V) := by
  match c with
  | ⟨value, span⟩ => simp only [Constant.view, Literal.view_view value]; rfl

theorem Literal.view_view (l : Literal) : (l.view V).view W = l.view (W.comp V) := by
  match l with
  | .interval amount _ => simp only [Literal.view, Expr.view_view amount]
  | .malformed kind text fault => cases kind <;> simp only [Literal.view] <;> rfl
  | .string _ | .integer _ | .real _ | .boolean _ | .null | .date _ | .time _ | .timestamp _
  | .datetime _ _ => simp only [Literal.view]

theorem Call.view_view (f : Call) : (f.view V).view W = f.view (W.comp V) := by
  match f with
  | ⟨shape, span⟩ => simp only [Call.view, CallShape.view_view shape]; rfl

theorem CallShape.view_view (f : CallShape) : (f.view V).view W = f.view (W.comp V) := by
  match f with
  | .nestedAll _ path => simp only [CallShape.view, QualifiedName.view_view]; rfl
  | .scalar _ _ args => simp only [CallShape.view, viewAll_viewAll args]; rfl
  | .case operand branches otherwise =>
    simp only [CallShape.view, viewOptional_viewOptional operand, viewBranches_viewBranches branches,
      viewOptional_viewOptional otherwise]
  | .cast expr _ => simp only [CallShape.view, Expr.view_view expr]
  | .ranking _ args window =>
    simp only [CallShape.view, viewAll_viewAll args, Window.view_view window]
  | .windowed aggregate window =>
    simp only [CallShape.view, Aggregate.view_view aggregate, Window.view_view window]
  | .aggregate aggregate => simp only [CallShape.view, Aggregate.view_view aggregate]
  | .filtered aggregate orderBy filter =>
    simp only [CallShape.view, Aggregate.view_view aggregate,
      viewOptionalOrder_viewOptionalOrder orderBy, Filter.view_view filter]
  | .score _ relevance _ => simp only [CallShape.view, Relevance.view_view relevance]; rfl
  | .relevance relevance => simp only [CallShape.view, Relevance.view_view relevance]
  | .highlight field options =>
    simp only [CallShape.view, Field.view_view, List.map_map]; rfl
  | .position substring string =>
    simp only [CallShape.view, Expr.view_view substring, Expr.view_view string]
  | .extract _ arg => simp only [CallShape.view, Expr.view_view arg]
  | .getFormat _ format => simp only [CallShape.view, Expr.view_view format]
  | .timestamp _ _ first second =>
    simp only [CallShape.view, Expr.view_view first, Expr.view_view second]

theorem CaseBranch.view_view (b : CaseBranch) : (b.view V).view W = b.view (W.comp V) := by
  match b with
  | ⟨condition, result⟩ =>
    simp only [CaseBranch.view, Expr.view_view condition, Expr.view_view result]

theorem Aggregate.view_view (a : Aggregate) : (a.view V).view W = a.view (W.comp V) := by
  match a with
  | .regular _ arg => simp only [Aggregate.view, Expr.view_view arg]
  | .countStar => simp only [Aggregate.view]
  | .countDistinct args => simp only [Aggregate.view, viewAll_viewAll args]
  | .percentile _ field percent compression =>
    simp only [Aggregate.view, Expr.view_view field, Constant.view_view percent,
      viewOptionalConstant_viewOptionalConstant compression]

theorem Window.view_view (w : Window) : (w.view V).view W = w.view (W.comp V) := by
  match w with
  | ⟨partition, orderBy, span⟩ =>
    simp only [Window.view, viewOptionalPartition_viewOptionalPartition partition,
      viewOptionalOrder_viewOptionalOrder orderBy]; rfl

theorem PartitionBy.view_view (p : PartitionBy) : (p.view V).view W = p.view (W.comp V) := by
  match p with
  | ⟨exprs, span⟩ => simp only [PartitionBy.view, viewAll_viewAll exprs]; rfl

theorem OrderBy.view_view (o : OrderBy) : (o.view V).view W = o.view (W.comp V) := by
  match o with
  | ⟨items, span⟩ => simp only [OrderBy.view, viewItems_viewItems items]; rfl

theorem OrderItem.view_view (i : OrderItem) : (i.view V).view W = i.view (W.comp V) := by
  match i with
  | ⟨expr, direction, nulls⟩ => simp only [OrderItem.view, Expr.view_view expr]

theorem Filter.view_view (f : Filter) : (f.view V).view W = f.view (W.comp V) := by
  match f with
  | ⟨condition, span⟩ => simp only [Filter.view, Expr.view_view condition]; rfl

theorem Relevance.view_view (r : Relevance) : (r.view V).view W = r.view (W.comp V) := by
  match r with
  | ⟨name, form, query, options⟩ =>
    simp only [Relevance.view, RelevanceForm.view_view, SearchValue.view_view query,
      viewOptions_viewOptions options]; rfl

theorem SearchValue.view_view (v : SearchValue) : (v.view V).view W = v.view (W.comp V) := by
  match v with
  | .name n => simp only [SearchValue.view, QualifiedName.view_view]
  | .constant c => simp only [SearchValue.view, Constant.view_view c]

theorem RelevanceOption.view_view (o : RelevanceOption) :
    (o.view V).view W = o.view (W.comp V) := by
  match o with
  | ⟨name, quotedName, value⟩ =>
    cases quotedName <;> simp only [RelevanceOption.view, SearchValue.view_view value] <;> rfl

theorem viewAll_viewAll (es : List Expr) : viewAll W (viewAll V es) = viewAll (W.comp V) es := by
  match es with
  | [] => rfl
  | e :: es => simp only [viewAll, Expr.view_view e, viewAll_viewAll es]

theorem viewItems_viewItems (is : List OrderItem) :
    viewItems W (viewItems V is) = viewItems (W.comp V) is := by
  match is with
  | [] => rfl
  | i :: is => simp only [viewItems, OrderItem.view_view i, viewItems_viewItems is]

theorem viewBranches_viewBranches (bs : List CaseBranch) :
    viewBranches W (viewBranches V bs) = viewBranches (W.comp V) bs := by
  match bs with
  | [] => rfl
  | b :: bs => simp only [viewBranches, CaseBranch.view_view b, viewBranches_viewBranches bs]

theorem viewOptions_viewOptions (os : List RelevanceOption) :
    viewOptions W (viewOptions V os) = viewOptions (W.comp V) os := by
  match os with
  | [] => rfl
  | o :: os => simp only [viewOptions, RelevanceOption.view_view o, viewOptions_viewOptions os]

theorem viewOptional_viewOptional (e : Option Expr) :
    viewOptional W (viewOptional V e) = viewOptional (W.comp V) e := by
  match e with
  | none => rfl
  | some e => simp only [viewOptional, Expr.view_view e]

theorem viewOptionalConstant_viewOptionalConstant (c : Option Constant) :
    viewOptionalConstant W (viewOptionalConstant V c) = viewOptionalConstant (W.comp V) c := by
  match c with
  | none => rfl
  | some c => simp only [viewOptionalConstant, Constant.view_view c]

theorem viewOptionalPartition_viewOptionalPartition (p : Option PartitionBy) :
    viewOptionalPartition W (viewOptionalPartition V p) = viewOptionalPartition (W.comp V) p := by
  match p with
  | none => rfl
  | some p => simp only [viewOptionalPartition, PartitionBy.view_view p]

theorem viewOptionalOrder_viewOptionalOrder (o : Option OrderBy) :
    viewOptionalOrder W (viewOptionalOrder V o) = viewOptionalOrder (W.comp V) o := by
  match o with
  | none => rfl
  | some o => simp only [viewOptionalOrder, OrderBy.view_view o]

end

/-! ## The view that changes nothing -/

/-- The view that shows everything as it is. -/
def View.id : View := ⟨fun s => s, fun name => name, fun text => text⟩

/-- A list is left alone by what leaves its elements alone. -/
theorem map_eq_self {α : Type} {f : α → α} (h : ∀ a, f a = a) (as : List α) : as.map f = as := by
  rw [show f = fun a => a from funext h, List.map_id']

theorem QualifiedName.view_id (name : QualifiedName) : name.view .id = name := by
  simp only [view, View.id, List.map_id']

theorem Field.view_id (f : Field) : f.view .id = f := by
  cases f with
  | name n => exact congrArg Field.name n.view_id
  | quoted value span => rfl

theorem WeightedField.view_id (f : WeightedField) : f.view .id = f := by
  simp only [view, Field.view_id]

theorem RelevanceForm.view_id (f : RelevanceForm) : f.view .id = f := by
  cases f <;> simp only [view, Field.view_id, map_eq_self WeightedField.view_id]

mutual

/-- The view that changes nothing shows every tree as it is. -/
theorem Expr.view_id (e : Expr) : e.view .id = e := by
  match e with
  | .not operand span => simp only [Expr.view, Expr.view_id operand]; rfl
  | .and left right => simp only [Expr.view, Expr.view_id left, Expr.view_id right]
  | .or left right => simp only [Expr.view, Expr.view_id left, Expr.view_id right]
  | .predicate p => simp only [Expr.view, Predicate.view_id p]

theorem Predicate.view_id (p : Predicate) : p.view .id = p := by
  match p with
  | .comparison _ left right =>
    simp only [Predicate.view, Predicate.view_id left, Predicate.view_id right]
  | .isNull target _ _ => simp only [Predicate.view, Predicate.view_id target]; rfl
  | .between target _ low high =>
    simp only [Predicate.view, Predicate.view_id target, Predicate.view_id low,
      Predicate.view_id high]
  | .like left _ pattern =>
    simp only [Predicate.view, Predicate.view_id left, Predicate.view_id pattern]
  | .regexp left _ pattern =>
    simp only [Predicate.view, Predicate.view_id left, Predicate.view_id pattern]
  | .within target _ items _ =>
    simp only [Predicate.view, Predicate.view_id target, viewAll_id items]; rfl
  | .atom a => simp only [Predicate.view, Atom.view_id a]

theorem Atom.view_id (a : Atom) : a.view .id = a := by
  match a with
  | .constant c => simp only [Atom.view, Constant.view_id c]
  | .column name => simp only [Atom.view, QualifiedName.view_id]
  | .call f => simp only [Atom.view, Call.view_id f]
  | .parenthesized inner _ => simp only [Atom.view, Expr.view_id inner]; rfl
  | .arithmetic _ left right => simp only [Atom.view, Atom.view_id left, Atom.view_id right]

theorem Constant.view_id (c : Constant) : c.view .id = c := by
  match c with
  | ⟨value, span⟩ => simp only [Constant.view, Literal.view_id value]; rfl

theorem Literal.view_id (l : Literal) : l.view .id = l := by
  match l with
  | .interval amount _ => simp only [Literal.view, Expr.view_id amount]
  | .malformed kind text fault => cases kind <;> simp only [Literal.view] <;> rfl
  | .string _ | .integer _ | .real _ | .boolean _ | .null | .date _ | .time _ | .timestamp _
  | .datetime _ _ => simp only [Literal.view]

theorem Call.view_id (f : Call) : f.view .id = f := by
  match f with
  | ⟨shape, span⟩ => simp only [Call.view, CallShape.view_id shape]; rfl

theorem CallShape.view_id (f : CallShape) : f.view .id = f := by
  match f with
  | .nestedAll _ path => simp only [CallShape.view, QualifiedName.view_id]; rfl
  | .scalar _ _ args => simp only [CallShape.view, viewAll_id args]; rfl
  | .case operand branches otherwise =>
    simp only [CallShape.view, viewOptional_id operand, viewBranches_id branches,
      viewOptional_id otherwise]
  | .cast expr _ => simp only [CallShape.view, Expr.view_id expr]
  | .ranking _ args window =>
    simp only [CallShape.view, viewAll_id args, Window.view_id window]
  | .windowed aggregate window =>
    simp only [CallShape.view, Aggregate.view_id aggregate, Window.view_id window]
  | .aggregate aggregate => simp only [CallShape.view, Aggregate.view_id aggregate]
  | .filtered aggregate orderBy filter =>
    simp only [CallShape.view, Aggregate.view_id aggregate,
      viewOptionalOrder_id orderBy, Filter.view_id filter]
  | .score _ relevance _ => simp only [CallShape.view, Relevance.view_id relevance]; rfl
  | .relevance relevance => simp only [CallShape.view, Relevance.view_id relevance]
  | .highlight field options =>
    simp only [CallShape.view, Field.view_id]
    exact congrArg (CallShape.highlight field) (map_eq_self (fun _ => rfl) options)
  | .position substring string =>
    simp only [CallShape.view, Expr.view_id substring, Expr.view_id string]
  | .extract _ arg => simp only [CallShape.view, Expr.view_id arg]
  | .getFormat _ format => simp only [CallShape.view, Expr.view_id format]
  | .timestamp _ _ first second =>
    simp only [CallShape.view, Expr.view_id first, Expr.view_id second]

theorem CaseBranch.view_id (b : CaseBranch) : b.view .id = b := by
  match b with
  | ⟨condition, result⟩ =>
    simp only [CaseBranch.view, Expr.view_id condition, Expr.view_id result]

theorem Aggregate.view_id (a : Aggregate) : a.view .id = a := by
  match a with
  | .regular _ arg => simp only [Aggregate.view, Expr.view_id arg]
  | .countStar => simp only [Aggregate.view]
  | .countDistinct args => simp only [Aggregate.view, viewAll_id args]
  | .percentile _ field percent compression =>
    simp only [Aggregate.view, Expr.view_id field, Constant.view_id percent,
      viewOptionalConstant_id compression]

theorem Window.view_id (w : Window) : w.view .id = w := by
  match w with
  | ⟨partition, orderBy, span⟩ =>
    simp only [Window.view, viewOptionalPartition_id partition,
      viewOptionalOrder_id orderBy]; rfl

theorem PartitionBy.view_id (p : PartitionBy) : p.view .id = p := by
  match p with
  | ⟨exprs, span⟩ => simp only [PartitionBy.view, viewAll_id exprs]; rfl

theorem OrderBy.view_id (o : OrderBy) : o.view .id = o := by
  match o with
  | ⟨items, span⟩ => simp only [OrderBy.view, viewItems_id items]; rfl

theorem OrderItem.view_id (i : OrderItem) : i.view .id = i := by
  match i with
  | ⟨expr, direction, nulls⟩ => simp only [OrderItem.view, Expr.view_id expr]

theorem Filter.view_id (f : Filter) : f.view .id = f := by
  match f with
  | ⟨condition, span⟩ => simp only [Filter.view, Expr.view_id condition]; rfl

theorem Relevance.view_id (r : Relevance) : r.view .id = r := by
  match r with
  | ⟨name, form, query, options⟩ =>
    simp only [Relevance.view, RelevanceForm.view_id, SearchValue.view_id query,
      viewOptions_id options]; rfl

theorem SearchValue.view_id (v : SearchValue) : v.view .id = v := by
  match v with
  | .name n => simp only [SearchValue.view, QualifiedName.view_id]
  | .constant c => simp only [SearchValue.view, Constant.view_id c]

theorem RelevanceOption.view_id (o : RelevanceOption) :
    o.view .id = o := by
  match o with
  | ⟨name, quotedName, value⟩ =>
    cases quotedName <;> simp only [RelevanceOption.view, SearchValue.view_id value] <;> rfl

theorem viewAll_id (es : List Expr) : viewAll .id es = es := by
  match es with
  | [] => rfl
  | e :: es => simp only [viewAll, Expr.view_id e, viewAll_id es]

theorem viewItems_id (is : List OrderItem) :
    viewItems .id is = is := by
  match is with
  | [] => rfl
  | i :: is => simp only [viewItems, OrderItem.view_id i, viewItems_id is]

theorem viewBranches_id (bs : List CaseBranch) :
    viewBranches .id bs = bs := by
  match bs with
  | [] => rfl
  | b :: bs => simp only [viewBranches, CaseBranch.view_id b, viewBranches_id bs]

theorem viewOptions_id (os : List RelevanceOption) :
    viewOptions .id os = os := by
  match os with
  | [] => rfl
  | o :: os => simp only [viewOptions, RelevanceOption.view_id o, viewOptions_id os]

theorem viewOptional_id (e : Option Expr) :
    viewOptional .id e = e := by
  match e with
  | none => rfl
  | some e => simp only [viewOptional, Expr.view_id e]

theorem viewOptionalConstant_id (c : Option Constant) :
    viewOptionalConstant .id c = c := by
  match c with
  | none => rfl
  | some c => simp only [viewOptionalConstant, Constant.view_id c]

theorem viewOptionalPartition_id (p : Option PartitionBy) :
    viewOptionalPartition .id p = p := by
  match p with
  | none => rfl
  | some p => simp only [viewOptionalPartition, PartitionBy.view_id p]

theorem viewOptionalOrder_id (o : Option OrderBy) :
    viewOptionalOrder .id o = o := by
  match o with
  | none => rfl
  | some o => simp only [viewOptionalOrder, OrderBy.view_id o]

end

/-! ## Queries and statements -/

theorem map_comp {α : Type} {f g h : α → α} (heq : ∀ a, g (f a) = h a) (as : List α) :
    (as.map f).map g = as.map h := by
  rw [List.map_map]
  exact congrArg (List.map · as) (funext heq)

theorem map_comp_option {α : Type} {f g h : α → α} (heq : ∀ a, g (f a) = h a) (a : Option α) :
    (a.map f).map g = a.map h := by
  rw [Option.map_map]
  exact congrArg (Option.map · a) (funext heq)

theorem map_eq_self_option {α : Type} {f : α → α} (h : ∀ a, f a = a) (a : Option α) :
    a.map f = a := by
  rw [show f = fun a => a from funext h, Option.map_id']

theorem SelectItem.view_view (i : SelectItem) : (i.view V).view W = i.view (W.comp V) := by
  cases i with
  | star span => rfl
  | expr e name => simp only [view, Expr.view_view, Option.map_map]; rfl

theorem Condition.view_view (c : Condition) : (c.view V).view W = c.view (W.comp V) := by
  simp only [view, Expr.view_view]; rfl

theorem GroupBy.view_view (g : GroupBy) : (g.view V).view W = g.view (W.comp V) := by
  simp only [view, map_comp (Expr.view_view V W)]; rfl

mutual

/-- The parts of a query are seen at once as well. -/
theorem Query.view_view (q : Query) : (q.view V).view W = q.view (W.comp V) := by
  match q with
  | ⟨quantifier, items, relation, condition, groupBy, having, orderBy, limit, span⟩ =>
    simp only [Query.view, map_comp (SelectItem.view_view V W), viewFrom_viewFrom relation,
      map_comp_option (Condition.view_view V W), map_comp_option (GroupBy.view_view V W),
      map_comp_option (OrderBy.view_view V W), Option.map_map]
    rfl

theorem Relation.view_view (r : Relation) : (r.view V).view W = r.view (W.comp V) := by
  match r with
  | .table name aliasName =>
    simp only [Relation.view, QualifiedName.view_view, Option.map_map]; rfl
  | .subquery query aliasName span => simp only [Relation.view, Query.view_view query]; rfl

theorem viewFrom_viewFrom (r : Option Relation) :
    viewFrom W (viewFrom V r) = viewFrom (W.comp V) r := by
  match r with
  | none => rfl
  | some r => simp only [viewFrom, Relation.view_view r]

end

theorem Pattern.view_view (p : Pattern) : (p.view V).view W = p.view (W.comp V) := by
  cases p <;> rfl

theorem NameFilter.view_view (f : NameFilter) : (f.view V).view W = f.view (W.comp V) := by
  simp only [view, Pattern.view_view]; rfl

/-- A view of a view of a statement is a view of it. -/
theorem Statement.view_view (s : Statement) : (s.view V).view W = s.view (W.comp V) := by
  cases s with
  | select query => simp only [view, Query.view_view]
  | showTables tables span => simp only [view, NameFilter.view_view]; rfl
  | describe tables columns span =>
    simp only [view, NameFilter.view_view, map_comp_option (NameFilter.view_view V W)]; rfl

theorem SelectItem.view_id (i : SelectItem) : i.view .id = i := by
  cases i with
  | star span => rfl
  | expr e name =>
    simp only [view, Expr.view_id]
    exact congrArg (SelectItem.expr e) (map_eq_self_option (fun _ => rfl) name)

theorem Condition.view_id (c : Condition) : c.view .id = c := by
  simp only [view, Expr.view_id]; rfl

theorem GroupBy.view_id (g : GroupBy) : g.view .id = g := by
  simp only [view, map_eq_self Expr.view_id]; rfl

mutual

/-- A query is left alone by the view that changes nothing. -/
theorem Query.view_id (q : Query) : q.view .id = q := by
  match q with
  | ⟨quantifier, items, relation, condition, groupBy, having, orderBy, limit, span⟩ =>
    simp only [Query.view, map_eq_self SelectItem.view_id, viewFrom_id relation,
      map_eq_self_option Condition.view_id, map_eq_self_option GroupBy.view_id,
      map_eq_self_option OrderBy.view_id,
      map_eq_self_option (show ∀ l : Limit, l.view .id = l from fun _ => rfl)]
    rfl

theorem Relation.view_id (r : Relation) : r.view .id = r := by
  match r with
  | .table name aliasName =>
    simp only [Relation.view, QualifiedName.view_id]
    exact congrArg (Relation.table name) (map_eq_self_option (fun _ => rfl) aliasName)
  | .subquery query aliasName span => simp only [Relation.view, Query.view_id query]; rfl

theorem viewFrom_id (r : Option Relation) : viewFrom .id r = r := by
  match r with
  | none => rfl
  | some r => simp only [viewFrom, Relation.view_id r]

end

theorem NameFilter.view_id (f : NameFilter) : f.view .id = f := by
  obtain ⟨pattern, span⟩ := f
  cases pattern <;> rfl

theorem Statement.view_id (s : Statement) : s.view .id = s := by
  cases s with
  | select query => simp only [view, Query.view_id]
  | showTables tables span => simp only [view, NameFilter.view_id]; rfl
  | describe tables columns span =>
    simp only [view, NameFilter.view_id, map_eq_self_option NameFilter.view_id]; rfl

end SearchSql
