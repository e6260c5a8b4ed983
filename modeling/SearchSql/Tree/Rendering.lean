import SearchSql.Number.Notation
import SearchSql.Tree.Query

/-!
# The written form of trees

Every tree has one canonical text: reserved words in upper case, single spaces, an explicit `AS`
before an alias, `LIMIT count OFFSET offset`. No parentheses are added, since the layers of an
expression keep them as nodes. A malformed literal is written with the text it was read from.
-/

set_option autoImplicit false

namespace SearchSql

open Number (Layout)

/-- Texts separated by commas. -/
def commaSeparated (texts : List String) : String := ", ".intercalate texts

/-- The word in front of a negated predicate. -/
def negation (negated : Bool) : String := if negated then "NOT " else ""

/-- The written form of a field. -/
def Field.render : Field → String
  | .name n => n.render
  | .quoted value _ => Text.quoted value

/-- The written form of a field with its boost. -/
def WeightedField.render (f : WeightedField) : String :=
  match f.weight with
  | some weight => f.field.render ++ " ^ " ++ Layout.weight.text weight
  | none => f.field.render

/-- The fields of a named argument, in brackets unless there is just one. -/
def renderNamedFields : List WeightedField → String
  | [f] => f.render
  | fs => "[" ++ commaSeparated (fs.map WeightedField.render) ++ "]"

/-- A relevance call without its options and closing parenthesis, from the name of its function and
the text of its query. -/
def RelevanceForm.render (form : RelevanceForm) (name query : String) : String :=
  match form with
  | .noField => name ++ "(" ++ query
  | .field f => name ++ "(" ++ f.render ++ ", " ++ query
  | .fields fs => name ++ "([" ++ commaSeparated (fs.map WeightedField.render) ++ "], " ++ query
  | .fieldEquals f => f.render ++ " = " ++ name ++ "(" ++ query
  | .fieldEqualsMulti f => f.render ++ " = " ++ name ++ "(" ++ query
  | .named fs => name ++ "(query = " ++ query ++ ", fields = " ++ renderNamedFields fs

/-- The written form of an option of `HIGHLIGHT`, with the comma in front. -/
def HighlightOption.render (o : HighlightOption) : String :=
  ", " ++ o.name ++ " = " ++ Text.quoted o.value

/-- The written form of a direction. -/
def Direction.text : Direction → String
  | .ascending => "ASC"
  | .descending => "DESC"

/-- The written form of a place of nulls. -/
def NullOrder.text : NullOrder → String
  | .first => "NULLS FIRST"
  | .last => "NULLS LAST"

/-- The written form of a literal that denotes no value, from its text. -/
def renderMalformed (kind : LiteralKind) (text : String) : String :=
  match kind with
  | .integer | .real => text
  | .date => "DATE " ++ Text.quoted text
  | .time => "TIME " ++ Text.quoted text
  | .timestamp => "TIMESTAMP " ++ Text.quoted text

mutual

/-- The written form of an expression. -/
def Expr.render : Expr → String
  | .not operand _ => "NOT " ++ operand.render
  | .and left right => left.render ++ " AND " ++ right.render
  | .or left right => left.render ++ " OR " ++ right.render
  | .predicate p => p.render

/-- The written form of a predicate. -/
def Predicate.render : Predicate → String
  | .comparison op left right => left.render ++ " " ++ op.text ++ " " ++ right.render
  | .isNull target negated _ => target.render ++ " IS " ++ negation negated ++ "NULL"
  | .between target negated low high =>
      target.render ++ " " ++ negation negated ++ "BETWEEN " ++ low.render ++ " AND " ++ high.render
  | .like left negated pattern =>
      left.render ++ " " ++ negation negated ++ "LIKE " ++ pattern.render
  | .regexp left negated pattern =>
      left.render ++ " " ++ negation negated ++ "REGEXP " ++ pattern.render
  | .within target negated items _ =>
      target.render ++ " " ++ negation negated ++ "IN (" ++ commaSeparated (renderAll items) ++ ")"
  | .atom a => a.render

/-- The written form of an atom. -/
def Atom.render : Atom → String
  | .constant c => c.render
  | .column name => name.render
  | .call f => f.render
  | .parenthesized inner _ => "(" ++ inner.render ++ ")"
  | .arithmetic op left right => left.render ++ " " ++ op.text ++ " " ++ right.render

/-- The written form of a constant. -/
def Constant.render : Constant → String
  | ⟨value, _⟩ => value.render

/-- The written form of a literal. -/
def Literal.render : Literal → String
  | .string value => Text.quoted value
  | .integer value => toString value
  | .real value => Layout.literal.text value
  | .boolean value => if value then "TRUE" else "FALSE"
  | .null => "NULL"
  | .date value => "DATE '" ++ value.text ++ "'"
  | .time value => "TIME '" ++ value.text ++ "'"
  | .timestamp value => "TIMESTAMP '" ++ value.text ' ' ++ "'"
  | .interval amount unit => "INTERVAL " ++ amount.render ++ " " ++ unit.text
  | .datetime name parens => name.text ++ (if parens then "()" else "")
  | .malformed kind text _ => renderMalformed kind text

/-- The written form of a call. -/
def Call.render : Call → String
  | ⟨shape, _⟩ => shape.render

/-- The written form of a call of some shape. -/
def CallShape.render : CallShape → String
  | .nestedAll name path => name ++ "(" ++ path.render ++ ".*)"
  | .scalar name _ args => name ++ "(" ++ commaSeparated (renderAll args) ++ ")"
  | .case operand branches otherwise =>
      "CASE" ++ renderOptional " " operand ++ renderBranches branches ++
        renderOptional " ELSE " otherwise ++ " END"
  | .cast expr target => "CAST(" ++ expr.render ++ " AS " ++ target.text ++ ")"
  | .ranking function args window =>
      function.text ++ "(" ++ commaSeparated (renderAll args) ++ ") " ++ window.render
  | .windowed aggregate window => aggregate.render ++ " " ++ window.render
  | .aggregate aggregate => aggregate.render
  | .filtered aggregate orderBy filter =>
      aggregate.render ++ renderOptionalOrder " " orderBy ++ " " ++ filter.render
  | .score name relevance weight =>
      name ++ "(" ++ relevance.render ++
        (match weight with
        | some w => ", " ++ Layout.weight.text w
        | none => "") ++ ")"
  | .relevance relevance => relevance.render
  | .highlight field options =>
      "HIGHLIGHT(" ++ field.render ++ String.join (options.map HighlightOption.render) ++ ")"
  | .position substring string => "POSITION(" ++ substring.render ++ " IN " ++ string.render ++ ")"
  | .extract unit arg => "EXTRACT(" ++ unit.text ++ " FROM " ++ arg.render ++ ")"
  | .getFormat target format => "GET_FORMAT(" ++ target.text ++ ", " ++ format.render ++ ")"
  | .timestamp function unit first second =>
      function.text ++ "(" ++ unit.text ++ ", " ++ first.render ++ ", " ++ second.render ++ ")"

/-- The written form of a branch, with the space in front. -/
def CaseBranch.render : CaseBranch → String
  | ⟨condition, result⟩ => " WHEN " ++ condition.render ++ " THEN " ++ result.render

/-- The written form of an aggregate call. -/
def Aggregate.render : Aggregate → String
  | .regular function arg => function.text ++ "(" ++ arg.render ++ ")"
  | .countStar => "COUNT(*)"
  | .countDistinct args => "COUNT(DISTINCT " ++ commaSeparated (renderAll args) ++ ")"
  | .percentile function field percent compression =>
      function.text ++ "(" ++ field.render ++ ", " ++ percent.render ++
        renderOptionalConstant ", " compression ++ ")"

/-- The written form of a window. -/
def Window.render : Window → String
  | ⟨none, orderBy, _⟩ => "OVER (" ++ renderOptionalOrder "" orderBy ++ ")"
  | ⟨some partition, orderBy, _⟩ =>
      "OVER (" ++ partition.render ++ renderOptionalOrder " " orderBy ++ ")"

/-- The written form of a partition. -/
def PartitionBy.render : PartitionBy → String
  | ⟨exprs, _⟩ => "PARTITION BY " ++ commaSeparated (renderAll exprs)

/-- The written form of an order. -/
def OrderBy.render : OrderBy → String
  | ⟨items, _⟩ => "ORDER BY " ++ commaSeparated (renderItems items)

/-- The written form of an expression to order by. -/
def OrderItem.render : OrderItem → String
  | ⟨expr, direction, nulls⟩ =>
      expr.render ++
        (match direction with
        | some d => " " ++ d.text
        | none => "") ++
        (match nulls with
        | some n => " " ++ n.text
        | none => "")

/-- The written form of a filter. -/
def Filter.render : Filter → String
  | ⟨condition, _⟩ => "FILTER(WHERE " ++ condition.render ++ ")"

/-- The written form of a full-text search. -/
def Relevance.render : Relevance → String
  | ⟨name, form, query, options⟩ => form.render name query.render ++ renderOptions options ++ ")"

/-- The written form of a search text or option value. -/
def SearchValue.render : SearchValue → String
  | .name n => n.render
  | .constant c => c.render

/-- The written form of an option, with the comma in front. -/
def RelevanceOption.render : RelevanceOption → String
  | ⟨name, quotedName, value⟩ =>
      ", " ++ (if quotedName then Text.quoted name else name) ++ " = " ++ value.render

/-- The written forms of expressions. -/
def renderAll : List Expr → List String
  | [] => []
  | e :: es => e.render :: renderAll es

/-- The written forms of expressions to order by. -/
def renderItems : List OrderItem → List String
  | [] => []
  | i :: is => i.render :: renderItems is

/-- The written forms of branches, one after the other. -/
def renderBranches : List CaseBranch → String
  | [] => ""
  | b :: bs => b.render ++ renderBranches bs

/-- The written forms of options, one after the other. -/
def renderOptions : List RelevanceOption → String
  | [] => ""
  | o :: os => o.render ++ renderOptions os

/-- The written form of an expression behind `before`, if there is one. -/
def renderOptional (before : String) : Option Expr → String
  | none => ""
  | some e => before ++ e.render

/-- The written form of a constant behind `before`, if there is one. -/
def renderOptionalConstant (before : String) : Option Constant → String
  | none => ""
  | some c => before ++ c.render

/-- The written form of an order behind `before`, if there is one. -/
def renderOptionalOrder (before : String) : Option OrderBy → String
  | none => ""
  | some o => before ++ o.render

end

theorem renderAll_eq_map (es : List Expr) : renderAll es = es.map Expr.render := by
  induction es with
  | nil => rfl
  | cons e es ih => simp [renderAll, ih]

/-! ## Statements -/

/-- The written form of an alias, if there is one. -/
def renderAlias : Option Ident → String
  | none => ""
  | some name => " AS " ++ name.render

/-- The written form of a quantifier, with the space behind it. -/
def renderQuantifier : Option Quantifier → String
  | none => ""
  | some .all => "ALL "
  | some .distinct => "DISTINCT "

/-- The written form of an item of the select list. -/
def SelectItem.render : SelectItem → String
  | .star _ => "*"
  | .expr e name => e.render ++ renderAlias name

/-- The written form of a limit. -/
def Limit.render (l : Limit) : String :=
  "LIMIT " ++ toString l.count ++
    (match l.offset with
    | some offset => " OFFSET " ++ toString offset
    | none => "")

/-- The clauses between the relation and the limit of a query. -/
def renderClauses (condition : Option Condition) (groupBy : Option GroupBy)
    (having : Option Condition) (orderBy : Option OrderBy) (limit : Option Limit) : String :=
  (condition.elim "" fun c => " WHERE " ++ c.expr.render) ++
    (groupBy.elim "" fun g => " GROUP BY " ++ commaSeparated (g.exprs.map Expr.render)) ++
    (having.elim "" fun c => " HAVING " ++ c.expr.render) ++
    (orderBy.elim "" fun o => " " ++ o.render) ++
    (limit.elim "" fun l => " " ++ l.render)

mutual

/-- The written form of a query. -/
def Query.render : Query → String
  | ⟨quantifier, items, relation, condition, groupBy, having, orderBy, limit, _⟩ =>
      "SELECT " ++ renderQuantifier quantifier ++ commaSeparated (items.map SelectItem.render) ++
        renderFrom relation ++ renderClauses condition groupBy having orderBy limit

/-- The written form of a relation. -/
def Relation.render : Relation → String
  | .table name aliasName => name.render ++ renderAlias aliasName
  | .subquery query aliasName _ => "(" ++ query.render ++ ") AS " ++ aliasName.render

/-- The written form of the relation behind `FROM`, if there is one. -/
def renderFrom : Option Relation → String
  | none => ""
  | some relation => " FROM " ++ relation.render

end

/-- The written form of a pattern. -/
def Pattern.render : Pattern → String
  | .quoted value => Text.quoted value
  | .plain value => value

/-- The written form of a statement. -/
def Statement.render : Statement → String
  | .select query => query.render
  | .showTables tables _ => "SHOW TABLES LIKE " ++ tables.pattern.render
  | .describe tables columns _ =>
      "DESCRIBE TABLES LIKE " ++ tables.pattern.render ++
        columns.elim "" fun c => " COLUMNS LIKE " ++ c.pattern.render

end SearchSql
