import SearchSql.Document.Tokens
import SearchSql.Tree.Query

/-!
# Documents of trees

The document of every node. How a real number is written is left to the caller, which gives the
document of one as `real`.
-/

set_option autoImplicit false

namespace SearchSql

open Document (tagged fields tagOf optional all)

/-! ## Names and operators -/

/-- The document of an identifier. -/
def Ident.document (i : Ident) : Document :=
  fields [("value", .string i.value), ("quoted", .bool i.quoted), ("span", i.span.document)]

/-- The document of a qualified name. -/
def QualifiedName.document (n : QualifiedName) : Document :=
  fields [("parts", all Ident.document n.parts), ("span", n.span.document)]

/-- The tag of a comparison operator. -/
def ComparisonOp.tag : ComparisonOp → String
  | .eq => "Eq"
  | .notEq => "NotEq"
  | .lt => "Lt"
  | .ltEq => "LtEq"
  | .gt => "Gt"
  | .gtEq => "GtEq"

/-- The tag of an arithmetic operator. -/
def ArithmeticOp.tag : ArithmeticOp → String
  | .add => "Add"
  | .subtract => "Subtract"
  | .multiply => "Multiply"
  | .divide => "Divide"
  | .modulo => "Modulo"
  | .wholeDivide => "Div"
  | .wholeModulo => "Mod"

/-- The tag of a kind of literal. -/
def LiteralKind.tag : LiteralKind → String
  | .integer => "Decimal"
  | .real => "Real"
  | .date => "Date"
  | .time => "Time"
  | .timestamp => "Timestamp"

/-- The tag of a scalar category. -/
def ScalarCategory.tag : ScalarCategory → String
  | .mathematical => "Mathematical"
  | .trigonometric => "Trigonometric"
  | .arithmetic => "Arithmetic"
  | .dateTime => "DateTime"
  | .text => "Text"
  | .flowControl => "FlowControl"
  | .system => "System"
  | .nested => "Nested"

/-- The tag of a timestamp function. -/
def TimestampFunction.tag : TimestampFunction → String
  | .add => "Add"
  | .diff => "Diff"

/-- The tag of a direction. -/
def Direction.tag : Direction → String
  | .ascending => "Asc"
  | .descending => "Desc"

/-- The tag of a place of nulls. -/
def NullOrder.tag : NullOrder → String
  | .first => "First"
  | .last => "Last"

/-- The tag of a quantifier. -/
def Quantifier.tag : Quantifier → String
  | .all => "All"
  | .distinct => "Distinct"

/-- The document of a field. -/
def Field.document : Field → Document
  | .name n => tagged "Name" n.document
  | .quoted value span =>
      tagged "Quoted" (fields [("value", .string value), ("span", span.document)])

/-- The document of an option of `HIGHLIGHT`. -/
def HighlightOption.document (o : HighlightOption) : Document :=
  fields [("name", .string o.name), ("value", .string o.value)]

/-- The document of a limit. -/
def Limit.document (l : Limit) : Document :=
  fields
    [
      ("limit", .natural l.count), ("offset", optional .natural l.offset), ("span", l.span.document)
    ]

/-- The document of a pattern. -/
def Pattern.document : Pattern → Document
  | .quoted value => tagged "String" (.string value)
  | .plain value => tagged "Compatible" (.string value)

/-- The document of a filter of names. -/
def NameFilter.document (f : NameFilter) : Document :=
  fields [("pattern", f.pattern.document), ("span", f.span.document)]

/-! ## Expressions -/

variable (real : Number.Binary64 → Document)

/-- The document of a field with its boost. -/
def WeightedField.document (f : WeightedField) : Document :=
  fields [("field", f.field.document), ("weight", optional real f.weight)]

/-- The tag of the way a relevance call is written. -/
def RelevanceForm.tag : RelevanceForm → String
  | .noField | .field _ | .fields _ => "Standard"
  | .fieldEquals _ | .fieldEqualsMulti _ => "FieldEquals"
  | .named _ => "NamedArguments"

/-- The document of the fields that a relevance call searches. -/
def RelevanceForm.target : RelevanceForm → Document
  | .noField => .string "NoField"
  | .field f | .fieldEquals f => tagged "SingleField" f.document
  | .fields fs | .named fs => tagged "MultiField" (all (WeightedField.document real) fs)
  | .fieldEqualsMulti f =>
      tagged "MultiField" (.list [WeightedField.document real ⟨f, none⟩])

mutual

/-- The document of an expression. -/
def Expr.document : Expr → Document
  | .not operand span =>
      tagged "Not" (fields [("operand", operand.document), ("span", span.document)])
  | .and left right =>
      tagged "And" (fields [("left", left.document), ("right", right.document)])
  | .or left right =>
      tagged "Or" (fields [("left", left.document), ("right", right.document)])
  | .predicate p => tagged "Predicate" p.document

/-- The document of a predicate. -/
def Predicate.document : Predicate → Document
  | .comparison op left right =>
      tagged "Comparison"
        (fields
          [("op", .string op.tag), ("left", left.document), ("right", right.document)])
  | .isNull target negated span =>
      tagged "IsNull"
        (fields
          [("target", target.document), ("negated", .bool negated), ("span", span.document)])
  | .between target negated low high =>
      tagged "Between"
        (fields
          [
            ("target", target.document), ("negated", .bool negated), ("low", low.document),
            ("high", high.document)
          ])
  | .like left negated pattern =>
      tagged "Like"
        (fields
          [("left", left.document), ("negated", .bool negated), ("pattern", pattern.document)])
  | .regexp left negated pattern =>
      tagged "Regexp"
        (fields
          [("left", left.document), ("negated", .bool negated), ("pattern", pattern.document)])
  | .within target negated items span =>
      tagged "In"
        (fields
          [
            ("target", target.document), ("negated", .bool negated),
            ("list", .list (exprDocuments items)), ("span", span.document)
          ])
  | .atom a => tagged "Atom" a.document

/-- The document of an atom. -/
def Atom.document : Atom → Document
  | .constant c => tagged "Constant" c.document
  | .column name => tagged "Column" name.document
  | .call c => tagged "Function" c.document
  | .parenthesized inner span =>
      tagged "Parenthesized" (fields [("inner", inner.document), ("span", span.document)])
  | .arithmetic op left right =>
      tagged "Math"
        (fields
          [("op", .string op.tag), ("left", left.document), ("right", right.document)])

/-- The document of a constant. -/
def Constant.document : Constant → Document
  | ⟨value, span⟩ => fields [("value", value.document), ("span", span.document)]

/-- The document of a literal. -/
def Literal.document : Literal → Document
  | .string value => tagged "String" (.string value)
  | .integer value => tagged "Decimal" (.whole value)
  | .real value => tagged "Real" (real value)
  | .boolean value => tagged "Boolean" (.bool value)
  | .null => .string "Null"
  | .date value => tagged "Date" (.string value.text)
  | .time value => tagged "Time" (.string value.text)
  | .timestamp value => tagged "Timestamp" (.string (value.text 'T'))
  | .interval amount unit =>
      tagged "Interval" (fields [("value", amount.document), ("unit", .string (tagOf unit.text))])
  | .datetime name parens =>
      tagged "DatetimeConstant"
        (fields [("name", .string (tagOf name.text)), ("parens", .bool parens)])
  | .malformed kind text fault =>
      tagged "Malformed"
        (fields
          [
            ("kind", .string kind.tag), ("text", .string text), ("reason", .string fault.message)
          ])

/-- The document of a call. -/
def Call.document : Call → Document
  | ⟨shape, span⟩ => fields [("kind", shape.document), ("span", span.document)]

/-- The document of the shape of a call. -/
def CallShape.document : CallShape → Document
  | .nestedAll name path =>
      tagged "NestedAll" (fields [("name", .string name), ("path", path.document)])
  | .scalar name category args =>
      tagged "Scalar"
        (fields
          [
            ("name", .string name), ("category", .string category.tag),
            ("args", .list (exprDocuments args))
          ])
  | .case operand branches otherwise =>
      tagged "Case"
        (fields
          [
            ("operand", optionalExprDocument operand),
            ("alternatives", .list (branchDocuments branches)),
            ("else_result", optionalExprDocument otherwise)
          ])
  | .cast expr target =>
      tagged "Cast"
        (fields
          [("expr", expr.document), ("data_type", .string (tagOf target.text))])
  | .ranking function args window =>
      tagged "Window"
        (fields
          [
            ("function", tagged "Ranking"
              (fields
                [
                  ("function", .string (tagOf function.text)), ("args", .list (exprDocuments args))
                ])),
            ("over", window.document)
          ])
  | .windowed aggregate window =>
      tagged "Window"
        (fields
          [("function", tagged "Aggregate" aggregate.document), ("over", window.document)])
  | .aggregate aggregate => tagged "Aggregate" aggregate.document
  | .filtered aggregate orderBy filter =>
      tagged "FilteredAggregate"
        (fields
          [
            ("aggregate", aggregate.document), ("order_by", optionalOrderDocument orderBy),
            ("filter", filter.document)
          ])
  | .score name relevance weight =>
      tagged "ScoreRelevance"
        (fields
          [
            ("name", .string name), ("relevance", relevance.document),
            ("weight", optional real weight)
          ])
  | .relevance relevance => tagged "Relevance" relevance.document
  | .highlight field options =>
      tagged "Highlight"
        (fields [("field", field.document), ("args", all HighlightOption.document options)])
  | .position substring string =>
      tagged "Position"
        (fields [("substring", substring.document), ("string", string.document)])
  | .extract unit arg =>
      tagged "Extract" (fields [("part", .string (tagOf unit.text)), ("arg", arg.document)])
  | .getFormat target format =>
      tagged "GetFormat"
        (fields
          [("format_type", .string (tagOf target.text)), ("format", format.document)])
  | .timestamp function unit first second =>
      tagged "Timestamp"
        (fields
          [
            ("function", .string function.tag), ("part", .string (tagOf unit.text)),
            ("first", first.document), ("second", second.document)
          ])

/-- The document of a branch. -/
def CaseBranch.document : CaseBranch → Document
  | ⟨condition, result⟩ =>
      fields [("condition", condition.document), ("result", result.document)]

/-- The document of an aggregate call. -/
def Aggregate.document : Aggregate → Document
  | .regular function arg =>
      tagged "Regular"
        (fields [("function", .string (tagOf function.text)), ("arg", arg.document)])
  | .countStar => .string "CountStar"
  | .countDistinct args =>
      tagged "CountDistinct" (fields [("args", .list (exprDocuments args))])
  | .percentile function field percent compression =>
      tagged "Percentile"
        (fields
          [
            ("function", .string (tagOf function.text)), ("field", field.document),
            ("percent", percent.document), ("compression", optionalConstantDocument compression)
          ])

/-- The document of a window. -/
def Window.document : Window → Document
  | ⟨partitionBy, orderBy, span⟩ =>
      fields
        [
          ("partition_by", optionalPartitionDocument partitionBy),
          ("order_by", optionalOrderDocument orderBy), ("span", span.document)
        ]

/-- The document of a partition. -/
def PartitionBy.document : PartitionBy → Document
  | ⟨exprs, span⟩ => fields [("expressions", .list (exprDocuments exprs)), ("span", span.document)]

/-- The document of an order. -/
def OrderBy.document : OrderBy → Document
  | ⟨items, span⟩ => fields [("elements", .list (itemDocuments items)), ("span", span.document)]

/-- The document of an expression to order by. -/
def OrderItem.document : OrderItem → Document
  | ⟨expr, direction, nulls⟩ =>
      fields
        [
          ("expr", expr.document),
          ("direction", optional (fun d : Direction => .string d.tag) direction),
          ("nulls", optional (fun n : NullOrder => .string n.tag) nulls)
        ]

/-- The document of a filter. -/
def Filter.document : Filter → Document
  | ⟨condition, span⟩ =>
      fields [("condition", condition.document), ("span", span.document)]

/-- The document of a full-text search. -/
def Relevance.document : Relevance → Document
  | ⟨name, form, query, options⟩ =>
      fields
        [
          ("name", .string name), ("syntax", .string form.tag), ("target", form.target real),
          ("query", query.document), ("args", .list (optionDocuments options))
        ]

/-- The document of a search text or option value. -/
def SearchValue.document : SearchValue → Document
  | .name n => tagged "Name" n.document
  | .constant c => tagged "Constant" c.document

/-- The document of an option. -/
def RelevanceOption.document : RelevanceOption → Document
  | ⟨name, quotedName, value⟩ =>
      fields
        [("name", .string name), ("quoted_name", .bool quotedName), ("value", value.document)]

/-- The documents of expressions. -/
def exprDocuments : List Expr → List Document
  | [] => []
  | e :: es => e.document :: exprDocuments es

/-- The documents of branches. -/
def branchDocuments : List CaseBranch → List Document
  | [] => []
  | b :: bs => b.document :: branchDocuments bs

/-- The documents of expressions to order by. -/
def itemDocuments : List OrderItem → List Document
  | [] => []
  | i :: is => i.document :: itemDocuments is

/-- The documents of options. -/
def optionDocuments : List RelevanceOption → List Document
  | [] => []
  | o :: os => o.document :: optionDocuments os

/-- The document of an expression that may be absent. -/
def optionalExprDocument : Option Expr → Document
  | none => .null
  | some e => e.document

/-- The document of a constant that may be absent. -/
def optionalConstantDocument : Option Constant → Document
  | none => .null
  | some c => c.document

/-- The document of an order that may be absent. -/
def optionalOrderDocument : Option OrderBy → Document
  | none => .null
  | some o => o.document

/-- The document of a partition that may be absent. -/
def optionalPartitionDocument : Option PartitionBy → Document
  | none => .null
  | some p => p.document

end

end SearchSql
