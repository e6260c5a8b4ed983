import SearchSql.Document.Trees
import SearchSql.Grammar.Outcome
import SearchSql.Number.Notation

/-!
# Documents of statements and outcomes
-/

set_option autoImplicit false

namespace SearchSql

open Document (tagged fields optional all)

section

variable (real : Number.Binary64 → Document)

/-- The document of an item of the select list. -/
def SelectItem.document : SelectItem → Document
  | .star span => tagged "Star" (fields [("span", span.document)])
  | .expr e aliasName =>
      tagged "Expression"
        (fields [("expr", e.document real), ("alias", optional Ident.document aliasName)])

/-- The document of a condition. -/
def Condition.document (c : Condition) : Document :=
  fields [("condition", c.expr.document real), ("span", c.span.document)]

/-- The document of a grouping. -/
def GroupBy.document (g : GroupBy) : Document :=
  fields [("expressions", all (Expr.document real) g.exprs), ("span", g.span.document)]

mutual

/-- The document of a query. -/
def Query.document : Query → Document
  | ⟨quantifier, items, relation, condition, groupBy, having, orderBy, limit, span⟩ =>
      fields
        [
          ("spec", optional (fun q : Quantifier => .string q.tag) quantifier),
          ("columns", all (SelectItem.document real) items),
          ("from", optionalRelationDocument relation),
          ("where_clause", optional (Condition.document real) condition),
          ("group_by", optional (GroupBy.document real) groupBy),
          ("having", optional (Condition.document real) having),
          ("order_by", optional (OrderBy.document real) orderBy),
          ("limit", optional Limit.document limit),
          ("span", span.document)
        ]

/-- The document of a relation. -/
def Relation.document : Relation → Document
  | .table name aliasName =>
      tagged "Table"
        (fields [("name", name.document), ("alias", optional Ident.document aliasName)])
  | .subquery query aliasName span =>
      tagged "Subquery"
        (fields
          [("query", query.document), ("alias", aliasName.document), ("span", span.document)])

/-- The document of a relation that may be absent. -/
def optionalRelationDocument : Option Relation → Document
  | none => .null
  | some relation => relation.document

end

/-- The document of a statement. -/
def Statement.document : Statement → Document
  | .select query => tagged "Select" (query.document real)
  | .showTables tables span =>
      tagged "Show" (fields [("table_filter", tables.document), ("span", span.document)])
  | .describe tables columns span =>
      tagged "Describe"
        (fields
          [
            ("table_filter", tables.document),
            ("column_filter", optional NameFilter.document columns), ("span", span.document)
          ])

/-- The document of an outcome. -/
def Outcome.document (o : Outcome) : Document :=
  fields
    [
      ("statement", optional (Statement.document real) o.statement),
      ("diagnostics", all Diagnostic.document o.diagnostics),
      ("aborted", .bool o.aborted)
    ]

end

/-- The document of a real number. -/
def Document.realNumber (x : Number.Binary64) : Document := .number (Number.Layout.document.text x)

end SearchSql
