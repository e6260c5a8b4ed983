import SearchSql.Grammar.Calls

/-!
# Full-text search

A relevance function searches no field, one field or several, and is written with the field as its
first argument, behind the field and an equals sign, or with named arguments. Options follow, by
names from a fixed list or by any name written as a string.
-/

set_option autoImplicit false

namespace SearchSql.Grammar

open SearchSql.Grammar.Parser

/-- A constant or a qualified name. -/
def searchValueRule (call : Callee) : Parser SearchValue := do
  if (← get).cursor.startsConstant then return .constant (← call .constant)
  return .name (← qualifiedName)

/-- The name of an option, and whether it is written as a string. -/
def relevanceOptionName : Parser (String × Bool) := do
  match (← current).kind with
  | .string name =>
      skip 1
      return (name, true)
  | _ => return (← optionName relevanceOptionNames "relevance option name", false)

/-- `, option = value, ...` -/
def relevanceOptionsRule (call : Callee) : Parser (List RelevanceOption) := do
  let options ← loop [] fun options => do
    if ← takeSymbol .comma then
      let (name, quotedName) ← relevanceOptionName
      let _ ← symbol .eq
      return .yield (⟨name, quotedName, ← call .searchValue⟩ :: options)
    return .done options
  return options.reverse

/-- A named argument of a relevance function of several fields. -/
inductive NamedArgument where
  | query (value : SearchValue)
  | fields (fields : List WeightedField)

/-- `query = value` or `fields = [field, ...]`. A single field needs no brackets. -/
def namedArgument (call : Callee) : Parser NamedArgument := do
  let token ← current
  if token.kind.isWord "query" then
    skip 1
    let _ ← symbol .eq
    return .query (← call .searchValue)
  if token.kind.isWord "fields" then
    skip 1
    let _ ← symbol .eq
    if ← atSymbol .leftBracket then return .fields (← fieldList)
    return .fields [← weightedField]
  rejectCurrent "query or fields"

/-- Both named arguments, in either order. -/
def namedArgumentsRule (call : Callee) : Parser (SearchValue × List WeightedField) := do
  let first ← namedArgument call
  let _ ← symbol .comma
  let second ← namedArgument call
  match first, second with
  | .query query, .fields fields => return (query, fields)
  | .fields fields, .query query => return (query, fields)
  | .query _, .query _ => rejectCurrent "fields"
  | .fields _, .fields _ => rejectCurrent "query"

/-- The text that a relevance function of a kind searches for, and the fields it searches, in the
form in which both are written. -/
def searchTarget (call : Callee) : RelevanceKind → Parser (RelevanceForm × SearchValue)
  | .noField => return (.noField, ← call .searchValue)
  | .singleField => do
      let field ← field
      let _ ← symbol .comma
      return (.field field, ← call .searchValue)
  | .multiField => do
      if startsNamedArgument (← current).kind (← peek 1).kind then
        let (query, fields) ← call .namedArguments
        return (.named fields, query)
      let fields ← fieldList
      let _ ← symbol .comma
      return (.fields fields, ← call .searchValue)

/-- A relevance function with its fields as arguments. -/
def relevanceRule (call : Callee) (kind : RelevanceKind) : Parser Relevance := do
  let name ← callName
  let (form, query) ← searchTarget call kind
  let options ← call .relevanceOptions
  let _ ← symbol .rightParen
  return ⟨name, form, query, options⟩

/-- `field = MATCH_QUERY('text', ...)` -/
def fieldEqualsRule (call : Callee) : Parser Relevance := do
  let field ← field
  let _ ← symbol .eq
  match (← current).kind.bareWord?.bind fieldEqualsKind? with
  | some kind =>
      let name ← callName
      let query ← call .searchValue
      let options ← call .relevanceOptions
      let _ ← symbol .rightParen
      let form := if kind = .multiField then .fieldEqualsMulti field else .fieldEquals field
      return ⟨name, form, query, options⟩
  | none => rejectCurrent "relevance function"

/-- The relevance function that a score is made of. -/
def scoredRelevance (call : Callee) : Parser Relevance := do
  if startsFieldEquals (← get).cursor.ahead then call .fieldEquals
  else
    let token ← current
    match token.kind.bareWord?.bind RelevanceKind.ofUpper? with
    | some kind => call (.relevance kind)
    | none =>
        reject
          (.noAlternative "relevance function"
            ["MATCH", "MULTI_MATCH", "QUERY", "field = MATCH_QUERY"] token)

/-- `SCORE(relevance, weight)`, of which the last may be left out -/
def scoreRule (call : Callee) : Parser CallShape := do
  let name ← callName
  let relevance ← scoredRelevance call
  let weight ← if ← takeSymbol .comma then some <$> weight else pure none
  let _ ← symbol .rightParen
  return .score name relevance weight

end SearchSql.Grammar
