import SearchSql.Proofs.Checked

/-!
# Rules stay in bounds

Every rule that starts in bounds ends in bounds and takes back its changes of the counters, whether it
succeeds or fails (`IsRule.tracks`). Together with the checked parse this bounds the states of a whole
parse (`parse_stays_inBounds`).
-/

set_option autoImplicit false

namespace SearchSql.Grammar

open SearchSql.Grammar.Parser

/-- The rules of the grammar. Those that come to a nonterminal run its rule with some fuel. -/
inductive IsRule : {α : Type} → Parser α → Prop where
  | nonterminal {α : Type} (fuel : Nat) (n : Nonterminal α) : IsRule (derive fuel n)
  | ident : IsRule ident
  | qualifiedName : IsRule qualifiedName
  | optionalAlias : IsRule optionalAlias
  | count : IsRule count
  | weight : IsRule weight
  | datetimeUnit : IsRule datetimeUnit
  | field : IsRule field
  | weightedField : IsRule weightedField
  | fieldList : IsRule fieldList
  | pattern : IsRule pattern
  | likePattern : IsRule likePattern
  | nameFilter : IsRule nameFilter
  | columnFilter : IsRule columnFilter
  | showTables : IsRule showTables
  | describe : IsRule describe
  | number : IsRule number
  | wordLiteral (kind : TemporalKind) : IsRule (wordLiteral kind)
  | bracedLiteral : IsRule bracedLiteral
  | datetimeConstant (name : DatetimeConstant) : IsRule (datetimeConstant name)
  | simpleLiteral (value : Literal) : IsRule (simpleLiteral value)
  | literal (fuel : Nat) : IsRule (literalRule (derive fuel))
  | callName : IsRule callName
  | nestedAll : IsRule nestedAll
  | optionName (names : List String) (expected : String) : IsRule (optionName names expected)
  | highlightOptions : IsRule highlightOptions
  | highlight : IsRule highlight
  | dataType : IsRule dataType
  | formatTarget : IsRule formatTarget
  | singleUnit : IsRule singleUnit
  | caseBranches (fuel : Nat) : IsRule (caseBranches (derive fuel))
  | callShape (fuel : Nat) : IsRule (callShape (derive fuel))
  | direction : IsRule direction
  | nullOrder : IsRule nullOrder
  | partitionBy (fuel : Nat) : IsRule (partitionBy (derive fuel))
  | orderedFilter (fuel : Nat) : IsRule (orderedFilter (derive fuel))
  | attempt (fuel : Nat) (rule : String) :
      IsRule (Parser.attempt rule (Grammar.orderedFilter (derive fuel)))
  | logicalOperand (fuel : Nat) : IsRule (logicalOperand (derive fuel))
  | test (fuel : Nat) (left : Predicate) (test : Test) : IsRule (testRule (derive fuel) left test)
  | fieldEqualsCall (fuel : Nat) : IsRule (fieldEqualsCall (derive fuel))
  | relevanceOptionName : IsRule relevanceOptionName
  | namedArgument (fuel : Nat) : IsRule (namedArgument (derive fuel))
  | searchTarget (fuel : Nat) (kind : RelevanceKind) : IsRule (searchTarget (derive fuel) kind)
  | scoredRelevance (fuel : Nat) : IsRule (scoredRelevance (derive fuel))
  | limit : IsRule limit
  | quantifier : IsRule quantifier
  | limitClause : IsRule limitClause
  | clauseEnd : IsRule clauseEnd
  | inputEnd : IsRule inputEnd
  | statement (fuel : Nat) : IsRule (statementRule (derive fuel))
  | optionalStatement (fuel : Nat) : IsRule (optionalStatement (derive fuel))
  | root (fuel : Nat) : IsRule (rootRule (derive fuel))

theorem tracks_derive {α : Type} (fuel b : Nat) (n : Nonterminal α) :
    Tracks b (derive fuel n) (derive fuel n) :=
  .refl (steady_derive fuel n) (placement_lawful.derive fuel n) b

/-- Every rule keeps a run in bounds. -/
theorem IsRule.tracks {α : Type} {p : Parser α} (h : IsRule p) (b : Nat) : Tracks b p p := by
  have hQ := tracks_congruence
  have hR := hQ.toCongruence
  have hn {α : Type} (fuel : Nat) (n : Nonterminal α) := tracks_derive fuel b n
  have hordered (fuel : Nat) : Tracks b (Grammar.orderedFilter (derive fuel))
      (Grammar.orderedFilter (derive fuel)) :=
    (hn fuel .orderBy).bind fun _ => (hn fuel .filter).bind fun _ => tracks_pure _ b
  have hoptional (fuel : Nat) : Tracks b (Grammar.optionalStatement (derive fuel))
      (Grammar.optionalStatement (derive fuel)) := by
    refine Tracks.current_bind fun t => ?_
    split
    · exact tracks_pure none b
    · exact tracks_pure none b
    · exact Tracks.recover (hQ.statementRule (hn fuel .query))
  -- Every rule is that of a nonterminal, a leaf, or one of the two built from their callees above.
  cases h with
  | nonterminal fuel n => exact hn fuel n
  | ident => exact hR.ident
  | qualifiedName => exact hR.qualifiedName
  | optionalAlias => exact hR.optionalAlias
  | count => exact hR.count
  | weight => exact hR.weight
  | datetimeUnit => exact hR.datetimeUnit
  | field => exact hR.field
  | weightedField => exact hR.weightedField
  | fieldList => exact hR.fieldList
  | pattern => exact hR.pattern
  | likePattern => exact hR.likePattern
  | nameFilter => exact hR.nameFilter
  | columnFilter => exact hR.columnFilter
  | showTables => exact hR.showTables
  | describe => exact hR.describe
  | number => exact hR.number
  | wordLiteral kind => exact hR.wordLiteral kind
  | bracedLiteral => exact hR.bracedLiteral
  | datetimeConstant name => exact hR.datetimeConstant name
  | simpleLiteral value => exact hR.simpleLiteral value
  | literal fuel => exact hR.literalRule (hn fuel .interval)
  | callName => exact hR.callName
  | nestedAll => exact hR.nestedAll
  | optionName names expected => exact hR.optionName names expected
  | highlightOptions => exact hR.highlightOptions
  | highlight => exact hR.highlight
  | dataType => exact hR.dataType
  | formatTarget => exact hR.formatTarget
  | singleUnit => exact hR.singleUnit
  | caseBranches fuel => exact hR.caseBranches (hn fuel .wholeExpr)
  | callShape fuel =>
    exact hR.callShape (hn fuel .case) (hn fuel .cast) (fun category => hn fuel (.scalar category))
      fun family => hn fuel (.shape family)
  | direction => exact hR.direction
  | nullOrder => exact hR.nullOrder
  | partitionBy fuel => exact hR.partitionBy (hn fuel .wholeExpr)
  | orderedFilter fuel => exact hordered fuel
  | attempt fuel rule => exact (hordered fuel).attempt rule
  | logicalOperand fuel =>
    exact hR.logicalOperand (hn fuel (.expr notPrecedence)) (hn fuel (.predicate 0))
  | test fuel left test => exact hR.testRule test (hn fuel _) (hn fuel .wholeExpr) left
  | fieldEqualsCall fuel => exact hR.fieldEqualsCall (hn fuel .fieldEquals)
  | relevanceOptionName => exact hR.relevanceOptionName
  | namedArgument fuel => exact hR.namedArgument (hn fuel .searchValue)
  | searchTarget fuel kind =>
    exact hR.searchTarget (hn fuel .searchValue) (hn fuel .namedArguments) kind
  | scoredRelevance fuel =>
    exact hR.scoredRelevance (hn fuel .fieldEquals) fun kind => hn fuel (.relevance kind)
  | limit => exact hR.limit
  | quantifier => exact hR.quantifier
  | limitClause => exact hQ.limitClause
  | clauseEnd => exact hQ.clauseEnd
  | inputEnd => exact .refl steady_inputEnd placement_lawful.inputEnd b
  | statement fuel => exact hQ.statementRule (hn fuel .query)
  | optionalStatement fuel => exact hoptional fuel
  | root fuel =>
    exact hQ.rootRule (hn fuel .query) (.refl steady_inputEnd placement_lawful.inputEnd b)
      (fun _ _ _ hs => hs.elim) fun _ _ _ hs => hs.elim

theorem restores_of_isRule {α : Type} {p : Parser α} (h : IsRule p) {s : State}
    (hs : s.InBounds) : (lastState (p s)).InBounds ∧ s.Restores (lastState (p s)) := by
  have htracks := h.tracks s.budget
  have hleads := htracks.steadyRight s
  obtain ⟨-, hplaced⟩ := htracks.same (Nat.le_refl _) hs
  exact ⟨hs.leads hleads hplaced, hleads.restores⟩

end SearchSql.Grammar

namespace SearchSql

open SearchSql.Grammar

/-- No parse leaves its bounds, whatever the tokens and the settings are. With all checks made, it
is what it is without them, and does not stop for good. Each rule that starts in bounds ends in
bounds and restores what it found, be it with a result or with a failure. In bounds, the cursor is in
the list, and so is every token looked at. -/
theorem parse_stays_inBounds [Time.Library] (tokens : List Token) (settings : Settings) :
    (checkedRun tokens settings = runRoot tokens settings ∧
      ∀ t, checkedRun tokens settings ≠ .error .outOfFuel t) ∧
    parseTokens tokens settings = outcome (checkedRun tokens settings) ∧
    (parseTokensStrict tokens settings =
      match checkedRun tokens { settings with recover := false } with
      | .ok (some statement) _ => .ok statement
      | .ok none s => .error (.rejected (.unexpected "statement" s.cursor.current))
      | .error failure _ => .error failure) ∧
    (∀ {α : Type} (p : Parser α), IsRule p → ∀ s : State, s.InBounds →
      (lastState (p s)).InBounds ∧ s.Restores (lastState (p s))) ∧
    (State.ofTokens tokens settings).InBounds ∧
    ∀ s : State, s.InBounds →
      s.depth ≤ min s.settings.maxDepth 128 ∧
      s.cursor.position ≤ s.cursor.allTokens.findIdx Token.isEnd ∧
      s.cursor.position < s.cursor.allTokens.length ∧
      (∀ k, s.cursor.allTokens[min (s.cursor.position + k) (s.cursor.allTokens.length - 1)]? =
        some (s.cursor.peek k)) ∧
      if s.cursor.position = 0 then
        ∃ t, s.cursor.allTokens[0]? = some t ∧ s.cursor.previousSpan = .point t.span.start
      else ∃ t, s.cursor.allTokens[s.cursor.position - 1]? = some t ∧
        s.cursor.previousSpan = t.span := by
  -- Each check holds, so the checked run is the run itself.
  have hchecked := checkedRun_eq tokens settings
  refine ⟨⟨hchecked, ?_⟩, ?_, ?_, ?_, inBounds_ofTokens tokens settings, ?_⟩
  · rw [hchecked]
    exact runRoot_ne_outOfFuel tokens settings
  · rw [hchecked]
    rfl
  · rw [checkedRun_eq]
    rfl
  · intro α p hp s hs
    exact restores_of_isRule hp hs
  · intro s hs
    exact ⟨hs.depth, hs.placed, s.cursor.position_lt, s.cursor.getElem?_peek,
      s.cursor.getElem?_previous⟩

end SearchSql
