import SearchSql.Proofs.ClauseIsolation
import SearchSql.Proofs.NameReading
import SearchSql.Proofs.PatternRereading
import SearchSql.Proofs.QueryRetracing
import SearchSql.Proofs.SourceOrder
import SearchSql.Proofs.TimeText
import SearchSql.Proofs.ViewRendering

/-!
# Statements read back from their text

Every rule is retraced over the tokens that are written for what it builds (`allRetrace_derive`).
-/

set_option autoImplicit false

namespace SearchSql

namespace Grammar

open SearchSql.Grammar.Parser SearchSql.Token

variable {library : Time.Library} {α : Type} {call : Callee}

/-- A rule is retraced if the rules that it runs on are. -/
theorem retraces_rule (hcall : AllRetrace call) (n : Nonterminal α) : letI := n.erases
    Retraces n.Opens n.Starts n.behind (rule call n) (rule read n) n.outline (fun _ => n.Ends) := by
  have hliteral : Steady (literalRule call) :=
    (steady_congruence.literalRule (b := 0) ⟨hcall.steady _, hcall.steady _⟩).1
  cases n with
  | expr least => exact retraces_exprRule hcall least
  | predicate least => exact retraces_predicateRule hcall least
  | arithmetic least => exact retraces_arithmeticRule hcall least
  | operand => exact retraces_operandRule hcall
  | parenthesized => exact retraces_parenthesizedRule hcall
  | constant => exact retraces_constantRule hliteral (hcall.rule .interval)
  | interval => exact retraces_intervalRule hcall
  | call => exact retraces_callRule hcall
  | shape family => exact retraces_shapeRule hcall family
  | arguments => exact retraces_argumentsRule hcall
  | scalar category => exact retraces_scalarRule hcall category
  | case => exact retraces_caseRule hcall
  | cast => exact retraces_castRule hcall
  | ranking function => exact retraces_rankingRule hcall function
  | aggregate function => exact retraces_aggregateRule hcall function
  | percentile function => exact retraces_percentileRule hcall function
  | aggregateTail aggregate => exact retraces_aggregateTailRule hcall rfl
  | window => exact retraces_windowRule hcall
  | filter => exact retraces_filterRule hcall
  | orderBy => exact retraces_orderByRule hcall
  | orderItem => exact retraces_orderItemRule hcall
  | score => exact retraces_scoreRule hcall
  | relevance kind => exact retraces_relevanceRule hcall kind
  | fieldEquals => exact retraces_fieldEqualsRule hcall
  | namedArguments => exact retraces_namedArgumentsRule hcall
  | searchValue => exact retraces_searchValueRule hcall
  | relevanceOptions => exact retraces_relevanceOptionsRule hcall
  | position => exact retraces_positionRule hcall
  | extract => exact retraces_extractRule hcall
  | getFormat => exact retraces_getFormatRule hcall
  | timestamp function => exact retraces_timestampRule hcall function
  | selectItems => exact retraces_selectItemsRule hcall
  | selectItem starAllowed => exact retraces_selectItemRule hcall starAllowed
  | relation => exact retraces_relationRule hcall
  | condition word => exact retraces_conditionRule hcall word
  | groupBy => exact retraces_groupByRule hcall
  | query => exact retraces_queryRule hcall

/-- In the first operand of `POSITION`, the body of an expression is run where `IN` ends it. -/
theorem retraces_beforeIn (hcall : AllRetrace call) :
    Retraces Anywhere Heads [] (atSeparator (exprRule call 0)) (atSeparator (exprRule read 0))
      Expr.outline (fun _ => Alike) := by
  rw [exprRule_eq, exprRule_eq, atSeparator_nest, atSeparator_nest]
  exact (retraces_exprBody hcall 0).separateHere.nest 1

/-- Every run of a rule is retraced, whatever fuel there is. -/
theorem allRetrace_derive (fuel : Nat) : AllRetrace (derive fuel) := by
  induction fuel with
  | zero =>
    refine ⟨fun n => steady_derive 0 n, fun n => ?_, fun a a' _ => ?_, ?_⟩
    · intro s a t _ _ heq
      cases heq
    · intro s a t _ _ heq
      cases heq
    · intro s a t _ _ heq
      rw [atSeparator_apply] at heq
      cases heq
  | succ fuel ih =>
    refine ⟨fun n => steady_derive _ n, fun n => ?_, fun a a' ha => ?_, ?_⟩
    · rw [read_eq_rule n]
      exact retraces_rule ih n
    · rw [read_eq_rule]
      exact retraces_aggregateTailRule ih ha
    · rw [read_eq_rule]
      exact retraces_beforeIn ih

/-! ## Texts read again -/

/-- The run of a text that stops at the first error is one that can be retraced. -/
theorem primed_ofTokens (hlibrary : library.ReadsBack) {text : String} {settings : Settings}
    (hstrict : settings.recover = false) :
    (State.ofTokens (tokenize text) settings).Primed := by
  have hall : (State.ofTokens (tokenize text) settings).cursor.allTokens = tokenize text :=
    Cursor.allTokens_ofTokens (tiling_tokensFrom 0 text.toList).getLast?_eq rfl
  exact ⟨⟨hall.symm ▸ (scanned_tokenize text).sound, fun _ => hstrict⟩, settled_ofTokens _ _,
    rfl, hlibrary⟩

/-- With the fuel of the settings the rule of statements does what it does without a limit of fuel.
-/
theorem statementRule_derive (tokens : List Token) (settings : Settings) :
    statementRule (derive (fuelFor settings)) (State.ofTokens tokens settings) =
      statementRule read (State.ofTokens tokens settings) :=
  statementRule_congr (derive_eq_read (query_fuel_le settings))

/-- Behind `SELECT` a statement is the query. -/
theorem statementRule_of_query {s t : State} {q : Query}
    (hselect : s.cursor.current.kind = .keyword .SELECT)
    (h : read .query s = .ok q t) : statementRule read s = .ok (.select q) t := by
  unfold statementRule
  rw [current_bind_apply, hselect]
  exact bind_eq_ok_iff.2 ⟨q, t, h, rfl⟩

/-- Behind a last semicolon the input is at its end. -/
theorem State.Faces.behindSemicolon_isEnd {t : State} (h : t.Faces []) :
    t.behindSemicolon.cursor.current.isEnd = true := by
  have hend : t.cursor.current.kind = .endOfInput := h.current
  unfold State.behindSemicolon
  rw [if_neg (by rw [hend]; exact TokenKind.noConfusion)]
  exact beq_iff_eq.2 hend

/-- A query that is read from a text is read again from the text that writes it. -/
theorem exists_query_again (hlibrary : library.ReadsBack) {text : String} {settings : Settings}
    {q : Query} (h : parseStrict text settings = .ok (.select q)) (hfine : Fine q.outline) :
    ∃ q', parseStrict (Statement.select q).render settings = .ok (.select q') ∧
      erase q = erase q' := by
  have hlegible : (Statement.select q).Legible := (parseStrict_denotes h).1
  obtain ⟨t, ht⟩ := parseTokensStrict_eq_ok.1 h
  obtain ⟨u, hu⟩ := statementRule_of_runRoot ht
  generalize hstrict : { settings with recover := false } = strict at hu
  have hprimed : (State.ofTokens (tokenize text) strict).Primed :=
    primed_ofTokens hlibrary (hstrict ▸ rfl)
  rw [statementRule_derive] at hu
  have hquery := query_of_statementRule hu
  rw [← derive_eq_read (query_fuel_le strict)] at hquery
  obtain ⟨items, hitems, hr⟩ :=
    (allRetrace_derive (fuelFor strict)).rule .query _ q u hprimed trivial hquery
  obtain rfl : q.outline = items := hitems
  -- Nothing stands behind what is written.
  have hend : Ended u.cursor [] := .inl rfl
  have htwin : (State.ofTokens (tokenize text) strict).Twin
      (State.ofTokens (tokenize (Statement.select q).render) strict) := ⟨rfl, rfl, rfl, rfl, rfl⟩
  have hfaces := faces_ofTokens strict (Statement.tokensOf_render hlegible)
  rw [← List.append_nil (writtenTokens _)] at hfaces
  obtain ⟨q', t', hagain, hsame, -, hrest⟩ := hr.again _ [] hfine htwin hfaces hend
  have hselect := hfaces.current.trans (hr.front [] hfine hend).2
  have hstatement := statementRule_of_query hselect hagain
  rw [← statementRule_derive] at hstatement
  refine ⟨q', parseTokensStrict_eq_ok_iff_ends.2 ⟨t', ?_, hrest.behindSemicolon_isEnd⟩, hsame⟩
  subst hstrict
  exact optionalStatement_of_statementRule hstatement

end Grammar

/-! ## Statements without places and quotes -/

/-- Erasing places and quotes changes no text. -/
theorem View.erased_keepsText : View.erased.KeepsText := ⟨fun _ => rfl, fun _ => rfl⟩

/-- Erasing places first changes nothing. -/
theorem View.erased_comp_placeless : View.erased.comp .placeless = .erased := rfl

/-- Statements that are the same but for places are the same but for places and quotes. -/
theorem Statement.view_erased_of_placeless {s s' : Statement}
    (h : s.view .placeless = s'.view .placeless) : s.view .erased = s'.view .erased := by
  rw [← View.erased_comp_placeless, ← Statement.view_view, h, Statement.view_view]

/-- A statement with a fine outline is written as a text that is parsed. -/
theorem Statement.exists_again_of_fine [library : Time.Library] (hlibrary : library.ReadsBack)
    {text : String} {settings : Settings} {found : Statement}
    (h : parseStrict text settings = .ok found) (hfine : Grammar.Fine found.outline) :
    ∃ again, parseStrict found.render settings = .ok again ∧
      again.view .erased = found.view .erased := by
  by_cases hpatterns : found.patterns = []
  · obtain ⟨q, rfl⟩ : ∃ q, found = .select q := by
      cases found with
      | select q => exact ⟨q, rfl⟩
      | showTables tables span => cases hpatterns
      | describe tables columns span => cases hpatterns
    obtain ⟨q', hq', hsame⟩ := Grammar.exists_query_again hlibrary h hfine
    exact ⟨.select q', hq', congrArg Statement.select hsame.symm⟩
  · obtain ⟨t, ht⟩ := parseTokensStrict_eq_ok.1 h
    obtain ⟨ts, next, rest, htext, hspelled⟩ := exists_spelled_of_runRoot ht hpatterns
    obtain ⟨again, hagain, hview⟩ :=
      Statement.exists_again hpatterns (hspelled.readIn htext).2 settings
    exact ⟨again, hagain, Statement.view_erased_of_placeless hview⟩

/-- A statement that is read from a text is read again from the text that writes it, up to places and
quotes, and the same text writes what is read. This needs that no segment of a qualified name but the
first has a dot in front, and that the library reads back the dates and times that it has read. -/
theorem parseStrict_render [library : Time.Library] (hlibrary : library.ReadsBack) {text : String}
    {settings : Settings} {found : Statement} (h : parseStrict text settings = .ok found)
    (hdots : ∀ name ∈ qualifiedNames found.outline,
      ∀ part ∈ name.parts.tail, part.value.toList.head? ≠ some '.') :
    ∃ again, parseStrict found.render settings = .ok again ∧
      again.view .erased = found.view .erased ∧ again.render = found.render := by
  have hfine : Grammar.Fine found.outline :=
    ⟨(parseStrict_denotes h).2.1, fun name hname =>
      hdots name (List.mem_filterMap.2 ⟨_, hname, rfl⟩)⟩
  obtain ⟨again, hagain, hsame⟩ := Statement.exists_again_of_fine hlibrary h hfine
  refine ⟨again, hagain, hsame, ?_⟩
  rw [← again.render_view View.erased_keepsText, hsame, found.render_view View.erased_keepsText]

/-- The filter of an aggregate, an alias without its word, a bare dot in front of a name, a relevance
function behind its field, a date, an order and the other form of a limit are read again. -/
theorem parseStrict_render_search :
    ∃ text found again, text =
        "select count(*) filter (where `x` is not null) n, .5e1 from `.kibana`.`order` where " ++
          "title = match_query('it''s') or not d - 1 > date '2020-1-05' order by a nulls last limit 5, 7;" ∧
      parseStrict text Settings.standard = .ok found ∧
      parseStrict found.render Settings.standard = .ok again ∧
      again.view .erased = found.view .erased ∧ again.render = found.render := by
  obtain ⟨found, h, hdots⟩ := exists_ok_of_check (p := fun found : Statement =>
      ∀ name ∈ qualifiedNames found.outline,
        ∀ part ∈ name.parts.tail, part.value.toList.head? ≠ some '.')
    (x := parseStrict
      ("select count(*) filter (where `x` is not null) n, .5e1 from `.kibana`.`order` where " ++
        "title = match_query('it''s') or not d - 1 > date '2020-1-05' order by a nulls last limit 5, 7;")
      Settings.standard) (by decide +kernel)
  obtain ⟨again, hagain, hsame, hrender⟩ :=
    parseStrict_render Time.Gregorian.library_readsBack h hdots
  exact ⟨_, found, again, rfl, h, hagain, hsame, hrender⟩

end SearchSql
