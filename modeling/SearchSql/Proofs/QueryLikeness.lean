import SearchSql.Proofs.Fuel
import SearchSql.Proofs.RuleLikeness

/-!
# Queries on token lists that look alike

A likeness under which failed clauses are passed over alike, and clauses end alike, is respected by
queries (`like_queryRule`), and so by every rule with any fuel (`like_derive`).
-/

set_option autoImplicit false

namespace SearchSql.Grammar

open SearchSql.Grammar.Parser

theorem steady_statementRule {call : Callee} (h : Steady (call .query)) :
    Steady (statementRule call) := (steady_congruence.statementRule (b := 0) ⟨h, h⟩).1

theorem steady_optionalStatement {call : Callee} (h : Steady (call .query)) :
    Steady (optionalStatement call) := by
  refine steady_current_bind fun t => ?_
  obtain ⟨kind, text, span⟩ := t
  have hrecover := (steady_statementRule h).recover
  cases kind with
  | endOfInput => exact steady_pure _
  | symbol sign =>
    cases sign with
    | semicolon => exact steady_pure _
    | _ => exact hrecover
  | _ => exact hrecover

namespace Likeness

variable {α β : Type} {L : Likeness} {front : Bool} {c d : Callee}

/-- A boundary is seen as one. -/
theorem isBoundary_view {V : View} (inside : Bool) (k : TokenKind) :
    isBoundary inside (k.view V) = isBoundary inside k := by
  cases k <;> rfl

/-- Where a comparison ends, there is a boundary. -/
theorem isBoundary_of_isEndKind (inside : Bool) {k : TokenKind} (h : IsEndKind k) :
    isBoundary inside k = true := by
  obtain rfl | rfl := h <;> rfl

/-- What makes a likeness one that queries respect. -/
structure QueryLawful (L : Likeness) : Prop extends L.Lawful where
  recover {α β : Type} {front : Bool} {f : α → β} {p : Parser α} {q : Parser β} : Steady p →
    Steady q → L.Like front f p q → L.Like front (Option.map f) (recover p) (recover q)
  clauseEnd : L.Like false id clauseEnd clauseEnd

section Queries

variable (h : LikeCallees L c d) (hL : L.QueryLawful)

include h hL

theorem like_selectItemRule (starAllowed : Bool) :
    L.Like front (SelectItem.view L.view) (selectItemRule c starAllowed)
      (selectItemRule d starAllowed) := by
  have hexpr : L.Like front (SelectItem.view L.view)
      (c .wholeExpr >>= fun expr => SelectItem.expr expr <$> optionalAlias)
      (d .wholeExpr >>= fun expr => SelectItem.expr expr <$> optionalAlias) :=
    (h.expr 0).bind fun _ => (like_optionalAlias hL.toLawful).map fun _ => rfl
  cases starAllowed with
  | false => exact hexpr
  | true =>
    exact like_atSymbol_bind hL.toLawful (by decide) ((like_take hL.toLawful).map fun _ => rfl) hexpr

theorem like_selectItemsRule :
    L.Like front (List.map (SelectItem.view L.view)) (selectItemsRule c) (selectItemsRule d) := by
  have hitem (starAllowed : Bool) : L.Like false (SelectItem.view L.view)
      (c (.selectItem starAllowed)) (d (.selectItem starAllowed)) := h.like (.selectItem starAllowed)
  exact (hitem true).weaken.commaList hL.toLawful _ (hitem false) (h.steadyLeft _) (h.steadyRight _)

theorem like_relationRule :
    L.Like front (Relation.view L.view) (relationRule c) (relationRule d) := by
  have hquery : L.Like false (Query.view L.view) (c .query) (d .query) := h.like .query
  have halias (start : Span) (query : Query) : L.Like false (Relation.view L.view)
      (ident >>= fun name => spanFrom start >>= fun span => pure (.subquery query name span))
      (ident >>= fun name => spanFrom (L.view.span start) >>= fun span =>
        pure (.subquery (query.view L.view) name span)) :=
    (like_ident hL.toLawful).bind fun _ => like_spanFrom_bind hL.toLawful start fun _ => by
      simp only [Relation.view]
  refine (like_keyword hL.toLawful .FROM).bind fun _ => ?_
  refine like_atSymbol_bind hL.toLawful (by decide) ?_ ?_
  · exact (like_take hL.toLawful).bind fun start => ((hquery.subquery hL.toLawful).nest
      hL.toLawful 2).bind fun query => (like_symbol hL.toLawful (by decide)).bind fun _ =>
        like_takeKeyword_bind hL.toLawful .AS (halias start query) (halias start query)
  · exact (like_qualifiedName hL.toLawful).bind fun _ => (like_optionalAlias hL.toLawful).map
      fun _ => by simp only [Relation.view]

theorem like_conditionRule (word : Keyword) :
    L.Like front (Condition.view L.view) (conditionRule c word) (conditionRule d word) :=
  (like_keyword hL.toLawful word).bind fun start => (h.expr 0).bind fun _ =>
    like_spanFrom_bind hL.toLawful start fun _ => rfl

theorem like_groupByRule :
    L.Like front (GroupBy.view L.view) (groupByRule c) (groupByRule d) :=
  (like_keyword hL.toLawful .GROUP).bind fun start => (like_keyword hL.toLawful .BY).bind fun _ =>
    (h.exprs _ hL.toLawful).bind fun _ => like_spanFrom_bind hL.toLawful start fun _ => rfl

omit h in
/-- Both read a clause or neither does. -/
theorem like_clause {f : α → β} {p : Parser α} {q : Parser β} (hp : Steady p) (hq : Steady q)
    (h : L.Like false f p q) (allowed : Bool) (word : Keyword) :
    L.Like false (Option.map f) (clause allowed word p) (clause allowed word q) := by
  cases allowed with
  | false => exact like_pure none
  | true =>
    refine like_atKeyword_bind hL.toLawful word ?_ (like_pure none)
    exact (hL.recover hp hq h).weaken.bind fun found => hL.clauseEnd.bind fun _ => like_pure found

omit h in
theorem like_limitClause :
    L.Like front (Option.map (Limit.view L.view)) limitClause limitClause := by
  have hsteady : Steady limit := (steady_congruence.limit (b := 0)).1
  exact like_atKeyword_bind hL.toLawful .LIMIT (hL.recover hsteady hsteady (like_limit hL.toLawful))
    (like_pure none)

theorem like_queryItems :
    L.Like front (Prod.map id (Option.map (List.map (SelectItem.view L.view)))) (queryItems c)
      (queryItems d) := by
  have hitems : L.Like false (List.map (SelectItem.view L.view)) (c .selectItems) (d .selectItems) :=
    h.like .selectItems
  exact (like_quantifier hL.toLawful).bind fun quantifier =>
    (hL.recover (h.steadyLeft _) (h.steadyRight _) hitems).map fun _ => rfl

/-- The clauses from `GROUP BY` on are read alike into queries that look alike. -/
theorem like_fromGroup {f : Query → Query} (allowed : Bool) (start : Span)
    {finish finish' : Option GroupBy → Option Condition → Option OrderBy → Option Limit → Span →
      Query}
    (hfinish : ∀ groupBy having orderBy limit span, f (finish groupBy having orderBy limit span) =
      finish' (groupBy.map (GroupBy.view L.view)) (having.map (Condition.view L.view))
        (orderBy.map (OrderBy.view L.view)) (limit.map (Limit.view L.view)) (L.view.span span)) :
    L.Like false f (fromGroup c allowed start finish)
      (fromGroup d allowed (L.view.span start) finish') := by
  have hcondition : L.Like false (Condition.view L.view) (c (.condition .HAVING))
    (d (.condition .HAVING)) := h.like (.condition .HAVING)
  have hgroupBy : L.Like false (GroupBy.view L.view) (c .groupBy) (d .groupBy) := h.like .groupBy
  have horder : L.Like false (OrderBy.view L.view) (c .orderBy) (d .orderBy) := h.like .orderBy
  exact (like_clause hL (h.steadyLeft _) (h.steadyRight _) hgroupBy allowed .GROUP).bind fun _ =>
    (like_clause hL (h.steadyLeft _) (h.steadyRight _) hcondition allowed .HAVING).bind fun _ =>
      (like_clause hL (h.steadyLeft _) (h.steadyRight _) horder allowed .ORDER).bind fun _ =>
        (like_limitClause hL).bind fun _ => like_spanFrom_bind hL.toLawful start fun _ =>
          hfinish _ _ _ _ _

/-- The clauses behind a select list are read alike into queries that look alike. -/
theorem like_fromRelation (start : Span) (quantifier : Option Quantifier) (items : List SelectItem) :
    L.Like false (Query.view L.view) (fromRelation c start (Query.mk quantifier items))
      (fromRelation d (L.view.span start)
        (Query.mk quantifier (items.map (SelectItem.view L.view)))) := by
  have hcondition : L.Like false (Condition.view L.view) (c (.condition .WHERE))
    (d (.condition .WHERE)) := h.like (.condition .WHERE)
  have hrelation : L.Like false (Relation.view L.view) (c .relation) (d .relation) :=
    h.like .relation
  have hclauses (allowed : Bool) : L.Like false (Query.view L.view)
      (clause allowed .FROM (c .relation) >>= fun relation =>
        fromWhere c allowed start (Query.mk quantifier items relation))
      (clause allowed .FROM (d .relation) >>= fun relation =>
        fromWhere d allowed (L.view.span start)
          (Query.mk quantifier (items.map (SelectItem.view L.view)) relation)) :=
    (like_clause hL (h.steadyLeft _) (h.steadyRight _) hrelation allowed .FROM).bind fun _ =>
      (like_clause hL (h.steadyLeft _) (h.steadyRight _) hcondition allowed .WHERE).bind fun _ =>
        like_fromGroup h hL allowed start fun _ _ _ _ _ => by simp only [Query.view, viewFrom_eq]
  exact hL.clauseEnd.bind fun _ =>
    like_atKeyword_bind hL.toLawful .FROM (hclauses true).weaken (hclauses false)

/-- Both read a query, the same as seen. -/
theorem like_queryRule : L.Like front (Query.view L.view) (queryRule c) (queryRule d) := by
  have hitems : L.Like false (List.map (SelectItem.view L.view)) (c .selectItems) (d .selectItems) :=
    h.like .selectItems
  rw [queryRule_eq, queryRule_eq]
  refine (like_keyword hL.toLawful .SELECT).bind fun start =>
    (like_quantifier hL.toLawful).bind fun quantifier =>
      (hL.recover (h.steadyLeft _) (h.steadyRight _) hitems).bind fun items => ?_
  have hgetD : (items.map (List.map (SelectItem.view L.view))).getD [] =
      (items.getD []).map (SelectItem.view L.view) := by cases items <;> rfl
  rw [hgetD]
  exact like_fromRelation h hL start quantifier _

/-- Every rule respects a likeness if its callees do. -/
theorem like_rule (n : Nonterminal α) :
    L.Like n.front (n.view L.view) (rule c n) (rule d (n.seen L.view)) := by
  cases n with
  | expr least => exact like_exprRule h hL.toLawful least
  | predicate least => exact like_predicateRule h hL.toLawful least
  | arithmetic least => exact like_arithmeticRule h hL.toLawful least
  | operand => exact like_operandRule h hL.toLawful
  | parenthesized => exact like_parenthesizedRule h hL.toLawful
  | constant => exact like_constantRule h hL.toLawful
  | interval => exact like_intervalRule h hL.toLawful
  | call => exact like_callRule h hL.toLawful
  | shape family => exact like_shapeRule h hL.toLawful family
  | arguments => exact like_argumentsRule h hL.toLawful
  | scalar category => exact like_scalarRule h hL.toLawful category
  | case => exact like_caseRule h hL.toLawful
  | cast => exact like_castRule h hL.toLawful
  | ranking function => exact like_rankingRule h hL.toLawful function
  | aggregate function => exact like_aggregateRule h hL.toLawful function
  | percentile function => exact like_percentileRule h hL.toLawful function
  | aggregateTail aggregate => exact like_aggregateTailRule h hL.toLawful aggregate
  | window => exact like_windowRule h hL.toLawful
  | filter => exact like_filterRule h hL.toLawful
  | orderBy => exact like_orderByRule h hL.toLawful
  | orderItem => exact like_orderItemRule h hL.toLawful
  | score => exact like_scoreRule h hL.toLawful
  | relevance kind => exact like_relevanceRule h hL.toLawful kind
  | fieldEquals => exact like_fieldEqualsRule h hL.toLawful
  | namedArguments => exact like_namedArgumentsRule h hL.toLawful
  | searchValue => exact like_searchValueRule h hL.toLawful
  | relevanceOptions => exact like_relevanceOptionsRule h hL.toLawful
  | position => exact like_positionRule h hL.toLawful
  | extract => exact like_extractRule h hL.toLawful
  | getFormat => exact like_getFormatRule h hL.toLawful
  | timestamp function => exact like_timestampRule h hL.toLawful function
  | selectItems => exact like_selectItemsRule h hL
  | selectItem starAllowed => exact like_selectItemRule h hL starAllowed
  | relation => exact like_relationRule h hL
  | condition word => exact like_conditionRule h hL word
  | groupBy => exact like_groupByRule h hL
  | query => exact like_queryRule h hL

end Queries

/-- All rules look alike, whatever fuel there is. -/
theorem like_derive (hL : L.QueryLawful) (fuel : Nat) (n : Nonterminal α) :
    L.Like n.front (n.view L.view) (derive fuel n) (derive fuel (n.seen L.view)) := by
  induction fuel generalizing α with
  | zero => exact fun _ _ _ _ => .exhausted
  | succ fuel ih => exact like_rule ⟨steady_derive fuel, steady_derive fuel, ih⟩ hL n

/-! ## Patterns -/

/-- What makes a likeness one that statements respect: tokens with nothing between them are seen as
such. -/
structure StatementLawful (L : Likeness) : Prop extends QueryLawful L where
  adjacent (s t : Span) : (s.stop == t.start) = ((L.view.span s).stop == (L.view.span t).start)

/-- A piece of a pattern is seen as one. -/
theorem isPatternPiece_view {V : View} (k : TokenKind) :
    isPatternPiece (k.view V) = isPatternPiece k := by
  cases k <;> rfl

/-- Where a comparison ends, there is no piece of a pattern. -/
theorem isPatternPiece_of_isEndKind {k : TokenKind} (h : IsEndKind k) :
    isPatternPiece k = false := by
  obtain rfl | rfl := h <;> rfl

/-- Pieces that touch are seen to touch, so a pattern is seen as long as it is. -/
theorem plainPattern_map (hL : L.StatementLawful) (before : Option Token) (tokens : List Token) :
    plainPattern ((before.map (Token.view L.view)).map fun t => t.span.stop)
        (tokens.map (Token.view L.view)) =
      (plainPattern (before.map fun t => t.span.stop) tokens).map (Token.view L.view) := by
  induction tokens generalizing before with
  | nil => rfl
  | cons t ts ih =>
    have hadjacent :
        ((before.map (Token.view L.view)).map fun t => t.span.stop).all
            (· == (t.view L.view).span.start) =
          (before.map fun t => t.span.stop).all (· == t.span.start) := by
      cases before with
      | none => rfl
      | some u => exact (hL.adjacent u.span t.span).symm
    rw [List.map_cons, plainPattern, plainPattern, hadjacent,
      show (t.view L.view).kind = t.kind.view L.view from rfl, isPatternPiece_view]
    split
    · exact congrArg (t.view L.view :: ·) (ih (some t))
    · rfl

/-- A pattern does not go on out of sight. -/
theorem plainPattern_inSight (hL : L.StatementLawful) (stop : Option Nat) (tokens : List Token) :
    plainPattern stop (inSight L.ends tokens) = plainPattern stop tokens := by
  induction tokens generalizing stop with
  | nil => rfl
  | cons t ts ih =>
    cases ht : L.ends t.kind with
    | true =>
      have hpiece := isPatternPiece_of_isEndKind (hL.ends.eq_or_eq ht)
      rw [inSight_cons_of_ends ts ht, plainPattern, plainPattern, hpiece]
      rfl
    | false =>
      rw [inSight_cons ts ht, plainPattern, plainPattern]
      split
      · exact congrArg (t :: ·) (ih _)
      · rfl

theorem like_plainPattern (hL : L.StatementLawful) :
    L.Like front (Pattern.view L.view) (get >>= fun s => plainPatternAt s.cursor)
      (get >>= fun s => plainPatternAt s.cursor) := by
  refine like_get_bind fun s s' hs hfront => ?_
  have hsight : plainPattern none (L.sight s.cursor) = plainPattern none s.cursor.ahead :=
    plainPattern_inSight hL none s.cursor.ahead
  have hpieces : plainPattern none s'.cursor.ahead =
      (plainPattern none s.cursor.ahead).map (Token.view L.view) := by
    have hmap := plainPattern_map hL none (L.sight s.cursor)
    rw [← hs.sight] at hmap
    exact (plainPattern_inSight hL none _).symm.trans (hmap.trans (congrArg _ hsight))
  have htext : String.join ((plainPattern none s'.cursor.ahead).map Token.text) =
      L.view.word (String.join ((plainPattern none s.cursor.ahead).map Token.text)) := by
    rw [hpieces, hL.view.join, List.map_map, List.map_map]
    rfl
  have hempty (text : String) : (L.view.word text).isEmpty = text.isEmpty := by
    have hupper := congrArg (fun word => word.toList.length) (hL.view.upper text)
    simp only [Text.upper, String.toList_ofList, List.length_map] at hupper
    rw [Bool.eq_iff_iff, String.isEmpty_iff, String.isEmpty_iff, ← String.toList_eq_nil_iff,
      ← String.toList_eq_nil_iff, ← List.length_eq_zero_iff, ← List.length_eq_zero_iff, hupper]
  have hle : (plainPattern none s.cursor.ahead).length ≤ (L.sight s.cursor).length :=
    hsight ▸ List.IsPrefix.length_le ( plainPattern_prefix none _)
  have ht := hs.skip hL.toLawful hle
  unfold plainPatternAt
  dsimp only
  rw [htext, hempty, skip_bind_apply, skip_bind_apply, hpieces, List.length_map]
  split
  · exact .refused (hL.refused_matching ht (.unexpected "pattern" (ht.seen hL.toLawful)))
  · exact .ok _ ht

/-- Both read a pattern, quoted or plain, the same as seen. -/
theorem like_pattern (hL : L.StatementLawful) :
    L.Like front (Pattern.view L.view) pattern pattern := by
  refine like_current_bind_of_eq hL.toLawful (fun t ht => ?_) (like_plainPattern hL)
    (by rintro ⟨_, _, _⟩ (rfl | rfl) <;> rfl) (by rintro ⟨_, _, _⟩ (rfl | rfl) <;> rfl)
  obtain ⟨kind, text, span⟩ := t
  cases kind with
  | string value => exact (like_skip_one hL.toLawful).bind fun _ => like_pure (Pattern.quoted value)
  | _ => exact like_plainPattern hL

theorem like_likePattern (hL : L.StatementLawful) :
    L.Like front (Pattern.view L.view) likePattern likePattern :=
  (like_keyword hL.toLawful .LIKE).bind fun _ => like_pattern hL

/-- The names that a pattern selects, read from `start` on. -/
def nameFilterFrom (start : Span) : Parser NameFilter := do
  let pattern ← likePattern
  return ⟨pattern, ← spanFrom start⟩

theorem like_nameFilterFrom (hL : L.StatementLawful) (start : Span) :
    L.Like front (NameFilter.view L.view) (nameFilterFrom start)
      (nameFilterFrom (L.view.span start)) :=
  (like_likePattern hL).bind fun _ => like_spanFrom_bind hL.toLawful start fun _ => rfl

/-- Where a comparison ends, there is no filter of names. -/
theorem nameFilterFrom_of_isEndKind (start : Span) {s : State}
    (h : IsEndKind s.cursor.current.kind) :
    nameFilterFrom start s = .error (.rejected (.unexpected "LIKE" s.cursor.current)) s := by
  have hne : (s.cursor.current.kind == .keyword .LIKE) = false := by
    obtain hkind | hkind := h <;> rw [hkind] <;> rfl
  have hword : keyword .LIKE s = .error (.rejected (.unexpected "LIKE" s.cursor.current)) s := by
    unfold keyword
    rw [atKeyword_bind_apply, hne]
    rfl
  exact bind_of_error (bind_of_error hword)

theorem like_nameFilter (hL : L.StatementLawful) :
    L.Like front (NameFilter.view L.view) nameFilter nameFilter := by
  have heq : nameFilter = current >>= fun t => nameFilterFrom t.span := rfl
  rw [heq]
  refine like_current_bind hL.toLawful (fun t _ => like_nameFilterFrom hL t.span)
    fun _ s s' hs hend hend' => ?_
  rw [nameFilterFrom_of_isEndKind _ hend, nameFilterFrom_of_isEndKind _ hend']
  exact .refused (hL.refused_matching hs (.unexpected "LIKE" (hs.seen hL.toLawful)))

theorem like_showTables (hL : L.StatementLawful) :
    L.Like front (Statement.view L.view) showTables showTables :=
  (like_keyword hL.toLawful .SHOW).bind fun start => (like_keyword hL.toLawful .TABLES).bind fun _ =>
    (like_nameFilter hL).bind fun _ => like_spanFrom_bind hL.toLawful start fun _ => rfl

theorem like_columnFilter (hL : L.StatementLawful) :
    L.Like front (Option.map (NameFilter.view L.view)) columnFilter columnFilter :=
  like_atKeyword_bind hL.toLawful .COLUMNS
    ((like_take hL.toLawful).bind fun start => (like_likePattern hL).bind fun _ =>
      like_spanFrom_bind hL.toLawful start fun _ => rfl)
    (like_pure none)

theorem like_describe (hL : L.StatementLawful) :
    L.Like front (Statement.view L.view) describe describe :=
  (like_keyword hL.toLawful .DESCRIBE).bind fun start =>
    (like_keyword hL.toLawful .TABLES).bind fun _ => (like_nameFilter hL).bind fun _ =>
      (like_columnFilter hL).bind fun _ => like_spanFrom_bind hL.toLawful start fun _ => rfl

/-! ## Statements -/

/-- Both read a statement, the same as seen. -/
theorem like_statementRule (hL : L.StatementLawful) (h : LikeCallees L c d) :
    L.Like true (Statement.view L.view) (statementRule c) (statementRule d) := by
  refine like_current_bind hL.toLawful (fun t ht => ?_) nofun
  have hreject : L.Like true (Statement.view L.view)
      (reject (.noAlternative "statement" ["SELECT", "SHOW", "DESCRIBE"] t))
      (reject (.noAlternative "statement" ["SELECT", "SHOW", "DESCRIBE"] (t.view L.view))) :=
    like_reject hL.toLawful (.noAlternative _ _ (.inSight ht))
  obtain ⟨kind, text, span⟩ := t
  cases kind with
  | keyword word =>
    cases word with
    | SELECT =>
      exact (show L.Like false (Query.view L.view) _ _ from h.like .query).weaken.map fun _ => rfl
    | SHOW => exact like_showTables hL
    | DESCRIBE => exact like_describe hL
    | _ => exact hreject
  | _ => exact hreject

/-- Both find a statement or neither does. -/
theorem like_optionalStatement (hL : L.StatementLawful) (h : LikeCallees L c d)
    (hc : Steady (statementRule c)) (hd : Steady (statementRule d)) :
    L.Like front (Option.map (Statement.view L.view)) (optionalStatement c)
      (optionalStatement d) := by
  refine like_current_bind_of_eq hL.toLawful (fun t ht => ?_) (like_pure none)
    (by rintro ⟨_, _, _⟩ (rfl | rfl) <;> rfl) (by rintro ⟨_, _, _⟩ (rfl | rfl) <;> rfl)
  have hrecover : L.Like true (Option.map (Statement.view L.view)) (recover (statementRule c))
      (recover (statementRule d)) := hL.recover hc hd (like_statementRule hL h)
  obtain ⟨kind, text, span⟩ := t
  cases kind with
  | endOfInput => exact like_pure none
  | symbol sign =>
    cases sign with
    | semicolon => exact like_pure none
    | _ => exact hrecover
  | _ => exact hrecover

end Likeness

end SearchSql.Grammar
