import SearchSql.Proofs.AggregateRetracing
import SearchSql.Proofs.RelevanceRetracing

/-!
# Retracing queries

Behind what a clause takes, the words of the clauses that are still to come decide (`Clausal`). An alias
is written with the word `AS`, whether it has it in the source or not (`retraces_optionalAlias`).
-/

set_option autoImplicit false

namespace SearchSql.Grammar

open SearchSql.Grammar.Parser SearchSql.Token

variable {library : Time.Library} {α β : Type} [Erases α] [Erases β] {s s' t : State} {c d : Cursor}
variable {items before : List Item} {tokens rest : List Token} {here : Token → Prop}
variable {front R : Outlook} {call : Callee}

/-! ## Aliases -/

/-- The word `AS` is written. -/
def Aliased : Outlook := fun _ tokens => kindAt tokens 0 = .keyword .AS

/-- The name that follows an expression or a relation is written behind `AS`. -/
theorem Aliased.alike (h : Aliased c tokens)
    (hsource : c.current.kind = .keyword .AS ∨ c.current.kind.isNameLike = true) :
    Alike c tokens := by
  have hne {kind : TokenKind} (hk : kind.keyword? ≠ some .AS) : kindAt tokens 0 ≠ kind := by
    rintro rfl
    exact hk (congrArg TokenKind.keyword? h)
  refine ⟨hne (by decide), hne (by decide), fun hcomma => absurd hcomma (hne (by decide)),
    fun word hword hother => ?_, fun _ => hsource, fun op hop => ?_, fun test width htest => ?_,
    fun hjoins => absurd hjoins.1 (hne (by decide)), not_doomed_of_ne (hne (by decide))⟩
  · exact absurd (TokenKind.keyword.inj (hword.symm.trans h)) hother
  · rw [show kindAt tokens 0 = _ from h] at hop
    cases hop
  · rw [show kindAt tokens 0 = _ from h] at htest
    cases htest

/-- A word that may be left out is written in any case. -/
theorem retraces_keyword_written {word : Keyword} {N : Outlook} {p q : Parser α}
    {after : α → List Item} {rears : α → Outlook}
    (h : Retraces Anywhere N (before ++ [.keyword word]) p q after rears) :
    Retraces here (fun _ tokens => kindAt tokens 0 = .keyword word) before
      (takeKeyword word >>= fun _ => p) (takeKeyword word >>= fun _ => q) after rears := by
  intro s a t hs _ heq
  obtain ⟨u, hu, hrun⟩ : ∃ u, s.Leads u ∧ p u = .ok a t := by
    rw [takeKeyword_bind_apply] at heq
    split at heq
    · exact ⟨s.skip 1, s.leads_skip 1, heq⟩
    · exact ⟨s, .refl s, heq⟩
  obtain ⟨js, hafter, hr⟩ := h u a t (hs.leads hu) trivial hrun
  refine ⟨.keyword word :: js, by rw [hafter]; simp, hu.trans hr.leads, fun _ _ _ => rfl, ?_⟩
  intro s' rest hfine htwin hfaces hrear
  have hkind : s'.cursor.current.kind = .keyword word := hfaces.current
  rw [takeKeyword_bind_apply, if_pos hkind]
  exact hr.again (s'.skip 1) rest hfine.tail (htwin.leads hu (s'.leads_skip 1)) (hfaces.skip rfl)
    hrear

/-- A name behind `AS`, which may be left out. -/
def aliasIdent : Parser Ident := takeKeyword .AS >>= fun _ => ident

/-- An alias is written behind `AS`, with the word in the source or without. -/
theorem retraces_aliasIdent :
    Retraces here Aliased before aliasIdent aliasIdent (fun name => before ++ aliasOutline name)
      (fun _ => R) := by
  have h : Retraces here Aliased [] aliasIdent aliasIdent (fun name => .keyword .AS :: name.outline)
      (fun _ => R) := retraces_keyword_written retraces_ident
  exact (h.remarked fun name => .inr ⟨.alias name, rfl⟩).behindAll

/-- Where `AS` or a name is in front, there is an alias. -/
theorem optionalAlias_of_naming
    (h : s.cursor.current.kind = .keyword .AS ∨ s.cursor.current.kind.isNameLike = true) :
    optionalAlias s = (some <$> aliasIdent) s := by
  unfold optionalAlias aliasIdent
  rw [map_eq_pure_bind, bind_assoc, takeKeyword_bind_apply, takeKeyword_bind_apply]
  split
  · rfl
  · next has =>
    show (current >>= _) s = _
    rw [current_bind_apply, h.resolve_left has]
    rfl

/-- Where neither is, there is none. -/
theorem optionalAlias_of_not
    (h : ¬(s.cursor.current.kind = .keyword .AS ∨ s.cursor.current.kind.isNameLike = true)) :
    optionalAlias s = .ok none s := by
  obtain ⟨has, hname⟩ := not_or.1 h
  unfold optionalAlias
  rw [takeKeyword_bind_apply, if_neg has]
  show (current >>= _) s = _
  rw [current_bind_apply, Bool.eq_false_iff.2 hname]
  rfl

/-- What may be an alias is written if it is one. -/
theorem retraces_optionalAlias :
    Retraces here Alike before optionalAlias optionalAlias
      (fun name => before ++ name.elim [] aliasOutline) (fun _ => Alike) := by
  refine retraces_of fun s _ _ => ?_
  by_cases hsource : s.cursor.current.kind = .keyword .AS ∨ s.cursor.current.kind.isNameLike = true
  · have h : Retraces (fun u => u = s.cursor.current) Aliased before (some <$> aliasIdent)
        (some <$> aliasIdent) (fun name => before ++ name.elim [] aliasOutline) (fun _ => Alike) :=
      retraces_aliasIdent.some fun _ => rfl
    refine ⟨_, _, _, h, ?_, fun tokens haliased => ⟨haliased.alike hsource, fun s' _ hfaces => ?_⟩⟩
    · exact optionalAlias_of_naming hsource
    · exact optionalAlias_of_naming (.inl (hfaces.current.trans haliased))
  · have h : Retraces (fun u => u = s.cursor.current) Alike before (pure none : Parser (Option Ident))
        (pure none) (fun name => before ++ name.elim [] aliasOutline) (fun _ => Alike) :=
      retraces_pure (by simp) rfl
    refine ⟨_, _, _, h, ?_, fun tokens halike => ⟨halike, fun s' _ hfaces => ?_⟩⟩
    · exact optionalAlias_of_not hsource
    · refine optionalAlias_of_not fun hwritten => hsource (halike.naming ?_)
      rw [← hfaces.current]
      exact hwritten

section Callees

variable (hcall : AllRetrace call)

include hcall

/-! ## Select lists and relations -/

/-- An expression of the select list with its alias. -/
def namedExpr (call : Callee) : Parser SelectItem := do
  let expr ← call .wholeExpr
  return .expr expr (← optionalAlias)

omit hcall in
theorem selectItemRule_of_star (call : Callee) (h : s.cursor.current.kind = .symbol .star) :
    selectItemRule call true s = (SelectItem.star <$> take) s := by
  unfold selectItemRule
  rw [atSymbol_bind_apply, beq_iff_eq.2 h]
  rfl

omit hcall in
theorem selectItemRule_of_expr (call : Callee) {starAllowed : Bool}
    (h : starAllowed = true → s.cursor.current.kind ≠ .symbol .star) :
    selectItemRule call starAllowed s = namedExpr call s := by
  unfold selectItemRule
  rw [atSymbol_bind_apply]
  cases starAllowed with
  | true =>
    rw [beq_eq_false_iff_ne.2 (h rfl)]
    rfl
  | false => rfl

/-- An expression is retraced with its alias. -/
theorem retraces_namedExpr :
    Retraces here Heads before (namedExpr call) (namedExpr read) (fun item => before ++ item.outline)
      (fun _ => Alike) := by
  refine hcall.expr.bind fun expr expr' hexpr => retraces_optionalAlias.bind
    fun name name' hname => retraces_pure ?_ (congrArg₂ SelectItem.expr hexpr hname)
  simp [SelectItem.outline]

/-- An element of the selection is a star or an expression, in the source as in what is written. -/
theorem retraces_selectItemRule (starAllowed : Bool) :
    Retraces here Selects before (selectItemRule call starAllowed) (selectItemRule read starAllowed)
      (fun item => before ++ item.outline) (fun _ => Alike) := by
  refine retraces_of fun s _ _ => ?_
  by_cases hstar : starAllowed = true ∧ s.cursor.current.kind = .symbol .star
  · obtain ⟨rfl, hkind⟩ := hstar
    have h : Retraces (fun u => u = s.cursor.current) (Meets (.symbol .star)) before
        (SelectItem.star <$> take) (SelectItem.star <$> take) (fun item => before ++ item.outline)
        (fun _ => Alike) := by
      refine (retraces_take (m := .symbol .star) rfl fun c rest hhere _ => ⟨?_, rfl⟩).map
        (fun _ => rfl) fun _ _ h => congrArg SelectItem.star h
      rw [hhere]
      exact hkind
    refine ⟨_, _, _, h, selectItemRule_of_star call hkind, fun tokens hfront => ?_⟩
    exact ⟨.inl hfront, fun s' _ hfaces => selectItemRule_of_star read (hfaces.current.trans hfront.2)⟩
  · refine ⟨_, _, _, retraces_namedExpr hcall, ?_,
      fun tokens hfront => ⟨.inr hfront, fun s' _ hfaces => ?_⟩⟩
    · exact selectItemRule_of_expr call fun h hkind => hstar ⟨h, hkind⟩
    · refine selectItemRule_of_expr read fun _ => ?_
      rw [hfaces.current]
      exact hfront.ne rfl

omit hcall in
/-- There is at least one token in an element of the selection. -/
theorem SelectItem.fills_outline (item : SelectItem) : Fills item.outline := by
  cases item with
  | star span => exact fills_cons_mark _ _
  | expr e name => exact (fills_of_closes e.closes_outline).append _

theorem retraces_selectItemsRule :
    Retraces here Selects before (selectItemsRule call) (selectItemsRule read)
      (fun items => before ++ separated .comma (items.map SelectItem.outline)) (fun _ => Alike) := by
  have hitem (starAllowed : Bool) : Retraces Anywhere Selects [] (call (.selectItem starAllowed))
      (read (.selectItem starAllowed)) SelectItem.outline (fun _ => Alike) :=
    hcall.rule (.selectItem starAllowed)
  exact (hitem true).anywhere.commaList (hitem false) (steady_read _) (steady_read _)
    SelectItem.fills_outline (fun _ _ hkind _ => alike_of_comma hkind)
    (fun _ _ hkind halike => ⟨halike, halike.ne_comma hkind⟩) _

/-- A query in parentheses with its alias, as a relation. -/
def innerQuery (call : Callee) : Parser Relation := do
  let start ← take
  let query ← nest 2 (subquery (call .query))
  let _ ← symbol .rightParen
  let name ← aliasIdent
  return .subquery query name (← spanFrom start)

/-- A table with its alias, as a relation. -/
def namedTable : Parser Relation := do
  let name ← qualifiedName
  return .table name (← optionalAlias)

omit hcall in
/-- A relation is a query in parentheses or a table. -/
theorem relationRule_eq_fork (call : Callee) :
    relationRule call = keyword .FROM >>= fun _ => atSymbol .leftParen >>= fun paren =>
      if paren = true then innerQuery call else namedTable := by
  unfold relationRule innerQuery aliasIdent
  simp only [bind_assoc]
  rfl

/-- A relation is written with the same parentheses. -/
theorem retraces_relationRule :
    Retraces here (Meets (.keyword .FROM)) before (relationRule call) (relationRule read)
      (fun relation => before ++ .keyword .FROM :: relation.outline) (fun _ => Alike) := by
  rw [relationRule_eq_fork, relationRule_eq_fork]
  refine (retraces_keyword .FROM (N := Outlook.any)).bind fun _ _ _ =>
    retraces_atSymbol_bind (S := Meets (.symbol .leftParen))
      (U := fun _ tokens => kindAt tokens 0 ≠ .symbol .leftParen) ?_ ?_
      (fun _ _ _ h => ⟨trivial, h.2⟩) fun _ _ _ h => ⟨trivial, h⟩
  · refine (retraces_take (m := .symbol .leftParen) (N := Meets (.keyword .SELECT)) rfl
      fun _ _ hkind _ => ⟨hkind, rfl⟩).bind fun start start' _ => ?_
    refine ((((hcall.retraces .query rfl).subquery.nest 2).anywhere).ending
      fun _ _ _ (h : Meets (.symbol .rightParen) _ _) => .inr h).bind fun query query' hquery => ?_
    refine (retraces_symbol .rightParen (N := Aliased)).bind fun _ _ _ =>
      retraces_aliasIdent.bind fun name name' hname => retraces_spanFrom_bind fun span span' =>
        retraces_pure ?_ (congrArg₂ (Relation.subquery · · default) hquery hname)
    simp [Relation.outline, Nonterminal.outline]
  · refine (retraces_qualifiedName (R := Alike) (fun _ _ _ rest _ hfine _ => ?_)
      fun _ _ halike => nameEnds_of_ne_dot halike.dot).bind fun name name' hname =>
        retraces_optionalAlias.bind fun aliasName aliasName' halias =>
          retraces_pure ?_ (congrArg₂ Relation.table hname halias)
    · exact (nameStarts_written hfine rest).ne rfl (by decide)
    · simp [Relation.outline]

/-- A condition is written behind its word. -/
theorem retraces_conditionRule (word : Keyword) :
    Retraces here (Meets (.keyword word)) before (conditionRule call word) (conditionRule read word)
      (fun c => before ++ c.outline word) (fun _ => Alike) := by
  refine (retraces_keyword word).bind fun start start' _ => hcall.expr.bind fun expr expr' hexpr =>
    retraces_spanFrom_bind fun span span' => retraces_pure ?_ (congrArg (Condition.mk · default) hexpr)
  simp [Condition.outline]

theorem retraces_groupByRule :
    Retraces here (Meets (.keyword .GROUP)) before (groupByRule call) (groupByRule read)
      (fun g => before ++ g.outline) (fun _ => Alike) := by
  refine (retraces_keyword .GROUP).bind fun start start' _ =>
    (retraces_keyword .BY (N := Heads)).bind fun _ _ _ => (hcall.commaExprs _).bind
      fun exprs exprs' hexprs => retraces_spanFrom_bind fun span span' =>
        retraces_pure ?_ (congrArg (GroupBy.mk · default) hexprs)
  simp [GroupBy.outline, outlineAll_eq_map]

end Callees

/-! ## Clauses -/

/-- A clause that starts with one of the words or with `LIMIT` is in front, or the query ends. -/
def Clausal [Time.Library] (words : List Keyword) : Outlook := fun c tokens =>
  Ended c tokens ∨ Meets (.keyword .LIMIT) c tokens ∨
    ∃ word ∈ words, Meets (.keyword word) c tokens ∧ Alike c tokens

/-- Where a query ends, an expression ends. -/
theorem Ended.alike (h : Ended c tokens) : Alike c tokens := by
  rcases h with h | h
  · exact alike_of_end h
  · exact h.alike_symbol rfl

/-- Where a query ends, there is no reserved word. -/
theorem Ended.ne (h : Ended c tokens) (word : Keyword) : kindAt tokens 0 ≠ .keyword word := by
  rcases h with h | h
  · exact h.trans_ne TokenKind.noConfusion
  · exact h.2.trans_ne TokenKind.noConfusion

/-- Where a clause starts, an expression ends. -/
theorem Clausal.alike {words : List Keyword} (h : Clausal words c tokens) : Alike c tokens := by
  obtain h | h | ⟨word, -, -, h⟩ := h
  · exact h.alike
  · exact h.alike_keyword rfl (by decide)
  · exact h

/-- No other word is in front than those of the clauses. -/
theorem Clausal.ne {words : List Keyword} {word : Keyword} (h : Clausal words c tokens)
    (hword : word ∉ words) (hlimit : word ≠ .LIMIT) : kindAt tokens 0 ≠ .keyword word := by
  obtain h | h | ⟨other, hother, h, -⟩ := h
  · exact h.ne word
  · exact h.2.trans_ne fun heq => hlimit (TokenKind.keyword.inj heq).symm
  · exact h.2.trans_ne fun heq => hword (TokenKind.keyword.inj heq ▸ hother)

/-- More clauses may stand here. -/
theorem Clausal.mono {words words' : List Keyword} (h : Clausal words c tokens)
    (hsub : words ⊆ words') : Clausal words' c tokens := by
  obtain h | h | ⟨word, hword, h⟩ := h
  · exact .inl h
  · exact .inr (.inl h)
  · exact .inr (.inr ⟨word, hsub hword, h⟩)

/-- A boundary behind a clause is a boundary where it is written. -/
theorem retraces_clauseEnd {words : List Keyword} (hwords : ∀ word ∈ words, word.startsClause = true) :
    Retraces here (Clausal words) before clauseEnd clauseEnd (fun _ => before)
      (fun _ => Clausal words) := by
  intro s _ t hs _ heq
  obtain ⟨hboundary, rfl⟩ := (clauseEnd_eq_ok_iff (notRecovering_of_strict hs.strict)).1 heq
  refine ⟨[], (List.append_nil _).symm, .refl s, fun _ _ h => h, ?_⟩
  intro s' rest _ htwin hfaces hrest
  have hstops : s'.isRecovering = false :=
    notRecovering_of_strict (by rw [htwin.settings, hs.strict])
  refine ⟨(), s', (clauseEnd_eq_ok_iff hstops).2 ⟨?_, rfl⟩, rfl, htwin, hfaces⟩
  unfold State.atBoundary at hboundary ⊢
  rw [htwin.subqueries, hfaces.current, writtenTokens_nil, List.nil_append]
  obtain (h | h) | h | ⟨word, hword, h, -⟩ := hrest
  · rw [show kindAt rest 0 = _ from h]
    rfl
  · rw [h.2, ← h.1]
    exact hboundary
  · rw [h.2]
    rfl
  · rw [h.2]
    exact hwords word hword

/-- A clause that stands here. -/
def clauseBody (p : Parser α) : Parser (Option α) := do
  let found ← recover p
  clauseEnd
  return found

omit [Erases α] in
/-- A clause that may stand here is read if its word is in front. -/
theorem clause_of_atKeyword {p : Parser α} {word : Keyword}
    (h : s.cursor.current.kind = .keyword word) : clause true word p s = clauseBody p s := by
  unfold clause
  rw [atKeyword_bind_apply, beq_iff_eq.2 h]
  rfl

omit [Erases α] in
/-- It is left out if the word is not in front, or if it may not stand here. -/
theorem clause_of_not {p : Parser α} {word : Keyword} {allowed : Bool}
    (h : allowed = true → s.cursor.current.kind ≠ .keyword word) :
    clause allowed word p s = .ok none s := by
  unfold clause
  rw [atKeyword_bind_apply]
  cases allowed with
  | true =>
    rw [beq_eq_false_iff_ne.2 (h rfl)]
    rfl
  | false => rfl

section

variable {p q : Parser α} {outline : α → List Item} {word : Keyword} {words : List Keyword}
variable (h : Retraces Anywhere front [] p q outline (fun _ => Clausal words)) (hp : Steady p)
variable (hwords : ∀ word ∈ words, word.startsClause = true)

include h hp hwords

/-- The body of a clause is written in front of the clauses behind it. -/
theorem retraces_clauseBody :
    Retraces here front before (clauseBody p) (clauseBody q)
      (fun found => before ++ found.elim [] outline) (fun _ => Clausal words) := by
  refine (h.anywhere.recover hp).bind fun found found' hfound => ?_
  have hend : Retraces Anywhere (found.elim Outlook.any fun _ => Clausal words)
      (before ++ found.elim [] outline) clauseEnd clauseEnd
      (fun _ => before ++ found.elim [] outline) (fun _ => Clausal words) := by
    refine (retraces_clauseEnd hwords).starting fun c tokens _ hclausal => ?_
    cases found with
    | none => trivial
    | some a => exact hclausal
  exact hend.bind fun _ _ _ => retraces_pure rfl hfound

/-- A clause that stands here is retraced. -/
theorem retraces_clause_here
    (hfront : ∀ c tokens, front c tokens → Meets (.keyword word) c tokens) :
    Retraces (fun u => u.kind = .keyword word) front before (clause true word p) (clause true word q)
      (fun found => before ++ found.elim [] outline) (fun _ => Clausal words) := by
  refine retraces_of fun s _ hkind => ⟨_, _, _, retraces_clauseBody h hp hwords,
    clause_of_atKeyword hkind, fun tokens hf => ⟨hf, fun s' _ hfaces => ?_⟩⟩
  exact clause_of_atKeyword (hfaces.current.trans (hfront _ _ hf).2)

omit h hp hwords in
/-- The clauses that may stand here. -/
def clauseWords (allowed : Bool) (words : List Keyword) : List Keyword :=
  if allowed then words else []

/-- A clause that may stand here is retraced, if it does. -/
theorem retraces_clause (allowed : Bool) (hfront : ∀ c tokens, front c tokens →
    Meets (.keyword word) c tokens ∧ Alike c tokens) (hnew : word ∉ words) (hlimit : word ≠ .LIMIT) :
    Retraces here (Clausal (clauseWords allowed (word :: words))) before (clause allowed word p)
      (clause allowed word q) (fun found => before ++ found.elim [] outline)
      (fun _ => Clausal (clauseWords allowed words)) := by
  -- A clause that is missing is missing again, since no clause that follows starts with its word.
  have hnone (allowed : Bool) {here : Token → Prop}
      (hnot : allowed = true → ∀ u, here u → u.kind ≠ .keyword word) :
      Retraces here (Clausal (clauseWords allowed words)) before (clause allowed word p)
        (clause allowed word q) (fun found => before ++ found.elim [] outline)
        (fun _ => Clausal (clauseWords allowed words)) := by
    refine retraces_of fun s _ hhere => ⟨Clausal (clauseWords allowed words), pure none, pure none,
      retraces_pure (by simp) rfl, clause_of_not fun h => hnot h _ hhere, fun tokens hclausal =>
        ⟨hclausal, fun s' _ hfaces => clause_of_not fun h => ?_⟩⟩
    rw [hfaces.current]
    subst h
    exact hclausal.ne hnew hlimit
  cases allowed with
  | false => exact hnone false fun h => absurd h Bool.false_ne_true
  | true =>
    refine retraces_of fun s _ _ => ?_
    by_cases hkind : s.cursor.current.kind = .keyword word
    · have hclause : Retraces (fun u => u.kind = .keyword word) front before (clause true word p)
          (clause true word q) (fun found => before ++ found.elim [] outline)
          (fun _ => Clausal words) :=
        retraces_clause_here h hp hwords fun c tokens hf => (hfront c tokens hf).1
      refine ⟨_, _, _, hclause.opening fun u _ hu => hu ▸ hkind, rfl,
        fun tokens hf => ⟨?_, fun _ _ _ => rfl⟩⟩
      exact .inr (.inr ⟨word, List.mem_cons_self, hfront _ _ hf⟩)
    · refine ⟨_, _, _, hnone true fun _ u hu => ?_, rfl, fun tokens hclausal =>
        ⟨hclausal.mono (List.subset_cons_self _ _), fun _ _ _ => rfl⟩⟩
      rw [hu]
      exact hkind

end

/-- Where a query ends, a limit does. -/
theorem Ended.limitEnds (h : Ended c tokens) : LimitEnds tokens where
  comma := by
    rcases h with h | h
    · exact h.trans_ne TokenKind.noConfusion
    · exact h.2.trans_ne (by decide)
  offset := h.ne _

theorem retraces_limitClause :
    Retraces here (Clausal []) before limitClause limitClause
      (fun found => before ++ found.elim [] Limit.outline) (fun _ => Ended) := by
  have hlimit : Retraces (fun u => u.kind = .keyword .LIMIT) (Meets (.keyword .LIMIT)) [] limit limit
      Limit.outline (fun _ _ tokens => LimitEnds tokens) := retraces_limit
  refine retraces_atKeyword_bind (S := Meets (.keyword .LIMIT)) (U := Ended)
    ((hlimit.recover steady_limit).ending fun found c tokens h => ?_)
    (retraces_pure (by simp) rfl) (fun _ _ _ h => ⟨.inr (.inl h), h.2⟩)
    fun _ _ _ h => ⟨.inl h, h.ne _⟩
  cases found with
  | none => trivial
  | some l => exact h.limitEnds

theorem retraces_quantifier :
    Retraces here Outlook.any before quantifier quantifier
      (fun found => before ++ found.elim [] ([·.outline])) (fun _ => Selects) := by
  have hne {c : Cursor} {tokens : List Token} {word : Keyword} (h : Selects c tokens)
      (hword : isOpening (.keyword word) = false) : kindAt tokens 0 ≠ .keyword word := by
    rcases h with h | h
    · exact h.2.trans_ne TokenKind.noConfusion
    · exact h.ne hword
  refine retraces_takeKeyword_bind (N := Selects)
    (U := fun c tokens => Meets (.keyword .DISTINCT) c tokens ∨ Selects c tokens)
    (retraces_pure rfl rfl) ?_ (fun _ _ _ _ => trivial) fun _ _ _ h => ⟨trivial, ?_⟩
  · exact retraces_takeKeyword_bind (N := Selects) (U := Selects) (retraces_pure rfl rfl)
      (retraces_pure (by simp) rfl) (fun _ _ hkind _ => .inl ⟨hkind, rfl⟩)
      fun _ _ _ h => ⟨.inr h, hne h rfl⟩
  · rcases h with h | h
    · exact h.2.trans_ne (by decide)
    · exact hne h rfl

section Callees

variable (hcall : AllRetrace call)

include hcall

/-- The clauses behind a relation are retraced. -/
theorem retraces_fromWhere {quantifier : Option Quantifier} {list list' : List SelectItem}
    (hlist : erase list = erase list') {relation relation' : Option Relation}
    (hrelation : erase relation = erase relation') (allowed : Bool) (start start' : Span) :
    Retraces here (Clausal (clauseWords allowed [.WHERE, .GROUP, .HAVING, .ORDER]))
      (before ++ .keyword .SELECT :: quantifier.elim [] ([·.outline]) ++
        separated .comma (list.map SelectItem.outline) ++ fromOutline relation)
      (fromWhere call allowed start (Query.mk quantifier list relation))
      (fromWhere read allowed start' (Query.mk quantifier list' relation'))
      (fun q => before ++ q.outline) (fun _ => Ended) := by
  -- Each clause is opened by its own word, which none of the later ones is.
  have hcondition (word : Keyword) {words : List Keyword} : Retraces Anywhere (Meets (.keyword word)) []
      (call (.condition word)) (read (.condition word)) (Condition.outline word)
      (fun _ => Clausal words) := (hcall.rule (.condition word)).ending fun _ _ _ h => h.alike
  have hgroup {words : List Keyword} : Retraces Anywhere (Meets (.keyword .GROUP)) [] (call .groupBy)
      (read .groupBy) GroupBy.outline (fun _ => Clausal words) :=
    (hcall.rule .groupBy).ending fun _ _ _ h => h.alike
  have horder : Retraces Anywhere Ordered [] (call .orderBy) (read .orderBy) OrderBy.outline
      (fun _ => Clausal []) := hcall.ordered fun _ _ h =>
    ⟨h.alike, h.ne List.not_mem_nil (by decide), h.ne List.not_mem_nil (by decide)⟩
  have hmeets {word : Keyword} (hplain : isPlainOutlook (.keyword word) = true) (hne : word ≠ .ORDER)
      (c : Cursor) (tokens : List Token) (h : Meets (.keyword word) c tokens) :
      Meets (.keyword word) c tokens ∧ Alike c tokens := ⟨h, h.alike_keyword hplain hne⟩
  refine (retraces_clause (hcondition .WHERE) (hcall.steady _) (by decide) allowed
    (hmeets rfl (by decide)) (by decide) (by decide)).bind fun condition condition' hcondition' => ?_
  refine (retraces_clause hgroup (hcall.steady _) (by decide) allowed (hmeets rfl (by decide))
    (by decide) (by decide)).bind fun groupBy groupBy' hgroupBy => ?_
  refine (retraces_clause (hcondition .HAVING) (hcall.steady _) (by decide) allowed
    (hmeets rfl (by decide)) (by decide) (by decide)).bind fun having having' hhaving => ?_
  refine (retraces_clause horder (hcall.steady _) (by decide) allowed (fun _ _ h => h)
    (by decide) (by decide)).bind fun orderBy orderBy' horderBy => ?_
  refine (retraces_limitClause.starting fun _ _ _ h => h.mono (List.nil_subset _)).bind
    fun limit limit' hlimit => retraces_spanFrom_bind fun span span' => retraces_pure ?_ ?_
  · simp [Query.outline, clausesOutline]
  · exact (Query.mk.injEq ..).mpr ⟨rfl, hlist, viewFrom_erased hrelation, hcondition', hgroupBy,
      hhaving, horderBy, hlimit, rfl⟩

/-- What stands behind the select list is retraced. -/
theorem retraces_fromRelation {quantifier : Option Quantifier} {list list' : List SelectItem}
    (hlist : erase list = erase list') (start start' : Span) :
    Retraces here (Clausal [.FROM]) (before ++ .keyword .SELECT :: quantifier.elim [] ([·.outline]) ++
        separated .comma (list.map SelectItem.outline))
      (fromRelation call start (Query.mk quantifier list))
      (fromRelation read start' (Query.mk quantifier list'))
      (fun q => before ++ q.outline) (fun _ => Ended) := by
  have hrelation {words : List Keyword} : Retraces Anywhere (Meets (.keyword .FROM)) []
      (call .relation) (read .relation) (fun relation => .keyword .FROM :: relation.outline)
      (fun _ => Clausal words) := (hcall.rule .relation).ending fun _ _ _ h => h.alike
  have houtline (relation : Option Relation) :
      relation.elim [] (fun relation => Item.keyword .FROM :: relation.outline) =
        fromOutline relation := by cases relation <;> rfl
  have hwhere : ∀ word ∈ [Keyword.WHERE, .GROUP, .HAVING, .ORDER], word.startsClause = true := by
    decide
  have hend : ∀ word ∈ [Keyword.FROM], word.startsClause = true := by decide
  refine (retraces_clauseEnd hend).bind fun _ _ _ => ?_
  refine retraces_atKeyword_bind (S := Meets (.keyword .FROM)) (U := Clausal []) ?_ ?_
    (fun _ _ _ h => ⟨.inr (.inr ⟨_, List.mem_cons_self, h, h.alike_keyword rfl (by decide)⟩), h.2⟩)
    fun _ _ _ h => ⟨h.mono (List.nil_subset _), h.ne List.not_mem_nil (by decide)⟩
  · refine (retraces_clause_here hrelation (hcall.steady _) hwhere fun _ _ h => h).bind
      fun relation relation' hsame => ?_
    rw [houtline]
    exact retraces_fromWhere hcall hlist hsame true start start'
  · have hmeets (c : Cursor) (tokens : List Token) (h : Meets (.keyword .FROM) c tokens) :
        Meets (.keyword .FROM) c tokens ∧ Alike c tokens := ⟨h, h.alike_keyword rfl (by decide)⟩
    refine (retraces_clause hrelation (hcall.steady _) hwhere false hmeets (by decide)
      (by decide)).bind fun relation relation' hsame => ?_
    rw [houtline]
    exact retraces_fromWhere hcall hlist hsame false start start'

/-- A query is retraced, with the clauses that it has. -/
theorem retraces_queryRule :
    Retraces here (Meets (.keyword .SELECT)) before (queryRule call) (queryRule read)
      (fun q => before ++ q.outline) (fun _ => Ended) := by
  rw [queryRule_eq, queryRule_eq]
  have hitems : Retraces Anywhere Selects [] (call .selectItems) (read .selectItems)
      (fun items => separated .comma (items.map SelectItem.outline)) (fun _ => Clausal [.FROM]) :=
    (hcall.rule .selectItems).ending fun _ _ _ h => h.alike
  refine (retraces_keyword .SELECT).bind fun start start' _ => retraces_quantifier.bind
    fun quantifier quantifier' hquantifier => (hitems.recover (hcall.steady _)).bind
      fun found found' hfound => ?_
  obtain rfl : quantifier = quantifier' := Option.map_injective (fun _ _ h => h) hquantifier
  have hlist : erase (found.getD []) = erase (found'.getD []) := by
    cases found with
    | none =>
      cases found' with
      | none => rfl
      | some list => cases hfound
    | some list =>
      cases found' with
      | none => cases hfound
      | some list' => exact erase_some.1 hfound
  have h : Retraces Anywhere (Clausal [.FROM])
      (before ++ .keyword .SELECT :: quantifier.elim [] ([·.outline]) ++
        separated .comma ((found.getD []).map SelectItem.outline)) _ _
      (fun q : Query => before ++ q.outline) (fun _ => Ended) :=
    retraces_fromRelation hcall hlist start start'
  cases found with
  | none =>
    have hany : ∀ c tokens, Anywhere c.current → Clausal [.FROM] c tokens → Outlook.any c tokens :=
      fun _ _ _ _ => trivial
    simpa [separated] using h.starting hany
  | some list => simpa using h

end Callees

end SearchSql.Grammar
