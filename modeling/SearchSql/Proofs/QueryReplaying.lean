import SearchSql.Proofs.RuleReplaying

/-!
# Queries that read the same tokens again

In front of a seam at which both lists go on with a token of the same kind, queries are repeated as
expressions are. An attempt to read `ORDER BY` as a part of an aggregate asks for both directions:
where the first run gives it up, so must the second, for if the second succeeded, in front of the seam,
the first would have done so as well. All rules are repeated, by induction on those that follow one
another (`Seam.replays_derive`).
-/

set_option autoImplicit false

namespace SearchSql.Grammar

open SearchSql.Grammar.Parser

variable {α β : Type}

/-- The rule of a nonterminal, where `tail` reads what follows an aggregate. -/
def ruleWith (tail : Aggregate → Parser CallShape) (call : Callee) :
    {α : Type} → Nonterminal α → Parser α
  | _, .aggregateTail aggregate => tail aggregate
  | _, n => rule call n

/-- What holds of the rules holds of those with a `tail` of which it holds. -/
theorem ruleWith_of_rule {P : {α : Type} → Nonterminal α → Parser α → Prop}
    {tail : Aggregate → Parser CallShape} {call : Callee}
    (htail : ∀ aggregate, P (.aggregateTail aggregate) (tail aggregate))
    (h : ∀ {α : Type} (n : Nonterminal α), P n (rule call n)) (n : Nonterminal α) :
    P n (ruleWith tail call n) := by
  have hrule := h n
  cases n with
  | aggregateTail aggregate => exact htail aggregate
  | _ => exact hrule

/-- The rules are those in which an aggregate is followed by its own tail. -/
theorem rule_eq_ruleWith (call : Callee) (n : Nonterminal α) :
    rule call n = ruleWith (aggregateTailRule call) call n := by
  cases n <;> rfl

/-! ## Where an ordered filter ends -/

/-- The tokens of a filter. -/
structure IsFilter (tokens condition : List Token) : Prop where
  tokens : ∃ word paren filtering closing, tokens = word :: paren :: filtering :: condition ++ [closing] ∧
    word.kind = .keyword .FILTER ∧ paren.kind = .symbol .leftParen ∧
      filtering.kind = .keyword .WHERE
  level : levels? 0 condition = some 0

/-- In front of the last of its tokens, a filter has its parenthesis open. -/
theorem IsFilter.levels_prefix {tokens condition v w : List Token} (h : IsFilter tokens condition)
    (hsplit : tokens = v ++ w) (hv : v ≠ []) (hw : w ≠ []) :
    kindAt w 0 = .symbol .leftParen ∨ ∃ l, levels? 0 v = some (l + 1) := by
  obtain ⟨word, paren, filtering, closing, rfl, hword, hparen, hfiltering⟩ := h.tokens
  have hopen (u : List Token) {l : Nat} (hu : levels? 1 u = some l) :
      levels? 0 (word :: paren :: u) = some l := by
    simp [levels?_cons, hword, hparen, levelAfter?, Keyword.startsClause, hu]
  have hinner (u : List Token) {l : Nat} (hu : levels? 0 u = some l) :
      levels? 1 (filtering :: u) = some (l + 1) := by
    have hadd := levels?_add 1 hu
    rw [Nat.zero_add] at hadd
    simp [levels?_cons, hfiltering, levelAfter?, hadd]
  rcases v with _ | ⟨a, _ | ⟨b, _ | ⟨f, v⟩⟩⟩
  · exact absurd rfl hv
  · obtain ⟨-, rfl⟩ := List.cons.inj hsplit
    exact .inl hparen
  · obtain ⟨rfl, hrest⟩ := List.cons.inj hsplit
    obtain ⟨rfl, -⟩ := List.cons.inj hrest
    exact .inr ⟨0, hopen [] rfl⟩
  · simp only [List.cons_append, List.cons.injEq] at hsplit
    obtain ⟨rfl, rfl, rfl, hrest⟩ := hsplit
    -- What is left of the filter holds its last token, so the condition begins with `v`.
    obtain ⟨w', rfl⟩ : ∃ w', condition = v ++ w' := by
      obtain ⟨w', u, rfl⟩ : ∃ w' u, w = w' ++ [u] :=
        ⟨w.dropLast, w.getLast hw, (List.dropLast_append_getLast hw).symm⟩
      rw [← List.append_assoc] at hrest
      exact ⟨w', (List.append_inj' hrest rfl).1⟩
    have hlevel := h.level
    rw [levels?_append] at hlevel
    obtain ⟨l, hl, -⟩ := Option.bind_eq_some_iff.1 hlevel
    exact .inr ⟨l, hopen _ (hinner v hl)⟩

/-- A filter that is read is `FILTER`, `WHERE` and a condition in parentheses, balanced on the
whole. -/
theorem filterRule_eq_ok {c : Callee} (hc : Walking c) {s t : State} {filter : Filter}
    (h : filterRule c s = .ok filter t) :
    ∃ tokens condition, s.cursor.ahead = tokens ++ t.cursor.ahead ∧ IsFilter tokens condition := by
  obtain ⟨_, _, hrun, hrest⟩ := bind_eq_ok_iff.1 h
  obtain ⟨hword, -, rfl⟩ := keyword_eq_ok_iff.1 hrun
  obtain ⟨_, _, hrun, hrest⟩ := bind_eq_ok_iff.1 hrest
  obtain ⟨hparen, -, rfl⟩ := symbol_eq_ok_iff.1 hrun
  obtain ⟨_, _, hrun, hrest⟩ := bind_eq_ok_iff.1 hrest
  obtain ⟨hfiltering, -, rfl⟩ := keyword_eq_ok_iff.1 hrun
  obtain ⟨e, u, hexpr, hrest⟩ := bind_eq_ok_iff.1 hrest
  obtain ⟨_, _, hrun, hrest⟩ := bind_eq_ok_iff.1 hrest
  obtain ⟨hclosing, -, rfl⟩ := symbol_eq_ok_iff.1 hrun
  obtain ⟨_, rfl⟩ := pure_eq_ok_iff.1 hrest
  have hwalk : Walks true 0 0 (c .wholeExpr) := hc.level rfl
  have hends := hwalk (((s.skip 1).skip 1).skip 1) trivial
  change c .wholeExpr _ = _ at hexpr
  rw [hexpr] at hends
  obtain ⟨condition, hcondition, hlevel, -⟩ := hends
  refine ⟨_, condition, ?_, ⟨_, _, _, u.cursor.current, rfl, hword, hparen, hfiltering⟩, hlevel⟩
  have hahead {v : State} (hend : v.cursor.current.isEnd = false) :
      v.cursor.ahead = v.cursor.current :: (v.skip 1).cursor.ahead := ahead_eq_cons hend
  rw [hahead (isEnd_of_keyword hword), hahead (isEnd_of_symbol hparen),
    hahead (isEnd_of_keyword hfiltering), hcondition, hahead (isEnd_of_symbol hclosing)]
  simp

/-- A filter that is found in front of a seam ends there. -/
theorem orderedFilter_stays {fuel : Nat} {s t : State} {found : OrderBy × Filter}
    {tokens rest : List Token} (hahead : s.cursor.ahead = tokens ++ rest) (hborder : Border rest)
    (hrest : Unfiltered rest) (hclosed : Sealed tokens ∨ rest = [])
    (h : orderedFilter (derive fuel) s = .ok found t) :
    rest.length ≤ t.cursor.ahead.length := by
  obtain rfl | hne := eq_or_ne rest []
  · exact Nat.zero_le _
  have hsealed := hclosed.resolve_right hne
  obtain ⟨orderBy, u, horder, hbehind⟩ := bind_eq_ok_iff.1 h
  obtain ⟨filter, v, hfilter, hpure⟩ := bind_eq_ok_iff.1 hbehind
  obtain ⟨-, hv⟩ := pure_eq_ok_iff.1 hpure
  rw [hv] at hfilter
  -- The order passes tokens on one level, then comes the word `FILTER`.
  have hwalk : Walks true 0 0 (derive fuel .orderBy) := Walking.ordering (walking_derive fuel) rfl
  have hends := hwalk s trivial
  change derive fuel .orderBy s = _ at horder
  rw [horder] at hends
  obtain ⟨ordered, hordered, hlevel, -⟩ := hends
  obtain ⟨filtered, condition, hfiltered, hform⟩ :
      ∃ filtered condition, u.cursor.ahead = filtered ++ t.cursor.ahead ∧
        IsFilter filtered condition := by
    cases fuel with
    | zero => cases hfilter
    | succ fuel => exact filterRule_eq_ok (walking_derive fuel) hfilter
  obtain ⟨word, paren, filtering, closing, hwords, hword, hparen, hfiltering⟩ := hform.tokens
  have hhead : kindAt u.cursor.ahead 0 = .keyword .FILTER := by
    rw [hfiltered, hwords]
    exact hword
  rw [hahead] at hordered
  obtain ⟨behind, rfl, hbehind⟩ | ⟨beyond, rfl, hbeyond⟩ := List.append_eq_append_iff.1 hordered
  · -- The order would end behind the seam.
    exfalso
    rw [levels?_append] at hlevel
    obtain ⟨l, hl, hrestLevel⟩ := Option.bind_eq_some_iff.1 hlevel
    obtain rfl : l = 0 := hsealed tokens (List.suffix_refl _) l (levels?_parensOf hl)
    obtain rfl | hbehindNe := eq_or_ne behind []
    · rw [List.nil_append] at hbehind
      rw [← hbehind] at hhead
      exact absurd hhead (TokenKind.ne_of_isBorder hborder rfl)
    · exact hrest.filter behind u.cursor.ahead hbehind hbehindNe hrestLevel hhead
  · rw [hbeyond] at hfiltered
    obtain ⟨more, hmore, hend⟩ | ⟨more, rfl, hend⟩ := List.append_eq_append_iff.1 hfiltered
    swap
    · rw [hend, List.length_append]
      exact Nat.le_add_left _ _
    obtain rfl | hmoreNe := eq_or_ne more []
    · rw [hend]
      exact Nat.le_refl _
    -- The filter would end behind the seam, with its parenthesis open in front of it.
    exfalso
    obtain rfl | hbeyondNe := eq_or_ne beyond []
    · rw [List.nil_append] at hbeyond
      rw [hbeyond] at hhead
      exact absurd hhead (TokenKind.ne_of_isBorder hborder rfl)
    obtain hopen | ⟨l, hl⟩ := hform.levels_prefix hmore hbeyondNe hmoreNe
    · refine absurd hopen (TokenKind.ne_of_isBorder ?_ rfl)
      obtain ⟨a, more, rfl⟩ := List.exists_cons_of_ne_nil hmoreNe
      rw [hend] at hborder
      exact hborder
    · exact absurd (hsealed beyond (List.suffix_append ordered beyond) (l + 1) (levels?_parensOf hl))
        (Nat.succ_ne_zero l)

namespace Seam

variable {B : Seam} {front : Bool} {ending : Ending} {s s' t : State}

/-- An attempt comes to the same in front of both sides of a seam, if its runs are repeated in both
directions and none from the second state ends behind the seam. -/
theorem repeats_attempt {c : Callee} (h : B.Replays true .closed (orderedFilter c))
    (hswap : B.swap.Replays true .closed (orderedFilter c)) (hs : B.Shared s s')
    (hfront : B.left.length < s.cursor.ahead.length) {found : Option (OrderBy × Filter)}
    (hstays : found = none → ∀ x u, orderedFilter c s'.trying = .ok x u →
      B.right.length ≤ u.cursor.ahead.length)
    (hrun : attempt "ordered aggregate filter" (orderedFilter c) s = .ok found t)
    (hle : B.left.length ≤ t.cursor.ahead.length) :
    B.Repeats found t (attempt "ordered aggregate filter" (orderedFilter c) s') := by
  have htrying : B.Shared s.trying s'.trying :=
    hs.same hs.frame.trying rfl rfl rfl
  rw [attempt_apply] at hrun ⊢
  cases hleft : orderedFilter c s.trying with
  | ok x u =>
    rw [hleft] at hrun
    obtain ⟨rfl, rfl⟩ := EStateM.Result.ok.inj hrun
    obtain ⟨v, hv⟩ | ⟨u', hu', hu⟩ := h.replay htrying (fun _ => hfront) hleft hle trivial
    · rw [hv]
      exact .inl ⟨v.tried, rfl⟩
    · rw [hu']
      refine .inr ⟨u'.tried, rfl, hu.same hu.frame.tried rfl rfl rfl⟩
  | error e u =>
    rw [hleft] at hrun
    cases e with
    | outOfFuel => cases hrun
    | rejected d =>
      obtain ⟨rfl, rfl⟩ := EStateM.Result.ok.inj hrun
      have hundone {d' : Diagnostic} {u' : State} (hu : s.trying.Leads u)
          (hu' : s'.trying.Leads u') : B.Shared (s.undone "ordered aggregate filter" d u)
            (s'.undone "ordered aggregate filter" d' u') := by
        have hframe := (htrying.frame.leads hu hu').tried
        exact hs.same (hframe.same _ _ _ _ _ _ _ _) hu.settings rfl rfl
      have hleads := h.steady s.trying
      have hleads' := h.steady s'.trying
      rw [hleft] at hleads
      cases hright : orderedFilter c s'.trying with
      | error e u' =>
        cases e with
        | outOfFuel => exact .inl ⟨u'.tried, rfl⟩
        | rejected d' =>
          rw [hright] at hleads'
          exact .inr ⟨_, rfl, hundone hleads hleads'⟩
      | ok x u' =>
        -- The other run would have succeeded as well.
        obtain ⟨tokens, hahead, hahead', -⟩ := htrying.tokens
        have hback := hswap.replay htrying.swap (fun _ => ?_) hright (hstays rfl x u' hright) trivial
        · rw [hleft] at hback
          obtain ⟨v, hv⟩ | ⟨v, hv, -⟩ := hback
          · cases hv
          · cases hv
        · rw [show s.cursor.ahead = _ from hahead, List.length_append] at hfront
          rw [hahead', List.length_append]
          show B.right.length < _
          omega

/-- What an attempt comes to is the same in front of both sides of a calm seam. -/
theorem replays_attempt {fuel : Nat} (hB : B.Calm)
    (h : B.Replays true .closed (orderedFilter (derive fuel)))
    (hswap : B.swap.Replays true .closed (orderedFilter (derive fuel))) :
    B.Replays true .closed (attempt "ordered aggregate filter" (orderedFilter (derive fuel))) := by
  refine ⟨h.steady.attempt, fun {s s' t found} hs hfront hrun hle _ =>
    repeats_attempt h hswap hs (hfront rfl) (fun _ x u hright => ?_) hrun hle⟩
  obtain ⟨tokens, -, hahead', hfits⟩ := hs.tokens
  exact orderedFilter_stays (s := s'.trying) hahead' hfits.right hB.right
    (hfits.closed.imp_right And.right) hright

/-! ## Queries -/

section

variable {c : Callee} (h : ReplayCallees B c)

include h

theorem replays_selectItemRule (starAllowed : Bool) :
    B.Replays false .expression (selectItemRule c starAllowed) := by
  have hexpr : B.Replays false .expression (do
      let expr ← c .wholeExpr
      return SelectItem.expr expr (← optionalAlias)) :=
    (h.expr 0).bind fun _ => replays_optionalAlias.map _
  cases starAllowed with
  | false => exact hexpr
  | true => exact Replays.atSymbol_bind rfl (Replays.take.map _) hexpr

/-- The elements of a selection end in front of the same word on both sides. -/
theorem replays_selectItemsRule (hB : B.Even) :
    B.Replays false .list (selectItemsRule c) := by
  have hitem (starAllowed : Bool) : B.Replays false .list (c (.selectItem starAllowed)) :=
    Replays.enlist (h.replays (.selectItem starAllowed) fun _ => hB)
  exact (hitem true).commaList (hitem false) _

theorem replays_relationRule (hB : B.Even) : B.Replays false .closed (relationRule c) := by
  have hquery : B.Replays false .list (c .query) := h.replays .query fun _ => hB
  refine (Replays.keyword .FROM).bind fun _ => Replays.atSymbol_bind rfl ?_ ?_
  · refine Replays.take.bind fun start => ?_
    refine ((hquery.subquery.nest (by decide) 2).bind_symbol fun query _ => ?_)
    exact Replays.takeKeyword_bind rfl
      (replays_ident.bind fun _ => (Replays.spanFrom start).bind fun _ => Replays.pure _)
      (replays_ident.bind fun _ => (Replays.spanFrom start).bind fun _ => Replays.pure _)
  · exact replays_qualifiedName.bind fun _ => replays_optionalAlias.map _

theorem replays_conditionRule (word : Keyword) :
    B.Replays false .expression (conditionRule c word) :=
  (Replays.keyword word).bind fun start => (h.expr 0).bind fun _ =>
    (Replays.spanFrom start).bind fun _ => Replays.pure _

theorem replays_groupByRule : B.Replays false .list (groupByRule c) :=
  (Replays.keyword .GROUP).bind fun start => (Replays.keyword .BY).bind fun _ =>
    (h.exprs _).bind fun _ => (Replays.spanFrom start).bind fun _ => Replays.pure _

omit h in
theorem replays_limitClause (hB : B.Even) : B.Replays front .list limitClause := by
  refine Replays.atKeyword_bind_of_even hB fun here => ?_
  cases here with
  | false => exact Replays.pure none
  | true => exact replays_limit.recover

/-- At an even seam, the clauses from `GROUP BY` on end alike. -/
theorem replays_fromGroup (hB : B.Even) (allowed : Bool) (start : Span)
    (finish : Option GroupBy → Option Condition → Option OrderBy → Option Limit → Span → Query) :
    B.Replays front .list (fromGroup c allowed start finish) := by
  have horder : B.Replays false .list (c .orderBy) := h.replays .orderBy nofun
  have hgroup : B.Replays false .list (c .groupBy) := h.replays .groupBy fun _ => hB
  have hcondition (word : Keyword) : B.Replays false .list (c (.condition word)) :=
    Replays.enlist (h.replays (.condition word) fun _ => hB)
  exact (Replays.clause hB hgroup.weaken allowed .GROUP).bind fun _ =>
    (Replays.clause hB (hcondition .HAVING) allowed .HAVING).bind fun _ =>
      (Replays.clause hB horder allowed .ORDER).bind fun _ =>
        (replays_limitClause hB).bind fun _ => (Replays.spanFrom start).bind fun _ => Replays.pure _

/-- At an even seam, a query ends on both sides. -/
theorem replays_queryRule (hB : B.Even) : B.Replays false .list (queryRule c) := by
  have hitems : B.Replays false .list (c .selectItems) := h.replays .selectItems fun _ => hB
  have hrelation : B.Replays false .closed (c .relation) := h.replays .relation fun _ => hB
  have hcondition : B.Replays false .list (c (.condition .WHERE)) :=
    Replays.enlist (h.replays (.condition .WHERE) fun _ => hB)
  rw [queryRule_eq]
  refine (Replays.keyword .SELECT).bind fun start => replays_quantifier.bind fun _ =>
    hitems.recover.bind fun _ => (Replays.clauseEnd hB).bind fun _ => ?_
  refine Replays.atKeyword_bind_of_even hB fun allowed => ?_
  exact (Replays.clause hB hrelation.relax allowed .FROM).bind fun _ =>
    (Replays.clause hB hcondition allowed .WHERE).bind fun _ => replays_fromGroup h hB allowed _ _

end

/-! ## All rules -/

/-- Every rule is repeated in front of a seam, if the rules that it goes on to are. -/
theorem ReplayCallees.ruleWith {c : Callee} (h : ReplayCallees B c) (hB : B.Orderless)
    {tail : Aggregate → Parser CallShape} (htail : ∀ aggregate, B.Replays false .closed (tail aggregate))
    (n : Nonterminal α) (hquery : n.isQuery = true → B.Even) :
    B.Replays n.front n.ending (Grammar.ruleWith tail c n) := by
  cases n with
  | expr least => exact replays_exprRule h least
  | predicate least => exact replays_predicateRule h least
  | arithmetic least => exact replays_arithmeticRule h least
  | operand => exact replays_operandRule h
  | parenthesized => exact replays_parenthesizedRule h
  | constant => exact replays_constantRule h
  | interval => exact replays_intervalRule h
  | call => exact replays_callRule h
  | shape family => exact replays_shapeRule h family
  | arguments => exact replays_argumentsRule h
  | scalar category => exact replays_scalarRule h category
  | case => exact replays_caseRule h
  | cast => exact replays_castRule h
  | ranking function => exact replays_rankingRule h function
  | aggregate function => exact replays_aggregateRule h function
  | percentile function => exact replays_percentileRule h function
  | aggregateTail aggregate => exact htail aggregate
  | window => exact replays_windowRule h hB
  | filter => exact replays_filterRule h
  | orderBy => exact replays_orderByRule h
  | orderItem => exact replays_orderItemRule h
  | score => exact replays_scoreRule h
  | relevance kind => exact replays_relevanceRule h kind
  | fieldEquals => exact replays_fieldEqualsRule h
  | namedArguments => exact replays_namedArgumentsRule h
  | searchValue => exact replays_searchValueRule h
  | relevanceOptions => exact replays_relevanceOptionsRule h
  | position => exact replays_positionRule h
  | extract => exact replays_extractRule h
  | getFormat => exact replays_getFormatRule h
  | timestamp function => exact replays_timestampRule h function
  | selectItems => exact replays_selectItemsRule h (hquery rfl)
  | selectItem starAllowed => exact replays_selectItemRule h starAllowed
  | relation => exact replays_relationRule h (hquery rfl)
  | condition word => exact replays_conditionRule h word
  | groupBy => exact replays_groupByRule h
  | query => exact replays_queryRule h (hquery rfl)

theorem Calm.swap (hB : B.Calm) : B.swap.Calm := ⟨hB.right, hB.left⟩

/-- A filter takes its word. -/
theorem takes_filterRule {c : Callee} (hc : Walking c) : Takes (filterRule c) := by
  intro s t filter hrun
  obtain ⟨tokens, condition, hahead, hform⟩ := filterRule_eq_ok hc hrun
  obtain ⟨word, paren, filtering, closing, rfl, hword, -⟩ := hform.tokens
  refine ⟨fun hnot => ?_, ?_⟩
  · rw [← kindAt_zero, hahead] at hnot
    exact absurd (hword.symm.trans hnot) (by decide)
  · rw [hahead, List.length_append]
    exact Nat.lt_add_of_pos_left (Nat.succ_pos _)

theorem takes_derive_filter (fuel : Nat) : Takes (derive fuel .filter) := by
  cases fuel with
  | zero => exact fun _ _ _ hrun => nomatch hrun
  | succ fuel => exact takes_filterRule (walking_derive fuel)

/-- Callees with some fuel repeat their runs if all rules with that fuel do. -/
theorem replayCallees_derive {fuel : Nat}
    (h : ∀ {α : Type} (n : Nonterminal α), (n.isQuery = true → B.Even) →
      B.Replays n.front n.ending (derive fuel n)) : ReplayCallees B (derive fuel) where
  steady := steady_derive fuel
  waits := waits_derive_filter fuel
  takes := takes_derive_filter fuel
  replays := h

/-- All rules are repeated in front of a seam, by induction on the rules that follow one another. An
attempt asks for the other direction as well, so the induction is over all seams. -/
theorem replays_derive (hB : B.Calm) (fuel : Nat) (n : Nonterminal α)
    (hquery : n.isQuery = true → B.Even) : B.Replays n.front n.ending (derive fuel n) := by
  induction fuel generalizing α B with
  | zero => exact ⟨State.Leads.refl, fun _ _ hrun => nomatch hrun⟩
  | succ fuel ih =>
    have h := replayCallees_derive fun n hquery => ih hB n hquery
    have hswap := replayCallees_derive fun n hquery => ih hB.swap n hquery
    have hattempt := replays_attempt hB (replays_orderedFilter h) (replays_orderedFilter hswap)
    rw [derive_succ, rule_eq_ruleWith]
    exact h.ruleWith hB.orderless (replays_tailAround h hB.orderless hattempt) n hquery

/-- The rules are repeated in front of a seam, with as much fuel as they take. -/
theorem replays_read (hB : B.Calm) (n : Nonterminal α) (hquery : n.isQuery = true → B.Even) :
    B.Replays n.front n.ending (read n) := by
  refine ⟨steady_read n, fun {s s' t a} hs hfront hrun hle hclear => ?_⟩
  have hbudget : s'.budget = s.budget := by
    unfold State.budget
    rw [hs.frame.settings, hs.frame.depth]
  have hrepeats := (replays_derive hB (n.fuel s.budget) n hquery).replay hs hfront hrun hle hclear
  rwa [derive_eq_read (Nat.le_of_eq (by rw [hbudget]))] at hrepeats

/-- At a seam that belongs to no aggregate, all rules repeat their runs. -/
theorem replayCallees_read (hB : B.Calm) : ReplayCallees B read where
  steady := steady_read
  waits := waits_read_filter
  takes s t filter hrun := takes_derive_filter _ s t filter hrun
  replays := replays_read hB

end Seam

end SearchSql.Grammar
