import SearchSql.Proofs.RuleCongruence

/-!
# Related callees make related queries

The clauses of a query are read one after the other, and each but the relation may be open. Whoever
reads a clause in front of `ORDER BY` too far comes, with what is left of the order, to a filter,
where no clause ends.
-/

set_option autoImplicit false

namespace SearchSql.Grammar

open SearchSql.Grammar.Parser

/-! ## The clauses from one of them on -/

/-- The clauses of a query from `ORDER BY` on. -/
def fromOrder (call : Callee) (allowed : Bool) (start : Span)
    (finish : Option OrderBy → Option Limit → Span → Query) : Parser Query := do
  let orderBy ← clause allowed .ORDER (call .orderBy)
  let limit ← limitClause
  return finish orderBy limit (← spanFrom start)

/-- The clauses of a query from `HAVING` on. -/
def fromHaving (call : Callee) (allowed : Bool) (start : Span)
    (finish : Option Condition → Option OrderBy → Option Limit → Span → Query) :
    Parser Query := do
  let having ← clause allowed .HAVING (call (.condition .HAVING))
  fromOrder call allowed start (finish having)

/-- The clauses of a query from `GROUP BY` on. -/
def fromGroup (call : Callee) (allowed : Bool) (start : Span)
    (finish : Option GroupBy → Option Condition → Option OrderBy → Option Limit → Span → Query) :
    Parser Query := do
  let groupBy ← clause allowed .GROUP (call .groupBy)
  fromHaving call allowed start (finish groupBy)

/-- The clauses of a query from `WHERE` on. -/
def fromWhere (call : Callee) (allowed : Bool) (start : Span)
    (finish : Option Condition → Option GroupBy → Option Condition → Option OrderBy →
      Option Limit → Span → Query) : Parser Query := do
  let condition ← clause allowed .WHERE (call (.condition .WHERE))
  fromGroup call allowed start (finish condition)

/-- The clauses of a query behind its select list. -/
def fromRelation (call : Callee) (start : Span)
    (finish : Option Relation → Option Condition → Option GroupBy → Option Condition →
      Option OrderBy → Option Limit → Span → Query) : Parser Query := do
  clauseEnd
  let hasRelation ← atKeyword .FROM
  let relation ← clause hasRelation .FROM (call .relation)
  fromWhere call hasRelation start (finish relation)

/-- The quantifier and the select list of a query. -/
def queryItems (call : Callee) : Parser (Option Quantifier × Option (List SelectItem)) := do
  let quantifier ← quantifier
  let items ← recover (call .selectItems)
  return (quantifier, items)

theorem queryRule_eq (call : Callee) :
    queryRule call = (do
      let start ← keyword .SELECT
      let quantifier ← quantifier
      let items ← recover (call .selectItems)
      fromRelation call start (Query.mk quantifier (items.getD []))) := rfl

/-- The pattern without quotes at a cursor. -/
def plainPatternAt (c : Cursor) : Parser Pattern := do
  let pieces := plainPattern none c.ahead
  skip pieces.length
  let text := String.join (pieces.map Token.text)
  if text.isEmpty then rejectCurrent "pattern"
  return .plain text

/-! ## In front of `ORDER` -/

theorem waits_clauseEnd : Waits false clauseEnd := by
  refine waits_get_bind fun s hs => ?_
  have hboundary : s.atBoundary = true := by
    unfold State.atBoundary
    rw [show s.cursor.current.kind = _ from hs]
    rfl
  rw [hboundary]
  exact waits_pure _

theorem waits_clause {α : Type} {allowed : Bool} {word : Keyword} (p : Parser α)
    (h : allowed = false ∨ word ≠ .ORDER) : Waits false (clause allowed word p) := by
  cases allowed with
  | false => exact waits_pure none
  | true => exact waits_atKeyword_bind (h.resolve_left nofun) (waits_pure none)

theorem waits_limitClause : Waits false limitClause :=
  waits_atKeyword_bind (by decide) (waits_pure none)

theorem waits_fromRelation (call : Callee) (start : Span)
    (finish : Option Relation → Option Condition → Option GroupBy → Option Condition →
      Option OrderBy → Option Limit → Span → Query) :
    Waits false (fromRelation call start finish) := by
  have hclause {α : Type} (word : Keyword) (p : Parser α) : Waits false (clause false word p) :=
    waits_clause p (.inl rfl)
  refine waits_clauseEnd.bind fun _ => waits_atKeyword_bind (by decide) ?_
  exact (hclause _ _).bind fun _ => (hclause _ _).bind fun _ => (hclause _ _).bind fun _ =>
    (hclause _ _).bind fun _ => (hclause _ _).bind fun _ => waits_limitClause.bind fun _ =>
      (waits_spanFrom _).bind fun _ => waits_pure _

section Astray

/-- In front of an order the input does not end. -/
theorem stays_inputEnd {S : State → Prop} (hS : ∀ s, S s → s.AtOrder)
    (hfails : ∀ s, S s → s.isRecovering = false) : Stays S true inputEnd := by
  intro s t a hs h
  have hend : s.cursor.current.isEnd = false :=
    isEnd_eq_false (by rw [show s.cursor.current.kind = _ from hS s hs]; nofun)
  rw [inputEnd_apply (hfails s hs), hend] at h
  cases h

variable {S : State → Prop} {call : Callee}

/-- Behind a filter no clause ends. -/
theorem StopsAtFilter.clause (h : StopsAtFilter S call) (hS : ∀ s, S s → s.AtOrder)
    (hsteady : Steady (call .orderBy)) (hfails : ∀ s, S s → s.isRecovering = false)
    (allowed : Bool) : Stays S false (clause allowed .ORDER (call .orderBy)) := by
  intro s t found hs heq
  refine ⟨rfl, ?_⟩
  cases allowed with
  | false => exact (pure_eq_ok_iff.1 heq).2 ▸ hs
  | true =>
    unfold Parser.clause at heq
    rw [atKeyword_bind_apply, show s.cursor.current.kind = _ from hS s hs] at heq
    obtain ⟨o, u, ho, hrest⟩ := bind_eq_ok_iff.1 heq
    obtain ⟨_, v, hv, hend⟩ := bind_eq_ok_iff.1 hrest
    obtain ⟨_, rfl⟩ := pure_eq_ok_iff.1 hend
    obtain ⟨o', horder, _⟩ := recover_eq_ok_iff hsteady (hfails s hs) |>.1 ho
    obtain hfilter | hu := h s u o' hs horder
    · have hrecovering := (hsteady.leads horder).isRecovering.trans (hfails s hs)
      have hboundary := (clauseEnd_eq_ok_iff hrecovering).1 hv |>.1
      unfold State.atBoundary at hboundary
      rw [hfilter] at hboundary
      cases hboundary
    · exact (waits_clauseEnd u v _ (hS u hu) hv).2 ▸ hu

variable (h : ∀ allowed, Stays S false (clause allowed .ORDER (call .orderBy)))
variable (hS : ∀ s, S s → s.AtOrder) (allowed : Bool) (start : Span)

include h hS

theorem stays_fromOrder (finish : Option OrderBy → Option Limit → Span → Query) :
    Stays S false (fromOrder call allowed start finish) :=
  (h allowed).bind fun _ => (waits_limitClause.bind fun _ => (waits_spanFrom _).bind fun _ =>
    waits_pure _).stays hS

theorem stays_fromHaving
    (finish : Option Condition → Option OrderBy → Option Limit → Span → Query) :
    Stays S false (fromHaving call allowed start finish) :=
  ((waits_clause _ (.inr (by decide))).stays hS).bind fun _ =>
    stays_fromOrder h hS allowed start _

theorem stays_fromGroup
    (finish : Option GroupBy → Option Condition → Option OrderBy → Option Limit → Span → Query) :
    Stays S false (fromGroup call allowed start finish) :=
  ((waits_clause _ (.inr (by decide))).stays hS).bind fun _ =>
    stays_fromHaving h hS allowed start _

end Astray

namespace Congruence

variable {L : State → State → Prop} {left right : Nat → State → Prop}
variable {R : Nat → Bool → {α : Type} → Parser α → Parser α → Prop}
variable {b : Nat} (hR : Congruence L left right R)

include hR

theorem limit : R b true limit Parser.limit := by
  refine hR.bind (hR.keyword _) fun _ => hR.bind hR.count fun _ => ?_
  refine hR.bind (hR.takeSymbol _) fun comma => ?_
  cases comma with
  | true => exact hR.bind hR.count fun _ => hR.bind (hR.spanFrom _) fun _ => hR.pure _
  | false =>
    refine hR.bind (hR.takeKeyword _) fun offset => ?_
    cases offset with
    | true => exact hR.bind hR.count fun _ => hR.bind (hR.spanFrom _) fun _ => hR.pure _
    | false => exact hR.bind (hR.spanFrom _) fun _ => hR.pure _

theorem quantifier : R b true quantifier Parser.quantifier := by
  refine hR.bind (hR.takeKeyword _) fun all => ?_
  cases all with
  | true => exact hR.pure _
  | false =>
    refine hR.bind (hR.takeKeyword _) fun distinct => ?_
    cases distinct with
    | true => exact hR.pure _
    | false => exact hR.pure _

theorem pattern : R b true pattern Parser.pattern := by
  have hplain (k : Cursor) : R b true (plainPatternAt k) (Grammar.plainPatternAt k) :=
    hR.bind (hR.skip _) fun _ => hR.guarded (hR.rejectCurrent _) (hR.pure _)
  refine hR.current_bind fun t => ?_
  split
  · exact hR.bind (hR.skip 1) fun _ => hR.pure _
  · exact hR.cursor_bind hplain

theorem likePattern : R b true likePattern Parser.likePattern :=
  hR.bind (hR.keyword _) fun _ => hR.pattern

theorem nameFilter : R b true nameFilter Parser.nameFilter :=
  hR.current_bind fun _ => hR.bind hR.likePattern fun _ => hR.bind (hR.spanFrom _) fun _ =>
    hR.pure _

theorem showTables : R b true showTables Parser.showTables :=
  hR.bind (hR.keyword _) fun _ => hR.bind (hR.keyword _) fun _ => hR.bind hR.nameFilter fun _ =>
    hR.bind (hR.spanFrom _) fun _ => hR.pure _

theorem columnFilter : R b true columnFilter Parser.columnFilter := by
  refine hR.atKeyword_bind _ fun here => ?_
  cases here with
  | true =>
    exact hR.bind hR.take fun _ => hR.bind hR.likePattern fun _ => hR.bind (hR.spanFrom _) fun _ =>
      hR.pure _
  | false => exact hR.pure _

theorem describe : R b true describe Parser.describe :=
  hR.bind (hR.keyword _) fun _ => hR.bind (hR.keyword _) fun _ => hR.bind hR.nameFilter fun _ =>
    hR.bind hR.columnFilter fun _ => hR.bind (hR.spanFrom _) fun _ => hR.pure _

end Congruence

namespace QueryCongruence

variable {α : Type} {L : State → State → Prop} {left right : Nat → State → Prop}
variable {R : Nat → Bool → {α : Type} → Parser α → Parser α → Prop}
variable {b : Nat} {firm : Bool} {c d : Callee} (hR : QueryCongruence L left right R)

include hR

theorem selectItemRule (h : R b false (c .wholeExpr) (d .wholeExpr)) (starAllowed : Bool) :
    R b false (selectItemRule c starAllowed) (Grammar.selectItemRule d starAllowed) := by
  have hexpr : R b false
      (do
        let expr ← c .wholeExpr
        return .expr expr (← Parser.optionalAlias) : Parser SelectItem)
      (do
        let expr ← d .wholeExpr
        return .expr expr (← Parser.optionalAlias)) :=
    hR.bindOpen h (fun _ => hR.weaken (hR.map _ hR.optionalAlias))
      (fun _ => waits_optionalAlias.bind fun _ => waits_pure _)
      (fun _ => waits_optionalAlias.bind fun _ => waits_pure _)
  cases starAllowed with
  | false => exact hexpr
  | true =>
    refine hR.atSymbol_bind _ fun star => ?_
    cases star with
    | true => exact hR.weaken (hR.map _ hR.take)
    | false => exact hexpr

theorem selectItemsRule
    (h : ∀ starAllowed, R b false (c (.selectItem starAllowed)) (d (.selectItem starAllowed))) :
    R b false (selectItemsRule c) (Grammar.selectItemsRule d) :=
  hR.commaList _ (h true) (h false)

theorem relationRule (hc : Steady (c .query)) (hd : Steady (d .query))
    (h : ∀ b' < b, R b' false (c .query) (d .query)) :
    R b true (relationRule c) (Grammar.relationRule d) := by
  refine hR.bind (hR.keyword _) fun _ => hR.atSymbol_bind _ fun paren => ?_
  cases paren with
  | true =>
    refine hR.bind hR.take fun _ => hR.beforeSymbol ?_ fun _ _ => ?_
    · exact hR.nest (by decide) hc.subquery hd.subquery fun b' hb => hR.subquery (h b' hb)
    · exact hR.bind (hR.takeKeyword _) fun _ => hR.bind hR.ident fun _ =>
        hR.bind (hR.spanFrom _) fun _ => hR.pure _
  | false => exact hR.bind hR.qualifiedName fun _ => hR.map _ hR.optionalAlias

theorem conditionRule (h : R b false (c .wholeExpr) (d .wholeExpr)) (word : Keyword) :
    R b false (conditionRule c word) (Grammar.conditionRule d word) :=
  hR.bind (hR.keyword _) fun _ => hR.thenSpan h _ _

theorem groupByRule (h : R b false (c .wholeExpr) (d .wholeExpr)) :
    R b false (groupByRule c) (Grammar.groupByRule d) :=
  hR.bind (hR.keyword _) fun _ => hR.bind (hR.keyword _) fun _ =>
    hR.thenSpan (hR.commaSeparated _ h) _ _

theorem clause {p q : Parser α} (h : R b firm p q) (allowed : Bool) (word : Keyword) :
    R b firm (clause allowed word p) (Parser.clause allowed word q) := by
  have hrest (found : Option α) : Waits false (do
      Parser.clauseEnd
      return found) := waits_clauseEnd.bind fun _ => waits_pure _
  cases allowed with
  | false => exact hR.weakenTo (hR.pure _)
  | true =>
    refine hR.atKeyword_bind _ fun here => ?_
    cases here with
    | true =>
      exact hR.bindAny (hR.recover h)
        (fun _ => hR.weakenTo (hR.bind hR.clauseEnd fun _ => hR.pure _)) (fun _ => hrest)
        (fun _ => hrest)
    | false => exact hR.weakenTo (hR.pure _)

theorem limitClause : R b true limitClause Parser.limitClause := by
  refine hR.atKeyword_bind _ fun here => ?_
  cases here with
  | true => exact hR.recover hR.limit
  | false => exact hR.pure _

theorem queryItems (hitems : R b false (c .selectItems) (d .selectItems)) :
    R b false (queryItems c) (Grammar.queryItems d) :=
  hR.bind hR.quantifier fun _ => hR.map _ (hR.recover hitems)

section

variable (hcondition : ∀ word, R b false (c (.condition word)) (d (.condition word)))
variable (hgroupBy : R b false (c .groupBy) (d .groupBy))
variable (horderBy : R b false (c .orderBy) (d .orderBy))
variable (hleft : ∀ allowed, Stays (left b) false (Parser.clause allowed .ORDER (c .orderBy)))
variable (hright : ∀ allowed, Stays (right b) false (Parser.clause allowed .ORDER (d .orderBy)))

include hcondition hgroupBy horderBy hleft hright

theorem fromGroup (allowed : Bool) (start : Span)
    (finish : Option GroupBy → Option Condition → Option OrderBy → Option Limit → Span → Query) :
    R b false (fromGroup c allowed start finish) (Grammar.fromGroup d allowed start finish) := by
  refine hR.bindStays (hR.clause hgroupBy _ _) (fun _ => ?_)
    (fun _ => stays_fromHaving hleft hR.left_atOrder _ _ _)
    (fun _ => stays_fromHaving hright hR.right_atOrder _ _ _)
  refine hR.bindStays (hR.clause (hcondition _) _ _) (fun _ => ?_)
    (fun _ => stays_fromOrder hleft hR.left_atOrder _ _ _)
    (fun _ => stays_fromOrder hright hR.right_atOrder _ _ _)
  have hrest (orderBy : Option OrderBy) (finish : Option OrderBy → Option Limit → Span → Query) :
      Waits false (do
        let limit ← Parser.limitClause
        return finish orderBy limit (← Parser.spanFrom start)) :=
    waits_limitClause.bind fun _ => (waits_spanFrom _).bind fun _ => waits_pure _
  exact hR.bindOpen (hR.clause horderBy _ _)
    (fun _ => hR.weaken (hR.bind hR.limitClause fun _ => hR.bind (hR.spanFrom _) fun _ =>
      hR.pure _)) (fun _ => hrest _ _) (fun _ => hrest _ _)

theorem queryRule (hitems : R b false (c .selectItems) (d .selectItems))
    (hrelation : R b true (c .relation) (d .relation)) :
    R b false (queryRule c) (Grammar.queryRule d) := by
  rw [queryRule_eq, queryRule_eq]
  refine hR.bind (hR.keyword _) fun start => hR.bind hR.quantifier fun _ => ?_
  refine hR.bindOpen (hR.recover hitems) (fun _ => ?_) (fun _ => waits_fromRelation c _ _)
    (fun _ => waits_fromRelation d _ _)
  refine hR.bind hR.clauseEnd fun _ => hR.atKeyword_bind _ fun allowed => ?_
  refine hR.bind (hR.clause hrelation _ _) fun _ => ?_
  exact hR.bindStays (hR.clause (hcondition _) _ _)
    (fun _ => hR.fromGroup hcondition hgroupBy horderBy hleft hright _ _ _)
    (fun _ => stays_fromGroup hleft hR.left_atOrder _ _ _)
    (fun _ => stays_fromGroup hright hR.right_atOrder _ _ _)

end

/-! ## Statements -/

theorem statementRule (h : R b false (c .query) (d .query)) :
    R b false (statementRule c) (Grammar.statementRule d) := by
  refine hR.current_bind fun t => ?_
  split
  · exact hR.map _ h
  · exact hR.weaken hR.showTables
  · exact hR.weaken hR.describe
  · exact hR.weaken (hR.reject _)

/-- Behind a statement that has been read too far the input does not end. -/
theorem rootRule (h : R b false (c .query) (d .query)) (hend : R b true inputEnd inputEnd)
    (hleft : Stays (left b) true inputEnd) (hright : Stays (right b) true inputEnd) :
    R b true (rootRule c) (Grammar.rootRule d) := by
  have hoptional : R b false (optionalStatement c) (Grammar.optionalStatement d) := by
    refine hR.current_bind fun t => ?_
    split
    · exact hR.weaken (hR.pure _)
    · exact hR.weaken (hR.pure _)
    · exact hR.recover (hR.statementRule h)
  have hsemicolon : Waits false (Parser.takeSymbol .semicolon) := fun s t a hs heq =>
    waits_takeSymbol_bind (waits_pure false) s t a hs (bind_eq_ok_iff.2 ⟨a, t, heq, rfl⟩)
  exact hR.bindStays hoptional
    (fun _ => hR.bind (hR.takeSymbol _) fun _ => hR.bind hend fun _ => hR.pure _)
    (fun _ => (hsemicolon.stays hR.left_atOrder).bind fun _ => hleft.bind_firm)
    (fun _ => (hsemicolon.stays hR.right_atOrder).bind fun _ => hright.bind_firm)

end QueryCongruence

end SearchSql.Grammar
