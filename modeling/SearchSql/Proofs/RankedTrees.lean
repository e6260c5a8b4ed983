import SearchSql.Proofs.PredicateLadder
import SearchSql.Proofs.RuleSpending
import SearchSql.Time.Reading

/-!
# The ladder of tests in whole trees

Only the rule of predicates makes a predicate out of tests, and it makes ranked ones. The other rules
put together what they are given: the predicates in their trees are those in the trees of the rules
that they go on to. So all trees that a parse returns hold ranked predicates only, and each predicate
that is read stops in front of a test that it may not take (`parse_ranked`).
-/

set_option autoImplicit false

namespace SearchSql

namespace Grammar

open SearchSql.Grammar.Parser

section

variable {call : Callee} (h : Ranks call)

include h

/-- Every predicate in what a callee builds is ranked; an expression has such predicates only. -/
theorem Ranks.expr (least : Nat) : Yields (fun e => AllRanked e.predicates) (call (.expr least)) :=
  h.ranked (.expr least)

/-- So have the expressions of a list. -/
theorem Ranks.exprs (rule : String) :
    Yields (fun es => AllRanked (predicatesAll es)) (commaSeparated rule (call .wholeExpr)) :=
  ((h.expr 0).commaSeparated rule).imp fun _ hes => allRanked_predicatesAll.2 hes

/-! ## Expressions -/

/-- All predicates in an expression are ranked, if its callees see to it. -/
theorem ranked_exprRule (least : Nat) :
    Yields (fun e => AllRanked e.predicates) (exprRule call least) := by
  have hoperand : Yields (fun e => AllRanked e.predicates) (logicalOperand call) := by
    apply yields_bind
    intro here
    split
    · refine yields_bind fun start => (h.expr notPrecedence).bind fun e he => ?_
      exact yields_bind fun span => yields_pure he
    · exact (h.ranked (.predicate 0)).bind fun p hp => yields_pure hp
  have hstep (left : Expr) (hleft : AllRanked left.predicates) :
      Yields (fun r => AllRanked r.value.predicates) (logicalStep call least left) := by
    apply yields_bind
    intro t
    cases Connective.ofKind? t.kind with
    | none => exact yields_pure hleft
    | some op =>
      dsimp only
      split
      · exact yields_pure hleft
      · refine yields_bind fun _ => (h.expr _).bind fun right hright => yields_pure ?_
        cases op with
        | and => exact allRanked_append.2 ⟨hleft, hright⟩
        | or => exact allRanked_append.2 ⟨hleft, hright⟩
  rw [exprRule_eq]
  exact Yields.nest (hoperand.bind fun left hleft => yields_loop hstep hleft)

/-- The predicates in a chain of operators are those in its operands. -/
theorem ranked_arithmeticRule (least : Nat) :
    Yields (fun a => AllRanked a.predicates) (arithmeticRule call least) := by
  have hstep (left : Atom) (hleft : AllRanked left.predicates) :
      Yields (fun r => AllRanked r.value.predicates) (arithmeticStep call least left) := by
    apply yields_bind
    intro t
    cases ArithmeticOp.ofKind? t.kind with
    | none => exact yields_pure hleft
    | some op =>
      dsimp only
      split
      · exact yields_pure hleft
      · refine yields_bind fun _ => (h.ranked (.arithmetic _)).bind fun right hright => ?_
        exact yields_pure (allRanked_append.2 ⟨hleft, hright⟩)
  exact (h.ranked .operand).bind fun left hleft => yields_loop hstep hleft

theorem ranked_operandRule : Yields (fun a => AllRanked a.predicates) (operandRule call) := by
  rw [operandRule_eq]
  apply yields_get_bind
  intro s
  unfold operandAt
  split
  · refine Yields.bind (Q := fun f => AllRanked f.predicates) ?_ fun f hf => yields_pure hf
    refine yields_bind fun t => (h.ranked .fieldEquals).bind fun r hr => ?_
    exact yields_bind fun span => yields_pure hr
  · split
    · exact h.ranked .parenthesized
    · exact (h.ranked .constant).bind fun c hc => yields_pure hc
    · exact (h.ranked .call).bind fun f hf => yields_pure hf
    · exact yields_bind fun name => yields_pure allRanked_nil
    · exact yields_reject _

theorem ranked_parenthesizedRule :
    Yields (fun a => AllRanked a.predicates) (parenthesizedRule call) :=
  yields_bind fun _ => (h.expr 0).bind fun _ he => yields_bind fun _ => yields_bind fun _ =>
    yields_pure he

/-! ## Constants -/

theorem ranked_intervalRule : Yields (fun v => AllRanked v.predicates) (intervalRule call) :=
  yields_bind fun _ => (h.expr 0).bind fun _ he => yields_bind fun _ => yields_pure he

omit h in
/-- Only an interval needs a level of nesting, and only an interval holds predicates. -/
theorem allRanked_literal {value : Literal} (hvalue : value.need = 0) :
    AllRanked value.predicates := by
  cases value with
  | interval amount unit => exact absurd hvalue (Nat.succ_ne_zero _)
  | _ => exact allRanked_nil

omit h in
/-- There are no predicates in a number. -/
theorem ranked_number : Yields (fun c => AllRanked c.predicates) number :=
  yields_number.imp fun ⟨_, _⟩ hc => allRanked_literal hc

theorem ranked_literalRule : Yields (fun v => AllRanked v.predicates) (literalRule call) := by
  have hplain {p : Parser Literal} (hp : Yields (fun v => v.need = 0) p) :
      Yields (fun v => AllRanked v.predicates) p := hp.imp fun _ hv => allRanked_literal hv
  apply yields_bind
  intro t
  split
  · exact hplain (yields_simpleLiteral rfl)
  · exact hplain yields_bracedLiteral
  · exact hplain (yields_simpleLiteral rfl)
  · exact hplain (yields_simpleLiteral rfl)
  · exact hplain (yields_simpleLiteral rfl)
  · exact h.ranked .interval
  · split
    · exact hplain (yields_wordLiteral _)
    · exact yields_rejectCurrent _
  · split
    · exact hplain (yields_datetimeConstant _)
    · exact yields_rejectCurrent _
  · exact yields_rejectCurrent _

theorem ranked_constantRule : Yields (fun c => AllRanked c.predicates) (constantRule call) := by
  apply yields_bind
  intro t
  split
  · exact ranked_number
  · exact ranked_number
  · exact ranked_number
  · exact ranked_number
  · refine yields_bind fun t => (ranked_literalRule h).bind fun value hvalue => ?_
    exact yields_bind fun span => yields_pure hvalue

/-! ## Calls -/

theorem ranked_argumentsRule :
    Yields (fun es => ∀ e ∈ es, AllRanked e.predicates) (argumentsRule call) := by
  apply yields_bind
  intro found
  split
  · exact yields_pure fun e he => absurd he List.not_mem_nil
  · exact ((h.expr 0).commaSeparated _).bind fun es hes => yields_bind fun _ => yields_pure hes

theorem ranked_scalarRule (category : ScalarCategory) :
    Yields (fun f => AllRanked f.predicates) (scalarRule call category) :=
  yields_bind fun _ => (h.ranked .arguments).bind fun _ hes =>
    yields_pure (allRanked_predicatesAll.2 hes)

theorem ranked_caseRule : Yields (fun f => AllRanked f.predicates) (caseRule call) := by
  have hstep (branches : List CaseBranch) (hbranches : ∀ b ∈ branches, AllRanked b.predicates) :
      Yields (fun r => ∀ b ∈ r.value, AllRanked b.predicates) (caseStep call branches) := by
    apply yields_bind
    intro found
    split
    · refine (h.expr 0).bind fun condition hc => yields_bind fun _ => (h.expr 0).bind
        fun result hr => yields_pure ?_
      exact List.forall_mem_cons.2 ⟨allRanked_append.2 ⟨hc, hr⟩, hbranches⟩
    · exact yields_pure hbranches
  have hbranches : Yields (fun bs => AllRanked (predicatesBranches bs)) (caseBranches call) := by
    rw [caseBranches_eq]
    refine (yields_loop hstep fun b hb => absurd hb List.not_mem_nil).bind fun bs hbs => ?_
    exact yields_pure (allRanked_predicatesBranches.2 fun b hb => hbs b (List.mem_reverse.1 hb))
  have hsome : Yields (fun e => AllRanked (predicatesOptional e)) (some <$> call .wholeExpr) :=
    (h.expr 0).map fun e he => he
  have hend {operand : Option Expr} {branches : List CaseBranch}
      (ho : AllRanked (predicatesOptional operand)) (hb : AllRanked (predicatesBranches branches)) :
      Yields (fun f => AllRanked f.predicates) (caseEnd call operand branches) := by
    refine yields_guarded (yields_bind fun found => ?_)
    refine yields_either hsome (yields_pure allRanked_nil) fun otherwise he => ?_
    refine yields_bind fun _ => yields_pure ?_
    exact allRanked_append.2 ⟨allRanked_append.2 ⟨ho, hb⟩, he⟩
  refine yields_bind fun _ => yields_bind fun here => ?_
  refine yields_either (yields_pure allRanked_nil) hsome fun operand ho => ?_
  exact hbranches.bind fun branches hb => hend ho hb

theorem ranked_castRule : Yields (fun f => AllRanked f.predicates) (castRule call) :=
  yields_bind fun _ => yields_bind fun _ => (h.expr 0).bind fun _ he => yields_bind fun _ =>
    yields_bind fun _ => yields_bind fun _ => yields_pure he

theorem ranked_positionRule : Yields (fun f => AllRanked f.predicates) (positionRule call) :=
  yields_bind fun _ => (h.expr 0).atSeparator.bind fun _ hsub => yields_bind fun _ =>
    (h.expr 0).bind fun _ hstr => yields_bind fun _ => yields_pure (allRanked_append.2 ⟨hsub, hstr⟩)

theorem ranked_extractRule : Yields (fun f => AllRanked f.predicates) (extractRule call) :=
  yields_bind fun _ => yields_bind fun _ => yields_bind fun _ => (h.expr 0).bind fun _ he =>
    yields_bind fun _ => yields_pure he

theorem ranked_getFormatRule : Yields (fun f => AllRanked f.predicates) (getFormatRule call) :=
  yields_bind fun _ => yields_bind fun _ => yields_bind fun _ => (h.expr 0).bind fun _ he =>
    yields_bind fun _ => yields_pure he

theorem ranked_timestampRule (function : TimestampFunction) :
    Yields (fun f => AllRanked f.predicates) (timestampRule call function) :=
  yields_bind fun _ => yields_bind fun _ => yields_bind fun _ => (h.expr 0).bind fun _ hfirst =>
    yields_bind fun _ => (h.expr 0).bind fun _ hsecond => yields_bind fun _ =>
      yields_pure (allRanked_append.2 ⟨hfirst, hsecond⟩)

theorem ranked_shapeRule (family : FunctionFamily) :
    Yields (fun f => AllRanked f.predicates) (shapeRule call family) := by
  have hfollowed {p : Parser Aggregate} (hp : Yields (fun a => AllRanked a.predicates) p) :
      Yields (fun f => AllRanked f.predicates) (do call (.aggregateTail (← p))) :=
    hp.bind fun a ha => (h.ranked (.aggregateTail a)).imp fun _ hf => hf ha
  cases family with
  | nested =>
    apply yields_get_bind
    intro s
    split
    · exact yields_bind fun _ => yields_bind fun _ => yields_bind fun _ => yields_bind fun _ =>
        yields_bind fun _ => yields_pure allRanked_nil
    · exact h.ranked (.scalar .nested)
  | scalar category => exact h.ranked (.scalar category)
  | ranking function => exact h.ranked (.ranking function)
  | aggregate function => exact hfollowed (h.ranked (.aggregate function))
  | percentile function => exact hfollowed (h.ranked (.percentile function))
  | score => exact h.ranked .score
  | relevance kind => exact (h.ranked (.relevance kind)).bind fun _ hr => yields_pure hr
  | highlight =>
    exact yields_bind fun _ => yields_bind fun _ => yields_bind fun _ => yields_bind fun _ =>
      yields_pure allRanked_nil
  | position => exact h.ranked .position
  | extract => exact h.ranked .extract
  | getFormat => exact h.ranked .getFormat
  | timestamp function => exact h.ranked (.timestamp function)

theorem ranked_callRule : Yields (fun f => AllRanked f.predicates) (callRule call) := by
  have hshape : Yields (fun f => AllRanked f.predicates) (callShape call) := by
    apply yields_bind
    intro t
    split
    · exact h.ranked .case
    · exact h.ranked .cast
    · exact h.ranked (.scalar .dateTime)
    · exact h.ranked (.scalar .dateTime)
    · exact h.ranked (.scalar .dateTime)
    · exact h.ranked (.scalar .dateTime)
    · split
      · exact h.ranked (.shape _)
      · exact yields_reject _
    · exact yields_reject _
  rw [callRule_eq]
  refine Yields.nest (yields_bind fun t => hshape.bind fun f hf => ?_)
  exact yields_bind fun span => yields_pure hf

/-! ## Aggregates and windows -/

theorem ranked_aggregateRule (function : AggregateFunction) :
    Yields (fun a => AllRanked a.predicates) (aggregateRule call function) := by
  have hregular : Yields (fun a => AllRanked a.predicates)
      (do return Aggregate.regular function (← call .wholeExpr)) :=
    (h.expr 0).bind fun _ he => yields_pure he
  have hform : Yields (fun a => AllRanked a.predicates) (aggregateRule.form call function) := by
    unfold aggregateRule.form
    dsimp only
    split
    · refine yields_bind fun star => ?_
      split
      · exact yields_pure allRanked_nil
      · refine yields_bind fun distinct => ?_
        split
        · exact (h.exprs _).bind fun _ hes => yields_pure hes
        · exact hregular
    · exact hregular
  exact yields_bind fun _ => hform.bind fun _ ha => yields_bind fun _ => yields_pure ha

theorem ranked_percentileRule (function : PercentileFunction) :
    Yields (fun a => AllRanked a.predicates) (percentileRule call function) := by
  refine yields_bind fun _ => (h.expr 0).bind fun field hfield => yields_bind fun _ =>
    ranked_number.bind fun percent hpercent => yields_bind fun found => ?_
  have hsome : Yields (fun c => AllRanked (predicatesConstant c)) (some <$> number) :=
    ranked_number.map fun _ hc => hc
  refine yields_either hsome (yields_pure allRanked_nil) fun compression hc => ?_
  refine yields_bind fun _ => yields_pure ?_
  exact allRanked_append.2 ⟨allRanked_append.2 ⟨hfield, hpercent⟩, hc⟩

theorem ranked_orderByRule : Yields (fun o => AllRanked o.predicates) (orderByRule call) :=
  yields_bind fun _ => yields_bind fun _ => ((h.ranked .orderItem).commaSeparated _).bind
    fun _ his => yields_bind fun _ => yields_pure (allRanked_predicatesItems.2 his)

theorem ranked_orderItemRule : Yields (fun i => AllRanked i.predicates) (orderItemRule call) :=
  (h.expr 0).bind fun _ he => yields_bind fun _ => yields_bind fun _ => yields_pure he

theorem ranked_filterRule : Yields (fun f => AllRanked f.predicates) (filterRule call) :=
  yields_bind fun _ => yields_bind fun _ => yields_bind fun _ => (h.expr 0).bind fun _ he =>
    yields_bind fun _ => yields_bind fun _ => yields_pure he

theorem ranked_windowRule : Yields (fun w => AllRanked w.predicates) (windowRule call) := by
  have hpartition : Yields (fun p => AllRanked (predicatesPartition p)) (partitionBy call) := by
    apply yields_bind
    intro here
    split
    · exact yields_bind fun _ => yields_bind fun _ => (h.exprs _).bind fun _ hes =>
        yields_bind fun _ => yields_pure hes
    · exact yields_pure allRanked_nil
  refine yields_bind fun _ => yields_bind fun _ => hpartition.bind fun partition hp =>
    yields_bind fun here => ?_
  have hsome : Yields (fun o => AllRanked (predicatesOrder o)) (some <$> call .orderBy) :=
    (h.ranked .orderBy).map fun _ ho => ho
  refine yields_either hsome (yields_pure allRanked_nil) fun orderBy ho => ?_
  exact yields_bind fun _ => yields_bind fun _ => yields_pure (allRanked_append.2 ⟨hp, ho⟩)

theorem ranked_rankingRule (function : RankingFunction) :
    Yields (fun f => AllRanked f.predicates) (rankingRule call function) :=
  yields_bind fun _ => (h.ranked .arguments).bind fun _ hes => (h.ranked .window).bind
    fun _ hw => yields_pure (allRanked_append.2 ⟨allRanked_predicatesAll.2 hes, hw⟩)

/-- What follows an aggregate has ranked predicates if the aggregate has. -/
theorem ranked_aggregateTailRule (aggregate : Aggregate) :
    Yields (fun f => AllRanked aggregate.predicates → AllRanked f.predicates)
      (aggregateTailRule call aggregate) := by
  have hordered : Yields (fun r => AllRanked r.1.predicates ∧ AllRanked r.2.predicates)
      (orderedFilter call) :=
    (h.ranked .orderBy).bind fun _ ho => (h.ranked .filter).bind fun _ hf => yields_pure ⟨ho, hf⟩
  have hplain : Yields (fun f => AllRanked aggregate.predicates → AllRanked f.predicates)
      (pure (CallShape.aggregate aggregate)) := yields_pure fun ha => ha
  refine yields_bind fun here => ?_
  split
  · exact (h.ranked .window).bind fun _ hw =>
      yields_pure fun ha => allRanked_append.2 ⟨ha, hw⟩
  refine yields_bind fun here => ?_
  split
  · refine (h.ranked .filter).bind fun _ hf => yields_pure fun ha => ?_
    exact allRanked_append.2 ⟨allRanked_append.2 ⟨ha, allRanked_nil⟩, hf⟩
  refine yields_bind fun here => ?_
  split
  · refine (hordered.attempt _).bind fun found hfound => ?_
    cases found with
    | some both =>
      obtain ⟨ho, hf⟩ := hfound both rfl
      exact yields_pure fun ha => allRanked_append.2 ⟨allRanked_append.2 ⟨ha, ho⟩, hf⟩
    | none => exact hplain
  · exact hplain

/-! ## Full-text search -/

theorem ranked_searchValueRule :
    Yields (fun v => AllRanked v.predicates) (searchValueRule call) := by
  apply yields_get_bind
  intro s
  split
  · exact (h.ranked .constant).bind fun _ hc => yields_pure hc
  · exact yields_bind fun _ => yields_pure allRanked_nil

theorem ranked_relevanceOptionsRule :
    Yields (fun os => ∀ o ∈ os, AllRanked o.predicates) (relevanceOptionsRule call) := by
  have hstep (options : List RelevanceOption) (hoptions : ∀ o ∈ options, AllRanked o.predicates) :
      Yields (fun r => ∀ o ∈ r.value, AllRanked o.predicates) (relevanceStep call options) := by
    apply yields_bind
    intro found
    cases found with
    | true =>
      refine yields_bind fun name => yields_bind fun _ => (h.ranked .searchValue).bind
        fun value hvalue => yields_pure ?_
      exact List.forall_mem_cons.2 ⟨hvalue, hoptions⟩
    | false => exact yields_pure hoptions
  rw [relevanceOptionsRule_eq]
  refine (yields_loop hstep fun o ho => absurd ho List.not_mem_nil).bind fun os hos => ?_
  exact yields_pure fun o ho => hos o (List.mem_reverse.1 ho)

theorem ranked_namedArgumentsRule :
    Yields (fun r => AllRanked r.1.predicates) (namedArgumentsRule call) := by
  have hargument : Yields (fun a => ∀ value, a = .query value → AllRanked value.predicates)
      (namedArgument call) := by
    apply yields_bind
    intro t
    dsimp only
    split
    · refine yields_bind fun _ => yields_bind fun _ => (h.ranked .searchValue).bind fun v hv => ?_
      refine yields_pure ?_
      rintro _ ⟨⟩
      exact hv
    · split
      · refine yields_bind fun _ => yields_bind fun _ => yields_bind fun here => ?_
        split
        · exact yields_bind fun _ => yields_pure nofun
        · exact yields_bind fun _ => yields_pure nofun
      · exact yields_rejectCurrent _
  refine hargument.bind fun first hfirst => yields_bind fun _ => hargument.bind
    fun second hsecond => ?_
  split
  · exact yields_pure (hfirst _ rfl)
  · exact yields_pure (hsecond _ rfl)
  · exact yields_rejectCurrent _
  · exact yields_rejectCurrent _

theorem ranked_relevanceRule (kind : RelevanceKind) :
    Yields (fun r => AllRanked r.predicates) (relevanceRule call kind) := by
  have htarget : Yields (fun r => AllRanked r.2.predicates) (searchTarget call kind) := by
    cases kind with
    | noField => exact (h.ranked .searchValue).bind fun _ hv => yields_pure hv
    | singleField =>
      exact yields_bind fun _ => yields_bind fun _ => (h.ranked .searchValue).bind fun _ hv =>
        yields_pure hv
    | multiField =>
      refine yields_bind fun t => yields_bind fun u => ?_
      split
      · exact (h.ranked .namedArguments).bind fun _ hr => yields_pure hr
      · exact yields_bind fun _ => yields_bind fun _ => (h.ranked .searchValue).bind fun _ hv =>
          yields_pure hv
  refine yields_bind fun _ => htarget.bind fun target hvalue => (h.ranked .relevanceOptions).bind
    fun options ho => yields_bind fun _ => yields_pure ?_
  exact allRanked_append.2 ⟨hvalue, allRanked_predicatesOptions.2 ho⟩

theorem ranked_fieldEqualsRule :
    Yields (fun r => AllRanked r.predicates) (fieldEqualsRule call) := by
  refine yields_bind fun _ => yields_bind fun _ => yields_bind fun t => ?_
  split
  · refine yields_bind fun _ => (h.ranked .searchValue).bind fun value hvalue =>
      (h.ranked .relevanceOptions).bind fun options ho => yields_bind fun _ => yields_pure ?_
    exact allRanked_append.2 ⟨hvalue, allRanked_predicatesOptions.2 ho⟩
  · exact yields_rejectCurrent _

theorem ranked_scoreRule : Yields (fun f => AllRanked f.predicates) (scoreRule call) := by
  have hscored : Yields (fun r => AllRanked r.predicates) (scoredRelevance call) := by
    apply yields_get_bind
    intro s
    split
    · exact h.ranked .fieldEquals
    · refine yields_bind fun t => ?_
      dsimp only
      split
      · exact h.ranked (.relevance _)
      · exact yields_reject _
  have hany (p : Parser (Option Number.Binary64)) : Yields (fun _ => True) p :=
    fun _ _ _ _ => trivial
  refine yields_bind fun _ => hscored.bind fun _ hr => yields_bind fun found => ?_
  exact yields_either (hany _) (hany _) fun _ _ => yields_bind fun _ => yields_pure hr

/-! ## Queries -/

theorem ranked_selectItemRule (starAllowed : Bool) :
    Yields (fun i => AllRanked i.predicates) (selectItemRule call starAllowed) := by
  have hexpr : Yields (fun i => AllRanked i.predicates) (do
      let e ← call .wholeExpr
      return SelectItem.expr e (← optionalAlias)) :=
    (h.expr 0).bind fun _ he => yields_bind fun _ => yields_pure he
  unfold selectItemRule
  cases starAllowed with
  | true =>
    apply yields_bind
    intro here
    split
    · exact yields_bind fun _ => yields_pure allRanked_nil
    · exact hexpr
  | false =>
    apply yields_bind
    intro here
    exact hexpr

theorem ranked_relationRule : Yields (fun r => AllRanked r.predicates) (relationRule call) := by
  refine yields_bind fun _ => yields_bind fun here => ?_
  split
  · refine yields_bind fun start => (h.ranked .query).subquery.nest.bind fun q hq => ?_
    exact yields_bind fun _ => yields_bind fun _ => yields_bind fun _ => yields_bind fun _ =>
      yields_pure hq
  · exact yields_bind fun _ => yields_bind fun _ => yields_pure allRanked_nil

theorem ranked_groupByRule :
    Yields (fun g => ∀ e ∈ g.exprs, AllRanked e.predicates) (groupByRule call) :=
  yields_bind fun _ => yields_bind fun _ => ((h.expr 0).commaSeparated _).bind fun _ hes =>
    yields_bind fun _ => yields_pure hes

/-- The predicates of a clause that was left out are none. -/
theorem ranked_queryRule : Yields (fun q => AllRanked q.predicates) (queryRule call) := by
  have hnone {α : Type} {f : α → List Predicate} {found : Option α}
      (hfound : ∀ a ∈ found, AllRanked (f a)) : AllRanked (found.elim [] f) := by
    cases found with
    | none => exact allRanked_nil
    | some a => exact hfound a rfl
  refine yields_bind fun _ => yields_bind fun _ => (h.ranked .selectItems).recover.bind
    fun items hitems => yields_bind fun _ => yields_bind fun hasRelation => ?_
  refine ((h.ranked .relation).clause hasRelation .FROM).bind fun relation hr => ?_
  refine ((h.ranked (.condition .WHERE)).clause hasRelation .WHERE).bind fun condition hc => ?_
  refine ((h.ranked .groupBy).clause hasRelation .GROUP).bind fun groupBy hg => ?_
  refine ((h.ranked (.condition .HAVING)).clause hasRelation .HAVING).bind fun having hh => ?_
  refine ((h.ranked .orderBy).clause hasRelation .ORDER).bind fun orderBy ho => ?_
  refine yields_bind fun limit => yields_bind fun span => yields_pure ?_
  simp only [Query.predicates, allRanked_append]
  refine ⟨⟨⟨⟨⟨?_, ?_⟩, hnone hc⟩, hnone fun g hgroup => ?_⟩, hnone hh⟩, ?_⟩
  · intro p hp
    obtain ⟨i, hi, hmem⟩ := List.mem_flatMap.1 hp
    cases items with
    | none => exact absurd hi List.not_mem_nil
    | some is => exact hitems is rfl i hi p hmem
  · cases relation with
    | none => exact allRanked_nil
    | some r => exact hr r rfl
  · exact allRanked_predicatesAll.2 (hg g hgroup)
  · cases orderBy with
    | none => exact allRanked_nil
    | some o => exact ho o rfl

/-- Each rule puts together trees whose predicates are ranked. -/
theorem ranked_rule {α : Type} (n : Nonterminal α) : Yields n.Ranked (rule call n) := by
  cases n with
  | expr least => exact ranked_exprRule h least
  | predicate least => exact fun s t p heq => (climbing_predicateRule h heq).1.ranked
  | arithmetic least => exact ranked_arithmeticRule h least
  | operand => exact ranked_operandRule h
  | parenthesized => exact ranked_parenthesizedRule h
  | constant => exact ranked_constantRule h
  | interval => exact ranked_intervalRule h
  | call => exact ranked_callRule h
  | shape family => exact ranked_shapeRule h family
  | arguments => exact ranked_argumentsRule h
  | scalar category => exact ranked_scalarRule h category
  | case => exact ranked_caseRule h
  | cast => exact ranked_castRule h
  | ranking function => exact ranked_rankingRule h function
  | aggregate function => exact ranked_aggregateRule h function
  | percentile function => exact ranked_percentileRule h function
  | aggregateTail aggregate => exact ranked_aggregateTailRule h aggregate
  | window => exact ranked_windowRule h
  | filter => exact ranked_filterRule h
  | orderBy => exact ranked_orderByRule h
  | orderItem => exact ranked_orderItemRule h
  | score => exact ranked_scoreRule h
  | relevance kind => exact ranked_relevanceRule h kind
  | fieldEquals => exact ranked_fieldEqualsRule h
  | namedArguments => exact ranked_namedArgumentsRule h
  | searchValue => exact ranked_searchValueRule h
  | relevanceOptions => exact ranked_relevanceOptionsRule h
  | position => exact ranked_positionRule h
  | extract => exact ranked_extractRule h
  | getFormat => exact ranked_getFormatRule h
  | timestamp function => exact ranked_timestampRule h function
  | selectItems =>
    exact (h.ranked (.selectItem true)).commaList (h.ranked (.selectItem false)) "select element"
  | selectItem starAllowed => exact ranked_selectItemRule h starAllowed
  | relation => exact ranked_relationRule h
  | condition word =>
    exact yields_bind fun _ => (h.expr 0).bind fun _ he => yields_bind fun _ => yields_pure he
  | groupBy => exact ranked_groupByRule h
  | query => exact ranked_queryRule h

/-- What is known of the rules that a rule goes on to is known of the rule as well. -/
theorem Ranks.step {next : Callee} (hnext : ∀ {α : Type} (n : Nonterminal α), next n = rule call n) :
    Ranks next where
  climbs {least s t p} heq := by
    rw [hnext] at heq
    obtain ⟨hclimbing, hstops⟩ := climbing_predicateRule h heq
    exact ⟨hclimbing.root, hstops⟩
  ranked n := by
    rw [hnext]
    exact ranked_rule h n

end

/-! ## Parses -/

/-- All rules do, by induction on the rules that follow one another. -/
theorem ranks_derive (fuel : Nat) : Ranks (derive fuel) := by
  induction fuel with
  | zero => exact ⟨nofun, fun _ _ _ _ heq => nomatch heq⟩
  | succ fuel ih => exact ih.step fun n => derive_succ fuel n

/-- The rules build trees in which every predicate is ranked. -/
theorem ranks_read : Ranks read where
  climbs heq := (ranks_derive _).climbs heq
  ranked n s t a heq := (ranks_derive _).ranked n s t a heq

/-- So does the rule of a statement. -/
theorem ranked_statementRule {call : Callee} (h : Ranks call) :
    Yields (fun s => AllRanked s.predicates) (statementRule call) := by
  refine yields_bind fun t => ?_
  dsimp only
  split
  · exact (h.ranked .query).bind fun q hq => yields_pure hq
  · exact yields_bind fun _ => yields_bind fun _ => yields_bind fun _ => yields_bind fun _ =>
      yields_pure allRanked_nil
  · exact yields_bind fun _ => yields_bind fun _ => yields_bind fun _ => yields_bind fun _ =>
      yields_bind fun _ => yields_pure allRanked_nil
  · exact yields_reject _

/-- So does a parse. -/
theorem ranked_runRoot [Time.Library] {tokens : List Token} {settings : Settings}
    {found : Option Statement} {t : State} (heq : runRoot tokens settings = .ok found t) :
    ∀ statement ∈ found, AllRanked statement.predicates := by
  have hroot : Yields (fun found => ∀ statement ∈ found, AllRanked statement.predicates)
      (rootRule (derive (fuelFor settings))) := by
    refine Yields.bind (Q := fun found => ∀ statement ∈ found, AllRanked statement.predicates) ?_
      fun found hfound => yields_bind fun _ => yields_bind fun _ => yields_pure hfound
    refine yields_bind fun t => ?_
    dsimp only
    split
    · exact yields_pure nofun
    · exact yields_pure nofun
    · exact (ranked_statementRule (ranks_derive _)).recover
  exact hroot _ t found heq

end Grammar

open Grammar

/-- A predicate is read up to a test that binds less tightly than asked for, and its own tests bind as
tightly as asked for. In all predicates of a tree, operands on the right bind more tightly than the
test, and targets at least as tightly, apart from those that end in a token of their own. -/
theorem parse_ranked [Time.Library] :
    (∀ (least : Nat) (s t : State) (p : Predicate), read (.predicate least) s = .ok p t →
        (p.isAtom = true ∨ least ≤ p.precedence) ∧ t.Stops least ∧ ∀ q ∈ p.predicates, q.Ranked) ∧
      ∀ (tokens : List Token) (settings : Settings),
        (∀ statement ∈ (parseTokens tokens settings).statement,
            ∀ p ∈ statement.predicates, p.Ranked) ∧
          ∀ statement, parseTokensStrict tokens settings = .ok statement →
            ∀ p ∈ statement.predicates, p.Ranked := by
  refine ⟨fun least s t p heq => ?_, fun tokens settings => ⟨fun statement h => ?_,
    fun statement h => ?_⟩⟩
  · obtain ⟨hroot, hstops⟩ := ranks_read.climbs heq
    exact ⟨hroot, hstops, ranks_read.ranked (.predicate least) s t p heq⟩
  · obtain ⟨t, hrun⟩ := parseTokens_statement_eq_some.1 h
    exact ranked_runRoot hrun statement rfl
  · obtain ⟨t, hrun⟩ := parseTokensStrict_eq_ok.1 h
    exact ranked_runRoot hrun statement rfl

/-- The target of the `IN` is a `LIKE`, whose target is an `IS NULL`, whose target is a comparison. -/
theorem parse_ranked_chain :
    (∃ p t, read (.predicate 2) (.ofTokens (Token.tokenize "a = b IS NULL LIKE c IN (1)")
          Settings.standard) = .ok p t ∧
        p.predicates.length = 6 ∧
          (p.isAtom = true ∨ 2 ≤ p.precedence) ∧ t.Stops 2 ∧ ∀ q ∈ p.predicates, q.Ranked) ∧
      (∃ statement, (parseTokens (Token.tokenize "SELECT a = b IS NULL LIKE c IN (1), FROM")
          Settings.standard).statement = some statement ∧
        ∀ p ∈ statement.predicates, p.Ranked) ∧
      ∃ statement, parseTokensStrict (Token.tokenize "SELECT a = b IS NULL LIKE c IN (1)")
          Settings.standard = .ok statement ∧
        statement.predicates.length = 8 ∧ ∀ p ∈ statement.predicates, p.Ranked := by
  refine ⟨?_, ?_, ?_⟩
  · have hread : (match read (.predicate 2) (.ofTokens
        (Token.tokenize "a = b IS NULL LIKE c IN (1)") Settings.standard) with
        | .ok p _ => p.predicates.length == 6
        | .error _ _ => false) = true := by decide +kernel
    split at hread
    · next p t hp =>
      exact ⟨p, t, hp, beq_iff_eq.1 hread, parse_ranked.1 2 _ t p hp⟩
    · cases hread
  · have hparse : (parseTokens (Token.tokenize "SELECT a = b IS NULL LIKE c IN (1), FROM")
        Settings.standard).statement.isSome = true := by decide +kernel
    obtain ⟨statement, hsome⟩ := Option.isSome_iff_exists.1 hparse
    exact ⟨statement, hsome, (parse_ranked.2 _ Settings.standard).1 statement hsome⟩
  · have hparse : (match parseTokensStrict (Token.tokenize "SELECT a = b IS NULL LIKE c IN (1)")
        Settings.standard with
        | .ok statement => statement.predicates.length == 8
        | .error _ => false) = true := by decide +kernel
    split at hparse
    · next statement hok =>
      exact ⟨statement, hok, beq_iff_eq.1 hparse,
        (parse_ranked.2 _ Settings.standard).2 statement hok⟩
    · cases hparse

end SearchSql
