import SearchSql.Proofs.Spending

/-!
# What the rules spend

Each rule spends what the tree that it builds needs, if the rules it goes on to do. The needs of the
parts are added up in the order in which they are read.
-/

set_option autoImplicit false

namespace SearchSql.Grammar

open SearchSql.Grammar.Parser

/-! ## Literals need nothing, apart from intervals -/

/-- What stands for a malformed literal needs no level. -/
theorem yields_malformedLiteral (kind : LiteralKind) (text : String) (fault : LiteralFault)
    (span : Span) : Yields (fun value => value.need = 0) (malformedLiteral kind text fault span) :=
  yields_bind fun _ => yields_pure rfl

/-- A number needs none. -/
theorem yields_numberLiteral (kind : TokenKind) (text : String) (span : Span) :
    Yields (fun value => value.need = 0) (numberLiteral kind text span) := by
  unfold numberLiteral
  split
  · split
    · exact yields_pure rfl
    · exact yields_malformedLiteral _ _ _ _
  · split
    · exact yields_pure rfl
    · exact yields_malformedLiteral _ _ _ _

theorem yields_number : Yields (fun constant => constant.need = 0) number := by
  refine yields_bind fun t => yields_bind fun negative => ?_
  refine yields_guarded (yields_bind fun u => ?_)
  refine yields_guarded (yields_bind fun _ => yields_bind fun span => ?_)
  exact (yields_numberLiteral _ _ _).map fun _ h => h

/-- A date or time needs none. -/
theorem yields_temporalLiteral (kind : TemporalKind) (text : String) (span : Span) :
    Yields (fun value => value.need = 0) (temporalLiteral kind text span) := by
  refine yields_bind fun s => ?_
  split
  · next value hvalue =>
    apply yields_pure
    obtain ⟨_, rfl⟩ | ⟨_, rfl⟩ | ⟨_, rfl⟩ := TemporalKind.cases_of_read hvalue
    all_goals rfl
  · exact yields_malformedLiteral _ _ _ _

theorem yields_wordLiteral (kind : TemporalKind) :
    Yields (fun value => value.need = 0) (wordLiteral kind) :=
  yields_bind fun _ => yields_bind fun _ => yields_bind fun _ => yields_temporalLiteral _ _ _

theorem yields_bracedLiteral : Yields (fun value => value.need = 0) bracedLiteral := by
  refine yields_bind fun _ => yields_bind fun t => ?_
  split
  · exact yields_bind fun _ => yields_bind fun _ => yields_bind fun _ => yields_bind fun _ =>
      yields_temporalLiteral _ _ _
  · exact yields_rejectCurrent _

theorem yields_datetimeConstant (name : DatetimeConstant) :
    Yields (fun value => value.need = 0) (datetimeConstant name) :=
  yields_bind fun _ => yields_bind fun _ => yields_guarded (yields_pure rfl)

theorem yields_simpleLiteral {value : Literal} (h : value.need = 0) :
    Yields (fun value => value.need = 0) (simpleLiteral value) :=
  yields_bind fun _ => yields_pure h

namespace Spends

variable {library : Time.Library} {b : Nat} {c : Callee}

/-! ## Constants -/

/-- An interval spends what its expression needs. -/
theorem intervalRule (h : Spends library false b 0 Expr.need (c .wholeExpr)) :
    Spends library false b 0 Literal.need (intervalRule c) :=
  behind (free.keyword _) fun _ => h.andThen fun _ => behind free.datetimeUnit fun _ =>
    pure (Nat.zero_max _).symm

/-- Only intervals among the literals spend anything. -/
theorem literalRule (h : Spends library false b 0 Literal.need (c .interval)) :
    Spends library false b 0 Literal.need (literalRule c) := by
  refine current_bind fun t => ?_
  split
  · exact of_yields (free.simpleLiteral _) (yields_simpleLiteral rfl)
  · exact of_yields free.bracedLiteral yields_bracedLiteral
  · exact of_yields (free.simpleLiteral _) (yields_simpleLiteral rfl)
  · exact of_yields (free.simpleLiteral _) (yields_simpleLiteral rfl)
  · exact of_yields (free.simpleLiteral _) (yields_simpleLiteral rfl)
  · exact h
  · split
    · exact of_yields (free.wordLiteral _) (yields_wordLiteral _)
    · exact rejectCurrent _
  · split
    · exact of_yields (free.datetimeConstant _) (yields_datetimeConstant _)
    · exact rejectCurrent _
  · exact rejectCurrent _

theorem number : Spends library false b 0 Constant.need number :=
  of_yields free.number yields_number

/-- A constant spends what its literal needs. -/
theorem constantRule (h : Spends library false b 0 Literal.need (c .interval)) :
    Spends library false b 0 Constant.need (constantRule c) := by
  refine current_bind fun t => ?_
  split
  · exact number
  · exact number
  · exact number
  · exact number
  · exact current_bind fun _ => (literalRule h).andThen fun _ => behind (free.spanFrom _) fun _ =>
      pure (Nat.zero_max _).symm

/-! ## Calls -/

/-- Arguments spend what the greatest of them needs. -/
theorem argumentsRule (h : Spends library false b 0 Expr.need (c .wholeExpr)) :
    Spends library false b 0 needAll (argumentsRule c) := by
  refine behind (free.takeSymbol _) fun found => ?_
  cases found with
  | true => exact pure rfl
  | false =>
    exact (commaSeparated _ h).andThen fun args => behind (free.symbol _) fun _ =>
      pure (by rw [needAll_eq, Nat.zero_max])

/-- A function spends what its arguments need. -/
theorem scalarRule (h : Spends library false b 0 needAll (c .arguments))
    (category : ScalarCategory) :
    Spends library false b 0 CallShape.inner (scalarRule c category) :=
  behind free.callName fun _ => h.andThen fun _ => pure (Nat.zero_max _).symm

theorem caseStep (h : Spends library false b 0 Expr.need (c .wholeExpr))
    (branches : List CaseBranch) :
    Spends library false b (greatest CaseBranch.need branches)
      (fun r => greatest CaseBranch.need r.value)
      (caseStep c branches) := by
  refine behind (free.takeKeyword _) fun found => ?_
  cases found with
  | true =>
    refine h.andThen fun condition => behind (free.keyword _) fun _ => h.andThen fun result =>
      pure ?_
    show max (CaseBranch.need ⟨condition, result⟩) (greatest CaseBranch.need branches) = _
    simp only [CaseBranch.need, Expr.need]
    omega
  | false => exact pure rfl

/-- The branches of a `CASE` spend what the greatest of them needs. -/
theorem caseBranches (h : Spends library false b 0 Expr.need (c .wholeExpr)) :
    Spends library false b 0 needBranches (caseBranches c) := by
  rw [caseBranches_eq]
  refine (loopList (caseStep h)).bind fun branches => pure ?_
  rw [needBranches_eq, greatest_reverse]

/-- What is spent on the operand and the branches before is not spent again. -/
theorem caseEnd (h : Spends library false b 0 Expr.need (c .wholeExpr)) (operand : Option Expr)
    (branches : List CaseBranch) :
    Spends library false b (max (needOptional operand) (needBranches branches)) CallShape.inner
      (caseEnd c operand branches) := by
  refine guarded (rejectCurrent _) (behind (free.takeKeyword .ELSE) fun found => ?_)
  refine either h.present absent fun otherwise => behind (free.keyword _) fun _ => pure ?_
  rw [CallShape.inner, needOptional_eq otherwise, Nat.max_assoc]

theorem caseRule (h : Spends library false b 0 Expr.need (c .wholeExpr)) :
    Spends library false b 0 CallShape.inner (caseRule c) := by
  refine behind (free.keyword _) fun _ => atKeyword_bind _ fun here => ?_
  refine either absent h.present fun operand => ?_
  rw [Nat.zero_max, ← needOptional_eq]
  exact (caseBranches h).andThen fun branches => caseEnd h operand branches

theorem castRule (h : Spends library false b 0 Expr.need (c .wholeExpr)) :
    Spends library false b 0 CallShape.inner (castRule c) :=
  behind (free.keyword _) fun _ => behind (free.symbol _) fun _ => h.andThen fun _ =>
    behind (free.keyword _) fun _ => behind free.dataType fun _ => behind (free.symbol _) fun _ =>
      pure (Nat.zero_max _).symm

/-- Both operands of `POSITION` are read on the same level. -/
theorem positionRule (h : Spends library false b 0 Expr.need (c .wholeExpr))
    (hseparator : Spends library false b 0 Expr.need (Parser.atSeparator (c .wholeExpr))) :
    Spends library false b 0 CallShape.inner (positionRule c) := by
  refine behind free.callName fun _ => hseparator.andThen fun substring =>
    behind (free.keyword _) fun _ => h.andThen fun string => behind (free.symbol _) fun _ => pure ?_
  rw [Nat.zero_max]
  rfl

theorem extractRule (h : Spends library false b 0 Expr.need (c .wholeExpr)) :
    Spends library false b 0 CallShape.inner (extractRule c) :=
  behind free.callName fun _ => behind free.datetimeUnit fun _ => behind (free.keyword _) fun _ =>
    h.andThen fun _ => behind (free.symbol _) fun _ => pure (Nat.zero_max _).symm

theorem getFormatRule (h : Spends library false b 0 Expr.need (c .wholeExpr)) :
    Spends library false b 0 CallShape.inner (getFormatRule c) :=
  behind free.callName fun _ => behind free.formatTarget fun _ => behind (free.symbol _) fun _ =>
    h.andThen fun _ => behind (free.symbol _) fun _ => pure (Nat.zero_max _).symm

theorem timestampRule (h : Spends library false b 0 Expr.need (c .wholeExpr))
    (function : TimestampFunction) :
    Spends library false b 0 CallShape.inner (timestampRule c function) := by
  refine behind free.callName fun _ => behind free.singleUnit fun _ => behind (free.symbol _)
    fun _ => h.andThen fun first => behind (free.symbol _) fun _ => h.andThen fun second =>
      behind (free.symbol _) fun _ => pure ?_
  rw [Nat.zero_max]
  rfl

/-- The form of a call spends what the rule of its function does. -/
theorem shapeRule (family : FunctionFamily)
    (hscalar : ∀ category, Spends library false b 0 CallShape.inner (c (.scalar category)))
    (hranking : ∀ function, Spends library false b 0 CallShape.inner (c (.ranking function)))
    (haggregate : ∀ function, Spends library false b 0 Aggregate.need (c (.aggregate function)))
    (hpercentile : ∀ function, Spends library false b 0 Aggregate.need (c (.percentile function)))
    (htail : ∀ aggregate, Spends library false b aggregate.need CallShape.inner
      (c (.aggregateTail aggregate)))
    (hscore : Spends library false b 0 CallShape.inner (c .score))
    (hrelevance : ∀ kind, Spends library false b 0 Relevance.need (c (.relevance kind)))
    (hposition : Spends library false b 0 CallShape.inner (c .position))
    (hextract : Spends library false b 0 CallShape.inner (c .extract))
    (hgetFormat : Spends library false b 0 CallShape.inner (c .getFormat))
    (htimestamp : ∀ function, Spends library false b 0 CallShape.inner (c (.timestamp function))) :
    Spends library false b 0 CallShape.inner (shapeRule c family) := by
  cases family with
  | nested =>
    refine cursor_bind (f := fun k =>
      if startsNestedAll k.ahead then Parser.nestedAll else c (.scalar .nested)) fun k => ?_
    split
    · exact of_yields free.nestedAll (yields_bind fun _ => yields_bind fun _ => yields_bind fun _ =>
        yields_bind fun _ => yields_bind fun _ => yields_pure rfl)
    · exact hscalar _
  | scalar category => exact hscalar category
  | ranking function => exact hranking function
  | aggregate function => exact (haggregate function).bind htail
  | percentile function => exact (hpercentile function).bind htail
  | score => exact hscore
  | relevance kind => exact (hrelevance kind).map fun _ => rfl
  | highlight =>
    exact of_yields free.highlight (yields_bind fun _ => yields_bind fun _ => yields_bind fun _ =>
      yields_bind fun _ => yields_pure rfl)
  | position => exact hposition
  | extract => exact hextract
  | getFormat => exact hgetFormat
  | timestamp function => exact htimestamp function

theorem callShape (hcase : Spends library false b 0 CallShape.inner (c .case))
    (hcast : Spends library false b 0 CallShape.inner (c .cast))
    (hscalar : ∀ category, Spends library false b 0 CallShape.inner (c (.scalar category)))
    (hshape : ∀ family, Spends library false b 0 CallShape.inner (c (.shape family))) :
    Spends library false b 0 CallShape.inner (callShape c) := by
  refine current_bind fun t => ?_
  split
  · exact hcase
  · exact hcast
  · exact hscalar _
  · exact hscalar _
  · exact hscalar _
  · exact hscalar _
  · split
    · exact hshape _
    · exact reject _
  · exact reject _

/-- The body of a call spends what is inside of the call. -/
theorem callBody (h : Spends library false b 0 CallShape.inner (Grammar.callShape c)) :
    Spends library false b 0 (fun f => f.shape.inner) (callBody c) :=
  current_bind fun _ => h.andThen fun _ => behind (free.spanFrom _) fun _ =>
    pure (Nat.zero_max _).symm

/-! ## Aggregates -/

theorem aggregateForm (h : Spends library false b 0 Expr.need (c .wholeExpr))
    (function : AggregateFunction) :
    Spends library false b 0 Aggregate.need (aggregateRule.form c function) := by
  have hregular : Spends library false b 0 Aggregate.need
      (Aggregate.regular function <$> c .wholeExpr) :=
    h.map fun _ => rfl
  unfold aggregateRule.form
  dsimp only
  split
  · refine behind (free.takeSymbol .star) fun star => ?_
    cases star with
    | true => exact pure rfl
    | false =>
      refine behind (free.takeKeyword .DISTINCT) fun distinct => ?_
      cases distinct with
      | true => exact (commaSeparated _ h).map fun args => needAll_eq args
      | false => exact hregular
  · exact hregular

theorem aggregateRule (h : Spends library false b 0 Expr.need (c .wholeExpr))
    (function : AggregateFunction) :
    Spends library false b 0 Aggregate.need (aggregateRule c function) :=
  behind free.callName fun _ => (aggregateForm h function).andThen fun _ =>
    behind (free.symbol _) fun _ => pure (Nat.zero_max _).symm

theorem percentileRule (h : Spends library false b 0 Expr.need (c .wholeExpr))
    (function : PercentileFunction) :
    Spends library false b 0 Aggregate.need (percentileRule c function) := by
  refine behind free.callName fun _ => h.andThen fun field => behind (free.symbol _) fun _ =>
    number.andThen fun percent => behind (free.takeSymbol _) fun found => ?_
  refine either number.present absent fun compression => behind (free.symbol _) fun _ => pure ?_
  rw [Aggregate.need, needOptionalConstant_eq, Nat.zero_max, Nat.max_assoc]
  rfl

theorem orderByRule (h : Spends library false b 0 OrderItem.need (c .orderItem)) :
    Spends library false b 0 OrderBy.need (orderByRule c) :=
  behind (free.keyword _) fun _ => behind (free.keyword _) fun _ =>
    (commaSeparated _ h).andThen fun items => behind (free.spanFrom _) fun _ =>
      pure (by rw [OrderBy.need, needItems_eq, Nat.zero_max])

theorem orderItemRule (h : Spends library false b 0 Expr.need (c .wholeExpr)) :
    Spends library false b 0 OrderItem.need (orderItemRule c) :=
  h.andThen fun _ => behind free.direction fun _ => behind free.nullOrder fun _ =>
    pure (Nat.zero_max _).symm

theorem partitionBy (h : Spends library false b 0 Expr.need (c .wholeExpr)) :
    Spends library false b 0 (orZero PartitionBy.need) (partitionBy c) := by
  refine atKeyword_bind _ fun here => ?_
  cases here with
  | true =>
    exact behind free.take fun _ => behind (free.keyword _) fun _ =>
      (commaSeparated _ h).andThen fun exprs => behind (free.spanFrom _) fun _ =>
        pure (by rw [orZero, PartitionBy.need, needAll_eq, Nat.zero_max])
  | false => exact absent

/-- The end of a window spends what its order needs, on top of its partition. -/
theorem windowEnd (h : Spends library false b 0 OrderBy.need (c .orderBy)) (start : Span)
    (partition : Option PartitionBy) :
    Spends library false b (orZero PartitionBy.need partition) Window.need
      (windowEnd c start partition) := by
  refine atKeyword_bind _ fun here => ?_
  refine either h.present absent fun orderBy => behind (free.symbol _) fun _ =>
    behind (free.spanFrom _) fun _ => pure ?_
  cases partition with
  | none => rw [Window.need, needOptionalOrder_eq, orZero, Nat.zero_max]
  | some partition => rw [Window.need, needOptionalOrder_eq, orZero]

theorem windowRule (hexpr : Spends library false b 0 Expr.need (c .wholeExpr))
    (horder : Spends library false b 0 OrderBy.need (c .orderBy)) :
    Spends library false b 0 Window.need (windowRule c) :=
  behind (free.keyword _) fun _ => behind (free.symbol _) fun _ =>
    (partitionBy hexpr).bind fun partition => windowEnd horder _ partition

theorem filterRule (h : Spends library false b 0 Expr.need (c .wholeExpr)) :
    Spends library false b 0 Filter.need (filterRule c) :=
  behind (free.keyword _) fun _ => behind (free.symbol _) fun _ => behind (free.keyword _) fun _ =>
    h.andThen fun _ => behind (free.symbol _) fun _ => behind (free.spanFrom _) fun _ =>
      pure (Nat.zero_max _).symm

theorem rankingRule (hargs : Spends library false b 0 needAll (c .arguments))
    (hwindow : Spends library false b 0 Window.need (c .window)) (function : RankingFunction) :
    Spends library false b 0 CallShape.inner (rankingRule c function) := by
  refine behind free.callName fun _ => hargs.andThen fun args => hwindow.after.map fun window => ?_
  rw [CallShape.inner, Nat.zero_max]

/-- An order with a filter spends what the greater of them needs. -/
theorem orderedFilter (horder : Spends library false b 0 OrderBy.need (c .orderBy))
    (hfilter : Spends library false b 0 Filter.need (c .filter)) :
    Spends library false b 0 (fun found => max found.1.need found.2.need) (orderedFilter c) := by
  refine horder.andThen fun orderBy => hfilter.after.map fun filter => ?_
  rw [Nat.zero_max]

/-- What follows an aggregate is spent on top of the aggregate. -/
theorem aggregateTailRule (hwindow : Spends library false b 0 Window.need (c .window))
    (hfilter : Spends library false b 0 Filter.need (c .filter))
    (hattempt : Spends library false b 0 (orZero fun found => max found.1.need found.2.need)
      (Parser.attempt "ordered aggregate filter" (Grammar.orderedFilter c)))
    (aggregate : Aggregate) :
    Spends library false b aggregate.need CallShape.inner (aggregateTailRule c aggregate) := by
  refine atKeyword_bind _ fun windowed => ?_
  cases windowed with
  | true => exact hwindow.after.map fun _ => rfl
  | false =>
    refine atKeyword_bind _ fun filter => ?_
    cases filter with
    | true =>
      refine hfilter.after.map fun filter => ?_
      rw [CallShape.inner, needOptionalOrder, Nat.zero_max]
    | false =>
      refine atKeyword_bind _ fun order => ?_
      cases order with
      | true =>
        refine hattempt.andThen fun found => ?_
        cases found with
        | none => exact pure (Nat.max_zero _).symm
        | some found => exact pure rfl
      | false => exact pure rfl

/-! ## Expressions -/

/-- The operand of a connective is read on a level of its own. -/
theorem logicalOperand (hnot : Spends library false b 0 Expr.need (c (.expr notPrecedence)))
    (hpredicate : Spends library true b 0 Predicate.need (c (.predicate 0))) :
    Spends library true b 0 Expr.inner (logicalOperand c) := by
  refine atKeyword_bind _ fun here => ?_
  cases here with
  | true =>
    exact behind free.take fun _ => hnot.align.andThen fun _ => behind (free.spanFrom _) fun _ =>
      pure (Nat.zero_max _).symm
  | false => exact hpredicate.map fun _ => rfl

/-- A chain of connectives spends the greatest of what its right operands need, and no more than its
first operand on the left. -/
theorem logicalStep (h : ∀ least, Spends library false b 0 Expr.need (c (.expr least)))
    (least : Nat) (left : Expr) :
    Spends library true b left.inner (fun r => r.value.inner) (logicalStep c least left) := by
  refine current_bind fun t => ?_
  split
  · exact pure rfl
  · next op _ =>
    split
    · exact pure rfl
    · refine behind (free.skip 1) fun _ => (h _).align.after.map fun right => ?_
      cases op <;> rfl

theorem exprBody (hexpr : ∀ least, Spends library false b 0 Expr.need (c (.expr least)))
    (hpredicate : Spends library true b 0 Predicate.need (c (.predicate 0))) (least : Nat) :
    Spends library true b 0 Expr.inner (exprBody c least) :=
  (logicalOperand (hexpr _) hpredicate).bind fun left =>
    Spends.loop Expr.inner (logicalStep hexpr least) left

/-- The operands of a test are read on levels of their own, but for the one on its left. -/
theorem testRule (test : Test)
    (hpredicate : Spends library true b 0 Predicate.need (c (.predicate (test.precedence + 1))))
    (hexpr : Spends library false b 0 Expr.need (c .wholeExpr)) (left : Predicate) :
    Spends library true b left.need Predicate.need (testRule c left test) := by
  cases test with
  | comparison op => exact hpredicate.after.map fun _ => rfl
  | isNull negated => exact behind (free.keyword _) fun _ => pure rfl
  | between negated =>
    refine hpredicate.andThen fun low => behind (free.keyword _) fun _ =>
      hpredicate.after.map fun high => ?_
    rw [Predicate.need, Nat.max_assoc]
  | like negated => exact hpredicate.after.map fun _ => rfl
  | regexp negated => exact hpredicate.after.map fun _ => rfl
  | within negated =>
    refine behind (free.symbol _) fun _ => (commaSeparated _ hexpr.align).andThen fun items =>
      behind (free.symbol _) fun _ => behind (free.spanFrom _) fun _ => pure ?_
    rw [Predicate.need, needAll_eq]

theorem testStep (least : Nat)
    (hpredicate : ∀ test : Test, least ≤ test.precedence →
      Spends library true b 0 Predicate.need (c (.predicate (test.precedence + 1))))
    (hexpr : Spends library false b 0 Expr.need (c .wholeExpr)) (left : Predicate)
    (separates : Test → Bool) (k : Cursor) :
    Spends library true b left.need (fun r => r.value.need)
      (testStep c least left separates k) := by
  unfold Grammar.testStep
  cases Test.at? k with
  | none => exact pure rfl
  | some found =>
    obtain ⟨test, width⟩ := found
    dsimp only
    split
    · exact pure rfl
    · next hbinds =>
      have hle : least ≤ test.precedence := by
        simp only [Bool.or_eq_true, decide_eq_true_eq, not_or, Nat.not_lt] at hbinds
        exact hbinds.1
      exact behind (free.skip _) fun _ =>
        (testRule test (hpredicate test hle) hexpr left).map fun _ => rfl

theorem predicateStep (least : Nat)
    (hpredicate : ∀ test : Test, least ≤ test.precedence →
      Spends library true b 0 Predicate.need (c (.predicate (test.precedence + 1))))
    (hexpr : Spends library false b 0 Expr.need (c .wholeExpr)) (left : Predicate) :
    Spends library true b left.need (fun r => r.value.need) (predicateStep c least left) := by
  rw [predicateStep_eq]
  refine get_bind (fun s s' hs ha => ?_) fun s => testStep least hpredicate hexpr left _ _
  rw [hs.cursor, funext (ha rfl).isSeparator]

theorem predicateRule (least : Nat)
    (harithmetic : Spends library false b 0 Atom.need (c (.arithmetic 0)))
    (hpredicate : ∀ test : Test, least ≤ test.precedence →
      Spends library true b 0 Predicate.need (c (.predicate (test.precedence + 1))))
    (hexpr : Spends library false b 0 Expr.need (c .wholeExpr)) :
    Spends library true b 0 Predicate.need (predicateRule c least) :=
  harithmetic.align.bind fun a =>
    Spends.loop Predicate.need (predicateStep least hpredicate hexpr) (.atom a)

/-- A chain of operators spends as a chain of connectives does. -/
theorem arithmeticStep (least : Nat)
    (h : ∀ op : ArithmeticOp, least ≤ op.precedence →
      Spends library false b 0 Atom.need (c (.arithmetic (op.precedence + 1)))) (left : Atom) :
    Spends library false b left.need (fun r => r.value.need) (arithmeticStep c least left) := by
  refine current_bind fun t => ?_
  split
  · exact pure rfl
  · next op _ =>
    split
    · exact pure rfl
    · next hbinds =>
      exact behind (free.skip 1) fun _ => (h op (Nat.not_lt.1 hbinds)).after.map fun _ => rfl

theorem arithmeticRule (least : Nat) (hoperand : Spends library false b 0 Atom.need (c .operand))
    (h : ∀ op : ArithmeticOp, least ≤ op.precedence →
      Spends library false b 0 Atom.need (c (.arithmetic (op.precedence + 1)))) :
    Spends library false b 0 Atom.need (arithmeticRule c least) :=
  hoperand.bind fun a => Spends.loop Atom.need (arithmeticStep least h) a

/-- A relevance function behind its field takes no level of its own. -/
theorem fieldEqualsCall (h : Spends library false b 0 Relevance.need (c .fieldEquals))
    (hform : Yields (fun r => r.form.isFieldEquals = true) (c .fieldEquals)) :
    Spends library false b 0 Call.need (fieldEqualsCall c) := by
  have hcall : Spends library false b 0 (fun r => Call.need ⟨.relevance r, default⟩)
      (c .fieldEquals) := by
    refine h.congrOf hform fun r hr => ?_
    rw [Call.need, if_pos hr]
  refine current_bind fun t => hcall.andThen fun r => behind (free.spanFrom _) fun _ => pure ?_
  rw [Nat.zero_max, Call.need, Call.need]

/-- An operand spends what the rule of its form does. -/
theorem operandAt (hfieldEquals : Spends library false b 0 Call.need (Grammar.fieldEqualsCall c))
    (hparenthesized : Spends library false b 0 Atom.need (c .parenthesized))
    (hconstant : Spends library false b 0 Constant.need (c .constant))
    (hcall : Spends library false b 0 Call.need (c .call)) (k : Cursor) :
    Spends library false b 0 Atom.need (operandAt c k) := by
  unfold Grammar.operandAt
  cases startsFieldEquals k.ahead with
  | true => exact hfieldEquals.map fun _ => rfl
  | false =>
    cases k.operandForm? with
    | none => exact reject _
    | some form =>
      cases form with
      | parenthesized => exact hparenthesized
      | constant => exact hconstant.map fun _ => rfl
      | call => exact hcall.map fun _ => rfl
      | column => exact behind free.qualifiedName fun _ => pure rfl

/-- A parenthesis is a level. -/
theorem parenthesizedRule (h : Spends library false b 0 Expr.need (c .wholeExpr)) :
    Spends library false b 0 Atom.need (parenthesizedRule c) :=
  behind (free.symbol _) fun _ => h.andThen fun _ => behind (free.symbol _) fun _ =>
    behind (free.spanFrom _) fun _ => pure (Nat.zero_max _).symm

/-! ## Full-text search -/

theorem searchValueRule (h : Spends library false b 0 Constant.need (c .constant)) :
    Spends library false b 0 SearchValue.need (searchValueRule c) := by
  refine cursor_bind (f := fun k => if k.startsConstant then SearchValue.constant <$> c .constant
    else SearchValue.name <$> Parser.qualifiedName) fun k => ?_
  split
  · exact h.map fun _ => rfl
  · exact behind free.qualifiedName fun _ => pure rfl

theorem relevanceStep (h : Spends library false b 0 SearchValue.need (c .searchValue))
    (options : List RelevanceOption) :
    Spends library false b (greatest RelevanceOption.need options)
      (fun r => greatest RelevanceOption.need r.value) (relevanceStep c options) := by
  refine behind (free.takeSymbol .comma) fun found => ?_
  cases found with
  | true =>
    exact behind free.relevanceOptionName fun _ => behind (free.symbol _) fun _ =>
      h.andThen fun _ => pure (Nat.max_comm _ _)
  | false => exact pure rfl

theorem relevanceOptionsRule (h : Spends library false b 0 SearchValue.need (c .searchValue)) :
    Spends library false b 0 needOptions (relevanceOptionsRule c) := by
  rw [relevanceOptionsRule_eq]
  refine (loopList (relevanceStep h)).bind fun options => pure ?_
  rw [needOptions_eq, greatest_reverse]

/-- The levels that a named argument needs. -/
def namedNeed : NamedArgument → Nat
  | .query value => value.need
  | .fields _ => 0

theorem namedArgument (h : Spends library false b 0 SearchValue.need (c .searchValue)) :
    Spends library false b 0 namedNeed (namedArgument c) := by
  refine current_bind fun t => ?_
  dsimp only
  split
  · exact behind (free.skip 1) fun _ => behind (free.symbol _) fun _ => h.map fun _ => rfl
  · split
    · refine behind (free.skip 1) fun _ => behind (free.symbol _) fun _ => ?_
      refine atSymbol_bind _ fun bracket => ?_
      cases bracket with
      | true => exact behind free.fieldList fun _ => pure rfl
      | false => exact behind free.weightedField fun _ => pure rfl
    · exact rejectCurrent _

theorem namedArgumentsRule (h : Spends library false b 0 SearchValue.need (c .searchValue)) :
    Spends library false b 0 (fun found => found.1.need) (namedArgumentsRule c) := by
  refine (namedArgument h).andThen fun first => behind (free.symbol _) fun _ =>
    (namedArgument h).andThen fun second => ?_
  cases first with
  | query query =>
    cases second with
    | query _ => exact rejectCurrent _
    | fields fields => exact pure (by simp [namedNeed])
  | fields fields =>
    cases second with
    | query query => exact pure (by simp [namedNeed])
    | fields _ => exact rejectCurrent _

theorem searchTarget (hvalue : Spends library false b 0 SearchValue.need (c .searchValue))
    (hnamed : Spends library false b 0 (fun found => found.1.need) (c .namedArguments))
    (kind : RelevanceKind) :
    Spends library false b 0 (fun found => found.2.need) (searchTarget c kind) := by
  cases kind with
  | noField => exact hvalue.map fun _ => rfl
  | singleField =>
    exact behind free.field fun _ => behind (free.symbol _) fun _ => hvalue.map fun _ => rfl
  | multiField =>
    refine current_bind fun t => peek_bind 1 fun u => ?_
    split
    · exact hnamed.andThen fun _ => pure (Nat.zero_max _).symm
    · exact behind free.fieldList fun _ => behind (free.symbol _) fun _ => hvalue.map fun _ => rfl

/-- A relevance function spends what its query and its options need. -/
theorem relevanceRule (hvalue : Spends library false b 0 SearchValue.need (c .searchValue))
    (hnamed : Spends library false b 0 (fun found => found.1.need) (c .namedArguments))
    (hoptions : Spends library false b 0 needOptions (c .relevanceOptions)) (kind : RelevanceKind) :
    Spends library false b 0 Relevance.need (relevanceRule c kind) :=
  behind free.callName fun _ => (searchTarget hvalue hnamed kind).andThen fun _ =>
    hoptions.andThen fun _ => behind (free.symbol _) fun _ =>
      pure (by rw [Relevance.need, Nat.zero_max])

theorem fieldEqualsRule (hvalue : Spends library false b 0 SearchValue.need (c .searchValue))
    (hoptions : Spends library false b 0 needOptions (c .relevanceOptions)) :
    Spends library false b 0 Relevance.need (fieldEqualsRule c) := by
  refine behind free.field fun _ => behind (free.symbol _) fun _ => current_bind fun t => ?_
  split
  · exact behind free.callName fun _ => hvalue.andThen fun _ => hoptions.andThen fun _ =>
      behind (free.symbol _) fun _ => pure (by rw [Relevance.need, Nat.zero_max])
  · exact rejectCurrent _

theorem scoredRelevance (hfieldEquals : Spends library false b 0 Relevance.need (c .fieldEquals))
    (hrelevance : ∀ kind, Spends library false b 0 Relevance.need (c (.relevance kind))) :
    Spends library false b 0 Relevance.need (scoredRelevance c) := by
  have hnamed : Spends library false b 0 Relevance.need (Grammar.namedRelevance c) := by
    refine current_bind fun t => ?_
    split
    · exact hrelevance _
    · exact reject _
  refine cursor_bind (f := fun k =>
    if startsFieldEquals k.ahead then c .fieldEquals else Grammar.namedRelevance c) fun k => ?_
  split
  · exact hfieldEquals
  · exact hnamed

theorem scoreRule (hfieldEquals : Spends library false b 0 Relevance.need (c .fieldEquals))
    (hrelevance : ∀ kind, Spends library false b 0 Relevance.need (c (.relevance kind))) :
    Spends library false b 0 CallShape.inner (scoreRule c) := by
  refine behind free.callName fun _ => (scoredRelevance hfieldEquals hrelevance).andThen fun r =>
    behind (free.takeSymbol .comma) fun found => ?_
  have hweight : Spends library false b 0 (fun _ => 0) (some <$> Parser.weight) :=
    of_free (free.map (b := b) _ free.weight)
  refine either hweight (of_free (free_pure _)) fun weight => behind (free.symbol _) fun _ => pure ?_
  rw [CallShape.inner, Nat.zero_max, Nat.max_zero]

/-! ## Queries -/

theorem selectItemRule (h : Spends library false b 0 Expr.need (c .wholeExpr))
    (starAllowed : Bool) :
    Spends library false b 0 SelectItem.need (selectItemRule c starAllowed) := by
  have hexpr : Spends library false b 0 SelectItem.need (do
      let expr ← c .wholeExpr
      return .expr expr (← optionalAlias)) :=
    h.andThen fun _ => behind free.optionalAlias fun _ => pure (Nat.zero_max _).symm
  cases starAllowed with
  | false => exact hexpr
  | true =>
    refine atSymbol_bind _ fun star => ?_
    cases star with
    | true => exact behind free.take fun _ => pure rfl
    | false => exact hexpr

theorem selectItemsRule
    (h : ∀ star, Spends library false b 0 SelectItem.need (c (.selectItem star))) :
    Spends library false b 0 (greatest SelectItem.need) (selectItemsRule c) :=
  commaList _ (h true) (h false)

/-- A query in parentheses takes two levels. -/
theorem relationRule (hsteady : Steady (c .query))
    (h : ∀ b' < b, Spends library false b' 0 Query.need (c .query)) :
    Spends library false b 0 Relation.need (relationRule c) := by
  refine behind (free.keyword _) fun _ => atSymbol_bind _ fun paren => ?_
  cases paren with
  | true =>
    refine behind free.take fun _ => (nest 2 (by decide) hsteady.subquery
      fun b' hb => (h b' hb).subquery.align).andThen fun query => ?_
    exact behind (free.symbol _) fun _ => behind (free.takeKeyword _) fun _ =>
      behind free.ident fun _ => behind (free.spanFrom _) fun _ => pure (Nat.zero_max _).symm
  | false =>
    exact behind free.qualifiedName fun _ => behind free.optionalAlias fun _ => pure rfl

theorem conditionRule (h : Spends library false b 0 Expr.need (c .wholeExpr)) (word : Keyword) :
    Spends library false b 0 (fun condition => condition.expr.need) (conditionRule c word) :=
  behind (free.keyword _) fun _ => h.andThen fun _ => behind (free.spanFrom _) fun _ =>
    pure (Nat.zero_max _).symm

theorem groupByRule (h : Spends library false b 0 Expr.need (c .wholeExpr)) :
    Spends library false b 0 (fun g => greatest Expr.need g.exprs) (groupByRule c) :=
  behind (free.keyword _) fun _ => behind (free.keyword _) fun _ =>
    (commaSeparated _ h).andThen fun _ => behind (free.spanFrom _) fun _ =>
      pure (Nat.zero_max _).symm

/-- A clause spends what its body needs. -/
theorem clause {α : Type} {cost : α → Nat} {p : Parser α} (h : Spends library false b 0 cost p)
    (allowed : Bool) (word : Keyword) :
    Spends library false b 0 (orZero cost) (clause allowed word p) := by
  cases allowed with
  | false => exact absent
  | true =>
    refine atKeyword_bind _ fun here => ?_
    cases here with
    | true =>
      exact h.recover.andThen fun found => behind free_clauseEnd fun _ =>
        pure (Nat.zero_max _).symm
    | false => exact absent

theorem limitClause : Spends library false b 0 (fun _ => 0) limitClause := by
  refine atKeyword_bind _ fun here => ?_
  cases here with
  | true =>
    exact (of_free (free.limit (b := b))).recover.congr fun limit => by cases limit <;> rfl
  | false => exact pure rfl

/-- A query spends what the greatest of its clauses needs. -/
theorem queryRule (hitems : Spends library false b 0 (greatest SelectItem.need) (c .selectItems))
    (hrelation : Spends library false b 0 Relation.need (c .relation))
    (hcondition : ∀ word, Spends library false b 0 (fun condition => condition.expr.need)
      (c (.condition word)))
    (hgroupBy : Spends library false b 0 (fun g => greatest Expr.need g.exprs) (c .groupBy))
    (horderBy : Spends library false b 0 OrderBy.need (c .orderBy)) :
    Spends library false b 0 Query.need (queryRule c) := by
  refine behind (free.keyword _) fun _ => behind free.quantifier fun _ =>
    hitems.recover.andThen fun items => behind free_clauseEnd fun _ =>
      atKeyword_bind _ fun hasRelation => ?_
  refine (clause hrelation _ _).andThen fun relation =>
    (clause (hcondition _) _ _).andThen fun condition =>
      (clause hgroupBy _ _).andThen fun groupBy =>
        (clause (hcondition _) _ _).andThen fun having =>
          (clause horderBy _ _).andThen fun orderBy => ?_
  refine limitClause.andThen fun limit => behind (free.spanFrom _) fun _ => pure ?_
  have hitems : greatest SelectItem.need (items.getD []) =
      orZero (greatest SelectItem.need) items := by
    cases items <;> rfl
  rw [Query.need, needFrom_eq, hitems]
  simp only [Nat.zero_max, Nat.max_zero, Nat.max_assoc]

theorem statementRule (h : Spends library false b 0 Query.need (c .query)) :
    Spends library false b 0 Statement.need (statementRule c) := by
  refine current_bind fun t => ?_
  split
  · exact h.map fun _ => rfl
  · exact of_yields free.showTables (yields_bind fun _ => yields_bind fun _ => yields_bind fun _ =>
      yields_bind fun _ => yields_pure rfl)
  · exact of_yields free.describe (yields_bind fun _ => yields_bind fun _ => yields_bind fun _ =>
      yields_bind fun _ => yields_bind fun _ => yields_pure rfl)
  · exact reject _

/-- A parse spends what its statement needs. -/
theorem rootRule (h : Spends library false b 0 Query.need (c .query)) :
    Spends library false b 0 (orZero Statement.need) (rootRule c) := by
  have hoptional : Spends library false b 0 (orZero Statement.need) (optionalStatement c) := by
    refine current_bind fun t => ?_
    split
    · exact absent
    · exact absent
    · exact (statementRule h).recover
  exact hoptional.andThen fun _ => behind (free.takeSymbol _) fun _ =>
    behind free_inputEnd fun _ => pure (Nat.zero_max _).symm

end Spends

end SearchSql.Grammar
