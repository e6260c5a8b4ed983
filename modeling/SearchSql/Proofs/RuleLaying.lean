import SearchSql.Proofs.Laying

/-!
# Where rules place spans

Every rule of the grammar lays the spans of what it builds in a row if its callees do, one lemma for
each rule. What the callees lay is `Nonterminal.pieces`.
-/

set_option autoImplicit false

namespace SearchSql.Grammar

open SearchSql.Grammar.Parser

variable {α β : Type} {T : List Token} {s t : State} {here : Token → Prop} {before : List Piece}

namespace Nonterminal

/-- What a rule lays: a tree, or a token in front of the trees of something that has no span. -/
def pieces : {α : Type} → Nonterminal α → α → List Piece
  | _, .expr _ => fun e => [.tree e.spanTree]
  | _, .predicate _ => fun p => [.tree p.spanTree]
  | _, .arithmetic _ | _, .operand | _, .parenthesized => fun a => [.tree a.spanTree]
  | _, .constant => fun c => [.tree c.spanTree]
  | _, .interval => fun value => .token :: value.spanTrees.map .tree
  | _, .call => fun f => [.tree f.spanTree]
  | _, .shape _ | _, .scalar _ | _, .case | _, .cast | _, .ranking _ | _, .aggregateTail _
  | _, .score | _, .position | _, .extract | _, .getFormat | _, .timestamp _ =>
      fun shape => .token :: shape.spanTrees.map .tree
  | _, .arguments => fun args => args.map fun e => .tree e.spanTree
  | _, .aggregate _ | _, .percentile _ => fun a => .token :: a.spanTrees.map .tree
  | _, .window => fun w => [.tree w.spanTree]
  | _, .filter => fun f => [.tree f.spanTree]
  | _, .orderBy => fun o => [.tree o.spanTree]
  | _, .orderItem => fun i => [.tree i.spanTree]
  | _, .relevance _ | _, .fieldEquals => fun r => .token :: r.spanTrees.map .tree
  | _, .namedArguments => fun (text, fields) =>
      [.tree (.either text.spanTree (.group (fields.map WeightedField.spanTree)))]
  | _, .searchValue => fun value => [.tree value.spanTree]
  | _, .relevanceOptions => fun options => options.map fun o => .tree o.spanTree
  | _, .selectItems => fun items => items.map fun i => .tree i.spanTree
  | _, .selectItem _ => fun i => [.tree i.spanTree]
  | _, .relation => fun r => [.tree r.spanTree]
  | _, .condition _ => fun c => [.tree c.spanTree]
  | _, .groupBy => fun g => [.tree g.spanTree]
  | _, .query => fun q => [.tree q.spanTree]

/-- What is laid in front of a rule and belongs to what it builds. -/
def laidBehind : {α : Type} → Nonterminal α → List Piece
  | _, .aggregateTail a => .token :: a.spanTrees.map .tree
  | _, _ => []

end Nonterminal

/-- Whether a way to run rules lays what they build. -/
def AllLay (T : List Token) (call : Callee) : Prop :=
  ∀ {α : Type} (n : Nonterminal α) (before : List Piece),
    Lays T AnyToken (before ++ n.laidBehind) (call n) (fun a => before ++ n.pieces a)

section Callees

variable {call : Callee} (hT : Token.Apart T) (hcall : AllLay T call)

include hcall

/-- What a callee lays that starts something of its own. -/
theorem AllLay.run (n : Nonterminal α) (hbehind : n.laidBehind = []) :
    Lays T here before (call n) (fun a => before ++ n.pieces a) := by
  have h := hcall n before
  rw [hbehind, List.append_nil] at h
  exact h.weaken

/-- An expression that a callee reads is one tree. -/
theorem AllLay.expr : Lays T here before (call .wholeExpr) (fun e => before ++ [.tree e.spanTree]) :=
  hcall.run .wholeExpr rfl

theorem AllLay.searchValue :
    Lays T here before (call .searchValue) (fun value => before ++ [.tree value.spanTree]) :=
  hcall.run .searchValue rfl

include hT

/-- The expressions of a list are trees behind each other. -/
theorem AllLay.commaExprs (rule : String) :
    Lays T here before (Parser.commaSeparated rule (call .wholeExpr))
      (fun es => before ++ es.map fun e => .tree e.spanTree) := by
  have h : Lays T AnyToken [] (call .wholeExpr) (fun e => [.tree e.spanTree]) := hcall.expr
  exact h.commaSeparated hT rule

/-! ## Constants -/

theorem lays_intervalRule :
    Lays T here before (intervalRule call)
      (fun value => before ++ .token :: value.spanTrees.map .tree) := by
  refine (lays_keyword hT .INTERVAL).token.bind fun _ => hcall.expr.bind fun amount =>
    (lays_of_meets hT fun _ _ => (moving_lawful hT).datetimeUnit).bind fun unit =>
      lays_pure_forget ?_ (by simp)
  simp [Literal.spanTrees]

theorem lays_literalRule :
    Lays T here before (literalRule call)
      (fun value => before ++ .token :: value.spanTrees.map .tree) := by
  refine lays_current_bind fun u => ?_
  have hsimple {value : Literal} (hvalue : value.spanTrees = []) (hkind : u.kind ≠ .endOfInput) :
      Lays T (fun v => v = u ∧ here v) before (simpleLiteral value)
        (fun value => before ++ .token :: value.spanTrees.map .tree) := by
    refine lays_simpleLiteral hT hvalue ?_
    rintro _ ⟨rfl, -⟩
    exact isEnd_eq_false hkind
  split
  · next hkind => exact hsimple rfl (hkind ▸ nofun)
  · exact lays_bracedLiteral hT
  · next hkind => exact hsimple rfl (hkind ▸ nofun)
  · next hkind => exact hsimple rfl (hkind ▸ nofun)
  · next hkind => exact hsimple rfl (hkind ▸ nofun)
  · exact hcall.run .interval rfl
  · next word hkind =>
    split
    · next kind _ =>
      intro lo hi s value t hs hhere heq
      exact lays_wordLiteral hT kind lo hi s value t hs (hhere.1 ▸ hkind) heq
    · exact lays_rejectCurrent _
  · next word hkind =>
    split
    · refine lays_datetimeConstant hT _ ?_
      rintro _ ⟨rfl, -⟩
      exact isEnd_eq_false (hkind ▸ nofun)
    · exact lays_rejectCurrent _
  · exact lays_rejectCurrent _

theorem lays_constantRule :
    Lays T here before (constantRule call) (fun c => before ++ [.tree c.spanTree]) := by
  have hother : Lays T AnyToken before (do
      let start := (← current).span
      let value ← literalRule call
      return ⟨value, ← spanFrom start⟩ : Parser Constant) (fun c => before ++ [.tree c.spanTree]) :=
    lays_spanned hT (lays_literalRule hT hcall) (fun _ => List.cons_ne_nil _ _)
      fun value span => by simp [Constant.spanTree]
  refine lays_current_bind fun u => ?_
  split
  · exact lays_number hT
  · exact lays_number hT
  · exact lays_number hT
  · exact lays_number hT
  · exact hother.weaken

/-! ## Calls -/

/-- The arguments of a call lie behind its name. -/
theorem lays_argumentsRule :
    Lays T here before (argumentsRule call)
      (fun args => before ++ args.map fun e => .tree e.spanTree) := by
  refine lays_takeSymbol_bind hT (lays_pure_forget (by simp) (by simp)) ?_
  refine (hcall.commaExprs hT _).bind fun args => (lays_symbol hT .rightParen).token.bind fun _ =>
    lays_pure_forget (by simp) (by simp)

theorem lays_scalarRule (category : ScalarCategory) :
    Lays T here before (scalarRule call category)
      (fun shape => before ++ .token :: shape.spanTrees.map .tree) := by
  refine (lays_callName hT).bind fun name => (hcall.run .arguments rfl).bind fun args =>
    lays_pure_forget ?_ (by simp)
  simp [CallShape.spanTrees, Nonterminal.pieces, spanTreesAll_eq]

theorem lays_caseBranches :
    Lays T here before (caseBranches call)
      (fun branches => before ++ branches.map fun b => .tree b.spanTree) := by
  have hstep (branches : List CaseBranch) : Lays T AnyToken
      (before ++ branches.reverse.map fun b => .tree b.spanTree) (caseStep call branches)
      (fun r => before ++ r.value.reverse.map fun b => .tree b.spanTree) := by
    refine lays_takeKeyword_bind hT ?_ (lays_pure rfl)
    refine hcall.expr.bind fun condition => (lays_keyword hT .THEN).token.bind fun _ =>
      hcall.expr.bind fun result =>
        lays_group (before ++ branches.reverse.map fun b => .tree b.spanTree)
          [condition.spanTree, result.spanTree] ?_ (by simp) (by simp)
    simp [ForInStep.value, CaseBranch.spanTree]
  have hloop : Lays T here before (loop [] (caseStep call))
      (fun branches => before ++ branches.reverse.map fun b => .tree b.spanTree) := by
    have h : Lays T here _ _ _ := lays_loop hstep []
    simpa using h
  rw [caseBranches_eq]
  exact hloop.bind fun branches => lays_pure rfl

/-- The operand and the branches of a `CASE` lie in front of its end. -/
theorem lays_caseEnd (operand : Option Expr) (branches : List CaseBranch) :
    Lays T here
      (before ++ .token :: (operand.map fun e => Piece.tree e.spanTree).toList ++
        branches.map fun b => .tree b.spanTree)
      (caseEnd call operand branches)
      (fun shape => before ++ .token :: shape.spanTrees.map .tree) := by
  have hend (otherwise : Option Expr) {pieces : List Piece}
      (hsub : (treesOf before ++ (CallShape.case operand branches otherwise).spanTrees).Sublist
        (treesOf pieces)) (hne : pieces ≠ []) :
      Lays T AnyToken pieces (do
        let _ ← keyword .END
        return .case operand branches otherwise : Parser CallShape)
        (fun shape => before ++ .token :: shape.spanTrees.map .tree) :=
    (lays_keyword hT .END).token.bind fun _ => lays_pure_forget (by simpa using hsub) (by simp)
  unfold caseEnd
  dsimp only
  split
  · intro lo hi s shape t hs hhere heq
    obtain ⟨_, _, hreject, -⟩ := bind_eq_ok_iff.1 heq
    exact absurd hreject rejectCurrent_ne_ok
  refine lays_takeKeyword_bind hT ?_ ?_
  · refine hcall.expr.some.bind fun otherwise => hend otherwise ?_ (by simp)
    simp [CallShape.spanTrees, spanTreesOptional_eq, spanTreesBranches_eq]
  · refine (lays_none Expr.spanTree).bind fun otherwise => hend otherwise ?_ (by simp)
    simp [CallShape.spanTrees, spanTreesOptional_eq, spanTreesBranches_eq]

theorem lays_caseRule :
    Lays T here before (caseRule call)
      (fun shape => before ++ .token :: shape.spanTrees.map .tree) := by
  have hrest (operand : Option Expr) {pieces : List Piece}
      (hpieces : pieces = before ++ .token :: (operand.map fun e => Piece.tree e.spanTree).toList) :
      Lays T AnyToken pieces (do
        let branches ← caseBranches call
        caseEnd call operand branches)
      (fun shape => before ++ .token :: shape.spanTrees.map .tree) := by
    subst hpieces
    exact (lays_caseBranches hT hcall).bind fun branches => lays_caseEnd hT hcall operand branches
  refine (lays_keyword hT .CASE).token.bind fun _ => lays_atKeyword_bind ?_ ?_
  · exact (lays_none Expr.spanTree).bind fun operand => hrest operand (by simp)
  · exact hcall.expr.some.bind fun operand => hrest operand (by simp)

theorem lays_castRule :
    Lays T here before (castRule call)
      (fun shape => before ++ .token :: shape.spanTrees.map .tree) := by
  refine (lays_keyword hT .CAST).token.bind fun _ => (lays_symbol hT .leftParen).token.bind fun _ =>
    hcall.expr.bind fun expr => (lays_keyword hT .AS).token.bind fun _ =>
      (lays_of_meets hT fun _ _ => (moving_lawful hT).dataType).bind fun target =>
        (lays_symbol hT .rightParen).token.bind fun _ => lays_pure_forget ?_ (by simp)
  simp [CallShape.spanTrees]

theorem lays_positionRule :
    Lays T here before (positionRule call)
      (fun shape => before ++ .token :: shape.spanTrees.map .tree) := by
  refine (lays_callName hT).bind fun _ => hcall.expr.atSeparator.bind fun substring =>
    (lays_keyword hT .IN).token.bind fun _ => hcall.expr.bind fun string =>
      (lays_symbol hT .rightParen).token.bind fun _ => lays_pure_forget ?_ (by simp)
  simp [CallShape.spanTrees]

theorem lays_extractRule :
    Lays T here before (extractRule call)
      (fun shape => before ++ .token :: shape.spanTrees.map .tree) := by
  refine (lays_callName hT).bind fun _ =>
    (lays_of_meets hT fun _ _ => (moving_lawful hT).datetimeUnit).bind fun unit =>
      (lays_keyword hT .FROM).token.bind fun _ => hcall.expr.bind fun arg =>
        (lays_symbol hT .rightParen).token.bind fun _ => lays_pure_forget ?_ (by simp)
  simp [CallShape.spanTrees]

theorem lays_getFormatRule :
    Lays T here before (getFormatRule call)
      (fun shape => before ++ .token :: shape.spanTrees.map .tree) := by
  refine (lays_callName hT).bind fun _ =>
    (lays_of_meets hT fun _ _ => (moving_lawful hT).formatTarget).bind fun target =>
      (lays_symbol hT .comma).token.bind fun _ => hcall.expr.bind fun format =>
        (lays_symbol hT .rightParen).token.bind fun _ => lays_pure_forget ?_ (by simp)
  simp [CallShape.spanTrees]

theorem lays_timestampRule (function : TimestampFunction) :
    Lays T here before (timestampRule call function)
      (fun shape => before ++ .token :: shape.spanTrees.map .tree) := by
  refine (lays_callName hT).bind fun _ =>
    (lays_of_meets hT fun _ _ => (moving_lawful hT).singleUnit).bind fun unit =>
      (lays_symbol hT .comma).token.bind fun _ => hcall.expr.bind fun first =>
        (lays_symbol hT .comma).token.bind fun _ => hcall.expr.bind fun second =>
          (lays_symbol hT .rightParen).token.bind fun _ => lays_pure_forget ?_ (by simp)
  simp [CallShape.spanTrees]

theorem lays_shapeRule (family : FunctionFamily) :
    Lays T here before (shapeRule call family)
      (fun shape => before ++ .token :: shape.spanTrees.map .tree) := by
  have htail {here : Token → Prop} (aggregate : Aggregate) :
      Lays T here (before ++ .token :: aggregate.spanTrees.map .tree)
        (call (.aggregateTail aggregate))
        (fun shape => before ++ .token :: shape.spanTrees.map .tree) :=
    (hcall (.aggregateTail aggregate) before).weaken
  cases family with
  | nested =>
    refine lays_get_bind fun s => ?_
    split
    · exact lays_nestedAll hT
    · exact hcall.run (.scalar .nested) rfl
  | scalar category => exact hcall.run (.scalar category) rfl
  | ranking function => exact hcall.run (.ranking function) rfl
  | aggregate function => exact (hcall.run (.aggregate function) rfl).bind htail
  | percentile function => exact (hcall.run (.percentile function) rfl).bind htail
  | score => exact hcall.run .score rfl
  | relevance kind => exact (hcall.run (.relevance kind) rfl).bind fun _ => lays_pure rfl
  | highlight => exact lays_highlight hT
  | position => exact hcall.run .position rfl
  | extract => exact hcall.run .extract rfl
  | getFormat => exact hcall.run .getFormat rfl
  | timestamp function => exact hcall.run (.timestamp function) rfl

omit hT in
theorem lays_callShape :
    Lays T here before (callShape call)
      (fun shape => before ++ .token :: shape.spanTrees.map .tree) := by
  refine lays_current_bind fun u => ?_
  split
  · exact hcall.run .case rfl
  · exact hcall.run .cast rfl
  · exact hcall.run (.scalar .dateTime) rfl
  · exact hcall.run (.scalar .dateTime) rfl
  · exact hcall.run (.scalar .dateTime) rfl
  · exact hcall.run (.scalar .dateTime) rfl
  · split
    · next family _ => exact hcall.run (.shape family) rfl
    · exact lays_reject _
  · exact lays_reject _

/-- A call is one tree, from the token of its name on. -/
theorem lays_callRule :
    Lays T here before (callRule call) (fun f => before ++ [.tree f.spanTree]) := by
  rw [callRule_eq]
  refine Lays.nest (lays_spanned hT (lays_callShape hcall) (fun _ => List.cons_ne_nil _ _)
    fun shape span => ?_) 1
  simp [Call.spanTree]

/-! ## Aggregates and windows -/

omit hT in
theorem AllLay.orderBy : Lays T here before (call .orderBy) (fun o => before ++ [.tree o.spanTree]) :=
  hcall.run .orderBy rfl

omit hT in
theorem AllLay.filter : Lays T here before (call .filter) (fun f => before ++ [.tree f.spanTree]) :=
  hcall.run .filter rfl

omit hT in
theorem AllLay.window : Lays T here before (call .window) (fun w => before ++ [.tree w.spanTree]) :=
  hcall.run .window rfl

theorem lays_aggregateForm (function : AggregateFunction) :
    Lays T here (before ++ [.token]) (aggregateRule.form call function)
      (fun aggregate => before ++ .token :: aggregate.spanTrees.map .tree) := by
  have hregular : Lays T here (before ++ [.token]) (do
      return .regular function (← call .wholeExpr) : Parser Aggregate)
      (fun aggregate => before ++ .token :: aggregate.spanTrees.map .tree) := by
    refine hcall.expr.bind fun arg => lays_pure ?_
    simp [Aggregate.spanTrees]
  unfold aggregateRule.form
  dsimp only
  split
  · refine lays_takeSymbol_bind hT (lays_pure_forget ?_ (by simp))
      (lays_takeKeyword_bind hT ?_ hregular)
    · simp [Aggregate.spanTrees]
    · refine (hcall.commaExprs hT _).bind fun args => lays_pure_forget ?_ (by simp)
      simp [Aggregate.spanTrees, spanTreesAll_eq]
  · exact hregular

theorem lays_aggregateRule (function : AggregateFunction) :
    Lays T here before (aggregateRule call function)
      (fun aggregate => before ++ .token :: aggregate.spanTrees.map .tree) :=
  (lays_callName hT).bind fun _ => (lays_aggregateForm hT hcall function).bind fun aggregate =>
    (lays_symbol hT .rightParen).token.bind fun _ => lays_pure_forget (by simp) (by simp)

theorem lays_percentileRule (function : PercentileFunction) :
    Lays T here before (percentileRule call function)
      (fun aggregate => before ++ .token :: aggregate.spanTrees.map .tree) := by
  have hend (field : Expr) (percent : Constant) (compression : Option Constant)
      {pieces : List Piece}
      (hsub : (treesOf before ++ (Aggregate.percentile function field percent compression).spanTrees).Sublist
        (treesOf pieces)) :
      Lays T AnyToken pieces (do
        let _ ← symbol .rightParen
        return .percentile function field percent compression : Parser Aggregate)
        (fun aggregate => before ++ .token :: aggregate.spanTrees.map .tree) :=
    (lays_symbol hT .rightParen).token.bind fun _ => lays_pure_forget (by simpa using hsub) (by simp)
  refine (lays_callName hT).bind fun _ => hcall.expr.bind fun field =>
    (lays_symbol hT .comma).token.bind fun _ => (lays_number hT).bind fun percent =>
      lays_takeSymbol_bind hT ?_ ?_
  · refine (lays_number hT).some.bind fun compression => hend field percent compression ?_
    simp [Aggregate.spanTrees, spanTreesOptionalConstant_eq]
  · refine (lays_none Constant.spanTree).bind fun compression => hend field percent compression ?_
    simp [Aggregate.spanTrees, spanTreesOptionalConstant_eq]

theorem lays_orderByRule :
    Lays T here before (orderByRule call) (fun o => before ++ [.tree o.spanTree]) := by
  have hitem : Lays T AnyToken [] (call .orderItem) (fun i => [.tree i.spanTree]) :=
    hcall.run .orderItem rfl
  refine (lays_keyword hT .ORDER).bind fun start => (lays_keyword hT .BY).token.bind fun _ =>
    (hitem.commaSeparated hT _).bind fun items =>
      lays_node hT before (items.map OrderItem.spanTree) (by simp) fun span => ?_
  simp [OrderBy.spanTree, spanTreesItems_eq]

theorem lays_orderItemRule :
    Lays T here before (orderItemRule call) (fun item => before ++ [.tree item.spanTree]) := by
  refine hcall.expr.bind fun expr =>
    (lays_of_meets hT fun _ _ => (moving_lawful hT).direction).bind fun direction =>
      (lays_of_meets hT fun _ _ => (moving_lawful hT).nullOrder).bind fun nulls => lays_pure ?_
  simp [OrderItem.spanTree]

theorem lays_partitionBy :
    Lays T here before (partitionBy call)
      (fun partition => before ++ (partition.map fun p => Piece.tree p.spanTree).toList) := by
  refine lays_atKeyword_bind ?_ (lays_none PartitionBy.spanTree)
  refine (lays_take_keyword hT).bind fun start => (lays_keyword hT .BY).token.bind fun _ =>
    (hcall.commaExprs hT _).bind fun exprs =>
      lays_node hT before (exprs.map Expr.spanTree) (by simp) fun span => ?_
  simp [PartitionBy.spanTree, spanTreesAll_eq]

theorem lays_windowRule :
    Lays T here before (windowRule call) (fun window => before ++ [.tree window.spanTree]) := by
  have hend (start : Span) (partition : Option PartitionBy) (orderBy : Option OrderBy)
      {pieces : List Piece}
      (hsub : (treesOf before ++ .leaf start :: ((partition.map PartitionBy.spanTree).toList ++
        (orderBy.map OrderBy.spanTree).toList)).Sublist (treesOf pieces)) :
      Lays T AnyToken pieces (do
        let _ ← symbol .rightParen
        return ⟨partition, orderBy, ← spanFrom start⟩ : Parser Window)
        (fun window => before ++ [.tree window.spanTree]) := by
    refine (lays_symbol hT .rightParen).token.bind fun _ =>
      lays_node hT before _ (by simpa using hsub) fun span => ?_
    simp [Window.spanTree, spanTreesOptionalPartition_eq, spanTreesOptionalOrder_eq]
  refine (lays_keyword hT .OVER).bind fun start => (lays_symbol hT .leftParen).token.bind fun _ =>
    (lays_partitionBy hT hcall).bind fun partition => lays_atKeyword_bind ?_ ?_
  · exact hcall.orderBy.some.bind fun orderBy => hend start partition orderBy (by simp)
  · exact (lays_none OrderBy.spanTree).bind fun orderBy => hend start partition orderBy (by simp)

theorem lays_filterRule :
    Lays T here before (filterRule call) (fun filter => before ++ [.tree filter.spanTree]) := by
  refine (lays_keyword hT .FILTER).bind fun start => (lays_symbol hT .leftParen).token.bind fun _ =>
    (lays_keyword hT .WHERE).token.bind fun _ => hcall.expr.bind fun condition =>
      (lays_symbol hT .rightParen).token.bind fun _ =>
        lays_node hT before [condition.spanTree] (by simp) fun span => ?_
  simp [Filter.spanTree]

theorem lays_rankingRule (function : RankingFunction) :
    Lays T here before (rankingRule call function)
      (fun shape => before ++ .token :: shape.spanTrees.map .tree) := by
  refine (lays_callName hT).bind fun _ => (hcall.run .arguments rfl).bind fun args =>
    hcall.window.bind fun window => lays_pure_forget ?_ (by simp)
  simp [CallShape.spanTrees, Nonterminal.pieces, spanTreesAll_eq]

omit hT in
/-- What follows an aggregate lies behind it, inside of the same call. -/
theorem lays_aggregateTailRule (aggregate : Aggregate) :
    Lays T here (before ++ .token :: aggregate.spanTrees.map .tree)
      (aggregateTailRule call aggregate)
      (fun shape => before ++ .token :: shape.spanTrees.map .tree) := by
  have hordered : Lays T AnyToken (before ++ .token :: aggregate.spanTrees.map .tree)
      (orderedFilter call) (fun both => before ++ .token :: aggregate.spanTrees.map .tree ++
        [.tree both.1.spanTree] ++ [.tree both.2.spanTree]) :=
    hcall.orderBy.bind fun orderBy => hcall.filter.bind fun filter => lays_pure rfl
  refine lays_atKeyword_bind ?_ (lays_atKeyword_bind ?_ (lays_atKeyword_bind ?_ ?_))
  · refine hcall.window.bind fun window => lays_pure ?_
    simp [CallShape.spanTrees]
  · refine hcall.filter.bind fun filter => lays_pure ?_
    simp [CallShape.spanTrees, spanTreesOptionalOrder_eq]
  · refine (hordered.weaken.attempt _).bind fun found => ?_
    cases found with
    | some both =>
      refine lays_pure ?_
      simp [CallShape.spanTrees, spanTreesOptionalOrder_eq]
    | none => exact lays_pure rfl
  · exact lays_pure rfl

end Callees

end SearchSql.Grammar
