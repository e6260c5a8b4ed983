import SearchSql.Proofs.RuleLaying

/-!
# Where expressions and queries place spans

The rules of expressions, full-text search and queries lay the spans of what they build in a row, and
so does every rule, whatever fuel is left (`allLay_derive`).
-/

set_option autoImplicit false

namespace SearchSql.Grammar

open SearchSql.Grammar.Parser

variable {α β : Type} {T : List Token} {s t : State} {here : Token → Prop} {before : List Piece}
variable {call : Callee} (hT : Token.Apart T) (hcall : AllLay T call)

/-! ## Expressions -/

/-- A node reaches from the first of some trees to the last. -/
theorem lays_join (hT : Token.Apart T) (before : List Piece) (middle : List SpanTree)
    {left right : SpanTree} {l r : Span} {kids : List SpanTree} {pieces : List Piece}
    {after : α → List Piece} {a : α}
    (hleft : ∃ children, left = .node l children) (hright : ∃ children, right = .node r children)
    (hpieces : (treesOf before ++ left :: (middle ++ [right])).Sublist (treesOf pieces))
    (hkids : kids.Sublist (left :: (middle ++ [right])))
    (hafter : after a = before ++ [.tree (.node (l.merge r) kids)]) :
    Lays T here pieces (pure a) after := by
  obtain ⟨ls, rfl⟩ := hleft
  obtain ⟨rs, rfl⟩ := hright
  intro lo hi s b t hs _ heq
  obtain ⟨rfl, rfl⟩ := pure_eq_ok_iff.1 heq
  have hforgotten : Laid T lo hi (before ++ .tree (.node l ls) ::
      (middle.map .tree ++ [.tree (.node r rs)])) s := by
    refine hs.forget (by simpa using hpieces) ?_
    rintro rfl
    simp at hpieces
  rw [hafter]
  exact hforgotten.join hT (by simpa using hkids)

include hcall

theorem AllLay.predicate (least : Nat) :
    Lays T here before (call (.predicate least)) (fun p => before ++ [.tree p.spanTree]) :=
  hcall.run (.predicate least) rfl

include hT

theorem lays_logicalOperand :
    Lays T here before (logicalOperand call) (fun e => before ++ [.tree e.spanTree]) := by
  refine lays_atKeyword_bind ?_ ((hcall.predicate 0).bind fun p => lays_pure rfl)
  refine (lays_take_keyword hT).bind fun start => (hcall.run (.expr notPrecedence) rfl).bind
    fun operand => lays_node hT before [operand.spanTree] (by simp [Nonterminal.pieces]) fun span => ?_
  simp [Expr.spanTree]

theorem lays_logicalStep (least : Nat) (left : Expr) :
    Lays T here (before ++ [.tree left.spanTree]) (logicalStep call least left)
      (fun r => before ++ [.tree r.value.spanTree]) := by
  refine lays_current_bind fun u => ?_
  split
  · exact lays_pure rfl
  · next op hop =>
    dsimp only
    split
    · exact lays_pure rfl
    · refine (lays_skip hT 1).bind fun _ => (hcall.run (.expr _) rfl).bind fun right =>
        lays_join hT before [] left.spanTree_eq right.spanTree_eq (by simp [Nonterminal.pieces])
          (.refl _) ?_
      cases op <;> rfl

theorem lays_exprRule (least : Nat) :
    Lays T here before (exprRule call least) (fun e => before ++ [.tree e.spanTree]) := by
  rw [exprRule_eq]
  refine Lays.nest ((lays_logicalOperand hT hcall).bind fun left => ?_) 1
  exact lays_loop (fun e => lays_logicalStep hT hcall least e) left

/-- A test lays its operands behind the one in front of it, and joins them. -/
theorem lays_testRule (left : Predicate) (test : Test) :
    Lays T here (before ++ [.tree left.spanTree]) (testRule call left test)
      (fun p => before ++ [.tree p.spanTree]) := by
  have hleft := left.spanTree_eq
  cases test with
  | comparison op =>
    exact (hcall.predicate _).bind fun right =>
      lays_join hT before [] hleft right.spanTree_eq (by simp) (.refl _) rfl
  | isNull negated =>
    have hstop (stop : Span) : ∃ children, SpanTree.leaf stop = .node stop children := ⟨[], rfl⟩
    exact (lays_keyword hT .NULL).bind fun stop =>
      lays_join hT before [] hleft (hstop stop) (by simp) (by simp) rfl
  | between negated =>
    exact (hcall.predicate _).bind fun low => (lays_keyword hT .AND).token.bind fun _ =>
      (hcall.predicate _).bind fun high =>
        lays_join hT before [low.spanTree] hleft high.spanTree_eq (by simp) (.refl _) rfl
  | like negated =>
    exact (hcall.predicate _).bind fun pattern =>
      lays_join hT before [] hleft pattern.spanTree_eq (by simp) (.refl _) rfl
  | regexp negated =>
    exact (hcall.predicate _).bind fun pattern =>
      lays_join hT before [] hleft pattern.spanTree_eq (by simp) (.refl _) rfl
  | within negated =>
    obtain ⟨children, hchildren⟩ := hleft
    rw [hchildren]
    refine (lays_symbol hT .leftParen).token.bind fun _ => (hcall.commaExprs hT _).bind fun items =>
      (lays_symbol hT .rightParen).token.bind fun _ => ?_
    have hsub : (treesOf before ++ .node left.span children :: items.map Expr.spanTree).Sublist
        (treesOf (before ++ [.tree (.node left.span children)] ++ [.token] ++
          (items.map fun e => Piece.tree e.spanTree) ++ [.token])) := by
      simp
    refine (lays_spanFrom hT hsub (.refl _)).bind fun span => lays_pure ?_
    simp [Predicate.spanTree, spanTreesAll_eq, hchildren]

theorem lays_predicateStep (least : Nat) (left : Predicate) :
    Lays T here (before ++ [.tree left.spanTree]) (predicateStep call least left)
      (fun r => before ++ [.tree r.value.spanTree]) := by
  refine lays_get_bind fun s => ?_
  split
  · exact lays_pure rfl
  · next test width _ =>
    split
    · exact lays_pure rfl
    · exact (lays_skip hT width).bind fun _ => (lays_testRule hT hcall left test).bind
        fun p => lays_pure rfl

theorem lays_predicateRule (least : Nat) :
    Lays T here before (predicateRule call least) (fun p => before ++ [.tree p.spanTree]) := by
  refine (hcall.run (.arithmetic 0) rfl).bind fun left => ?_
  have h : Lays T AnyToken (before ++ [.tree (Predicate.atom left).spanTree]) _ _ :=
    lays_loop (fun p => lays_predicateStep hT hcall least p) (.atom left)
  exact h

theorem lays_arithmeticStep (least : Nat) (left : Atom) :
    Lays T here (before ++ [.tree left.spanTree]) (arithmeticStep call least left)
      (fun r => before ++ [.tree r.value.spanTree]) := by
  refine lays_current_bind fun u => ?_
  split
  · exact lays_pure rfl
  · dsimp only
    split
    · exact lays_pure rfl
    · exact (lays_skip hT 1).bind fun _ => (hcall.run (.arithmetic _) rfl).bind fun right =>
        lays_join hT before [] left.spanTree_eq right.spanTree_eq (by simp [Nonterminal.pieces])
          (.refl _) rfl

theorem lays_arithmeticRule (least : Nat) :
    Lays T here before (arithmeticRule call least) (fun a => before ++ [.tree a.spanTree]) :=
  (hcall.run .operand rfl).bind fun left =>
    lays_loop (fun a => lays_arithmeticStep hT hcall least a) left

theorem lays_operandRule :
    Lays T here before (operandRule call) (fun a => before ++ [.tree a.spanTree]) := by
  have hfieldEquals {here : Token → Prop} : Lays T here before (fieldEqualsCall call)
      (fun f => before ++ [.tree f.spanTree]) :=
    lays_spanned hT (hcall.run .fieldEquals rfl) (fun _ => List.cons_ne_nil _ _)
      fun relevance span => by simp [Call.spanTree, CallShape.spanTrees, Nonterminal.pieces]
  rw [operandRule_eq]
  refine lays_get_bind fun s => ?_
  unfold operandAt
  dsimp only
  split
  · exact hfieldEquals.bind fun f => lays_pure rfl
  · split
    · exact hcall.run .parenthesized rfl
    · exact (hcall.run .constant rfl).bind fun c => lays_pure rfl
    · exact (hcall.run .call rfl).bind fun f => lays_pure rfl
    · exact (lays_qualifiedName hT).bind fun name => lays_pure rfl
    · exact lays_reject _

theorem lays_parenthesizedRule :
    Lays T here before (parenthesizedRule call) (fun a => before ++ [.tree a.spanTree]) := by
  refine (lays_symbol hT .leftParen).bind fun start => hcall.expr.bind fun inner =>
    (lays_symbol hT .rightParen).token.bind fun _ =>
      lays_node hT before [inner.spanTree] (by simp) fun span => ?_
  simp [Atom.spanTree]

/-! ## Full-text search -/

theorem lays_searchValueRule :
    Lays T here before (searchValueRule call) (fun value => before ++ [.tree value.spanTree]) := by
  refine lays_get_bind fun s => ?_
  split
  · exact (hcall.run .constant rfl).bind fun c => lays_pure rfl
  · exact (lays_qualifiedName hT).bind fun name => lays_pure rfl

theorem lays_relevanceOptionsRule :
    Lays T here before (relevanceOptionsRule call)
      (fun options => before ++ options.map fun o => .tree o.spanTree) := by
  have hstep (options : List RelevanceOption) : Lays T AnyToken
      (before ++ options.reverse.map fun o => .tree o.spanTree) (relevanceStep call options)
      (fun r => before ++ r.value.reverse.map fun o => .tree o.spanTree) := by
    refine lays_takeSymbol_bind hT ?_ (lays_pure rfl)
    refine (lays_of_meets hT fun _ _ => (moving_lawful hT).relevanceOptionName).bind fun name =>
      (lays_symbol hT .eq).token.bind fun _ => hcall.searchValue.bind fun value =>
        lays_pure_forget ?_ (by simp)
    simp [ForInStep.value, RelevanceOption.spanTree]
  have hloop : Lays T here before (loop [] (relevanceStep call))
      (fun options => before ++ options.reverse.map fun o => .tree o.spanTree) := by
    have h : Lays T here _ _ _ := lays_loop hstep []
    simpa using h
  rw [relevanceOptionsRule_eq]
  exact hloop.bind fun options => lays_pure rfl

/-- The trees of a named argument. -/
def NamedArgument.spanTrees : NamedArgument → List SpanTree
  | .query value => [value.spanTree]
  | .fields fs => fs.map WeightedField.spanTree

theorem lays_namedArgument :
    Lays T here before (namedArgument call)
      (fun a => before ++ .token :: a.spanTrees.map .tree) := by
  refine lays_current_bind fun u => ?_
  have hname {text : String} (h : u.kind.isWord text = true) :
      Lays T (fun v => v = u ∧ here v) before (Parser.skip 1) (fun _ => before ++ [.token]) := by
    refine lays_pass hT ?_
    rintro _ ⟨rfl, -⟩
    refine isEnd_eq_false fun hend => ?_
    rw [hend] at h
    cases h
  dsimp only
  split
  · next hword =>
    refine (hname hword).bind fun _ => (lays_symbol hT .eq).token.bind fun _ =>
      hcall.searchValue.bind fun value => lays_pure_forget ?_ (by simp)
    simp [NamedArgument.spanTrees]
  split
  · next hword =>
    refine (hname hword).bind fun _ => (lays_symbol hT .eq).token.bind fun _ =>
      lays_atSymbol_bind ?_ ?_
    · refine (lays_fieldList hT).bind fun fs => lays_pure_forget ?_ (by simp)
      simp [NamedArgument.spanTrees]
    · refine (lays_weightedField hT).bind fun f => lays_pure_forget ?_ (by simp)
      simp [NamedArgument.spanTrees]
  · exact lays_rejectCurrent _

theorem lays_namedArgumentsRule :
    Lays T here before (namedArgumentsRule call)
      (fun found => before ++ Nonterminal.namedArguments.pieces found) := by
  have hfront : Lays T here [] (namedArgumentsRule call) Nonterminal.namedArguments.pieces := by
    refine (lays_namedArgument hT hcall).bind fun first => (lays_symbol hT .comma).token.bind
      fun _ => (lays_namedArgument hT hcall).bind fun second => ?_
    split
    · next value fs =>
      refine lays_either value.spanTree (fs.map WeightedField.spanTree) rfl (.inl ?_) (by simp)
      simp [NamedArgument.spanTrees]
    · next fs value =>
      refine lays_either value.spanTree (fs.map WeightedField.spanTree) rfl (.inr ?_) (by simp)
      simp [NamedArgument.spanTrees]
    · exact lays_rejectCurrent _
    · exact lays_rejectCurrent _
  exact hfront.behind hT

theorem lays_searchTarget (kind : RelevanceKind) :
    Lays T here before (searchTarget call kind)
      (fun target => before ++ (target.1.spanTrees target.2.spanTree).map .tree) := by
  cases kind with
  | noField =>
    refine hcall.searchValue.bind fun value => lays_pure ?_
    simp [RelevanceForm.spanTrees]
  | singleField =>
    refine (lays_field hT).bind fun f => (lays_symbol hT .comma).token.bind fun _ =>
      hcall.searchValue.bind fun value => lays_pure_forget ?_ (by simp)
    simp [RelevanceForm.spanTrees]
  | multiField =>
    refine lays_current_bind fun u => lays_peek_bind 1 fun v => ?_
    split
    · refine (hcall.run .namedArguments rfl).bind fun found => lays_pure ?_
      simp [RelevanceForm.spanTrees, Nonterminal.pieces]
    · refine (lays_fieldList hT).bind fun fs => (lays_symbol hT .comma).token.bind fun _ =>
        hcall.searchValue.bind fun value => lays_pure_forget ?_ (by simp)
      simp [RelevanceForm.spanTrees]

theorem lays_relevanceRule (kind : RelevanceKind) :
    Lays T here before (relevanceRule call kind)
      (fun relevance => before ++ .token :: relevance.spanTrees.map .tree) := by
  refine (lays_callName hT).bind fun name => (lays_searchTarget hT hcall kind).bind fun target =>
    (hcall.run .relevanceOptions rfl).bind fun options =>
      (lays_symbol hT .rightParen).token.bind fun _ => lays_pure_forget ?_ (by simp)
  simp [Relevance.spanTrees, Nonterminal.pieces, spanTreesOptions_eq]

theorem lays_fieldEqualsRule :
    Lays T here before (fieldEqualsRule call)
      (fun relevance => before ++ .token :: relevance.spanTrees.map .tree) := by
  refine (lays_field hT).bind fun f => (lays_symbol hT .eq).token.bind fun _ =>
    lays_current_bind fun u => ?_
  split
  · refine (lays_callName hT).bind fun name => hcall.searchValue.bind fun value =>
      (hcall.run .relevanceOptions rfl).bind fun options =>
        (lays_symbol hT .rightParen).token.bind fun _ => lays_pure_forget ?_ (by simp)
    split
    · simp [Relevance.spanTrees, RelevanceForm.spanTrees, Nonterminal.pieces, spanTreesOptions_eq]
    · simp [Relevance.spanTrees, RelevanceForm.spanTrees, Nonterminal.pieces, spanTreesOptions_eq]
  · exact lays_rejectCurrent _

omit hT in
theorem lays_scoredRelevance :
    Lays T here before (scoredRelevance call)
      (fun relevance => before ++ .token :: relevance.spanTrees.map .tree) := by
  refine lays_get_bind fun s => ?_
  split
  · exact hcall.run .fieldEquals rfl
  · refine lays_current_bind fun u => ?_
    split
    · next kind _ => exact hcall.run (.relevance kind) rfl
    · exact lays_reject _

theorem lays_scoreRule :
    Lays T here before (scoreRule call)
      (fun shape => before ++ .token :: shape.spanTrees.map .tree) := by
  have hend (name : String) (relevance : Relevance) (weight : Option Number.Binary64)
      {pieces : List Piece} (hsub : (treesOf before ++ relevance.spanTrees).Sublist (treesOf pieces)) :
      Lays T AnyToken pieces (do
        let _ ← symbol .rightParen
        return .score name relevance weight : Parser CallShape)
        (fun shape => before ++ .token :: shape.spanTrees.map .tree) :=
    (lays_symbol hT .rightParen).token.bind fun _ =>
      lays_pure_forget (by simpa [CallShape.spanTrees] using hsub) (by simp)
  have hnone {here : Token → Prop} {pieces : List Piece} :
      Lays T here pieces (pure none : Parser (Option Number.Binary64)) (fun _ => pieces) :=
    lays_pure rfl
  refine (lays_callName hT).bind fun name => (lays_scoredRelevance hcall).bind fun relevance =>
    lays_takeSymbol_bind hT ?_ ?_
  · refine (lays_of_meets hT fun _ _ => ((moving_lawful hT).weight).map some).bind fun weight =>
      hend name relevance weight (by simp)
  · exact hnone.bind fun weight => hend name relevance weight (by simp)

/-! ## Queries -/

theorem lays_selectItemRule (starAllowed : Bool) :
    Lays T here before (selectItemRule call starAllowed)
      (fun item => before ++ [.tree item.spanTree]) := by
  have hexpr {here : Token → Prop} : Lays T here before (do
      let expr ← call .wholeExpr
      return .expr expr (← optionalAlias) : Parser SelectItem)
      (fun item => before ++ [.tree item.spanTree]) := by
    refine hcall.expr.bind fun expr => (lays_optionalAlias hT).bind fun name =>
      lays_group before (expr.spanTree :: (name.map Ident.spanTree).toList) rfl (by simp) (by simp)
  refine lays_atSymbol_bind ?_ ?_
  · split
    · exact (lays_take_symbol hT).bind fun span => lays_pure rfl
    · exact hexpr
  · split
    · next h => simp at h
    · exact hexpr

theorem lays_relationRule :
    Lays T here before (relationRule call) (fun relation => before ++ [.tree relation.spanTree]) := by
  refine (lays_keyword hT .FROM).token.bind fun _ => lays_atSymbol_bind ?_ ?_
  · refine (lays_take_symbol hT).bind fun start =>
      ((hcall.run .query rfl).subquery.nest 2).bind fun query =>
        (lays_symbol hT .rightParen).token.bind fun _ => ?_
    have hend {pieces : List Piece}
        (hsub : (treesOf before ++ [.leaf start, query.spanTree]).Sublist (treesOf pieces)) :
        Lays T AnyToken pieces (do
          let name ← ident
          return .subquery query name (← spanFrom start) : Parser Relation)
          (fun relation => before ++ [.tree relation.spanTree]) := by
      refine (lays_ident hT).bind fun name =>
        lays_node hT before [query.spanTree, name.spanTree] ?_ fun span => rfl
      simpa using hsub.append (.refl [name.spanTree])
    exact lays_takeKeyword_bind hT (hend (by simp [Nonterminal.pieces]))
      (hend (by simp [Nonterminal.pieces]))
  · refine (lays_qualifiedName hT).bind fun name => (lays_optionalAlias hT).bind fun aliasName =>
      lays_group before (name.spanTree :: (aliasName.map Ident.spanTree).toList) rfl (by simp)
        (by simp)

theorem lays_conditionRule (word : Keyword) :
    Lays T here before (conditionRule call word) (fun c => before ++ [.tree c.spanTree]) :=
  (lays_keyword hT word).bind fun start => hcall.expr.bind fun expr =>
    lays_node hT before [expr.spanTree] (by simp) fun _ => rfl

theorem lays_groupByRule :
    Lays T here before (groupByRule call) (fun g => before ++ [.tree g.spanTree]) :=
  (lays_keyword hT .GROUP).bind fun start => (lays_keyword hT .BY).token.bind fun _ =>
    (hcall.commaExprs hT _).bind fun exprs =>
      lays_node hT before (exprs.map Expr.spanTree) (by simp) fun _ => rfl

omit hcall in
/-- What is recovered from lays a tree, if it does not fail. -/
theorem Lays.recoverSome {p : Parser α} {tree : α → SpanTree}
    (h : Lays T here before p (fun a => before ++ [.tree (tree a)]))
    (hp : ∀ lo hi, (moving T lo hi).Meets p) :
    Lays T here before (Parser.recover p)
      (fun found => before ++ (found.map fun a => Piece.tree (tree a)).toList) := by
  intro lo hi s found t hs hhere heq
  have hlaid := h.recover hT hp lo hi s found t hs hhere heq
  cases found with
  | none => simpa using hlaid
  | some a => exact hlaid

omit hcall in
theorem Lays.clause {p : Parser α} {tree : α → SpanTree}
    (h : Lays T AnyToken before p (fun a => before ++ [.tree (tree a)]))
    (hp : ∀ lo hi, (moving T lo hi).Meets p) (allowed : Bool) (word : Keyword) :
    Lays T here before (Parser.clause allowed word p)
      (fun found => before ++ (found.map fun a => Piece.tree (tree a)).toList) := by
  have hfound : Lays T AnyToken before (do
      let found ← Parser.recover p
      clauseEnd
      return found : Parser (Option α))
      (fun found => before ++ (found.map fun a => Piece.tree (tree a)).toList) :=
    (h.recoverSome hT hp).bind fun found => (lays_clauseEnd hT).bind fun _ => lays_pure rfl
  refine lays_atKeyword_bind ?_ ?_
  · split
    · exact hfound.weaken
    · exact lays_none tree
  · split
    · next h => simp at h
    · exact lays_none tree

omit hcall in
theorem lays_limitClause :
    Lays T here before limitClause
      (fun found => before ++ (found.map fun l => Piece.tree l.spanTree).toList) :=
  lays_atKeyword_bind ((lays_limit hT).recoverSome hT fun _ _ => (moving_lawful hT).limit)
    (lays_none Limit.spanTree)

variable (hmeets : ∀ {α : Type} (n : Nonterminal α) (lo hi : Nat), (moving T lo hi).Meets (call n))

include hmeets

theorem lays_fromRelation (start : Span) (quantifier : Option Quantifier)
    (items : List SelectItem) {pieces : List Piece}
    (hpieces : treesOf pieces = treesOf before ++ .leaf start :: items.map SelectItem.spanTree) :
    Lays T here pieces (fromRelation call start (Query.mk quantifier items))
      (fun q => before ++ [.tree q.spanTree]) := by
  have hclauses (hasRelation : Bool) {here : Token → Prop} : Lays T here pieces (do
      let relation ← clause hasRelation .FROM (call .relation)
      fromWhere call hasRelation start (Query.mk quantifier items relation))
      (fun q => before ++ [.tree q.spanTree]) := by
    refine ((hcall.run .relation rfl).clause hT (hmeets _) hasRelation .FROM).bind fun relation =>
      ((hcall.run (.condition .WHERE) rfl).clause hT (hmeets _) hasRelation .WHERE).bind
        fun condition => ((hcall.run .groupBy rfl).clause hT (hmeets _) hasRelation .GROUP).bind
          fun groupBy => ((hcall.run (.condition .HAVING) rfl).clause hT (hmeets _) hasRelation
            .HAVING).bind fun having => ((hcall.run .orderBy rfl).clause hT (hmeets _) hasRelation
              .ORDER).bind fun orderBy => (lays_limitClause hT).bind fun limit =>
                lays_node hT before _ ?_ fun span => rfl
    simp [hpieces, spanTreesFrom_eq]
  exact (lays_clauseEnd hT).bind fun _ => lays_atKeyword_bind (hclauses true) (hclauses false)

theorem lays_queryRule :
    Lays T here before (queryRule call) (fun q => before ++ [.tree q.spanTree]) := by
  rw [queryRule_eq]
  refine (lays_keyword hT .SELECT).bind fun start =>
    (lays_of_meets hT fun _ _ => (moving_lawful hT).quantifier).bind fun quantifier =>
      ((hcall.run .selectItems rfl).recover hT (hmeets _)).bind fun items => ?_
  cases items with
  | none => exact lays_fromRelation hT hcall hmeets start quantifier [] (by simp)
  | some items =>
    exact lays_fromRelation hT hcall hmeets start quantifier items (by simp [Nonterminal.pieces])

theorem allLay_rule : AllLay T (rule call) := by
  intro α n before
  have hitem (starAllowed : Bool) :
      Lays T AnyToken [] (call (.selectItem starAllowed)) (fun item => [.tree item.spanTree]) :=
    hcall.run (.selectItem starAllowed) rfl
  have hrun {α : Type} {n : Nonterminal α} (hbehind : n.laidBehind = [])
      (h : Lays T AnyToken before (rule call n) (fun a => before ++ n.pieces a)) :
      Lays T AnyToken (before ++ n.laidBehind) (rule call n) (fun a => before ++ n.pieces a) := by
    rwa [hbehind, List.append_nil]
  cases n with
  | expr least => exact hrun rfl (lays_exprRule hT hcall least)
  | predicate least => exact hrun rfl (lays_predicateRule hT hcall least)
  | arithmetic least => exact hrun rfl (lays_arithmeticRule hT hcall least)
  | operand => exact hrun rfl (lays_operandRule hT hcall)
  | parenthesized => exact hrun rfl (lays_parenthesizedRule hT hcall)
  | constant => exact hrun rfl (lays_constantRule hT hcall)
  | interval => exact hrun rfl (lays_intervalRule hT hcall)
  | call => exact hrun rfl (lays_callRule hT hcall)
  | shape family => exact hrun rfl (lays_shapeRule hT hcall family)
  | arguments => exact hrun rfl (lays_argumentsRule hT hcall)
  | scalar category => exact hrun rfl (lays_scalarRule hT hcall category)
  | case => exact hrun rfl (lays_caseRule hT hcall)
  | cast => exact hrun rfl (lays_castRule hT hcall)
  | ranking function => exact hrun rfl (lays_rankingRule hT hcall function)
  | aggregate function => exact hrun rfl (lays_aggregateRule hT hcall function)
  | percentile function => exact hrun rfl (lays_percentileRule hT hcall function)
  | aggregateTail aggregate => exact lays_aggregateTailRule hcall aggregate
  | window => exact hrun rfl (lays_windowRule hT hcall)
  | filter => exact hrun rfl (lays_filterRule hT hcall)
  | orderBy => exact hrun rfl (lays_orderByRule hT hcall)
  | orderItem => exact hrun rfl (lays_orderItemRule hT hcall)
  | score => exact hrun rfl (lays_scoreRule hT hcall)
  | relevance kind => exact hrun rfl (lays_relevanceRule hT hcall kind)
  | fieldEquals => exact hrun rfl (lays_fieldEqualsRule hT hcall)
  | namedArguments => exact hrun rfl (lays_namedArgumentsRule hT hcall)
  | searchValue => exact hrun rfl (lays_searchValueRule hT hcall)
  | relevanceOptions => exact hrun rfl (lays_relevanceOptionsRule hT hcall)
  | position => exact hrun rfl (lays_positionRule hT hcall)
  | extract => exact hrun rfl (lays_extractRule hT hcall)
  | getFormat => exact hrun rfl (lays_getFormatRule hT hcall)
  | timestamp function => exact hrun rfl (lays_timestampRule hT hcall function)
  | selectItems => exact hrun rfl ((hitem true).commaList hT (hitem false) _)
  | selectItem starAllowed => exact hrun rfl (lays_selectItemRule hT hcall starAllowed)
  | relation => exact hrun rfl (lays_relationRule hT hcall)
  | condition word => exact hrun rfl (lays_conditionRule hT hcall word)
  | groupBy => exact hrun rfl (lays_groupByRule hT hcall)
  | query => exact hrun rfl (lays_queryRule hT hcall hmeets)

omit hcall hmeets in
/-- Every rule lays what it builds, whatever fuel is left. -/
theorem allLay_derive (fuel : Nat) : AllLay T (derive fuel) := by
  induction fuel with
  | zero => exact fun n before lo hi s a t _ _ heq => nomatch heq
  | succ fuel ih =>
    exact allLay_rule hT ih fun n lo hi => (moving_lawful hT).derive fuel n

end SearchSql.Grammar
