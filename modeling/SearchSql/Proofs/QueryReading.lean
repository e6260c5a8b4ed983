import SearchSql.Proofs.RuleReading

/-!
# What queries read

The rules of aggregates, expressions, full-text search and queries read what they build, and so does
every rule, whatever fuel is left (`allRead_derive`).
-/

set_option autoImplicit false

namespace SearchSql

/-- The outline of an aggregate without its closing parenthesis. -/
def Aggregate.opened : Aggregate → List Item
  | .regular function arg => .word function.text :: .symbol .leftParen :: arg.outline
  | .countStar => [.word "COUNT", .symbol .leftParen, .symbol .star]
  | .countDistinct args =>
      .word "COUNT" :: .symbol .leftParen :: .keyword .DISTINCT ::
        separated .comma (outlineAll args)
  | .percentile function field percent compression =>
      .word function.text :: .symbol .leftParen :: field.outline ++ .symbol .comma ::
        percent.outline ++ outlineOptionalConstant compression

/-- An aggregate is closed by its parenthesis. -/
theorem Aggregate.opened_append (aggregate : Aggregate) :
    aggregate.opened ++ [.symbol .rightParen] = aggregate.outline := by
  cases aggregate <;> simp [opened, outline]

namespace Grammar

open SearchSql.Grammar.Parser

variable {α β : Type} {T : List Token} {s t : State} {here : Token → Prop} {before : List Item}
variable {call : Callee} (hT : Scanned T) (hcall : AllRead T call)

include hcall

/-! ## Aggregates and windows -/

/-- An order, a filter and a window are read by their rules. -/
theorem AllRead.orderBy :
    Reads T here before (call .orderBy) (fun o => before ++ o.outline) :=
  hcall.anywhere .orderBy rfl rfl

theorem AllRead.filter :
    Reads T here before (call .filter) (fun f => before ++ f.outline) :=
  hcall.anywhere .filter rfl rfl

theorem AllRead.window :
    Reads T here before (call .window) (fun w => before ++ w.outline) :=
  hcall.anywhere .window rfl rfl

/-- Inside of its parentheses, an aggregate is read with `DISTINCT` or a star if it has them. -/
theorem reads_aggregateForm (function : AggregateFunction) :
    Reads T here (before ++ [.word function.text, .symbol .leftParen])
      (aggregateRule.form call function) (fun aggregate => before ++ aggregate.opened) := by
  have hregular : Reads T here (before ++ [.word function.text, .symbol .leftParen]) (do
      return .regular function (← call .wholeExpr) : Parser Aggregate)
      (fun aggregate => before ++ aggregate.opened) := by
    refine hcall.expr.bind fun arg => reads_pure ?_
    simp [Aggregate.opened]
  unfold aggregateRule.form
  dsimp only
  split
  · next hcount =>
    obtain rfl := eq_of_beq hcount
    refine reads_takeSymbol_bind (reads_pure ?_) (reads_takeKeyword_bind ?_ hregular)
    · simp [Aggregate.opened, AggregateFunction.text]
    · refine (hcall.commaExprs _).bind fun args => reads_pure ?_
      simp [Aggregate.opened, AggregateFunction.text]
  · exact hregular

/-- An aggregate starts with a token that spells its name. -/
theorem reads_aggregateRule (function : AggregateFunction) :
    Reads T (fun u => Spells u function.text) before (aggregateRule call function)
      (fun aggregate => before ++ aggregate.outline) := by
  refine reads_callName_as.bind fun _ => (reads_aggregateForm hcall function).bind fun aggregate =>
    (reads_symbol .rightParen).bind fun _ => reads_pure ?_
  rw [List.append_assoc, aggregate.opened_append]

theorem reads_orderByRule :
    Reads T here before (orderByRule call) (fun o => before ++ o.outline) := by
  have hitem : Reads T Anywhere [] (call .orderItem) OrderItem.outline := hcall .orderItem
  refine (reads_keyword .ORDER).bind fun start => (reads_keyword .BY).bind fun _ =>
    (hitem.commaSeparated _).bind fun items => reads_spanFrom_bind fun span => reads_pure ?_
  simp [OrderBy.outline, outlineItems_eq_map]

theorem reads_orderItemRule :
    Reads T here before (orderItemRule call) (fun item => before ++ item.outline) := by
  refine hcall.expr.bind fun expr => reads_direction.bind fun direction =>
    reads_nullOrder.bind fun nulls => reads_pure ?_
  simp [OrderItem.outline]

theorem reads_partitionBy :
    Reads T here before (partitionBy call)
      (fun partition => before ++ outlineOptionalPartition partition) := by
  refine reads_atKeyword_bind ?_ (reads_pure (by simp [outlineOptionalPartition]))
  refine reads_take_keyword.bind fun start => (reads_keyword .BY).bind fun _ =>
    (hcall.commaExprs _).bind fun exprs => reads_spanFrom_bind fun span => reads_pure ?_
  simp [outlineOptionalPartition, PartitionBy.outline]

theorem reads_windowRule :
    Reads T here before (windowRule call) (fun window => before ++ window.outline) := by
  have hclose (start : Span) (partition : Option PartitionBy) (orderBy : Option OrderBy) :
      Reads T Anywhere (before ++ .keyword .OVER :: .symbol .leftParen ::
        outlineOptionalPartition partition ++ outlineOptionalOrder orderBy) (do
        let _ ← symbol .rightParen
        return ⟨partition, orderBy, ← spanFrom start⟩ : Parser Window)
        (fun window => before ++ window.outline) := by
    refine (reads_symbol .rightParen).bind fun _ => reads_spanFrom_bind fun span => reads_pure ?_
    simp [Window.outline]
  have hpartition : Reads T Anywhere (before ++ [.keyword .OVER, .symbol .leftParen])
      (partitionBy call) (fun partition => before ++ .keyword .OVER :: .symbol .leftParen ::
        outlineOptionalPartition partition) := by
    have h : Reads T Anywhere (before ++ [.keyword .OVER, .symbol .leftParen]) (partitionBy call) _ :=
      reads_partitionBy hcall
    simpa using h
  refine (reads_keyword .OVER).bind fun start => (reads_symbol .leftParen).bind fun _ => ?_
  rw [List.append_assoc]
  refine hpartition.bind fun partition => reads_atKeyword_bind ?_ ?_
  · refine (Reads.map hcall.orderBy ?_).bind (hclose start partition)
    intro o
    simp [outlineOptionalOrder]
  · refine Reads.bind (reads_pure ?_) (hclose start partition)
    simp [outlineOptionalOrder]

theorem reads_filterRule :
    Reads T here before (filterRule call) (fun filter => before ++ filter.outline) := by
  refine (reads_keyword .FILTER).bind fun start => (reads_symbol .leftParen).bind fun _ =>
    (reads_keyword .WHERE).bind fun _ => hcall.expr.bind fun condition =>
      (reads_symbol .rightParen).bind fun _ => reads_spanFrom_bind fun span => reads_pure ?_
  simp [Filter.outline]

theorem reads_rankingRule (function : RankingFunction) :
    Reads T (fun u => Spells u function.text) before (rankingRule call function)
      (fun shape => before ++ shape.outline) := by
  refine reads_callName_as.bind fun _ => (hcall.anywhere .arguments rfl rfl).bind fun args =>
    hcall.window.bind fun window => reads_pure ?_
  simp [CallShape.outline, Nonterminal.outline]

theorem reads_aggregateTailRule (hsteady : ∀ {α : Type} (n : Nonterminal α), Steady (call n))
    (aggregate : Aggregate) :
    Reads T here (before ++ aggregate.outline) (aggregateTailRule call aggregate)
      (fun shape => before ++ shape.outline) := by
  have hordered : Reads T Anywhere (before ++ aggregate.outline) (orderedFilter call)
      (fun both => before ++ aggregate.outline ++ both.1.outline ++ both.2.outline) :=
    hcall.orderBy.bind fun orderBy => hcall.filter.bind fun filter => reads_pure rfl
  have hsteadyOrdered : Steady (orderedFilter call) :=
    (hsteady .orderBy).bind fun _ => (hsteady .filter).bind fun _ => steady_pure _
  refine reads_atKeyword_bind ?_ (reads_atKeyword_bind ?_ (reads_atKeyword_bind ?_ ?_))
  · refine hcall.window.bind fun window => reads_pure ?_
    simp [CallShape.outline]
  · refine hcall.filter.bind fun filter => reads_pure ?_
    simp [CallShape.outline, outlineOptionalOrder]
  · refine (hordered.weaken.attempt hsteadyOrdered _).bind fun found => ?_
    cases found with
    | some both =>
      refine reads_pure ?_
      simp [CallShape.outline, outlineOptionalOrder]
    | none => exact reads_pure rfl
  · exact reads_pure rfl

include hT

theorem reads_percentileRule (function : PercentileFunction) :
    Reads T (fun u => Spells u function.text) before (percentileRule call function)
      (fun aggregate => before ++ aggregate.outline) := by
  have hclose (field : Expr) (percent : Constant) (compression : Option Constant) :
      Reads T Anywhere (before ++ .word function.text :: .symbol .leftParen :: field.outline ++
        .symbol .comma :: percent.outline ++ outlineOptionalConstant compression) (do
        let _ ← symbol .rightParen
        return .percentile function field percent compression : Parser Aggregate)
        (fun aggregate => before ++ aggregate.outline) := by
    refine (reads_symbol .rightParen).bind fun _ => reads_pure ?_
    simp [Aggregate.outline]
  refine reads_callName_as.bind fun _ => hcall.expr.bind fun field =>
    (reads_symbol .comma).bind fun _ => (reads_number hT).bind fun percent =>
      reads_takeSymbol_bind ?_ ?_
  · refine (Reads.map (reads_number hT) ?_).bind (hclose field percent)
    intro c
    simp [outlineOptionalConstant]
  · refine Reads.bind (reads_pure ?_) (hclose field percent)
    simp [outlineOptionalConstant]

/-! ## Expressions -/

omit hT in
theorem AllRead.exprFrom (least : Nat) :
    Reads T here before (call (.expr least)) (fun e => before ++ e.outline) :=
  hcall.anywhere (.expr least) rfl rfl

omit hT in
theorem AllRead.predicate (least : Nat) :
    Reads T here before (call (.predicate least)) (fun p => before ++ p.outline) :=
  hcall.anywhere (.predicate least) rfl rfl

omit hT in
theorem AllRead.arithmetic (least : Nat) :
    Reads T here before (call (.arithmetic least)) (fun a => before ++ a.outline) :=
  hcall.anywhere (.arithmetic least) rfl rfl

omit hT in
theorem reads_logicalOperand :
    Reads T here before (logicalOperand call) (fun e => before ++ e.outline) := by
  refine reads_atKeyword_bind ?_ ?_
  · refine reads_take_keyword.bind fun start => (hcall.exprFrom notPrecedence).bind fun operand =>
      reads_spanFrom_bind fun span => reads_pure ?_
    simp [Expr.outline]
  · refine (hcall.predicate 0).bind fun p => reads_pure ?_
    simp [Expr.outline]

omit hT in
theorem reads_logicalStep (least : Nat) (left : Expr) :
    Reads T here (before ++ left.outline) (logicalStep call least left)
      (fun r => before ++ r.value.outline) := by
  refine reads_current_bind fun u => ?_
  split
  · exact reads_pure rfl
  · next op hop =>
    dsimp only
    split
    · exact reads_pure rfl
    · have hword : ∃ word, u.kind = .keyword word ∧ ∀ right : Expr,
          (op.join left right).outline = left.outline ++ .keyword word :: right.outline := by
        unfold Connective.ofKind? at hop
        split at hop
        · next hkind =>
          cases hop
          exact ⟨_, hkind, fun right => by simp [Connective.join, Expr.outline]⟩
        · next hkind =>
          cases hop
          exact ⟨_, hkind, fun right => by simp [Connective.join, Expr.outline]⟩
        · cases hop
      obtain ⟨word, hkind, houtline⟩ := hword
      refine (reads_skip_at (m := .keyword word) (isEnd_of_keyword hkind) trivial hkind).bind
        fun _ => (hcall.exprFrom _).bind fun right => reads_pure ?_
      simp [ForInStep.value, houtline]

omit hT in
theorem reads_exprRule (least : Nat) :
    Reads T here before (exprRule call least) (fun e => before ++ e.outline) := by
  rw [exprRule_eq]
  refine Reads.nest ((reads_logicalOperand hcall).bind fun left => ?_) 1
  exact reads_loop (fun e => reads_logicalStep hcall least e) left

omit hT in
/-- A test reads its operands. -/
theorem reads_testRule (left : Predicate) (test : Test) :
    Reads T here (before ++ left.outline ++ test.outline) (testRule call left test)
      (fun p => before ++ p.outline) := by
  cases test with
  | comparison op =>
    refine (hcall.predicate _).bind fun right => reads_pure ?_
    simp [Predicate.outline, Test.outline]
  | isNull negated =>
    refine (reads_keyword .NULL).bind fun stop => reads_pure ?_
    simp [Predicate.outline, Test.outline]
  | between negated =>
    refine (hcall.predicate _).bind fun low => (reads_keyword .AND).bind fun _ =>
      (hcall.predicate _).bind fun high => reads_pure ?_
    simp [Predicate.outline, Test.outline]
  | like negated =>
    refine (hcall.predicate _).bind fun pattern => reads_pure ?_
    simp [Predicate.outline, Test.outline]
  | regexp negated =>
    refine (hcall.predicate _).bind fun pattern => reads_pure ?_
    simp [Predicate.outline, Test.outline]
  | within negated =>
    refine (reads_symbol .leftParen).bind fun _ => (hcall.commaExprs _).bind fun items =>
      (reads_symbol .rightParen).bind fun _ => reads_spanFrom_bind fun span => reads_pure ?_
    simp [Predicate.outline, Test.outline]

omit hT in
theorem reads_predicateStep (least : Nat) (left : Predicate) :
    Reads T here (before ++ left.outline) (predicateStep call least left)
      (fun r => before ++ r.value.outline) := by
  intro front s r t hs hhere heq
  unfold predicateStep at heq
  rw [get_bind_apply] at heq
  cases htest : Test.at? s.cursor with
  | none =>
    rw [htest] at heq
    obtain ⟨rfl, rfl⟩ := pure_eq_ok_iff.1 heq
    exact hs
  | some found =>
    obtain ⟨test, width⟩ := found
    rw [htest] at heq
    dsimp only at heq
    split at heq
    · obtain ⟨rfl, rfl⟩ := pure_eq_ok_iff.1 heq
      exact hs
    · rw [skip_bind_apply] at heq
      obtain ⟨p, u, hp, hrest⟩ := bind_eq_ok_iff.1 heq
      obtain ⟨rfl, rfl⟩ := pure_eq_ok_iff.1 hrest
      have hat := hs.test htest
      rw [List.append_assoc] at hat
      have hread : Reads T Anywhere (before ++ left.outline ++ test.outline) _ _ :=
        reads_testRule hcall left test
      exact hread front _ p u hat trivial hp

omit hT in
theorem reads_predicateRule (least : Nat) :
    Reads T here before (predicateRule call least) (fun p => before ++ p.outline) := by
  refine (hcall.arithmetic 0).bind fun left => ?_
  have h : Reads T Anywhere (before ++ (Predicate.atom left).outline) _ _ :=
    reads_loop (fun p => reads_predicateStep hcall least p) (.atom left)
  exact h

theorem reads_arithmeticStep (least : Nat) (left : Atom) :
    Reads T here (before ++ left.outline) (arithmeticStep call least left)
      (fun r => before ++ r.value.outline) := by
  refine reads_sound_bind hT fun u hsound _ => ?_
  split
  · exact reads_pure rfl
  · next op hop =>
    dsimp only
    split
    · exact reads_pure rfl
    · obtain ⟨m, houtline, hlegible, hdenotes, hend⟩ :=
        ArithmeticOp.denotes_of_ofKind? hsound hop
      refine (reads_skip_at hend hlegible hdenotes).bind fun _ =>
        (hcall.arithmetic _).bind fun right => reads_pure ?_
      simp [ForInStep.value, Atom.outline, houtline]

theorem reads_arithmeticRule (least : Nat) :
    Reads T here before (arithmeticRule call least) (fun a => before ++ a.outline) :=
  (hcall.anywhere .operand rfl rfl).bind fun left =>
    reads_loop (fun a => reads_arithmeticStep hT hcall least a) left

theorem reads_operandRule :
    Reads T here before (operandRule call) (fun a => before ++ a.outline) := by
  have hfieldEquals : Reads T here before (fieldEqualsCall call) (fun f => before ++ f.outline) :=
    reads_current_bind fun u => (hcall.anywhere .fieldEquals rfl rfl).bind fun relevance =>
      reads_spanFrom_bind fun span => reads_pure rfl
  intro front s a t hs hhere heq
  rw [operandRule_eq, get_bind_apply] at heq
  unfold operandAt at heq
  dsimp only at heq
  split at heq
  · obtain ⟨f, u, hf, hrest⟩ := bind_eq_ok_iff.1 heq
    obtain ⟨rfl, rfl⟩ := pure_eq_ok_iff.1 hrest
    exact hfieldEquals front s f u hs hhere hf
  · cases hform : s.cursor.operandForm? with
    | none =>
      rw [hform] at heq
      exact absurd heq reject_ne_ok
    | some form =>
      rw [hform] at heq
      cases form with
      | parenthesized => exact hcall.anywhere .parenthesized rfl rfl front s a t hs hhere heq
      | constant =>
        obtain ⟨c, u, hc, hrest⟩ := bind_eq_ok_iff.1 heq
        obtain ⟨rfl, rfl⟩ := pure_eq_ok_iff.1 hrest
        exact hcall.anywhere .constant rfl rfl front s c u hs hhere hc
      | call =>
        obtain ⟨f, u, hf, hrest⟩ := bind_eq_ok_iff.1 heq
        obtain ⟨rfl, rfl⟩ := pure_eq_ok_iff.1 hrest
        exact hcall.anywhere .call rfl rfl front s f u hs hhere hf
      | column =>
        obtain ⟨name, u, hname, hrest⟩ := bind_eq_ok_iff.1 heq
        obtain ⟨rfl, rfl⟩ := pure_eq_ok_iff.1 hrest
        exact reads_qualifiedName hT front s name u hs hhere hname

omit hT in
theorem reads_parenthesizedRule :
    Reads T here before (parenthesizedRule call) (fun a => before ++ a.outline) := by
  refine (reads_symbol .leftParen).bind fun start => hcall.expr.bind fun inner =>
    (reads_symbol .rightParen).bind fun _ => reads_spanFrom_bind fun span => reads_pure ?_
  simp [Atom.outline]

/-! ## Full-text search -/

theorem reads_searchValueRule :
    Reads T here before (searchValueRule call) (fun value => before ++ value.outline) := by
  refine reads_get_bind fun s => ?_
  split
  · exact (hcall.anywhere .constant rfl rfl).bind fun c => reads_pure rfl
  · exact (reads_qualifiedName hT).bind fun name => reads_pure rfl

omit hcall in
theorem reads_relevanceOptionName :
    Reads T here before relevanceOptionName
      (fun name => before ++ [if name.2 then .string name.1 else .word name.1]) := by
  refine reads_current_bind fun u => ?_
  split
  · next name hkind =>
    exact (reads_skip_at (m := .string name) (isEnd_eq_false (by rw [hkind]; nofun)) trivial
      hkind).bind fun _ => reads_pure rfl
  · exact (reads_optionName hT _ _).bind fun name => reads_pure rfl

theorem reads_relevanceOptionsRule :
    Reads T here before (relevanceOptionsRule call)
      (fun options => before ++ outlineOptions options) := by
  have hstep (options : List RelevanceOption) : Reads T Anywhere
      (before ++ options.reverse.flatMap RelevanceOption.outline) (relevanceStep call options)
      (fun r => before ++ r.value.reverse.flatMap RelevanceOption.outline) := by
    refine reads_takeSymbol_bind ?_ (reads_pure rfl)
    refine (reads_relevanceOptionName hT).bind fun name => (reads_symbol .eq).bind fun _ =>
      hcall.searchValue.bind fun value => reads_pure ?_
    simp [ForInStep.value, RelevanceOption.outline]
  have hloop : Reads T here before (loop [] (relevanceStep call))
      (fun options => before ++ options.reverse.flatMap RelevanceOption.outline) := by
    have h : Reads T here _ _ _ := reads_loop hstep []
    simpa using h
  rw [relevanceOptionsRule_eq]
  exact hloop.bind fun options => reads_pure (by rw [outlineOptions_eq_flatMap])

/-- What a named argument is made of. It is never plainly spelled, so its outline only says that it
can be read back. -/
def NamedArgument.outline : NamedArgument → List Item
  | .query value => .remark .named :: value.outline
  | .fields fs => .remark .named :: bracketed fs

omit hcall hT in
/-- Of what is not plainly spelled, only that it can be read back is said. -/
theorem At.reoutline {items js : List Item} (h : At T items s) (hlegible : Legible js)
    (hnot : PlainSpelling T js → DotsBare js → False) : At T js s where
  strict := h.strict
  allTokens := h.allTokens
  legible := hlegible
  denotes hplain hdots := (hnot hplain hdots).elim

theorem reads_namedArgument :
    Reads T here before (namedArgument call) (fun a => before ++ a.outline) := by
  have hquery {u : Token} (hspells : Spells u "query") :
      Reads T (fun v => v = u ∧ here v) before (do
        skip 1
        let _ ← symbol .eq
        return .query (← call .searchValue) : Parser NamedArgument)
        (fun a => before ++ a.outline) := by
    refine (reads_skip_word hspells).bind fun _ => (reads_symbol .eq).bind fun _ =>
      hcall.searchValue.bind fun value => ?_
    intro front s a t hs _ heq
    obtain ⟨rfl, rfl⟩ := pure_eq_ok_iff.1 heq
    have hlegible := hs.legible
    simp only [legible_append] at hlegible
    refine hs.reoutline ?_ fun hplain _ =>
      hplain.remarks .named (mem_remarks.2 (by simp [NamedArgument.outline]))
    simp only [NamedArgument.outline, legible_append, legible_cons]
    exact ⟨hlegible.1, hlegible.2.1.1.1, trivial, hlegible.2.2⟩
  have hfields {fs : List WeightedField} {middle : List Item} (hmiddle : Legible middle → Legible before ∧ ∀ f ∈ fs, Legible f.outline) :
      Reads T Anywhere middle (pure (.fields fs) : Parser NamedArgument)
        (fun a => before ++ a.outline) := by
    intro front s a t hs _ heq
    obtain ⟨rfl, rfl⟩ := pure_eq_ok_iff.1 heq
    obtain ⟨hfront, hlegible⟩ := legible_append.1 hs.legible
    obtain ⟨hbefore, hfs⟩ := hmiddle hlegible
    refine hs.reoutline ?_ fun hplain _ =>
      hplain.remarks .named (mem_remarks.2 (by simp [NamedArgument.outline]))
    simp only [NamedArgument.outline, legible_append, legible_cons]
    exact ⟨hfront, hbefore, trivial, legible_bracketed.2 hfs⟩
  refine reads_sound_bind hT fun u hsound _ => ?_
  have hspells {text : String} (h : u.kind.isWord text = true)
      (hform : Ident.isBareForm text.toList = true) : Spells u text := by
    cases hkind : u.kind with
    | name value =>
      rw [hkind] at h
      exact spells_of_name hsound hkind h hform
    | _ =>
      rw [hkind] at h
      cases h
  dsimp only
  split
  · next hword => exact hquery (hspells hword (by decide))
  split
  · next hword =>
    refine (reads_skip_word (hspells hword (by decide))).bind fun _ => (reads_symbol .eq).bind
      fun _ => reads_atSymbol_bind ?_ ?_
    · refine (reads_fieldList hT).bind fun fs => hfields fun h => ?_
      simp only [legible_append] at h
      exact ⟨h.1.1.1, legible_bracketed.1 h.2⟩
    · refine (reads_weightedField hT).bind fun f => hfields fun h => ?_
      simp only [legible_append] at h
      exact ⟨h.1.1.1, fun g hg => (List.mem_singleton.1 hg) ▸ h.2⟩
  · exact reads_rejectCurrent _

theorem reads_namedArgumentsRule :
    Reads T here before (namedArgumentsRule call)
      (fun found => before ++ Nonterminal.namedArguments.outline found) := by
  have hboth {text : SearchValue} {fs : List WeightedField} {middle : List Item}
      (hmiddle : Legible middle → Legible before ∧ Legible text.outline ∧ Legible (bracketed fs)) :
      Reads T Anywhere middle (pure (text, fs))
        (fun found => before ++ Nonterminal.namedArguments.outline found) := by
    intro front s a t hs _ heq
    obtain ⟨rfl, rfl⟩ := pure_eq_ok_iff.1 heq
    obtain ⟨hfront, hlegible⟩ := legible_append.1 hs.legible
    obtain ⟨hbefore, htext, hfs⟩ := hmiddle hlegible
    refine hs.reoutline ?_ fun hplain _ =>
      hplain.remarks .named (mem_remarks.2 (by simp [Nonterminal.outline]))
    have hword : (Item.word "query").Legible ∧ (Item.word "fields").Legible :=
      ⟨show Ident.isBareForm _ = true by decide, show Ident.isBareForm _ = true by decide⟩
    have hsign (sign : Symbol) : (Item.symbol sign).Legible := trivial
    simp only [Nonterminal.outline, List.cons_append, legible_append, legible_cons]
    exact ⟨hfront, hbefore, trivial, hword.1, hsign _, htext, hsign _, hword.2, hsign _,
      legible_namedFields (legible_bracketed.1 hfs)⟩
  refine (reads_namedArgument hT hcall).bind fun first => (reads_symbol .comma).bind fun _ =>
    (reads_namedArgument hT hcall).bind fun second => ?_
  split
  · refine hboth fun h => ?_
    simp only [NamedArgument.outline, legible_append, legible_cons] at h
    exact ⟨h.1.1.1, h.1.1.2.2, h.2.2⟩
  · refine hboth fun h => ?_
    simp only [NamedArgument.outline, legible_append, legible_cons] at h
    exact ⟨h.1.1.1, h.2.2, h.1.1.2.2⟩
  · exact reads_rejectCurrent _
  · exact reads_rejectCurrent _

theorem reads_searchTarget (kind : RelevanceKind) (name : String) :
    Reads T here (before ++ [.word name, .symbol .leftParen]) (searchTarget call kind)
      (fun target => before ++ target.1.outline name target.2.outline) := by
  cases kind with
  | noField =>
    refine hcall.searchValue.bind fun value => reads_pure ?_
    simp [RelevanceForm.outline]
  | singleField =>
    refine (reads_field hT).bind fun f => (reads_symbol .comma).bind fun _ =>
      hcall.searchValue.bind fun value => reads_pure ?_
    simp [RelevanceForm.outline]
  | multiField =>
    refine reads_current_bind fun u => ?_
    intro front s target t hs hhere heq
    rw [peek_bind_apply] at heq
    split at heq
    · obtain ⟨found, v, hfound, hrest⟩ := bind_eq_ok_iff.1 heq
      obtain ⟨rfl, rfl⟩ := pure_eq_ok_iff.1 hrest
      have hread : Reads T Anywhere (before ++ [.word name, .symbol .leftParen]) _ _ :=
        hcall.anywhere .namedArguments rfl rfl
      have hat := hread front s found v hs trivial hfound
      simpa [Nonterminal.outline, RelevanceForm.outline] using hat
    · have hread : Reads T Anywhere (before ++ [.word name, .symbol .leftParen]) (do
          let fields ← fieldList
          let _ ← symbol .comma
          return (.fields fields, ← call .searchValue) : Parser (RelevanceForm × SearchValue))
          (fun target => before ++ target.1.outline name target.2.outline) := by
        refine (reads_fieldList hT).bind fun fs => (reads_symbol .comma).bind fun _ =>
          hcall.searchValue.bind fun value => reads_pure ?_
        simp [RelevanceForm.outline]
      exact hread front s target t hs trivial heq

theorem reads_relevanceRule (kind : RelevanceKind) :
    Reads T IsBare before (relevanceRule call kind)
      (fun relevance => before ++ relevance.outline) := by
  refine (reads_callName hT).bind fun name => (reads_searchTarget hT hcall kind name).bind
    fun target => (hcall.anywhere .relevanceOptions rfl rfl).bind fun options =>
      (reads_symbol .rightParen).bind fun _ => reads_pure ?_
  simp [Relevance.outline, Nonterminal.outline]

theorem reads_fieldEqualsRule :
    Reads T here before (fieldEqualsRule call) (fun relevance => before ++ relevance.outline) := by
  refine (reads_field hT).bind fun f => (reads_symbol .eq).bind fun _ => reads_current_bind fun u => ?_
  split
  · next kind hkind =>
    have hbare (v : Token) (_ : v.Sound) (h : v = u ∧ Anywhere v) : IsBare v := by
      obtain ⟨word, hword, -⟩ := Option.bind_eq_some_iff.1 hkind
      rw [h.1]
      cases hname : u.kind with
      | name value => exact .inl (by rw [hname]; rfl)
      | _ =>
        rw [hname] at hword
        cases hword
    refine ((reads_callName hT).opening hT hbare).bind fun name => hcall.searchValue.bind
      fun value => (hcall.anywhere .relevanceOptions rfl rfl).bind fun options =>
        (reads_symbol .rightParen).bind fun _ => reads_pure ?_
    split
    · simp [Relevance.outline, RelevanceForm.outline, Nonterminal.outline]
    · simp [Relevance.outline, RelevanceForm.outline, Nonterminal.outline]
  · exact reads_rejectCurrent _

theorem reads_scoredRelevance :
    Reads T here before (scoredRelevance call)
      (fun relevance => before ++ relevance.outline) := by
  refine reads_get_bind fun s => ?_
  split
  · exact hcall.anywhere .fieldEquals rfl rfl
  · refine reads_current_bind fun u => ?_
    split
    · next kind hkind =>
      refine hcall.opening hT (.relevance kind) rfl fun v _ h => ?_
      obtain ⟨word, hword, -⟩ := Option.bind_eq_some_iff.1 hkind
      rw [h.1]
      cases hname : u.kind with
      | name value => exact .inl (by rw [hname]; rfl)
      | _ =>
        rw [hname] at hword
        cases hword
    · exact reads_reject _

theorem reads_scoreRule :
    Reads T IsBare before (scoreRule call) (fun shape => before ++ shape.outline) := by
  have hclose (name : String) (relevance : Relevance) (weight : Option Number.Binary64) :
      Reads T Anywhere (before ++ .word name :: .symbol .leftParen :: relevance.outline ++
        weight.elim [] fun w => [.symbol .comma, .mark (.weight w)]) (do
        let _ ← symbol .rightParen
        return .score name relevance weight : Parser CallShape)
        (fun shape => before ++ shape.outline) := by
    refine (reads_symbol .rightParen).bind fun _ => reads_pure ?_
    cases weight <;> simp [CallShape.outline]
  refine (reads_callName hT).bind fun name => (reads_scoredRelevance hT hcall).bind fun relevance =>
    reads_takeSymbol_bind ?_ ?_
  · refine (Reads.map (reads_weight hT) ?_).bind (hclose name relevance)
    intro w
    simp
  · refine Reads.bind (reads_pure ?_) (hclose name relevance)
    simp

/-! ## Queries -/

theorem reads_selectItemRule (starAllowed : Bool) :
    Reads T here before (selectItemRule call starAllowed) (fun item => before ++ item.outline) := by
  have hexpr : Reads T Anywhere before (do
      let expr ← call .wholeExpr
      return .expr expr (← optionalAlias) : Parser SelectItem)
      (fun item => before ++ item.outline) := by
    refine hcall.expr.bind fun expr => ?_
    intro front s item t hs _ heq
    obtain ⟨name, u, hname, hrest⟩ := bind_eq_ok_iff.1 heq
    obtain ⟨rfl, rfl⟩ := pure_eq_ok_iff.1 hrest
    have hat : Reads T Anywhere (before ++ expr.outline) _ _ :=
      reads_optionalAlias hT (expr.closes_outline.behind before)
    simpa [SelectItem.outline] using hat front s name u hs trivial hname
  refine reads_atSymbol_bind ?_ ?_
  · split
    · refine reads_take_symbol.bind fun span => reads_pure ?_
      simp [SelectItem.outline]
    · exact hexpr.weaken
  · split
    · next h => simp at h
    · exact hexpr.weaken

theorem reads_relationRule :
    Reads T here before (relationRule call)
      (fun relation => before ++ .keyword .FROM :: relation.outline) := by
  refine (reads_keyword .FROM).bind fun _ => reads_atSymbol_bind ?_ ?_
  -- A subquery takes an alias, with or without `AS`.
  · refine reads_take_symbol.bind fun start =>
      ((hcall.anywhere .query rfl rfl).subquery.nest 2).bind fun query =>
        (reads_symbol .rightParen).bind fun _ => ?_
    have halias : Reads T Anywhere (before ++ [.keyword .FROM] ++ [.symbol .leftParen] ++
        query.outline ++ [.symbol .rightParen]) (do
        let _ ← takeKeyword .AS
        ident) (fun name => before ++ .keyword .FROM :: .symbol .leftParen :: query.outline ++
          .symbol .rightParen :: aliasOutline name) := by
      refine reads_takeKeyword_bind ?_ ?_
      · intro front s name t hs _ heq
        rw [← List.append_assoc] at hs
        simpa using hs.aliasBehindWord hT heq
      · intro front s name t hs _ heq
        simpa using hs.aliasAlone hT (closes_rightParen _) heq
    intro front s relation t hs hhere heq
    obtain ⟨_, v, hword, hrest⟩ := bind_eq_ok_iff.1 heq
    obtain ⟨name, u, hname, hrest⟩ := bind_eq_ok_iff.1 hrest
    have hat := halias front s name u hs hhere (bind_eq_ok_iff.2 ⟨_, v, hword, hname⟩)
    rw [spanFrom_bind_apply] at hrest
    obtain ⟨rfl, rfl⟩ := pure_eq_ok_iff.1 hrest
    simpa [Relation.outline] using hat
  -- A name may have one.
  · refine (reads_qualifiedName hT).bind fun name => ?_
    intro front s relation t hs _ heq
    obtain ⟨aliasName, u, hname, hrest⟩ := bind_eq_ok_iff.1 heq
    obtain ⟨rfl, rfl⟩ := pure_eq_ok_iff.1 hrest
    have hat : Reads T Anywhere (before ++ [.keyword .FROM] ++ name.outline) _ _ :=
      reads_optionalAlias hT (name.closes_outline.behind _)
    simpa [Relation.outline] using hat front s aliasName u hs trivial hname

omit hT in
theorem reads_conditionRule (word : Keyword) :
    Reads T here before (conditionRule call word) (fun c => before ++ c.outline word) := by
  refine (reads_keyword word).bind fun start => hcall.expr.bind fun expr =>
    reads_spanFrom_bind fun span => reads_pure ?_
  simp [Condition.outline]

omit hT in
theorem reads_groupByRule :
    Reads T here before (groupByRule call) (fun g => before ++ g.outline) := by
  refine (reads_keyword .GROUP).bind fun start => (reads_keyword .BY).bind fun _ =>
    (hcall.commaExprs _).bind fun exprs => reads_spanFrom_bind fun span => reads_pure ?_
  simp [GroupBy.outline, outlineAll_eq_map]

omit hcall hT in
theorem count_eq_ok {n : Nat} (h : count s = .ok n t) :
    t = s.skip 1 ∧ s.cursor.current.isEnd = false := by
  unfold count at h
  rw [current_bind_apply] at h
  dsimp only at h
  split at h
  · obtain ⟨_, _, hreject, -⟩ := bind_eq_ok_iff.1 h
    exact absurd hreject rejectCurrent_ne_ok
  · next hkind =>
    have hinteger : s.cursor.current.kind = .integer := by simpa using hkind
    rw [skip_bind_apply] at h
    cases hread : Number.readUnsigned s.cursor.current.text with
    | ok n =>
      rw [hread] at h
      obtain ⟨rfl, rfl⟩ := pure_eq_ok_iff.1 h
      exact ⟨rfl, isEnd_eq_false (by rw [hinteger]; nofun)⟩
    | error fault =>
      rw [hread] at h
      exact absurd h reject_ne_ok

omit hcall in
/-- A token between two others that were passed lies in the span from the one to the other. -/
theorem contains_between {items : List Item} (hs : At T items s)
    {first middle last : Token} {rest : List Token}
    (hpassed : s.cursor.passed = last :: middle :: rest) (hfirst : first ∈ rest) :
    (first.span.merge last.span).contains middle.span = true := by
  have hordered := hT.ordered
  rw [← hs.allTokens] at hordered
  unfold Cursor.allTokens at hordered
  obtain ⟨behind, hbehind⟩ := s.cursor.exists_current_cons
  rw [List.append_assoc, List.pairwise_append, hpassed, hbehind] at hordered
  have hpassed := List.pairwise_reverse.1 hordered.1
  rw [List.pairwise_cons, List.pairwise_cons] at hpassed
  have hlast := hpassed.1 middle List.mem_cons_self
  have hmiddle := hpassed.2.1 first hfirst
  have hcurrent := hordered.2.2 last (by simp) s.cursor.current List.mem_cons_self
  simp only [Span.contains, Bool.and_eq_true, decide_eq_true_eq]
  exact ⟨Nat.le_trans (Nat.min_le_left _ _) (by omega),
    Nat.le_trans (by omega) (Nat.le_max_right _ _)⟩

omit hcall in
/-- A limit reads its outline, where the numbers are not plainly spelled with a comma between them. -/
theorem reads_limit : Reads T here before limit (fun l => before ++ l.outline) := by
  have hcount : Reads T Anywhere [] count _ := reads_count
  intro front s l t hs _ heq
  rw [← List.append_assoc]
  obtain ⟨start, u, hword, hrest⟩ := bind_eq_ok_iff.1 heq
  obtain ⟨hkind, rfl, rfl⟩ := keyword_eq_ok_iff.1 hword
  obtain ⟨first, v, hfirst, hrest⟩ := bind_eq_ok_iff.1 hrest
  have hlimit := hs.take (m := .keyword .LIMIT) (isEnd_of_keyword hkind) trivial fun _ _ => hkind
  have hat := hcount.run hlimit hfirst
  rw [takeSymbol_bind_apply] at hrest
  split at hrest
  · next hcomma =>
    obtain ⟨rows, w, hrows, hrest⟩ := bind_eq_ok_iff.1 hrest
    rw [spanFrom_bind_apply] at hrest
    obtain ⟨rfl, rfl⟩ := pure_eq_ok_iff.1 hrest
    have htake := hat.take (m := .symbol .comma) (isEnd_of_symbol hcomma) trivial fun _ _ => hcomma
    have hlast := hcount.run htake hrows
    have hlegible := hlast.legible
    simp only [List.nil_append, legible_append] at hlegible
    -- The remark on the limit compares the tokens between its two numbers, so the four of them are
    -- named.
    obtain ⟨rfl, hfirstEnd⟩ := count_eq_ok hfirst
    obtain ⟨rfl, hrowsEnd⟩ := count_eq_ok hrows
    refine hlast.reoutline ?_ ?_
    · simp only [legible_append, Limit.outline, legible_cons]
      have hfirst := hlegible.1.1.2 _ List.mem_cons_self
      have hrows := hlegible.2 _ List.mem_cons_self
      refine ⟨hlegible.1.1.1.1, ⟨trivial, trivial, hrows, nofun⟩, ?_⟩
      exact legible_cons.2 ⟨trivial, legible_cons.2 ⟨hfirst, nofun⟩⟩
    · intro hplain _
      have hpassed : ((((s.skip 1).skip 1).skip 1).skip 1).cursor.passed =
          (((s.skip 1).skip 1).skip 1).cursor.current :: ((s.skip 1).skip 1).cursor.current ::
            (s.skip 1).cursor.current :: s.cursor.current :: s.cursor.passed := by
        have h1 : (s.skip 1).cursor.passed = _ := Cursor.passed_skip_one (isEnd_of_keyword hkind)
        have h2 : ((s.skip 1).skip 1).cursor.passed = _ := Cursor.passed_skip_one hfirstEnd
        have h3 : (((s.skip 1).skip 1).skip 1).cursor.passed = _ :=
          Cursor.passed_skip_one (isEnd_of_symbol hcomma)
        have h4 : ((((s.skip 1).skip 1).skip 1).skip 1).cursor.passed = _ :=
          Cursor.passed_skip_one hrowsEnd
        rw [h4, h3, h2, h1]
      have hspan : ((((s.skip 1).skip 1).skip 1).skip 1).cursor.previousSpan =
          (((s.skip 1).skip 1).skip 1).cursor.current.span := by
        unfold Cursor.previousSpan
        rw [hpassed]
      refine (hplain.remarks (.limit _) (mem_remarks.2 (List.mem_append_right _
        List.mem_cons_self)) _ hat.mem ?_) hcomma
      rw [hspan]
      exact contains_between hT hlast hpassed (by simp)
  · replace hrest : (takeKeyword .OFFSET >>= fun found => _) v = .ok l t := hrest
    rw [takeKeyword_bind_apply] at hrest
    split at hrest
    · next hoffset =>
      obtain ⟨offset, w, hcountOffset, hrest⟩ := bind_eq_ok_iff.1 hrest
      rw [spanFrom_bind_apply] at hrest
      obtain ⟨rfl, rfl⟩ := pure_eq_ok_iff.1 hrest
      have htake := hat.take (m := .keyword .OFFSET) (isEnd_of_keyword hoffset) trivial
        fun _ _ => hoffset
      have hlast := hcount.run htake hcountOffset
      rw [List.append_assoc, List.append_assoc, List.append_assoc] at hlast
      exact hlast.remarked trivial
    · rw [if_neg Bool.false_ne_true, spanFrom_bind_apply] at hrest
      obtain ⟨rfl, rfl⟩ := pure_eq_ok_iff.1 hrest
      rw [List.append_assoc] at hat
      exact hat.remarked trivial

omit hcall hT in
/-- What is recovered from adds its outline, if there is one. -/
theorem Reads.recoverBehind {p : Parser α} {outline : α → List Item}
    (h : Reads T here before p (fun a => before ++ outline a)) (hp : Steady p) :
    Reads T here before (Parser.recover p) (fun found => before ++ found.elim [] outline) := by
  intro front s found t hs hhere heq
  have hat := h.recover hp front s found t hs hhere heq
  cases found with
  | none => simpa using hat
  | some a => exact hat

omit hcall hT in
theorem Reads.clause {p : Parser α} {outline : α → List Item}
    (h : Reads T Anywhere before p (fun a => before ++ outline a)) (hp : Steady p)
    (allowed : Bool) (word : Keyword) :
    Reads T here before (clause allowed word p) (fun found => before ++ found.elim [] outline) := by
  have hfound : Reads T Anywhere before (do
      let found ← Parser.recover p
      clauseEnd
      return found : Parser (Option α)) (fun found => before ++ found.elim [] outline) :=
    (h.recoverBehind hp).bind fun found => reads_clauseEnd.bind fun _ => reads_pure rfl
  refine reads_atKeyword_bind ?_ ?_
  · split
    · exact hfound.weaken
    · exact reads_pure (by simp)
  · split
    · next h => simp at h
    · exact reads_pure (by simp)

omit hcall in
theorem reads_limitClause :
    Reads T here before limitClause (fun l => before ++ l.elim [] Limit.outline) :=
  reads_atKeyword_bind ((reads_limit hT).recoverBehind (steady_congruence.limit (b := 0)).1)
    (reads_pure (by simp))

theorem reads_fromRelation (hsteady : ∀ {α : Type} (n : Nonterminal α), Steady (call n))
    (start : Span) (quantifier : Option Quantifier) (items : List SelectItem) :
    Reads T here
      (before ++ .keyword .SELECT :: quantifier.elim [] ([·.outline]) ++
        separated .comma (items.map SelectItem.outline))
      (fromRelation call start (Query.mk quantifier items)) (fun q => before ++ q.outline) := by
  have hclauses (hasRelation : Bool) : Reads T Anywhere
      (before ++ .keyword .SELECT :: quantifier.elim [] ([·.outline]) ++
        separated .comma (items.map SelectItem.outline)) (do
        let relation ← clause hasRelation .FROM (call .relation)
        fromWhere call hasRelation start (Query.mk quantifier items relation))
      (fun q => before ++ q.outline) := by
    have hclause {α : Type} {before : List Item} {n : Nonterminal α} (word : Keyword)
        (hopens : n.Opens = Anywhere) (hbehind : n.behind = []) :
        Reads T Anywhere before (clause hasRelation word (call n))
          (fun found => before ++ found.elim [] n.outline) :=
      (hcall.anywhere n hopens hbehind).clause (hsteady n) hasRelation word
    refine (hclause .FROM rfl rfl).bind fun relation => (hclause .WHERE rfl rfl).bind fun condition =>
      (hclause .GROUP rfl rfl).bind fun groupBy => (hclause .HAVING rfl rfl).bind fun having =>
        (hclause .ORDER rfl rfl).bind fun orderBy => (reads_limitClause hT).bind fun limit =>
          reads_spanFrom_bind fun span => reads_pure ?_
    cases relation <;>
      simp [Query.outline, fromOutline, clausesOutline, Nonterminal.outline]
  exact reads_clauseEnd.bind fun _ =>
    reads_atKeyword_bind (hclauses true).weaken (hclauses false).weaken

/-- A query passes what is in its outline. -/
theorem reads_queryRule (hsteady : ∀ {α : Type} (n : Nonterminal α), Steady (call n)) :
    Reads T here before (queryRule call) (fun q => before ++ q.outline) := by
  have hquantifier : Reads T Anywhere (before ++ [.keyword .SELECT]) quantifier
      (fun q => before ++ .keyword .SELECT :: q.elim [] ([·.outline])) := by
    have h : Reads T Anywhere (before ++ [.keyword .SELECT]) quantifier _ := reads_quantifier
    simpa using h
  rw [queryRule_eq]
  refine (reads_keyword .SELECT).bind fun start => hquantifier.bind fun quantifier =>
    ((hcall.anywhere .selectItems rfl rfl).recoverBehind (hsteady _)).bind fun items => ?_
  cases items with
  | none => exact reads_fromRelation hT hcall hsteady start quantifier []
  | some items => exact reads_fromRelation hT hcall hsteady start quantifier items

/-- If callees read what they build, the rules do. -/
theorem allRead_rule (hsteady : ∀ {α : Type} (n : Nonterminal α), Steady (call n)) :
    AllRead T (rule call) := by
  have hitem (starAllowed : Bool) :
      Reads T Anywhere [] (call (.selectItem starAllowed)) SelectItem.outline :=
    hcall (.selectItem starAllowed)
  intro α n
  cases n with
  | expr least => exact reads_exprRule hcall least
  | predicate least => exact reads_predicateRule hcall least
  | arithmetic least => exact reads_arithmeticRule hT hcall least
  | operand => exact reads_operandRule hT hcall
  | parenthesized => exact reads_parenthesizedRule hcall
  | constant => exact reads_constantRule hT hcall
  | interval => exact reads_intervalRule hT hcall
  | call => exact reads_callRule hT hcall
  | shape family => exact reads_shapeRule hT hcall family
  | arguments => exact reads_argumentsRule hcall
  | scalar category => exact reads_scalarRule hT hcall category
  | case => exact reads_caseRule hcall
  | cast => exact reads_castRule hT hcall
  | ranking function => exact reads_rankingRule hcall function
  | aggregate function => exact reads_aggregateRule hcall function
  | percentile function => exact reads_percentileRule hT hcall function
  | aggregateTail aggregate =>
    have htail : Reads T Anywhere ([] ++ aggregate.outline) _
        (fun shape : CallShape => [] ++ shape.outline) :=
      reads_aggregateTailRule hcall hsteady aggregate
    exact htail
  | window => exact reads_windowRule hcall
  | filter => exact reads_filterRule hcall
  | orderBy => exact reads_orderByRule hcall
  | orderItem => exact reads_orderItemRule hcall
  | score => exact reads_scoreRule hT hcall
  | relevance kind => exact reads_relevanceRule hT hcall kind
  | fieldEquals => exact reads_fieldEqualsRule hT hcall
  | namedArguments => exact reads_namedArgumentsRule hT hcall
  | searchValue => exact reads_searchValueRule hT hcall
  | relevanceOptions => exact reads_relevanceOptionsRule hT hcall
  | position => exact reads_positionRule hcall
  | extract => exact reads_extractRule hT hcall
  | getFormat => exact reads_getFormatRule hcall
  | timestamp function => exact reads_timestampRule hT hcall function
  | selectItems => exact (hitem true).commaList (hitem false) _
  | selectItem starAllowed => exact reads_selectItemRule hT hcall starAllowed
  | relation => exact reads_relationRule hT hcall
  | condition word => exact reads_conditionRule hcall word
  | groupBy => exact reads_groupByRule hcall
  | query => exact reads_queryRule hT hcall hsteady

omit hcall in
/-- Every rule reads what it builds, whatever fuel is left. -/
theorem allRead_derive (fuel : Nat) : AllRead T (derive fuel) := by
  induction fuel with
  | zero => exact fun n front s a t _ _ heq => nomatch heq
  | succ fuel ih => exact allRead_rule hT ih fun n => steady_derive fuel n

end Grammar

end SearchSql
