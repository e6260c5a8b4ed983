import SearchSql.Proofs.ExprRetracing
import SearchSql.Proofs.QueryReading

/-!
# Retracing aggregates

Behind an aggregate, an order belongs to it if a filter follows. Where the source has left an order to
others, no filter is behind the order that is written for what these have read, so an attempt at one
fails there again (`retraces_orderTail`).
-/

set_option autoImplicit false

namespace SearchSql.Grammar

open SearchSql.Grammar.Parser SearchSql.Token

variable {library : Time.Library} {α β : Type} [Erases α] [Erases β] {s s' t : State} {c d : Cursor}
variable {items before : List Item} {tokens rest : List Token} {here : Token → Prop}
variable {front R : Outlook} {call : Callee}

/-- The argument of an aggregate is in front of both: a star, the word `DISTINCT` or an expression. -/
def Aggregated : Outlook := fun c tokens =>
  Meets (.symbol .star) c tokens ∨ Meets (.keyword .DISTINCT) c tokens ∨ Heads c tokens

/-- An order is in front of both, with no filter behind it. -/
def Ordered [Time.Library] : Outlook := fun c tokens =>
  Meets (.keyword .ORDER) c tokens ∧ Alike c tokens

/-- The end of a window is in front: an order or the closing parenthesis. -/
def WindowEnd [Time.Library] : Outlook := fun c tokens =>
  Ordered c tokens ∨ Meets (.symbol .rightParen) c tokens

/-- At the end of a window both sides have the same in front. -/
theorem WindowEnd.alike (h : WindowEnd c tokens) : Alike c tokens := by
  rcases h with h | h
  · exact h.2
  · exact h.alike_symbol rfl

/-- The argument of an aggregate is not missing. -/
theorem Aggregated.ne_rightParen (h : Aggregated c tokens) :
    kindAt tokens 0 ≠ .symbol .rightParen := by
  rcases h with h | h | h
  · exact h.2.trans_ne (by decide)
  · exact h.2.trans_ne (by decide)
  · exact close_of_heads h

section Callees

variable (hcall : AllRetrace call)

include hcall

/-! ## Arguments of aggregates -/

/-- The argument of an aggregate is read again from what is written for it. -/
theorem retraces_aggregateForm (function : AggregateFunction) :
    Retraces here Aggregated (before ++ [.word function.text, .symbol .leftParen])
      (aggregateRule.form call function) (aggregateRule.form read function)
      (fun aggregate => before ++ aggregate.opened) (fun _ => Meets (.symbol .rightParen)) := by
  have hregular {here : Token → Prop} : Retraces here Heads
      (before ++ [.word function.text, .symbol .leftParen]) (do
      return .regular function (← call .wholeExpr) : Parser Aggregate)
      (do return .regular function (← read .wholeExpr))
      (fun aggregate => before ++ aggregate.opened) (fun _ => Meets (.symbol .rightParen)) := by
    refine (hcall.expr.ending fun _ _ _ h => h.alike_symbol rfl).bind fun arg arg' harg =>
      retraces_pure ?_ (congrArg (Aggregate.regular function) harg)
    simp [Aggregate.opened]
  unfold aggregateRule.form
  dsimp only
  split
  · next hcount =>
    obtain rfl := eq_of_beq hcount
    refine retraces_takeSymbol_bind (N := Meets (.symbol .rightParen))
      (U := fun c tokens => Meets (.keyword .DISTINCT) c tokens ∨ Heads c tokens)
      (retraces_pure ?_ rfl) ?_ (fun _ _ hkind _ => .inl ⟨hkind, rfl⟩) fun _ _ _ h => ⟨.inr h, ?_⟩
    · simp [Aggregate.opened, AggregateFunction.text]
    · refine retraces_takeKeyword_bind (N := Heads) (U := Heads) ?_ hregular
        (fun _ _ hkind _ => .inl ⟨hkind, rfl⟩) fun _ _ _ h => ⟨.inr h, h.ne rfl⟩
      refine ((hcall.commaExprs _).ending fun _ _ _ (h : Meets (.symbol .rightParen) _ _) =>
        h.alike_symbol rfl).bind fun args args' hargs => retraces_pure ?_ ?_
      · simp [Aggregate.opened, AggregateFunction.text]
      · exact congrArg Aggregate.countDistinct (viewAll_erased hargs)
    · rcases h with h | h
      · exact h.2.trans_ne (by decide)
      · exact h.ne rfl
  · exact hregular.starting fun _ _ _ h => .inr (.inr h)

/-- An aggregate is read again from what is written for it. -/
theorem retraces_aggregateRule (function : AggregateFunction) :
    Retraces (fun u => Spells u function.text) Calls before (aggregateRule call function)
      (aggregateRule read function) (fun aggregate => before ++ aggregate.outline) (fun _ => R) := by
  refine retraces_spelled_bind (N := Aggregated) (fun _ _ h hkind => absurd hkind h.ne_rightParen) ?_
  refine (retraces_aggregateForm hcall function).bind fun aggregate aggregate' haggregate =>
    (retraces_symbol .rightParen (N := R)).bind fun _ _ _ => retraces_pure ?_ haggregate
  rw [List.append_assoc, aggregate.opened_append]

/-- A percentile is read again from what is written for it. -/
theorem retraces_percentileRule (function : PercentileFunction) :
    Retraces (fun u => Spells u function.text) Calls before (percentileRule call function)
      (percentileRule read function) (fun aggregate => before ++ aggregate.outline) (fun _ => R) := by
  have hclose {field field' : Expr} (hfield : erase field = erase field') {percent percent' : Constant}
      (hpercent : erase percent = erase percent') (compression compression' : Option Constant)
      (hcompression : erase compression = erase compression') :
      Retraces Anywhere (Meets (.symbol .rightParen))
        (before ++ .word function.text :: .symbol .leftParen :: field.outline ++ .symbol .comma ::
          percent.outline ++ outlineOptionalConstant compression) (do
        let _ ← symbol .rightParen
        return .percentile function field percent compression : Parser Aggregate) (do
        let _ ← symbol .rightParen
        return .percentile function field' percent' compression')
        (fun aggregate => before ++ aggregate.outline) (fun _ => R) := by
    refine (retraces_symbol .rightParen (N := R)).bind fun _ _ _ => retraces_pure ?_ ?_
    · simp [Aggregate.outline]
    · show Aggregate.percentile _ _ _ _ = Aggregate.percentile _ _ _ _
      rw [show field.view .erased = field'.view .erased from hfield,
        show percent.view .erased = percent'.view .erased from hpercent,
        viewOptionalConstant_erased hcompression]
  refine retraces_spelled_bind (N := Heads) (fun _ _ h hkind => absurd hkind (close_of_heads h)) ?_
  refine (hcall.expr.ending fun _ _ _ (h : Meets (.symbol .comma) _ _) => h.alike_symbol rfl).bind
    fun field field' hfield => ?_
  refine (retraces_symbol .comma (N := Numbers)).bind fun _ _ _ => ?_
  refine (retraces_number (R := Listed)).bind fun percent percent' hpercent => ?_
  refine retraces_takeSymbol_bind (N := Numbers) (U := Meets (.symbol .rightParen)) ?_ ?_
    (fun _ _ hkind _ => .inl ⟨hkind, rfl⟩) fun _ _ _ h => ⟨.inr h, h.2.trans_ne (by decide)⟩
  · refine (retraces_number.some ?_).bind (hclose hfield hpercent)
    intro c
    simp [outlineOptionalConstant]
  · refine Retraces.bind (retraces_pure ?_ rfl) (hclose hfield hpercent)
    simp [outlineOptionalConstant]

/-! ## Orders -/

/-- An expression to order by is read again with its direction and its place of nulls. -/
theorem retraces_orderItemRule :
    Retraces here Heads before (orderItemRule call) (orderItemRule read)
      (fun item => before ++ item.outline) (fun _ => Alike) := by
  refine hcall.expr.bind fun expr expr' hexpr => retraces_direction.bind
    fun direction direction' hdirection => retraces_nullOrder.bind fun nulls nulls' hnulls => ?_
  obtain rfl : direction = direction' := Option.map_injective (fun _ _ h => h) hdirection
  obtain rfl : nulls = nulls' := Option.map_injective (fun _ _ h => h) hnulls
  refine retraces_pure ?_ (congrArg (OrderItem.mk · direction nulls) hexpr)
  simp [OrderItem.outline]

/-- An order is read again from what is written for it. -/
theorem retraces_orderByRule :
    Retraces here (Meets (.keyword .ORDER)) before (orderByRule call) (orderByRule read)
      (fun o => before ++ o.outline) (fun _ => Alike) := by
  have hitem : Retraces Anywhere Heads [] (call .orderItem) (read .orderItem) OrderItem.outline
      (fun _ => Alike) := hcall.rule .orderItem
  refine (retraces_keyword .ORDER).bind fun _ _ _ =>
    (retraces_keyword .BY (N := Heads)).bind fun _ _ _ => ?_
  refine (hitem.commaSeparated (steady_read _)
    (fun item => ?_) (fun _ _ hkind _ => alike_of_comma hkind)
    (fun _ _ hkind halike => ⟨halike, halike.ne_comma hkind⟩) _).bind fun is is' his => ?_
  · obtain ⟨expr, direction, nulls⟩ := item
    exact ((fills_of_closes expr.closes_outline).append _).append _
  refine retraces_spanFrom_bind fun span span' => retraces_pure ?_ ?_
  · simp [OrderBy.outline, outlineItems_eq_map]
  · exact congrArg (OrderBy.mk · default) (viewItems_erased his)

/-- An order behind which neither a filter nor a further order is written is left to others again. -/
theorem AllRetrace.ordered (hrear : ∀ c tokens, R c tokens → Alike c tokens ∧
      kindAt tokens 0 ≠ .keyword .FILTER ∧ kindAt tokens 0 ≠ .keyword .ORDER) :
    Retraces here Ordered before (call .orderBy) (read .orderBy) (fun o => before ++ o.outline)
      (fun _ => R) := by
  have h : Retraces Anywhere (Meets (.keyword .ORDER)) before (call .orderBy) (read .orderBy)
      (fun o => before ++ o.outline) (fun _ => Alike) := (hcall.retraces .orderBy rfl).anywhere
  intro s o t hs _ heq
  obtain ⟨items, hafter, hr⟩ := h s o t hs trivial heq
  refine ⟨items, hafter, hr.leads, fun rest hfine hrest => ?_, fun s' rest hfine htwin hfaces hrest =>
    hr.again s' rest hfine htwin hfaces (hrear _ _ hrest).1⟩
  obtain ⟨halike, hfilter, horder⟩ := hrear _ _ hrest
  have hmeets := hr.front rest hfine halike
  refine ⟨hmeets, hmeets.alike_of_filter rfl fun u hfaces b hdoomed => ?_⟩
  -- Who reads the order in this state comes to its end, where there is no filter.
  let v : State := { s with cursor := u.cursor }
  have hfast : v.FailsFast := ⟨notRecovering_of_strict hs.strict, hs.settled⟩
  obtain ⟨o', w, hrun, -, -, hrestFaces⟩ :=
    hr.again v rest hfine ⟨rfl, rfl, rfl, rfl, rfl⟩ hfaces halike
  rcases stopsAtFilter_read hfast hs.withLibrary hdoomed hrun with hend | ⟨b', hend⟩
  · exact hfilter (hrestFaces.current.symm.trans hend)
  · exact horder (hrestFaces.current.symm.trans hend.atOrder)

/-! ## Windows and filters -/

/-- A partition is read again, and is missing again where there is none. -/
theorem retraces_partitionBy :
    Retraces here (fun c tokens => Meets (.keyword .PARTITION) c tokens ∨ WindowEnd c tokens) before
      (partitionBy call) (partitionBy read)
      (fun partition => before ++ outlineOptionalPartition partition) (fun _ => WindowEnd) := by
  refine retraces_atKeyword_bind (S := Meets (.keyword .PARTITION)) (U := WindowEnd) ?_
    (retraces_pure (by simp [outlineOptionalPartition]) rfl) (fun _ _ _ h => ⟨.inl h, h.2⟩)
    fun _ _ hkind h => ⟨.inr h, h.alike.keyed.ne (by decide) hkind⟩
  refine (retraces_take (m := .keyword .PARTITION) (N := Meets (.keyword .BY)) rfl
    fun _ _ hkind _ => ⟨hkind, rfl⟩).bind fun _ _ _ => ?_
  refine (retraces_keyword .BY).bind fun _ _ _ => ((hcall.commaExprs _).ending
    fun _ _ _ => WindowEnd.alike).bind fun exprs exprs' hexprs => ?_
  refine retraces_spanFrom_bind fun span span' => retraces_pure ?_ ?_
  · simp [outlineOptionalPartition, PartitionBy.outline]
  · exact erase_some.2 (congrArg (PartitionBy.mk · default) (viewAll_erased hexprs))

/-- A window is read again from what is written for it. -/
theorem retraces_windowRule :
    Retraces here (Meets (.keyword .OVER)) before (windowRule call) (windowRule read)
      (fun window => before ++ window.outline) (fun _ => R) := by
  -- With and without an order, what is left of the window is its parenthesis.
  have hclose {start start' : Span} {partition partition' : Option PartitionBy}
      (hpartition : erase partition = erase partition') (orderBy orderBy' : Option OrderBy)
      (horderBy : erase orderBy = erase orderBy') :
      Retraces Anywhere (Meets (.symbol .rightParen)) (before ++ .keyword .OVER ::
        .symbol .leftParen :: outlineOptionalPartition partition ++ outlineOptionalOrder orderBy) (do
        let _ ← symbol .rightParen
        return ⟨partition, orderBy, ← spanFrom start⟩ : Parser Window) (do
        let _ ← symbol .rightParen
        return ⟨partition', orderBy', ← spanFrom start'⟩)
        (fun window => before ++ window.outline) (fun _ => R) := by
    refine (retraces_symbol .rightParen (N := R)).bind fun _ _ _ =>
      retraces_spanFrom_bind fun span span' => retraces_pure ?_ ?_
    · simp [Window.outline]
    · show Window.mk _ _ _ = Window.mk _ _ _
      rw [viewOptionalPartition_erased hpartition, viewOptionalOrder_erased horderBy]
      rfl
  have hpartition : Retraces Anywhere
      (fun c tokens => Meets (.keyword .PARTITION) c tokens ∨ WindowEnd c tokens)
      (before ++ [.keyword .OVER] ++ [.symbol .leftParen]) (partitionBy call) (partitionBy read)
      (fun partition => before ++ .keyword .OVER :: .symbol .leftParen ::
        outlineOptionalPartition partition) (fun _ => WindowEnd) := by
    have h : Retraces Anywhere _ (before ++ [.keyword .OVER, .symbol .leftParen]) _ _ _ _ :=
      retraces_partitionBy hcall
    simpa using h
  refine (retraces_keyword .OVER).bind fun start start' _ =>
    (retraces_symbol .leftParen).bind fun _ _ _ =>
      hpartition.bind fun partition partition' hpartition => ?_
  refine retraces_atKeyword_bind (S := Ordered) (U := Meets (.symbol .rightParen)) ?_ ?_
    (fun _ _ _ h => ⟨.inl h, h.1.2⟩) fun _ _ _ h => ⟨.inr h, h.2.trans_ne (by decide)⟩
  · refine ((hcall.ordered fun _ _ (h : Meets (.symbol .rightParen) _ _) => ⟨h.alike_symbol rfl,
      h.2.trans_ne (by decide), h.2.trans_ne (by decide)⟩).some ?_).bind (hclose hpartition)
    intro o
    simp [outlineOptionalOrder]
  · refine Retraces.bind (retraces_pure ?_ rfl) (hclose hpartition)
    simp [outlineOptionalOrder]

/-- A filter is read again from what is written for it. -/
theorem retraces_filterRule :
    Retraces here (Meets (.keyword .FILTER)) before (filterRule call) (filterRule read)
      (fun filter => before ++ filter.outline) (fun _ => R) := by
  refine (retraces_keyword .FILTER).bind fun start start' _ => (retraces_symbol .leftParen).bind
    fun _ _ _ => (retraces_keyword .WHERE (N := Heads)).bind fun _ _ _ => ?_
  refine (hcall.expr.ending fun _ _ _ (h : Meets (.symbol .rightParen) _ _) =>
    h.alike_symbol rfl).bind fun condition condition' hcondition => ?_
  refine (retraces_symbol .rightParen (N := R)).bind fun _ _ _ =>
    retraces_spanFrom_bind fun span span' => retraces_pure ?_ ?_
  · simp [Filter.outline]
  · exact congrArg (Filter.mk · default) hcondition

theorem retraces_rankingRule (function : RankingFunction) :
    Retraces (fun u => Spells u function.text) Calls before (rankingRule call function)
      (rankingRule read function) (fun shape => before ++ shape.outline) (fun _ => R) := by
  refine retraces_spelled_bind (N := Arguments) (fun _ _ h => h.close) ?_
  refine ((hcall.retraces .arguments rfl).ending fun _ _ _ _ => trivial).bind fun args args' hargs =>
    ((hcall.retraces .window rfl).ending fun _ _ _ _ => trivial).anywhere.bind
      fun window window' hwindow => retraces_pure ?_ ?_
  · simp [CallShape.outline, Nonterminal.outline]
  · exact congrArg₂ (CallShape.ranking function) (viewAll_erased hargs) hwindow

/-! ## Behind aggregates -/

theorem retraces_orderedFilter :
    Retraces here (Meets (.keyword .ORDER)) [] (orderedFilter call) (orderedFilter read)
      (fun both => both.1.outline ++ both.2.outline) (fun _ => R) := by
  have horder : Retraces Anywhere (Meets (.keyword .ORDER)) [] (call .orderBy) (read .orderBy)
      OrderBy.outline (fun _ => Meets (.keyword .FILTER)) :=
    (hcall.rule .orderBy).ending fun _ _ _ h => h.alike_keyword rfl (by decide)
  exact horder.anywhere.bind fun o o' ho => ((hcall.retraces .filter rfl).ending
    fun _ _ _ _ => trivial).anywhere.bind fun f f' hf => retraces_pure rfl (erase_pair.2 ⟨ho, hf⟩)

omit hcall in
/-- An order behind an aggregate, if it stands here and a filter follows. -/
def orderTail (call : Callee) (aggregate : Aggregate) : Parser CallShape := do
  if ← atKeyword .ORDER then
    match ← attempt "ordered aggregate filter" (orderedFilter call) with
    | some (orderBy, filter) => return .filtered aggregate (some orderBy) filter
    | none => return .aggregate aggregate
  return .aggregate aggregate

omit hcall in
theorem orderTail_of_ne (call : Callee) (a : Aggregate) (h : s.cursor.current.kind ≠ .keyword .ORDER) :
    orderTail call a s = .ok (.aggregate a) s := by
  unfold orderTail
  rw [atKeyword_bind_apply, beq_eq_false_iff_ne.2 h]
  rfl

omit hcall in
theorem orderTail_of_eq (call : Callee) (a : Aggregate) (h : s.cursor.current.kind = .keyword .ORDER) :
    orderTail call a s = match orderedFilter call s.trying with
      | .ok x t => .ok (.filtered a (some x.1) x.2) t.tried
      | .error (.rejected d) t => .ok (.aggregate a) (s.undone "ordered aggregate filter" d t)
      | .error .outOfFuel t => .error .outOfFuel t.tried := by
  unfold orderTail
  rw [atKeyword_bind_apply, beq_iff_eq.2 h, if_pos rfl]
  rw [bind_apply, attempt_apply]
  cases orderedFilter call s.trying with
  | ok x t => rfl
  | error e t => cases e <;> rfl

omit hcall in
theorem steady_orderAttempt (h : ∀ {α : Type} (n : Nonterminal α), Steady (call n)) :
    Steady (attempt "ordered aggregate filter" (orderedFilter call)) :=
  ((h .orderBy).bind fun _ => (h .filter).bind fun _ => steady_pure _).attempt

section

variable {a a' : Aggregate} (ha : erase a = erase a') {u : State}

include ha

/-- An order with a filter behind it is read again in an attempt that succeeds as well. -/
theorem retrace_orderTail_of_filter (hs : s.Primed) {x : OrderBy × Filter}
    (hrun : orderedFilter call s.trying = .ok x u) :
    ∃ items, (CallShape.filtered a (some x.1) x.2).outline = a.outline ++ items ∧
      Retrace Keyed Alike (orderTail read a') items s (.filtered a (some x.1) x.2) u.tried := by
  have happly := attempt_apply "ordered aggregate filter" (orderedFilter call) s
  rw [hrun] at happly
  have hboth : Retraces Anywhere (Meets (.keyword .ORDER)) [] (orderedFilter call)
      (orderedFilter read) (fun both => both.1.outline ++ both.2.outline) (fun _ => Alike) :=
    retraces_orderedFilter hcall
  obtain ⟨items, hitems, hr⟩ := hboth s.trying x u (hs.same rfl rfl rfl rfl rfl) trivial hrun
  refine ⟨items, ?_, (steady_orderAttempt hcall.steady).leads happly, fun rest hfine halike => ?_,
    fun s' rest hfine htwin hfaces halike => ?_⟩
  · rw [List.nil_append] at hitems
    simp [CallShape.outline, outlineOptionalOrder, ← hitems]
  · have hmeets := hr.front rest hfine halike
    exact fun word hword _ => hmeets.1.trans (hmeets.2.symm.trans hword)
  · have hmeets := hr.front rest hfine halike
    obtain ⟨x', u', hrun', hsame, htwin', hfaces'⟩ := hr.again s'.trying rest hfine
      ⟨htwin.settings, htwin.library, htwin.depth, htwin.subqueries, htwin.separatorDepth⟩
      hfaces halike
    refine ⟨.filtered a' (some x'.1) x'.2, u'.tried, ?_, ?_, ?_, hfaces'⟩
    · rw [orderTail_of_eq read a' (hfaces.current.trans hmeets.2), hrun']
    · obtain ⟨horder, hfilter⟩ := erase_pair.1 hsame
      show CallShape.filtered _ _ _ = CallShape.filtered _ _ _
      rw [show a.view .erased = a'.view .erased from ha,
        viewOptionalOrder_erased (erase_some.2 horder),
        show x.2.view .erased = x'.2.view .erased from hfilter]
    · exact ⟨htwin'.settings, htwin'.library, htwin'.depth, htwin'.subqueries,
        htwin'.separatorDepth⟩

/-- An order behind an aggregate that the source has left to others is left to them again: what is
written for who reads the order goes on with no filter. -/
theorem retrace_orderTail_of_undone (hs : s.Primed) {d : Diagnostic}
    (hrun : orderedFilter call s.trying = .error (.rejected d) u) :
    Retrace Keyed Alike (orderTail read a') [] s (.aggregate a)
      (s.undone "ordered aggregate filter" d u) := by
  have happly := attempt_apply "ordered aggregate filter" (orderedFilter call) s
  rw [hrun] at happly
  have hleads := (steady_orderAttempt hcall.steady).leads happly
  refine ⟨hleads, fun rest _ halike => halike.keyed, fun s' rest _ htwin hfaces halike => ?_⟩
  by_cases hkind : s'.cursor.current.kind = .keyword .ORDER
  · have hsettled : s'.Settled := by
      unfold State.Settled
      rw [htwin.separatorDepth, htwin.depth]
      exact hs.settled
    obtain ⟨x', u', hrun', -⟩ | ⟨d', u', hrun', happly'⟩ := attempt_orderedFilter s'
    · have hlibrary : s'.library = library := htwin.library.trans hs.withLibrary
      exact absurd (doomed_of_trying hsettled hlibrary (Nat.le_refl _) hrun')
        (halike.filter s' hfaces _)
    · refine ⟨.aggregate a', _, ?_, congrArg CallShape.aggregate ha,
        htwin.leads hleads ((steady_orderAttempt fun n => steady_read n).leads happly'), hfaces⟩
      rw [orderTail_of_eq read a' hkind, hrun']
  · exact ⟨.aggregate a', s', orderTail_of_ne read a' hkind, congrArg CallShape.aggregate ha,
      htwin.leads hleads (.refl s'), hfaces⟩

/-- What stands behind an aggregate is read again, whether it is an order with a filter, an order that
is left to others, or neither. -/
theorem retraces_orderTail :
    Retraces here Keyed a.outline (orderTail call a) (orderTail read a') CallShape.outline
      (fun _ => Alike) := by
  intro s shape t hs _ heq
  by_cases hkind : s.cursor.current.kind = .keyword .ORDER
  · rw [orderTail_of_eq call a hkind] at heq
    cases hrun : orderedFilter call s.trying with
    | ok x u =>
      rw [hrun] at heq
      cases heq
      exact retrace_orderTail_of_filter hcall ha hs hrun
    | error e u =>
      rw [hrun] at heq
      cases e with
      | outOfFuel => cases heq
      | rejected d =>
        cases heq
        exact ⟨[], (List.append_nil _).symm, retrace_orderTail_of_undone hcall ha hs hrun⟩
  · rw [orderTail_of_ne call a hkind] at heq
    cases heq
    refine ⟨[], (List.append_nil _).symm, .refl s, fun rest _ halike => halike.keyed,
      fun s' rest _ htwin hfaces halike => ?_⟩
    have hkind' : s'.cursor.current.kind ≠ .keyword .ORDER := by
      rw [hfaces.current]
      exact halike.keyed.ne (by decide) hkind
    exact ⟨.aggregate a', s', orderTail_of_ne read a' hkind', congrArg CallShape.aggregate ha, htwin,
      hfaces⟩

end

theorem retraces_aggregateTailRule {a a' : Aggregate} (ha : erase a = erase a') :
    Retraces here Outlook.any a.outline (aggregateTailRule call a) (aggregateTailRule read a')
      CallShape.outline (fun _ => Alike) := by
  refine retraces_atKeyword_bind (S := Meets (.keyword .OVER)) (U := Keyed) ?_
    (retraces_atKeyword_bind (S := Meets (.keyword .FILTER)) (U := Keyed) ?_
      (retraces_orderTail hcall ha) ?_ ?_) (fun _ _ _ h => ⟨trivial, h.2⟩) fun _ _ hkind h =>
        ⟨trivial, h.ne (by decide) hkind⟩
  · refine ((hcall.retraces .window rfl).ending fun _ _ _ _ => trivial).anywhere.bind
      fun window window' hwindow => retraces_pure rfl ?_
    exact congrArg₂ CallShape.windowed ha hwindow
  · refine ((hcall.retraces .filter rfl).ending fun _ _ _ _ => trivial).anywhere.bind
      fun filter filter' hfilter => retraces_pure ?_ ?_
    · simp [CallShape.outline, outlineOptionalOrder, Nonterminal.outline]
    · exact congrArg₂ (CallShape.filtered · none ·) ha hfilter
  · exact fun c tokens _ h => ⟨fun word hword _ => h.1.trans (h.2.symm.trans hword), h.2⟩
  · exact fun c tokens hkind h => ⟨h, h.ne (by decide) hkind⟩

end Callees

end SearchSql.Grammar
