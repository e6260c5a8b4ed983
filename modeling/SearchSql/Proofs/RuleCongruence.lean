import SearchSql.Proofs.Congruence

/-!
# Related callees make related rules

One lemma for each parser that rules share and one for each rule. Each asks of the callees no more
than the rule does: that they are related at the nonterminals the rule goes on to, and under fewer
levels of nesting where the rule nests.
-/

set_option autoImplicit false

namespace SearchSql.Grammar

open SearchSql.Grammar.Parser

/-- The step that reads the segments behind the first of a name. -/
def namePart (names : List Ident × Span) : Parser (ForInStep (List Ident × Span)) := do
  if (← atSymbol .dot) && (← peek 1).kind.isNameLike then
    skip 1
    let part ← ident
    return .yield (part :: names.1, names.2.merge part.span)
  return .done names

theorem qualifiedName_eq :
    qualifiedName = do
      let first ← ident
      let names ← loop ([first], first.span) namePart
      return ⟨names.1.reverse, names.2⟩ := rfl

theorem waits_optionalAlias : Waits false optionalAlias := by
  refine waits_takeKeyword_bind (by decide) (waits_current_bind fun t ht => ?_)
  rw [ht]
  exact waits_pure _

/-- The step that reads the options of `HIGHLIGHT`. -/
def highlightStep (options : List HighlightOption) :
    Parser (ForInStep (List HighlightOption)) := do
  if ← takeSymbol .comma then
    let name ← optionName highlightOptionNames "highlight option name"
    let _ ← symbol .eq
    return .yield (⟨name, ← string⟩ :: options)
  return .done options

theorem highlightOptions_eq :
    highlightOptions = do
      let options ← loop [] highlightStep
      return options.reverse := rfl

theorem waits_datetimeUnit : Waits true datetimeUnit := by
  refine waits_current_bind fun t ht => ?_
  rw [ht]
  exact waits_rejectCurrent true _

/-- The step that reads the branches of a `CASE`. -/
def caseStep (call : Callee) (branches : List CaseBranch) :
    Parser (ForInStep (List CaseBranch)) := do
  if ← takeKeyword .WHEN then
    let condition ← call .wholeExpr
    let _ ← keyword .THEN
    let result ← call .wholeExpr
    return .yield (⟨condition, result⟩ :: branches)
  return .done branches

theorem caseBranches_eq (call : Callee) :
    caseBranches call = do
      let branches ← loop [] (caseStep call)
      return branches.reverse := rfl

theorem waits_caseStep (call : Callee) (branches : List CaseBranch) :
    Waits false (caseStep call branches) :=
  waits_takeKeyword_bind (by decide) (waits_pure _)

theorem waits_caseBranches (call : Callee) : Waits false (caseBranches call) :=
  (waits_loop (waits_caseStep call) []).bind fun _ => waits_pure _

/-- What stands behind the branches of a `CASE`. -/
def caseEnd (call : Callee) (operand : Option Expr) (branches : List CaseBranch) :
    Parser CallShape := do
  if branches.isEmpty then rejectCurrent "WHEN"
  let otherwise ← if ← takeKeyword .ELSE then some <$> call .wholeExpr else pure none
  let _ ← keyword .END
  return .case operand branches otherwise

theorem waits_caseEnd (call : Callee) (operand : Option Expr) (branches : List CaseBranch) :
    Waits true (caseEnd call operand branches) := by
  have hrest : Waits true (do
      let otherwise ← if ← takeKeyword .ELSE then some <$> call .wholeExpr else pure none
      let _ ← keyword .END
      return .case operand branches otherwise : Parser CallShape) :=
    waits_takeKeyword_bind (by decide)
      ((waits_pure none).bind fun _ => (waits_keyword (by decide)).bind_firm)
  unfold caseEnd
  dsimp only
  split
  · exact (waits_rejectCurrent true _).bind_firm
  · exact hrest

/-- What is nested in a call. -/
def callBody (call : Callee) : Parser Call := do
  let start := (← current).span
  let shape ← callShape call
  return ⟨shape, ← spanFrom start⟩

theorem callRule_eq (call : Callee) : callRule call = nest 1 (callBody call) := rfl

theorem waits_direction : Waits false direction :=
  waits_takeKeyword_bind (by decide) (waits_takeKeyword_bind (by decide) (waits_pure _))

theorem waits_nullOrder : Waits false nullOrder :=
  waits_takeKeyword_bind (by decide) (waits_pure _)

/-- What is nested in an expression. -/
def exprBody (call : Callee) (least : Nat) : Parser Expr := do
  let left ← logicalOperand call
  loop left (logicalStep call least)

theorem exprRule_eq (call : Callee) (least : Nat) :
    exprRule call least = nest 1 (exprBody call least) := rfl

/-- The operand at a cursor. -/
def operandAt (call : Callee) (c : Cursor) : Parser Atom := do
  if startsFieldEquals c.ahead then return .call (← fieldEqualsCall call)
  match c.operandForm? with
  | some .parenthesized => call .parenthesized
  | some .constant => return .constant (← call .constant)
  | some .call => return .call (← call .call)
  | some .column => return .column (← qualifiedName)
  | none =>
      reject
        (.noAlternative "expression" ["constant", "column name", "function call", "'('"] c.current)

theorem operandRule_eq (call : Callee) :
    operandRule call = get >>= fun s => operandAt call s.cursor := rfl

theorem waits_logicalStep (call : Callee) (least : Nat) (left : Expr) :
    Waits false (logicalStep call least left) := by
  refine waits_current_bind fun t ht => ?_
  rw [ht]
  exact waits_pure _

/-- In front of `ORDER` there is no test. -/
theorem Test.at?_eq_none {c : Cursor} (h : c.current.kind = .keyword .ORDER) :
    Test.at? c = none := by
  unfold Test.at?
  rw [Cursor.peek_zero, h]
  rfl

/-- A test takes a token that does not end the input. -/
theorem Test.at?_eq_some {c : Cursor} {test : Test} {width : Nat}
    (h : Test.at? c = some (test, width)) : c.current.isEnd = false ∧ ∃ n, width = n + 1 := by
  unfold Test.at? at h
  rw [Cursor.peek_zero] at h
  unfold Token.isEnd
  cases hkind : c.current.kind
  case endOfInput => simp [hkind, Test.ofKinds?, Test.ofWord?] at h
  all_goals
    refine ⟨rfl, ?_⟩
    rw [hkind] at h
    unfold Test.ofKinds? at h
    split at h
    all_goals first
      | exact ⟨_, (Prod.mk.inj (Option.some.inj h)).2.symm⟩
      | obtain ⟨_, _, heq⟩ := Option.map_eq_some_iff.1 h
        exact ⟨_, (Prod.mk.inj heq).2.symm⟩

/-- The test at a cursor and its operands, added to `left`. -/
def testStep (call : Callee) (least : Nat) (left : Predicate) (separates : Test → Bool)
    (c : Cursor) : Parser (ForInStep Predicate) :=
  match Test.at? c with
  | none => return .done left
  | some (test, width) =>
      if test.precedence < least || separates test then return .done left
      else do
        skip width
        return .yield (← testRule call left test)

theorem predicateStep_eq (call : Callee) (least : Nat) (left : Predicate) :
    predicateStep call least left =
      get >>= fun s => testStep call least left s.isSeparator s.cursor := rfl

theorem waits_predicateStep (call : Callee) (least : Nat) (left : Predicate) :
    Waits false (predicateStep call least left) := by
  refine waits_get_bind fun s hs => ?_
  rw [Test.at?_eq_none hs]
  exact waits_pure _

theorem waits_arithmeticStep (call : Callee) (least : Nat) (left : Atom) :
    Waits false (arithmeticStep call least left) := by
  refine waits_current_bind fun t ht => ?_
  rw [ht]
  exact waits_pure _

theorem advances_logicalStep {call : Callee} (h : ∀ least, Steady (call (.expr least)))
    (least : Nat) (left : Expr) : Advances (logicalStep call least left) := by
  refine advances_current_bind fun t => ?_
  cases hop : Connective.ofKind? t.kind with
  | none => exact .inl (advances_done left)
  | some op =>
    dsimp only
    split
    · exact .inl (advances_done left)
    · have hend : t.isEnd = false := isEnd_eq_false fun hkind => by
        rw [hkind] at hop
        cases hop
      exact .inr ⟨hend, 0, _, (h _).bind fun right => steady_pure (.yield (op.join left right)), rfl⟩

theorem advances_arithmeticStep {call : Callee} (h : ∀ least, Steady (call (.arithmetic least)))
    (least : Nat) (left : Atom) : Advances (arithmeticStep call least left) := by
  refine advances_current_bind fun t => ?_
  cases hop : ArithmeticOp.ofKind? t.kind with
  | none => exact .inl (advances_done left)
  | some op =>
    dsimp only
    split
    · exact .inl (advances_done left)
    · have hend : t.isEnd = false := isEnd_eq_false fun hkind => by
        rw [hkind] at hop
        cases hop
      exact .inr ⟨hend, 0, _,
        (h _).bind fun right => steady_pure (.yield (.arithmetic op left right)), rfl⟩

/-- The step that reads the options of a relevance function. -/
def relevanceStep (call : Callee) (options : List RelevanceOption) :
    Parser (ForInStep (List RelevanceOption)) := do
  if ← takeSymbol .comma then
    let (name, quotedName) ← relevanceOptionName
    let _ ← symbol .eq
    return .yield (⟨name, quotedName, ← call .searchValue⟩ :: options)
  return .done options

theorem relevanceOptionsRule_eq (call : Callee) :
    relevanceOptionsRule call = do
      let options ← loop [] (relevanceStep call)
      return options.reverse := rfl

/-- A relevance function that starts with its name. -/
def namedRelevance (call : Callee) : Parser Relevance := do
  let token ← current
  match token.kind.bareWord?.bind RelevanceKind.ofUpper? with
  | some kind => call (.relevance kind)
  | none =>
      reject
        (.noAlternative "relevance function"
          ["MATCH", "MULTI_MATCH", "QUERY", "field = MATCH_QUERY"] token)

/-- What stands behind the partition of a window. -/
def windowEnd (call : Callee) (start : Span) (partition : Option PartitionBy) :
    Parser Window := do
  let orderBy ← if ← atKeyword .ORDER then some <$> call .orderBy else pure none
  let _ ← symbol .rightParen
  return ⟨partition, orderBy, ← spanFrom start⟩

/-- The call that an aggregate becomes by what follows it, where `ordered` reads an order that may
belong to a filter. -/
def tailAround (call : Callee) (aggregate : Aggregate)
    (ordered : Parser (Option (OrderBy × Filter))) : Parser CallShape := do
  if ← atKeyword .OVER then return .windowed aggregate (← call .window)
  if ← atKeyword .FILTER then return .filtered aggregate none (← call .filter)
  if ← atKeyword .ORDER then
    match ← ordered with
    | some (orderBy, filter) => return .filtered aggregate (some orderBy) filter
    | none => return .aggregate aggregate
  return .aggregate aggregate

/-- From the states `S`, the rule of `ORDER BY` comes to a filter, unless it ends in one of them. -/
def StopsAtFilter (S : State → Prop) (call : Callee) : Prop :=
  ∀ (s t : State) (o : OrderBy), S s → call .orderBy s = .ok o t →
    t.cursor.current.kind = .keyword .FILTER ∨ S t

theorem StopsAtFilter.windowEnd {S : State → Prop} {call : Callee} (h : StopsAtFilter S call)
    (hS : ∀ s, S s → s.AtOrder) (start : Span) (partition : Option PartitionBy) :
    Stays S true (windowEnd call start partition) := by
  intro s t w hs heq
  unfold Grammar.windowEnd at heq
  rw [atKeyword_bind_apply, show s.cursor.current.kind = _ from hS s hs] at heq
  obtain ⟨o, u, ho, hrest⟩ := bind_eq_ok_iff.1 heq
  obtain ⟨span, v, hspan, -⟩ := bind_eq_ok_iff.1 hrest
  obtain ⟨o', ho', -⟩ := map_eq_ok_iff.1 ho
  have hkind := (symbol_eq_ok_iff.1 hspan).1
  obtain hfilter | hu := h s u o' hs ho'
  · rw [hfilter] at hkind
    cases hkind
  · rw [show u.cursor.current.kind = _ from hS u hu] at hkind
    cases hkind

namespace Congruence

variable {α β : Type}
variable {L : State → State → Prop} {left right : Nat → State → Prop}
variable {R : Nat → Bool → {α : Type} → Parser α → Parser α → Prop}
variable {b : Nat} {firm : Bool} {c d : Callee} (hR : Congruence L left right R)

include hR

/-! ## Names and numbers -/

theorem ident : R b true ident Parser.ident := by
  refine hR.current_bind fun t => ?_
  have hreject := hR.rejectCurrent (b := b) (α := Ident) "identifier"
  split
  · exact hR.bind hR.take fun _ => hR.pure _
  · exact hR.bind hR.take fun _ => hR.pure _
  · split
    · exact hR.bind hR.take fun _ => hR.pure _
    · exact hreject
  · refine hR.peek_bind 1 fun u => ?_
    split
    · exact hR.bind hR.take fun _ => hR.bind hR.take fun _ => hR.pure _
    · exact hreject
  · exact hreject

omit hR in
theorem advances_namePart (names : List Ident × Span) : Advances (Grammar.namePart names) := by
  intro s t a h
  unfold Grammar.namePart at h
  rw [atSymbol_bind_apply, peek_bind_apply] at h
  split at h
  · next hdot =>
    have hend := isEnd_eq_false (t := s.cursor.current)
      (by rw [eq_of_beq (Bool.and_eq_true_iff.1 hdot).1]; nofun)
    have hsteady : Steady (Parser.ident >>= fun part =>
        (return .yield (part :: names.1, names.2.merge part.span) :
          Parser (ForInStep (List Ident × Span)))) :=
      (steady_congruence.ident (b := 0)).1.bind fun _ => steady_pure _
    rw [skip_bind_apply] at h
    exact Nat.lt_of_le_of_lt (hsteady.leads h).ahead.length_le (ahead_skip_lt hend 0)
  · cases (pure_eq_ok_iff.1 h).1

theorem namePart (names : List Ident × Span) :
    R b true (namePart names) (Grammar.namePart names) := by
  refine hR.atSymbol_bind .dot fun here => hR.peek_bind 1 fun t => ?_
  split
  · exact hR.bind (hR.skip 1) fun _ => hR.bind hR.ident fun _ => hR.pure _
  · exact hR.pure _

theorem qualifiedName : R b true qualifiedName Parser.qualifiedName := by
  rw [qualifiedName_eq]
  exact hR.bind hR.ident fun first => hR.bind
    (hR.loop _ hR.namePart nofun nofun advances_namePart advances_namePart) fun _ => hR.pure _

theorem optionalAlias : R b true optionalAlias Parser.optionalAlias := by
  refine hR.bind (hR.takeKeyword .AS) fun found => ?_
  cases found with
  | true => exact hR.bind hR.ident fun _ => hR.pure _
  | false =>
    refine hR.current_bind fun t => ?_
    split
    · exact hR.bind hR.ident fun _ => hR.pure _
    · exact hR.pure _

theorem count : R b true count Parser.count := by
  refine hR.current_bind fun t => ?_
  refine hR.guarded (hR.rejectCurrent _) (hR.bind (hR.skip 1) fun _ => ?_)
  split
  · exact hR.pure _
  · exact hR.reject _

theorem weight : R b true weight Parser.weight := by
  refine hR.current_bind fun t => ?_
  refine hR.guarded (hR.rejectCurrent _) (hR.bind (hR.skip 1) fun _ => ?_)
  split
  · exact hR.pure _
  · exact hR.reject _

theorem datetimeUnit : R b true datetimeUnit Parser.datetimeUnit := by
  refine hR.current_bind fun t => ?_
  split
  · exact hR.bind (hR.skip 1) fun _ => hR.pure _
  · exact hR.rejectCurrent _

theorem field : R b true field Parser.field := by
  refine hR.current_bind fun t => ?_
  split
  · exact hR.bind hR.take fun _ => hR.pure _
  · exact hR.bind hR.qualifiedName fun _ => hR.pure _

theorem weightedField : R b true weightedField Parser.weightedField := by
  refine hR.bind hR.field fun field => hR.bind (hR.takeSymbol .caret) fun found => ?_
  cases found with
  | true => exact hR.bind hR.weight fun _ => hR.pure _
  | false =>
    refine hR.current_bind fun t => ?_
    split
    · exact hR.bind hR.weight fun _ => hR.pure _
    · exact hR.pure _

theorem fieldList : R b true fieldList Parser.fieldList :=
  hR.bind (hR.symbol _) fun _ => hR.bind (hR.commaSeparated _ hR.weightedField) fun _ =>
    hR.bind (hR.symbol _) fun _ => hR.pure _

/-! ## Constants -/

theorem numberLiteral (kind : TokenKind) (text : String) (span : Span) :
    R b true (numberLiteral kind text span) (Parser.numberLiteral kind text span) := by
  unfold Parser.numberLiteral
  split
  · split
    · exact hR.pure _
    · exact hR.malformedLiteral _ _ _ _
  · split
    · exact hR.pure _
    · exact hR.malformedLiteral _ _ _ _

theorem number : R b true number Parser.number := by
  refine hR.current_bind fun t => hR.bind (hR.takeSymbol .minus) fun negative => ?_
  refine hR.guarded (hR.takeSymbol .plus) (hR.current_bind fun u => ?_)
  refine hR.guarded (hR.rejectCurrent _) (hR.bind (hR.skip 1) fun _ => ?_)
  exact hR.bind (hR.spanFrom _) fun _ => hR.bind (hR.numberLiteral _ _ _) fun _ => hR.pure _

theorem temporalLiteral (kind : TemporalKind) (text : String) (span : Span) :
    R b true (temporalLiteral kind text span) (Parser.temporalLiteral kind text span) := by
  refine hR.get (fun s => ?_) (fun s => ?_) fun s s' hs => ?_
  · split
    · exact steady_pure _
    · exact steady_malformedLiteral _ _ _ _
  · split
    · exact steady_pure _
    · exact steady_malformedLiteral _ _ _ _
  · rw [hR.library hs]
    split
    · exact hR.pure _
    · exact hR.malformedLiteral _ _ _ _

theorem wordLiteral (kind : TemporalKind) :
    R b true (wordLiteral kind) (Parser.wordLiteral kind) :=
  hR.bind hR.take fun _ => hR.bind hR.string fun _ => hR.bind (hR.spanFrom _) fun _ =>
    hR.temporalLiteral _ _ _

theorem bracedLiteral : R b true bracedLiteral Parser.bracedLiteral := by
  refine hR.bind (hR.symbol _) fun _ => hR.current_bind fun t => ?_
  split
  · exact hR.bind (hR.skip 1) fun _ => hR.bind hR.string fun _ => hR.bind (hR.symbol _) fun _ =>
      hR.bind (hR.spanFrom _) fun _ => hR.temporalLiteral _ _ _
  · exact hR.rejectCurrent _

theorem datetimeConstant (name : DatetimeConstant) :
    R b true (datetimeConstant name) (Parser.datetimeConstant name) :=
  hR.bind (hR.skip 1) fun _ => hR.bind (hR.takeSymbol _) fun _ =>
    hR.guarded (hR.symbol _) (hR.pure _)

theorem simpleLiteral (value : Literal) :
    R b true (simpleLiteral value) (Parser.simpleLiteral value) :=
  hR.bind (hR.skip 1) fun _ => hR.pure _

theorem intervalRule (h : R b false (c .wholeExpr) (d .wholeExpr)) :
    R b true (intervalRule c) (Grammar.intervalRule d) := by
  refine hR.bind (hR.keyword _) fun _ => hR.bindOpen h (fun amount => ?_) (fun _ => ?_) fun _ => ?_
  · exact hR.bind hR.datetimeUnit fun _ => hR.pure _
  · exact waits_datetimeUnit.bind_firm
  · exact waits_datetimeUnit.bind_firm

theorem literalRule (h : R b true (c .interval) (d .interval)) :
    R b true (literalRule c) (Grammar.literalRule d) := by
  refine hR.current_bind fun t => ?_
  have hreject := hR.rejectCurrent (b := b) (α := Literal) "constant"
  split
  · exact hR.simpleLiteral _
  · exact hR.bracedLiteral
  · exact hR.simpleLiteral _
  · exact hR.simpleLiteral _
  · exact hR.simpleLiteral _
  · exact h
  · split
    · exact hR.wordLiteral _
    · exact hreject
  · split
    · exact hR.datetimeConstant _
    · exact hreject
  · exact hreject

theorem constantRule (h : R b true (c .interval) (d .interval)) :
    R b true (constantRule c) (Grammar.constantRule d) := by
  refine hR.current_bind fun t => ?_
  split
  · exact hR.number
  · exact hR.number
  · exact hR.number
  · exact hR.number
  · exact hR.current_bind fun _ => hR.bind (hR.literalRule h) fun _ =>
      hR.bind (hR.spanFrom _) fun _ => hR.pure _

/-! ## Calls -/

theorem callName : R b true callName Parser.callName :=
  hR.current_bind fun _ => hR.bind (hR.skip 1) fun _ => hR.bind (hR.symbol _) fun _ => hR.pure _

theorem nestedAll : R b true nestedAll Parser.nestedAll :=
  hR.bind hR.callName fun _ => hR.bind hR.qualifiedName fun _ => hR.bind (hR.symbol _) fun _ =>
    hR.bind (hR.symbol _) fun _ => hR.bind (hR.symbol _) fun _ => hR.pure _

theorem optionName (names : List String) (expected : String) :
    R b true (optionName names expected) (Parser.optionName names expected) := by
  refine hR.current_bind fun t => ?_
  split
  · split
    · exact hR.bind (hR.skip 1) fun _ => hR.pure _
    · exact hR.rejectCurrent _
  · exact hR.rejectCurrent _

theorem highlightStep (options : List HighlightOption) :
    R b true (highlightStep options) (Grammar.highlightStep options) := by
  refine hR.bind (hR.takeSymbol .comma) fun found => ?_
  cases found with
  | true =>
    exact hR.bind (hR.optionName _ _) fun _ => hR.bind (hR.symbol _) fun _ =>
      hR.bind hR.string fun _ => hR.pure _
  | false => exact hR.pure _

omit hR in
theorem advances_highlightStep (options : List HighlightOption) :
    Advances (Grammar.highlightStep options) :=
  advances_takeSymbol_bind
    ((steady_congruence.optionName (b := 0) _ _).1.bind fun _ => (steady_congruence.symbol (b := 0) _).1.bind fun _ =>
      (steady_congruence.string (b := 0)).1.bind fun _ => steady_pure _)
    (advances_done options)

theorem highlightOptions :
    R b true highlightOptions Parser.highlightOptions := by
  rw [highlightOptions_eq]
  exact hR.bind (hR.loop [] hR.highlightStep nofun nofun advances_highlightStep
    advances_highlightStep) fun _ => hR.pure _

theorem highlight : R b true highlight Parser.highlight :=
  hR.bind hR.callName fun _ => hR.bind hR.field fun _ => hR.bind hR.highlightOptions fun _ =>
    hR.bind (hR.symbol _) fun _ => hR.pure _

theorem dataType : R b true dataType Parser.dataType := by
  refine hR.current_bind fun t => ?_
  dsimp only
  split
  · exact hR.bind (hR.skip 1) fun _ => hR.pure _
  · exact hR.rejectCurrent _

theorem formatTarget : R b true formatTarget Parser.formatTarget := by
  have htaken (target : FormatTarget) :
      R b true (formatTarget.taken target) (Parser.formatTarget.taken target) :=
    hR.bind (hR.skip 1) fun _ => hR.pure _
  refine hR.current_bind fun t => ?_
  split
  · exact htaken _
  · exact htaken _
  · exact htaken _
  · exact htaken _
  · exact hR.rejectCurrent _

theorem singleUnit : R b true singleUnit Parser.singleUnit :=
  hR.current_bind fun _ => hR.bind hR.datetimeUnit fun _ => hR.guarded (hR.reject _) (hR.pure _)

theorem argumentsRule (h : R b false (c .wholeExpr) (d .wholeExpr)) :
    R b true (argumentsRule c) (Grammar.argumentsRule d) := by
  refine hR.bind (hR.takeSymbol _) fun found => ?_
  cases found with
  | true => exact hR.pure _
  | false => exact hR.beforeSymbol (hR.commaSeparated _ h) fun _ _ => hR.pure _

theorem scalarRule (h : R b true (c .arguments) (d .arguments)) (category : ScalarCategory) :
    R b true (scalarRule c category) (Grammar.scalarRule d category) :=
  hR.bind hR.callName fun _ => hR.map _ h

theorem caseStep (h : R b false (c .wholeExpr) (d .wholeExpr)) (branches : List CaseBranch) :
    R b false (caseStep c branches) (Grammar.caseStep d branches) := by
  refine hR.bind (hR.takeKeyword .WHEN) fun found => ?_
  cases found with
  | true => exact hR.beforeKeyword (by decide) h fun _ _ => hR.thenPure h _
  | false => exact hR.weaken (hR.pure _)

omit hR in
theorem advances_caseStep (hc : Steady (c .wholeExpr)) (branches : List CaseBranch) :
    Advances (Grammar.caseStep c branches) :=
  advances_takeKeyword_bind
    (hc.bind fun _ => (steady_congruence.keyword (b := 0) _).1.bind fun _ => hc.bind fun _ => steady_pure _)
    (advances_done branches)

theorem caseBranches (h : R b false (c .wholeExpr) (d .wholeExpr)) :
    R b false (caseBranches c) (Grammar.caseBranches d) := by
  rw [caseBranches_eq, caseBranches_eq]
  exact hR.thenPure (hR.loop [] (hR.caseStep h) (fun _ => waits_caseStep c)
    (fun _ => waits_caseStep d) (advances_caseStep (hR.steadyLeft h))
    (advances_caseStep (hR.steadyRight h))) _

theorem caseEnd (h : R b false (c .wholeExpr) (d .wholeExpr)) (operand : Option Expr)
    (branches : List CaseBranch) :
    R b true (caseEnd c operand branches) (Grammar.caseEnd d operand branches) := by
  refine hR.guarded (hR.rejectCurrent _) (hR.bind (hR.takeKeyword .ELSE) fun found => ?_)
  refine hR.either (hR.map _ h) (hR.weaken (hR.pure _)) (fun _ => ?_) (fun _ => ?_) fun _ => ?_
  · exact hR.bind (hR.keyword _) fun _ => hR.pure _
  · exact (waits_keyword (by decide)).bind_firm
  · exact (waits_keyword (by decide)).bind_firm

theorem caseRule (h : R b false (c .wholeExpr) (d .wholeExpr)) :
    R b true (caseRule c) (Grammar.caseRule d) := by
  refine hR.bind (hR.keyword _) fun _ => hR.atKeyword_bind _ fun here => ?_
  refine hR.either (hR.weaken (hR.pure _)) (hR.map _ h) (fun operand => ?_) (fun _ => ?_) fun _ => ?_
  · exact hR.bindOpen (hR.caseBranches h) (hR.caseEnd h operand) (waits_caseEnd c operand)
      (waits_caseEnd d operand)
  · exact (waits_caseBranches c).bind (waits_caseEnd c _)
  · exact (waits_caseBranches d).bind (waits_caseEnd d _)

theorem castRule (h : R b false (c .wholeExpr) (d .wholeExpr)) :
    R b true (castRule c) (Grammar.castRule d) :=
  hR.bind (hR.keyword _) fun _ => hR.bind (hR.symbol _) fun _ =>
    hR.beforeKeyword (by decide) h fun _ _ => hR.bind hR.dataType fun _ =>
      hR.bind (hR.symbol _) fun _ => hR.pure _

theorem positionRule (h : R b false (c .wholeExpr) (d .wholeExpr))
    (hsep : R b false (Parser.atSeparator (c .wholeExpr)) (Parser.atSeparator (d .wholeExpr))) :
    R b true (positionRule c) (Grammar.positionRule d) :=
  hR.bind hR.callName fun _ => hR.beforeKeyword (by decide) hsep fun _ _ =>
    hR.beforeSymbol h fun _ _ => hR.pure _

theorem extractRule (h : R b false (c .wholeExpr) (d .wholeExpr)) :
    R b true (extractRule c) (Grammar.extractRule d) :=
  hR.bind hR.callName fun _ => hR.bind hR.datetimeUnit fun _ => hR.bind (hR.keyword _) fun _ =>
    hR.beforeSymbol h fun _ _ => hR.pure _

theorem getFormatRule (h : R b false (c .wholeExpr) (d .wholeExpr)) :
    R b true (getFormatRule c) (Grammar.getFormatRule d) :=
  hR.bind hR.callName fun _ => hR.bind hR.formatTarget fun _ => hR.bind (hR.symbol _) fun _ =>
    hR.beforeSymbol h fun _ _ => hR.pure _

theorem timestampRule (h : R b false (c .wholeExpr) (d .wholeExpr))
    (function : TimestampFunction) :
    R b true (timestampRule c function) (Grammar.timestampRule d function) :=
  hR.bind hR.callName fun _ => hR.bind hR.singleUnit fun _ => hR.bind (hR.symbol _) fun _ =>
    hR.beforeSymbol h fun _ _ => hR.beforeSymbol h fun _ _ => hR.pure _

theorem shapeRule (family : FunctionFamily)
    (hscalar : ∀ category, R b true (c (.scalar category)) (d (.scalar category)))
    (hranking : ∀ function, R b true (c (.ranking function)) (d (.ranking function)))
    (haggregate : ∀ function, R b true (c (.aggregate function)) (d (.aggregate function)))
    (hpercentile : ∀ function, R b true (c (.percentile function)) (d (.percentile function)))
    (htail : ∀ aggregate, R b false (c (.aggregateTail aggregate)) (d (.aggregateTail aggregate)))
    (hscore : R b true (c .score) (d .score))
    (hrelevance : ∀ kind, R b true (c (.relevance kind)) (d (.relevance kind)))
    (hposition : R b true (c .position) (d .position))
    (hextract : R b true (c .extract) (d .extract))
    (hgetFormat : R b true (c .getFormat) (d .getFormat))
    (htimestamp : ∀ function, R b true (c (.timestamp function)) (d (.timestamp function))) :
    R b false (shapeRule c family) (Grammar.shapeRule d family) := by
  cases family with
  | nested =>
    have hnested (k : Cursor) : R b false
        (if startsNestedAll k.ahead then Parser.nestedAll else c (.scalar .nested))
        (if startsNestedAll k.ahead then Parser.nestedAll else d (.scalar .nested)) := by
      split
      · exact hR.weaken hR.nestedAll
      · exact hR.weaken (hscalar _)
    exact hR.cursor_bind hnested
  | scalar category => exact hR.weaken (hscalar category)
  | ranking function => exact hR.weaken (hranking function)
  | aggregate function => exact hR.bind (haggregate function) htail
  | percentile function => exact hR.bind (hpercentile function) htail
  | score => exact hR.weaken hscore
  | relevance kind => exact hR.weaken (hR.map _ (hrelevance kind))
  | highlight => exact hR.weaken hR.highlight
  | position => exact hR.weaken hposition
  | extract => exact hR.weaken hextract
  | getFormat => exact hR.weaken hgetFormat
  | timestamp function => exact hR.weaken (htimestamp function)

theorem callShape (hcase : R b true (c .case) (d .case)) (hcast : R b true (c .cast) (d .cast))
    (hscalar : ∀ category, R b true (c (.scalar category)) (d (.scalar category)))
    (hshape : ∀ family, R b false (c (.shape family)) (d (.shape family))) :
    R b false (callShape c) (Grammar.callShape d) := by
  refine hR.current_bind fun t => ?_
  split
  · exact hR.weaken hcase
  · exact hR.weaken hcast
  · exact hR.weaken (hscalar _)
  · exact hR.weaken (hscalar _)
  · exact hR.weaken (hscalar _)
  · exact hR.weaken (hscalar _)
  · split
    · exact hshape _
    · exact hR.weaken (hR.reject _)
  · exact hR.weaken (hR.reject _)

theorem callBody (hcase : R b true (c .case) (d .case)) (hcast : R b true (c .cast) (d .cast))
    (hscalar : ∀ category, R b true (c (.scalar category)) (d (.scalar category)))
    (hshape : ∀ family, R b false (c (.shape family)) (d (.shape family))) :
    R b false (callBody c) (Grammar.callBody d) :=
  hR.current_bind fun _ => hR.thenSpan (hR.callShape hcase hcast hscalar hshape) _ _

/-! ## Aggregates -/

theorem aggregateForm (h : R b false (c .wholeExpr) (d .wholeExpr))
    (function : AggregateFunction) :
    R b false (aggregateRule.form c function) (Grammar.aggregateRule.form d function) := by
  have hregular := hR.map (Aggregate.regular function) h
  unfold Grammar.aggregateRule.form
  dsimp only
  split
  · refine hR.bind (hR.takeSymbol .star) fun star => ?_
    cases star with
    | true => exact hR.weaken (hR.pure _)
    | false =>
      refine hR.bind (hR.takeKeyword .DISTINCT) fun distinct => ?_
      cases distinct with
      | true => exact hR.map _ (hR.commaSeparated _ h)
      | false => exact hregular
  · exact hregular

theorem aggregateRule (h : R b false (c .wholeExpr) (d .wholeExpr))
    (function : AggregateFunction) :
    R b true (aggregateRule c function) (Grammar.aggregateRule d function) :=
  hR.bind hR.callName fun _ => hR.beforeSymbol (hR.aggregateForm h function) fun _ _ =>
    hR.pure _

theorem percentileRule (h : R b false (c .wholeExpr) (d .wholeExpr))
    (function : PercentileFunction) :
    R b true (percentileRule c function) (Grammar.percentileRule d function) := by
  refine hR.bind hR.callName fun _ => hR.beforeSymbol h fun _ _ => hR.bind hR.number fun _ => ?_
  refine hR.bind (hR.takeSymbol _) fun found => ?_
  have hrest (compression : Option Constant) (field : Expr) (percent : Constant) : R b true
      (do
        let _ ← Parser.symbol .rightParen
        return .percentile function field percent compression : Parser Aggregate)
      (do
        let _ ← Parser.symbol .rightParen
        return .percentile function field percent compression) :=
    hR.bind (hR.symbol _) fun _ => hR.pure _
  cases found with
  | true => exact hR.bind (hR.map _ hR.number) fun _ => hrest _ _ _
  | false => exact hR.bind (hR.pure _) fun _ => hrest _ _ _

theorem orderByRule (h : R b false (c .orderItem) (d .orderItem)) :
    R b false (orderByRule c) (Grammar.orderByRule d) :=
  hR.bind (hR.keyword _) fun _ => hR.bind (hR.keyword _) fun _ =>
    hR.thenSpan (hR.commaSeparated _ h) _ _

theorem direction : R b true direction Grammar.direction := by
  refine hR.bind (hR.takeKeyword .ASC) fun ascending => ?_
  cases ascending with
  | true => exact hR.pure _
  | false =>
    refine hR.bind (hR.takeKeyword .DESC) fun descending => ?_
    cases descending with
    | true => exact hR.pure _
    | false => exact hR.pure _

theorem nullOrder : R b true nullOrder Grammar.nullOrder := by
  refine hR.bind (hR.takeKeyword .NULLS) fun nulls => ?_
  cases nulls with
  | false => exact hR.pure _
  | true =>
    refine hR.bind (hR.takeKeyword .FIRST) fun first => ?_
    cases first with
    | true => exact hR.pure _
    | false =>
      refine hR.bind (hR.takeKeyword .LAST) fun last => ?_
      cases last with
      | true => exact hR.pure _
      | false => exact hR.bind (hR.rejectCurrent _) fun _ => hR.pure _

theorem orderItemRule (h : R b false (c .wholeExpr) (d .wholeExpr)) :
    R b false (orderItemRule c) (Grammar.orderItemRule d) := by
  have hrest (expr : Expr) : Waits false (do
      let direction ← Grammar.direction
      let nulls ← Grammar.nullOrder
      return ⟨expr, direction, nulls⟩ : Parser OrderItem) :=
    waits_direction.bind fun _ => waits_nullOrder.bind fun _ => waits_pure _
  exact hR.bindOpen h (fun _ => hR.weaken (hR.bind hR.direction fun _ =>
    hR.bind hR.nullOrder fun _ => hR.pure _)) hrest hrest

theorem partitionBy (h : R b false (c .wholeExpr) (d .wholeExpr)) :
    R b false (partitionBy c) (Grammar.partitionBy d) := by
  refine hR.atKeyword_bind _ fun here => ?_
  cases here with
  | true =>
    exact hR.bind hR.take fun _ => hR.bind (hR.keyword _) fun _ =>
      hR.thenSpan (hR.commaSeparated _ h) _ _
  | false => exact hR.weaken (hR.pure _)

theorem filterRule (h : R b false (c .wholeExpr) (d .wholeExpr)) :
    R b true (filterRule c) (Grammar.filterRule d) :=
  hR.bind (hR.keyword _) fun _ => hR.bind (hR.symbol _) fun _ => hR.bind (hR.keyword _) fun _ =>
    hR.beforeSymbol h fun _ _ => hR.bind (hR.spanFrom _) fun _ => hR.pure _

theorem rankingRule (hargs : R b true (c .arguments) (d .arguments))
    (hwindow : R b true (c .window) (d .window)) (function : RankingFunction) :
    R b true (rankingRule c function) (Grammar.rankingRule d function) :=
  hR.bind hR.callName fun _ => hR.bind hargs fun _ => hR.map _ hwindow

theorem orderedFilter (horder : R b false (c .orderBy) (d .orderBy))
    (hfilter : R b true (c .filter) (d .filter)) (hc : Waits true (c .filter))
    (hd : Waits true (d .filter)) : R b true (orderedFilter c) (Grammar.orderedFilter d) :=
  hR.bindOpen horder (fun _ => hR.map _ hfilter) (fun _ => hc.bind_firm) (fun _ => hd.bind_firm)

theorem tailAround {ordered ordered' : Parser (Option (OrderBy × Filter))}
    (hwindow : R b true (c .window) (d .window)) (hfilter : R b true (c .filter) (d .filter))
    (hordered : R b false ordered ordered') (aggregate : Aggregate) :
    R b false (tailAround c aggregate ordered) (Grammar.tailAround d aggregate ordered') := by
  refine hR.atKeyword_bind _ fun windowed => ?_
  cases windowed with
  | true => exact hR.weaken (hR.map _ hwindow)
  | false =>
    refine hR.atKeyword_bind _ fun filter => ?_
    cases filter with
    | true => exact hR.weaken (hR.map _ hfilter)
    | false =>
      refine hR.atKeyword_bind _ fun order => ?_
      cases order with
      | true =>
        refine hR.bindOpen hordered (fun found => ?_) (fun found => ?_) fun found => ?_
        · cases found <;> exact hR.weaken (hR.pure _)
        · cases found <;> exact waits_pure _
        · cases found <;> exact waits_pure _
      | false => exact hR.weaken (hR.pure _)

/-! ## Expressions -/

theorem logicalOperand (hnot : R b false (c (.expr notPrecedence)) (d (.expr notPrecedence)))
    (hpredicate : R b false (c (.predicate 0)) (d (.predicate 0))) :
    R b false (logicalOperand c) (Grammar.logicalOperand d) := by
  refine hR.atKeyword_bind _ fun here => ?_
  cases here with
  | true => exact hR.bind hR.take fun _ => hR.thenSpan hnot _ _
  | false => exact hR.map _ hpredicate

theorem logicalStep (h : ∀ least, R b false (c (.expr least)) (d (.expr least))) (least : Nat)
    (expr : Expr) : R b false (logicalStep c least expr) (Grammar.logicalStep d least expr) := by
  refine hR.current_bind fun t => ?_
  split
  · exact hR.weaken (hR.pure _)
  · split
    · exact hR.weaken (hR.pure _)
    · exact hR.bind (hR.skip 1) fun _ => hR.map _ (h _)

theorem exprBody (hexpr : ∀ least, R b false (c (.expr least)) (d (.expr least)))
    (hpredicate : R b false (c (.predicate 0)) (d (.predicate 0))) (least : Nat) :
    R b false (exprBody c least) (Grammar.exprBody d least) :=
  hR.bindOpen (hR.logicalOperand (hexpr _) hpredicate)
    (fun expr => hR.loop expr (hR.logicalStep hexpr least) (fun _ => waits_logicalStep c least)
      (fun _ => waits_logicalStep d least)
      (advances_logicalStep (fun m => hR.steadyLeft (hexpr m)) least)
      (advances_logicalStep (fun m => hR.steadyRight (hexpr m)) least))
    (waits_loop (waits_logicalStep c least)) (waits_loop (waits_logicalStep d least))

theorem testRule (test : Test)
    (hpredicate : R b false (c (.predicate (test.precedence + 1)))
      (d (.predicate (test.precedence + 1))))
    (hexpr : R b false (c .wholeExpr) (d .wholeExpr)) (tested : Predicate) :
    R b false (testRule c tested test) (Grammar.testRule d tested test) := by
  cases test with
  | comparison op => exact hR.map _ hpredicate
  | isNull negated => exact hR.weaken (hR.bind (hR.keyword _) fun _ => hR.pure _)
  | between negated =>
    exact hR.beforeKeyword (by decide) hpredicate fun _ _ => hR.map _ hpredicate
  | like negated => exact hR.map _ hpredicate
  | regexp negated => exact hR.map _ hpredicate
  | within negated =>
    exact hR.weaken (hR.bind (hR.symbol _) fun _ =>
      hR.beforeSymbol (hR.commaSeparated _ hexpr) fun _ _ =>
        hR.bind (hR.spanFrom _) fun _ => hR.pure _)

omit hR in
theorem advances_predicateStep (hpredicate : ∀ least, Steady (c (.predicate least)))
    (hexpr : Steady (c .wholeExpr)) (least : Nat) (tested : Predicate) :
    Advances (predicateStep c least tested) := by
  intro s t p h
  unfold predicateStep at h
  rw [get_bind_apply] at h
  cases hat : Test.at? s.cursor with
  | none =>
    rw [hat] at h
    cases (pure_eq_ok_iff.1 h).1
  | some found =>
    obtain ⟨test, width⟩ := found
    rw [hat] at h
    dsimp only at h
    split at h
    · cases (pure_eq_ok_iff.1 h).1
    · obtain ⟨hend, n, rfl⟩ := Test.at?_eq_some hat
      have hsteady : Steady (do return .yield (← Grammar.testRule c tested test) :
          Parser (ForInStep Predicate)) :=
        (steady_congruence.testRule (b := 0) (d := c) test ⟨hpredicate _, hpredicate _⟩
          ⟨hexpr, hexpr⟩ tested).1.bind fun _ => steady_pure _
      rw [skip_bind_apply] at h
      exact Nat.lt_of_le_of_lt (hsteady.leads h).ahead.length_le (ahead_skip_lt hend n)

theorem testStep (least : Nat)
    (hpredicate : ∀ test : Test, least ≤ test.precedence →
      R b false (c (.predicate (test.precedence + 1))) (d (.predicate (test.precedence + 1))))
    (hexpr : R b false (c .wholeExpr) (d .wholeExpr)) (tested : Predicate)
    (separates : Test → Bool) (k : Cursor) :
    R b false (testStep c least tested separates k)
      (Grammar.testStep d least tested separates k) := by
  unfold Grammar.testStep
  cases Test.at? k with
  | none => exact hR.weaken (hR.pure _)
  | some found =>
    obtain ⟨test, width⟩ := found
    dsimp only
    split
    · exact hR.weaken (hR.pure _)
    · next hbinds =>
      have hle : least ≤ test.precedence := by
        simp only [Bool.or_eq_true, decide_eq_true_eq, not_or, Nat.not_lt] at hbinds
        exact hbinds.1
      exact hR.bind (hR.skip _) fun _ =>
        hR.map _ (hR.testRule test (hpredicate test hle) hexpr tested)

theorem predicateStep (least : Nat)
    (hpredicate : ∀ test : Test, least ≤ test.precedence →
      R b false (c (.predicate (test.precedence + 1))) (d (.predicate (test.precedence + 1))))
    (hexpr : R b false (c .wholeExpr) (d .wholeExpr))
    (hseparator : ∀ s s', L s s' → ∀ test, s.isSeparator test = s'.isSeparator test)
    (tested : Predicate) :
    R b false (predicateStep c least tested) (Grammar.predicateStep d least tested) := by
  have hstep := hR.testStep least hpredicate hexpr tested
  rw [predicateStep_eq, predicateStep_eq]
  refine hR.get (fun s => hR.steadyLeft (hstep _ _)) (fun s => hR.steadyRight (hstep _ _))
    fun s s' hs => ?_
  rw [hR.cursor hs, funext (hseparator s s' hs)]
  exact hstep _ _

theorem predicateRule (least : Nat)
    (harithmetic : R b false (c (.arithmetic 0)) (d (.arithmetic 0)))
    (hpredicate : ∀ test : Test, least ≤ test.precedence →
      R b false (c (.predicate (test.precedence + 1))) (d (.predicate (test.precedence + 1))))
    (hexpr : R b false (c .wholeExpr) (d .wholeExpr))
    (hc : ∀ {α : Type} (n : Nonterminal α), Steady (c n))
    (hd : ∀ {α : Type} (n : Nonterminal α), Steady (d n))
    (hseparator : ∀ s s', L s s' → ∀ test, s.isSeparator test = s'.isSeparator test) :
    R b false (predicateRule c least) (Grammar.predicateRule d least) :=
  hR.bindOpen harithmetic
    (fun atom => hR.loop (.atom atom)
      (hR.predicateStep least hpredicate hexpr hseparator)
      (fun _ => waits_predicateStep c least) (fun _ => waits_predicateStep d least)
      (advances_predicateStep (fun _ => hc _) (hc _) least)
      (advances_predicateStep (fun _ => hd _) (hd _) least))
    (fun _ => waits_loop (waits_predicateStep c least) _)
    (fun _ => waits_loop (waits_predicateStep d least) _)

theorem arithmeticStep (least : Nat)
    (h : ∀ op : ArithmeticOp, least ≤ op.precedence →
      R b false (c (.arithmetic (op.precedence + 1))) (d (.arithmetic (op.precedence + 1))))
    (atom : Atom) :
    R b false (arithmeticStep c least atom) (Grammar.arithmeticStep d least atom) := by
  refine hR.current_bind fun t => ?_
  split
  · exact hR.weaken (hR.pure _)
  · next op _ =>
    split
    · exact hR.weaken (hR.pure _)
    · next hbinds => exact hR.bind (hR.skip 1) fun _ => hR.map _ (h op (Nat.not_lt.1 hbinds))

theorem arithmeticRule (least : Nat) (hoperand : R b false (c .operand) (d .operand))
    (h : ∀ op : ArithmeticOp, least ≤ op.precedence →
      R b false (c (.arithmetic (op.precedence + 1))) (d (.arithmetic (op.precedence + 1))))
    (hc : ∀ least, Steady (c (.arithmetic least))) (hd : ∀ least, Steady (d (.arithmetic least))) :
    R b false (arithmeticRule c least) (Grammar.arithmeticRule d least) :=
  hR.bindOpen hoperand
    (fun atom => hR.loop atom (hR.arithmeticStep least h)
      (fun _ => waits_arithmeticStep c least) (fun _ => waits_arithmeticStep d least)
      (advances_arithmeticStep hc least) (advances_arithmeticStep hd least))
    (waits_loop (waits_arithmeticStep c least)) (waits_loop (waits_arithmeticStep d least))

theorem fieldEqualsCall (h : R b true (c .fieldEquals) (d .fieldEquals)) :
    R b true (fieldEqualsCall c) (Grammar.fieldEqualsCall d) :=
  hR.current_bind fun _ => hR.bind h fun _ => hR.bind (hR.spanFrom _) fun _ => hR.pure _

theorem operandAt (hfieldEquals : R b true (c .fieldEquals) (d .fieldEquals))
    (hparenthesized : R b true (c .parenthesized) (d .parenthesized))
    (hconstant : R b true (c .constant) (d .constant)) (hcall : R b false (c .call) (d .call))
    (k : Cursor) : R b false (operandAt c k) (Grammar.operandAt d k) := by
  unfold Grammar.operandAt
  cases startsFieldEquals k.ahead with
  | true => exact hR.weaken (hR.map _ (hR.fieldEqualsCall hfieldEquals))
  | false =>
    cases k.operandForm? with
    | none => exact hR.weaken (hR.reject _)
    | some form =>
      cases form with
      | parenthesized => exact hR.weaken hparenthesized
      | constant => exact hR.weaken (hR.map _ hconstant)
      | call => exact hR.map _ hcall
      | column => exact hR.weaken (hR.map _ hR.qualifiedName)

theorem operandRule (hfieldEquals : R b true (c .fieldEquals) (d .fieldEquals))
    (hparenthesized : R b true (c .parenthesized) (d .parenthesized))
    (hconstant : R b true (c .constant) (d .constant)) (hcall : R b false (c .call) (d .call)) :
    R b false (operandRule c) (Grammar.operandRule d) := by
  rw [operandRule_eq, operandRule_eq]
  exact hR.cursor_bind (hR.operandAt hfieldEquals hparenthesized hconstant hcall)

theorem parenthesizedRule (h : R b false (c .wholeExpr) (d .wholeExpr)) :
    R b true (parenthesizedRule c) (Grammar.parenthesizedRule d) :=
  hR.bind (hR.symbol _) fun _ => hR.beforeSymbol h fun _ _ =>
    hR.bind (hR.spanFrom _) fun _ => hR.pure _

/-! ## Full-text search -/

theorem searchValueRule (h : R b true (c .constant) (d .constant)) :
    R b true (searchValueRule c) (Grammar.searchValueRule d) := by
  have hvalue (k : Cursor) : R b true
      (if k.startsConstant then SearchValue.constant <$> c .constant
        else SearchValue.name <$> Parser.qualifiedName)
      (if k.startsConstant then SearchValue.constant <$> d .constant
        else SearchValue.name <$> Parser.qualifiedName) := by
    split
    · exact hR.map _ h
    · exact hR.map _ hR.qualifiedName
  exact hR.cursor_bind hvalue

theorem relevanceOptionName : R b true relevanceOptionName Grammar.relevanceOptionName := by
  refine hR.current_bind fun t => ?_
  split
  · exact hR.bind (hR.skip 1) fun _ => hR.pure _
  · exact hR.bind (hR.optionName _ _) fun _ => hR.pure _

theorem relevanceStep (h : R b true (c .searchValue) (d .searchValue))
    (options : List RelevanceOption) :
    R b true (relevanceStep c options) (Grammar.relevanceStep d options) := by
  refine hR.bind (hR.takeSymbol .comma) fun found => ?_
  cases found with
  | true =>
    exact hR.bind hR.relevanceOptionName fun _ => hR.bind (hR.symbol _) fun _ =>
      hR.bind h fun _ => hR.pure _
  | false => exact hR.pure _

omit hR in
theorem advances_relevanceStep (h : Steady (c .searchValue)) (options : List RelevanceOption) :
    Advances (Grammar.relevanceStep c options) :=
  advances_takeSymbol_bind
    ((steady_congruence.relevanceOptionName (b := 0)).1.bind fun _ =>
      (steady_congruence.symbol (b := 0) _).1.bind fun _ => h.bind fun _ => steady_pure _)
    (advances_done options)

theorem relevanceOptionsRule (h : R b true (c .searchValue) (d .searchValue)) :
    R b true (relevanceOptionsRule c) (Grammar.relevanceOptionsRule d) := by
  rw [relevanceOptionsRule_eq, relevanceOptionsRule_eq]
  exact hR.bind (hR.loop [] (hR.relevanceStep h) nofun nofun
    (advances_relevanceStep (hR.steadyLeft h)) (advances_relevanceStep (hR.steadyRight h)))
    fun _ => hR.pure _

theorem namedArgument (h : R b true (c .searchValue) (d .searchValue)) :
    R b true (namedArgument c) (Grammar.namedArgument d) := by
  refine hR.current_bind fun t => ?_
  dsimp only
  split
  · exact hR.bind (hR.skip 1) fun _ => hR.bind (hR.symbol _) fun _ => hR.map _ h
  · split
    · refine hR.bind (hR.skip 1) fun _ => hR.bind (hR.symbol _) fun _ => ?_
      refine hR.atSymbol_bind _ fun bracket => ?_
      cases bracket with
      | true => exact hR.map _ hR.fieldList
      | false => exact hR.bind hR.weightedField fun _ => hR.pure _
    · exact hR.rejectCurrent _

theorem namedArgumentsRule (h : R b true (c .searchValue) (d .searchValue)) :
    R b true (namedArgumentsRule c) (Grammar.namedArgumentsRule d) := by
  refine hR.bind (hR.namedArgument h) fun first => hR.bind (hR.symbol _) fun _ =>
    hR.bind (hR.namedArgument h) fun second => ?_
  cases first with
  | query query =>
    cases second with
    | query _ => exact hR.rejectCurrent _
    | fields fields => exact hR.pure _
  | fields fields =>
    cases second with
    | query query => exact hR.pure _
    | fields _ => exact hR.rejectCurrent _

theorem searchTarget (hvalue : R b true (c .searchValue) (d .searchValue))
    (hnamed : R b true (c .namedArguments) (d .namedArguments)) (kind : RelevanceKind) :
    R b true (searchTarget c kind) (Grammar.searchTarget d kind) := by
  cases kind with
  | noField => exact hR.map _ hvalue
  | singleField =>
    exact hR.bind hR.field fun _ => hR.bind (hR.symbol _) fun _ => hR.map _ hvalue
  | multiField =>
    refine hR.current_bind fun t => hR.peek_bind 1 fun u => ?_
    split
    · exact hR.bind hnamed fun _ => hR.pure _
    · exact hR.bind hR.fieldList fun _ => hR.bind (hR.symbol _) fun _ => hR.map _ hvalue

theorem relevanceRule (hvalue : R b true (c .searchValue) (d .searchValue))
    (hnamed : R b true (c .namedArguments) (d .namedArguments))
    (hoptions : R b true (c .relevanceOptions) (d .relevanceOptions)) (kind : RelevanceKind) :
    R b true (relevanceRule c kind) (Grammar.relevanceRule d kind) :=
  hR.bind hR.callName fun _ => hR.bind (hR.searchTarget hvalue hnamed kind) fun _ =>
    hR.bind hoptions fun _ => hR.bind (hR.symbol _) fun _ => hR.pure _

theorem fieldEqualsRule (hvalue : R b true (c .searchValue) (d .searchValue))
    (hoptions : R b true (c .relevanceOptions) (d .relevanceOptions)) :
    R b true (fieldEqualsRule c) (Grammar.fieldEqualsRule d) := by
  refine hR.bind hR.field fun _ => hR.bind (hR.symbol _) fun _ => hR.current_bind fun t => ?_
  split
  · exact hR.bind hR.callName fun _ => hR.bind hvalue fun _ => hR.bind hoptions fun _ =>
      hR.bind (hR.symbol _) fun _ => hR.pure _
  · exact hR.rejectCurrent _

theorem scoredRelevance (hfieldEquals : R b true (c .fieldEquals) (d .fieldEquals))
    (hrelevance : ∀ kind, R b true (c (.relevance kind)) (d (.relevance kind))) :
    R b true (scoredRelevance c) (Grammar.scoredRelevance d) := by
  have hnamed : R b true (Grammar.namedRelevance c) (Grammar.namedRelevance d) := by
    refine hR.current_bind fun t => ?_
    split
    · exact hrelevance _
    · exact hR.reject _
  have hscored (k : Cursor) : R b true
      (if startsFieldEquals k.ahead then c .fieldEquals else Grammar.namedRelevance c)
      (if startsFieldEquals k.ahead then d .fieldEquals else Grammar.namedRelevance d) := by
    split
    · exact hfieldEquals
    · exact hnamed
  exact hR.cursor_bind hscored

theorem scoreRule (hfieldEquals : R b true (c .fieldEquals) (d .fieldEquals))
    (hrelevance : ∀ kind, R b true (c (.relevance kind)) (d (.relevance kind))) :
    R b true (scoreRule c) (Grammar.scoreRule d) := by
  refine hR.bind hR.callName fun _ => hR.bind (hR.scoredRelevance hfieldEquals hrelevance)
    fun _ => hR.bind (hR.takeSymbol .comma) fun found => ?_
  cases found with
  | true =>
    exact hR.bind (hR.map _ hR.weight) fun _ => hR.bind (hR.symbol _) fun _ => hR.pure _
  | false => exact hR.bind (hR.pure _) fun _ => hR.bind (hR.symbol _) fun _ => hR.pure _

/-! ## Windows -/

theorem windowEnd (h : R b false (c .orderBy) (d .orderBy)) (start : Span)
    (partition : Option PartitionBy) :
    R b true (windowEnd c start partition) (Grammar.windowEnd d start partition) := by
  have hrest (orderBy : Option OrderBy) : R b true
      (do
        let _ ← Parser.symbol .rightParen
        return ⟨partition, orderBy, ← Parser.spanFrom start⟩ : Parser Window)
      (do
        let _ ← Parser.symbol .rightParen
        return ⟨partition, orderBy, ← Parser.spanFrom start⟩) :=
    hR.bind (hR.symbol _) fun _ => hR.bind (hR.spanFrom _) fun _ => hR.pure _
  refine hR.atKeyword_bind _ fun here => ?_
  cases here with
  | true =>
    exact hR.bindOpen (hR.map _ h) hrest (fun _ => (waits_symbol _).bind_firm)
      (fun _ => (waits_symbol _).bind_firm)
  | false => exact hR.bind (hR.pure _) hrest

/-- Whoever reads the partition of a window too far fails, since behind the order that is left no
closing parenthesis follows. -/
theorem windowRule (hexpr : R b false (c .wholeExpr) (d .wholeExpr))
    (horder : R b false (c .orderBy) (d .orderBy)) (hleft : StopsAtFilter (left b) c)
    (hright : StopsAtFilter (right b) d) : R b true (windowRule c) (Grammar.windowRule d) :=
  hR.bind (hR.keyword _) fun _ => hR.bind (hR.symbol _) fun _ =>
    hR.bindStays (hR.partitionBy hexpr) (hR.windowEnd horder _)
      (hleft.windowEnd hR.left_atOrder _) (hright.windowEnd hR.right_atOrder _)

end Congruence

end SearchSql.Grammar
