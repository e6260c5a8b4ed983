import SearchSql.Proofs.Taking

/-!
# Rules meet contracts

Every rule meets a lawful contract if its callees do, one lemma for each rule. So a whole parse meets
it (`Contract.Lawful.runRoot`).

Only a few rules refuse something else than the token under the cursor: a number that is too large
has been passed when it is refused, and so has a unit of time that counts more than one unit, or a
literal without a value.
-/

set_option autoImplicit false

namespace SearchSql

/-- A span merged with itself is that span. -/
theorem Span.merge_self (s : Span) : s.merge s = s := by
  simp [Span.merge]

/-- To pass tokens and one more is to pass them all. -/
theorem Cursor.skip_skip_one (c : Cursor) (n : Nat) : (c.skip n).skip 1 = c.skip (n + 1) := by
  induction n generalizing c with
  | zero => rfl
  | succ n ih => exact ih c.advance

namespace Grammar

open SearchSql.Grammar.Parser

theorem State.skip_skip_one (s : State) (n : Nat) : (s.skip n).skip 1 = s.skip (n + 1) := by
  unfold State.skip
  rw [Cursor.skip_skip_one]

/-- A string takes one token, which is not the end. -/
theorem string_eq_ok {s t : State} {text : String} (h : string s = .ok text t) :
    s.cursor.current.isEnd = false ∧ t = s.skip 1 := by
  unfold Parser.string at h
  rw [current_bind_apply] at h
  cases hkind : s.cursor.current.kind with
  | string value =>
    rw [hkind] at h
    cases h
    exact ⟨isEnd_eq_false (by simp [hkind]), rfl⟩
  | _ =>
    rw [hkind] at h
    cases h

/-- So does a unit. -/
theorem datetimeUnit_eq_ok {s t : State} {unit : DatetimeUnit} (h : datetimeUnit s = .ok unit t) :
    s.cursor.current.isEnd = false ∧ t = s.skip 1 := by
  unfold Parser.datetimeUnit at h
  rw [current_bind_apply] at h
  cases hunit : s.cursor.current.kind.bareWord?.bind DatetimeUnit.ofText? with
  | none =>
    rw [hunit] at h
    cases h
  | some found =>
    rw [hunit] at h
    cases h
    refine ⟨isEnd_eq_false fun hkind => ?_, rfl⟩
    rw [hkind] at hunit
    cases hunit

namespace Contract

variable {α β : Type} {C : Contract} (hC : C.Lawful)

include hC

/-! ## Names and numbers -/

/-- A lawful contract is kept by all names. -/
theorem Lawful.ident : C.Meets ident := by
  have hreject : C.Meets (Parser.rejectCurrent "identifier" : Parser Ident) := hC.rejectCurrent _
  refine meets_current_bind fun t => ?_
  split
  · exact hC.take.bind fun _ => meets_pure _
  · exact hC.take.bind fun _ => meets_pure _
  · split
    · exact hC.take.bind fun _ => meets_pure _
    · exact hreject
  · refine meets_peek_bind 1 fun u => ?_
    split
    · exact hC.take.bind fun _ => hC.take.bind fun _ => meets_pure _
    · exact hreject
  · exact hreject

theorem Lawful.qualifiedName : C.Meets qualifiedName := by
  have hpart (names : List Ident × Span) : C.Meets (namePart names) := by
    refine meets_atSymbol_bind .dot fun here => meets_peek_bind 1 fun t => ?_
    split
    · exact (hC.skip 1).bind fun _ => hC.ident.bind fun _ => meets_pure _
    · exact meets_pure _
  rw [qualifiedName_eq]
  exact hC.ident.bind fun first => (Meets.loop hpart _).bind fun _ => meets_pure _

theorem Lawful.optionalAlias : C.Meets optionalAlias := by
  refine (hC.takeKeyword .AS).bind fun found => ?_
  cases found with
  | true => exact hC.ident.map _
  | false =>
    refine meets_current_bind fun t => ?_
    split
    · exact hC.ident.map _
    · exact meets_pure none

/-- The literal made of the single token under the cursor may be refused behind it. -/
theorem Lawful.refuses_single {s : State} (hs : C.keeps s) (hend : s.cursor.current.isEnd = false)
    (literal reason : String) :
    C.refuses (.malformed literal reason s.cursor.current.span) (s.skip 1) := by
  have hrefuses := hC.refuses_literal literal reason 0 hs hend (hC.skip_one hs hend)
  have hspan : (s.skip 1).cursor.previousSpan = s.cursor.current.span :=
    Cursor.previousSpan_skip_one hend
  rwa [Nat.zero_add, hspan, Span.merge_self] at hrefuses

/-- What stands behind a refusal is not run. -/
theorem Lawful.rejectCurrent_bind (expected : String) (f : α → Parser β) :
    C.Meets (Parser.rejectCurrent expected >>= f) := fun s hs =>
  Ends.bind (hC.rejectCurrent expected s hs) fun _ _ h _ => absurd h rejectCurrent_ne_ok

theorem Lawful.count : C.Meets count := by
  intro s hs
  unfold Parser.count
  rw [current_bind_apply]
  dsimp only
  split
  · exact hC.rejectCurrent_bind _ _ s hs
  · next hkind =>
    have hend : s.cursor.current.isEnd = false := by
      apply isEnd_eq_false
      intro heq
      simp [heq] at hkind
    rw [skip_bind_apply]
    cases Number.readUnsigned s.cursor.current.text with
    | ok n => exact hC.skip_one hs hend
    | error fault => exact hC.refuses_single hs hend _ _

theorem Lawful.weight : C.Meets weight := by
  intro s hs
  unfold Parser.weight
  rw [current_bind_apply]
  dsimp only
  split
  · exact hC.rejectCurrent_bind _ _ s hs
  · next hkind =>
    have hend : s.cursor.current.isEnd = false := Token.isEnd_of_isNumber (by simpa using hkind)
    rw [skip_bind_apply]
    cases Number.readReal s.cursor.current.text with
    | ok x => exact hC.skip_one hs hend
    | error fault => exact hC.refuses_single hs hend _ _

theorem Lawful.datetimeUnit : C.Meets datetimeUnit := by
  refine meets_current_bind fun t => ?_
  split
  · exact (hC.skip 1).bind fun _ => meets_pure _
  · exact hC.rejectCurrent _

theorem Lawful.field : C.Meets field := by
  refine meets_current_bind fun t => ?_
  split
  · exact hC.take.bind fun _ => meets_pure _
  · exact hC.qualifiedName.bind fun _ => meets_pure _

theorem Lawful.weightedField : C.Meets weightedField := by
  have hweighted (f : Field) : C.Meets (do
      return ⟨f, some (← Parser.weight)⟩ : Parser WeightedField) :=
    hC.weight.bind fun _ => meets_pure _
  refine hC.field.bind fun f => (hC.takeSymbol .caret).bind fun found => ?_
  split
  · exact hweighted f
  · refine meets_current_bind fun t => ?_
    split
    · exact hweighted f
    · exact meets_pure _

theorem Lawful.fieldList : C.Meets fieldList :=
  (hC.symbol .leftBracket).bind fun _ => (hC.weightedField.commaSeparated hC consumes_weightedField _).bind fun _ =>
    (hC.symbol .rightBracket).bind fun _ => meets_pure _

/-! ## Patterns -/

/-- It is kept by patterns and what is written with them. -/
theorem Lawful.pattern : C.Meets pattern := by
  refine meets_current_bind fun t => ?_
  split
  · exact (hC.skip 1).bind fun _ => meets_pure _
  · refine meets_get_bind fun s => (hC.skip _).bind fun _ => ?_
    dsimp only
    split
    · exact hC.rejectCurrent_bind _ _
    · exact meets_pure _

theorem Lawful.likePattern : C.Meets likePattern := (hC.keyword .LIKE).bind fun _ => hC.pattern

theorem Lawful.nameFilter : C.Meets nameFilter :=
  meets_current_bind fun _ => hC.likePattern.bind fun _ => (meets_spanFrom _).bind fun _ =>
    meets_pure _

theorem Lawful.showTables : C.Meets showTables :=
  (hC.keyword .SHOW).bind fun start => (hC.keyword .TABLES).bind fun _ =>
    hC.nameFilter.bind fun _ => (meets_spanFrom start).bind fun _ => meets_pure _

theorem Lawful.columnFilter : C.Meets columnFilter := by
  refine meets_atKeyword_bind .COLUMNS fun here => ?_
  cases here with
  | true =>
    exact hC.take.bind fun start => hC.likePattern.bind fun _ =>
      (meets_spanFrom start).bind fun _ => meets_pure _
  | false => exact meets_pure none

theorem Lawful.describe : C.Meets describe :=
  (hC.keyword .DESCRIBE).bind fun start => (hC.keyword .TABLES).bind fun _ =>
    hC.nameFilter.bind fun _ => hC.columnFilter.bind fun _ =>
      (meets_spanFrom start).bind fun _ => meets_pure _

/-! ## Literals -/

/-- The literal that started at `s` and ends in front of the cursor may be refused. -/
theorem Lawful.malformed_behind {s : State} (hs : C.keeps s)
    (hend : s.cursor.current.isEnd = false) (n : Nat) (kind : LiteralKind) (text : String)
    (fault : LiteralFault) :
    C.Ends (Parser.malformedLiteral kind text fault
      (s.cursor.current.span.merge (s.skip (n + 1)).cursor.previousSpan) (s.skip (n + 1))) :=
  hC.malformedLiteral (hC.refuses_literal _ _ n hs hend (hC.keeps_skip hs _)) rfl

/-- A number that is out of range is refused at its own place, behind the tokens that were taken for
it. -/
theorem Lawful.numberLiteral_behind {s : State} (hs : C.keeps s)
    (hend : s.cursor.current.isEnd = false) (n : Nat) (kind : TokenKind) (text : String) :
    C.Ends (Parser.numberLiteral kind text
      (s.cursor.current.span.merge (s.skip (n + 1)).cursor.previousSpan) (s.skip (n + 1))) := by
  unfold Parser.numberLiteral
  split
  · cases Number.readSigned text with
    | ok value => exact hC.keeps_skip hs _
    | error fault => exact hC.malformed_behind hs hend n _ _ _
  · cases Number.readReal text with
    | ok value => exact hC.keeps_skip hs _
    | error fault => exact hC.malformed_behind hs hend n _ _ _

/-- So is a date or time that the library cannot read. -/
theorem Lawful.temporalLiteral_behind {s : State} (hs : C.keeps s)
    (hend : s.cursor.current.isEnd = false) (n : Nat) (kind : TemporalKind) (text : String) :
    C.Ends (Parser.temporalLiteral kind text
      (s.cursor.current.span.merge (s.skip (n + 1)).cursor.previousSpan) (s.skip (n + 1))) := by
  unfold Parser.temporalLiteral
  rw [get_bind_apply]
  cases kind.read (s.skip (n + 1)).library text with
  | ok value => exact hC.keeps_skip hs _
  | error fault => exact hC.malformed_behind hs hend n _ _ _

/-- The number behind `n` tokens for its sign. -/
theorem Lawful.numberBehind {s : State} (hs : C.keeps s) (hend : s.cursor.current.isEnd = false)
    (n : Nat) (negative : Bool) :
    C.Ends (Likeness.numberBehind s.cursor.current.span negative (s.skip n)) := by
  unfold Likeness.numberBehind
  rw [current_bind_apply]
  dsimp only
  split
  · exact hC.rejectCurrent_bind _ _ _ (hC.keeps_skip hs n)
  · rw [skip_bind_apply, spanFrom_bind_apply, State.skip_skip_one]
    exact (hC.numberLiteral_behind hs hend n _ _).bind fun _ _ _ ht => ht

/-- At an end of input no number starts. -/
theorem Lawful.number : C.Meets number := by
  intro s hs
  rw [Likeness.number_eq, current_bind_apply]
  cases hend : s.cursor.current.isEnd with
  | true =>
    have hkind : IsEndKind s.cursor.current.kind := .inl (eq_of_beq hend)
    rw [Likeness.numberFrom_of_isEndKind _ hkind]
    exact hC.refuses_current hs (.unexpected _)
  | false =>
    unfold Likeness.numberFrom
    rw [takeSymbol_bind_apply]
    split
    · exact hC.numberBehind hs hend 1 true
    · show C.Ends ((Parser.takeSymbol .plus >>= fun _ => Likeness.numberBehind _ false) s)
      rw [takeSymbol_bind_apply]
      split
      · exact hC.numberBehind hs hend 1 false
      · exact hC.numberBehind hs hend 0 false

/-- A string, and what is done with it behind it. -/
theorem Lawful.string_bind {s : State} (hs : C.keeps s) {f : String → Parser α}
    (hf : ∀ value, C.Ends (f value (s.skip 1))) : C.Ends ((Parser.string >>= f) s) := by
  refine Ends.bind (hC.string s hs) fun value t h _ => ?_
  rw [(string_eq_ok h).2]
  exact hf value

/-- A date or time starts with a word, which is where it is refused. -/
theorem Lawful.wordLiteral {t : Token} (hend : t.isEnd = false) (kind : TemporalKind) :
    C.MeetsAt t (wordLiteral kind) := by
  intro s hs ht
  subst ht
  unfold Parser.wordLiteral
  rw [take_bind_apply]
  refine hC.string_bind (hC.keeps_skip hs 1) fun text => ?_
  rw [spanFrom_bind_apply]
  exact hC.temporalLiteral_behind hs hend 1 kind text

theorem Lawful.bracedLiteral : C.Meets bracedLiteral := by
  intro s hs
  refine Ends.bind (hC.symbol .leftBrace s hs) fun start t h ht => ?_
  obtain ⟨hkind, rfl, rfl⟩ := symbol_eq_ok_iff.1 h
  have hend : s.cursor.current.isEnd = false := by
    apply isEnd_eq_false
    intro heq
    rw [heq] at hkind
    cases hkind
  rw [current_bind_apply]
  cases TemporalKind.ofKind? (s.skip 1).cursor.current.kind with
  | none => exact hC.rejectCurrent _ _ ht
  | some kind =>
    dsimp only
    rw [skip_bind_apply]
    refine hC.string_bind (hC.keeps_skip hs 2) fun text => ?_
    refine Ends.bind (hC.symbol .rightBrace _ (hC.keeps_skip hs 3)) fun _ u h _ => ?_
    obtain ⟨-, -, rfl⟩ := symbol_eq_ok_iff.1 h
    rw [spanFrom_bind_apply]
    exact hC.temporalLiteral_behind hs hend 3 kind text

theorem Lawful.datetimeConstant (name : DatetimeConstant) : C.Meets (datetimeConstant name) := by
  refine (hC.skip 1).bind fun _ => (hC.takeSymbol .leftParen).bind fun parens => ?_
  dsimp only
  split
  · exact (hC.symbol .rightParen).bind fun _ => meets_pure _
  · exact meets_pure _

theorem Lawful.simpleLiteral (value : Literal) : C.Meets (simpleLiteral value) :=
  (hC.skip 1).bind fun _ => meets_pure _

/-! ## Calls without recursion -/

theorem Lawful.callName : C.Meets callName :=
  meets_current_bind fun _ => (hC.skip 1).bind fun _ => (hC.symbol .leftParen).bind fun _ =>
    meets_pure _

theorem Lawful.nestedAll : C.Meets nestedAll :=
  hC.callName.bind fun _ => hC.qualifiedName.bind fun _ => (hC.symbol .dot).bind fun _ =>
    (hC.symbol .star).bind fun _ => (hC.symbol .rightParen).bind fun _ => meets_pure _

theorem Lawful.optionName (names : List String) (expected : String) :
    C.Meets (optionName names expected) := by
  refine meets_current_bind fun t => ?_
  split
  · split
    · exact (hC.skip 1).bind fun _ => meets_pure _
    · exact hC.rejectCurrent _
  · exact hC.rejectCurrent _

theorem Lawful.highlightOptions : C.Meets highlightOptions := by
  have hstep (options : List HighlightOption) : C.Meets (highlightStep options) := by
    refine (hC.takeSymbol .comma).bind fun found => ?_
    cases found with
    | true =>
      exact (hC.optionName _ _).bind fun _ => (hC.symbol .eq).bind fun _ =>
        hC.string.bind fun _ => meets_pure _
    | false => exact meets_pure _
  rw [highlightOptions_eq]
  exact (Meets.loop hstep []).bind fun _ => meets_pure _

theorem Lawful.highlight : C.Meets highlight :=
  hC.callName.bind fun _ => hC.field.bind fun _ => hC.highlightOptions.bind fun _ =>
    (hC.symbol .rightParen).bind fun _ => meets_pure _

theorem Lawful.dataType : C.Meets dataType := by
  refine meets_current_bind fun t => ?_
  dsimp only
  split
  · exact (hC.skip 1).bind fun _ => meets_pure _
  · exact hC.rejectCurrent _

theorem Lawful.formatTarget : C.Meets formatTarget := by
  have htaken (target : FormatTarget) : C.Meets (formatTarget.taken target) :=
    (hC.skip 1).bind fun _ => meets_pure _
  refine meets_current_bind fun t => ?_
  split
  · exact htaken .date
  · exact htaken .datetime
  · exact htaken .time
  · exact htaken .timestamp
  · exact hC.rejectCurrent _

/-- A compound unit is refused behind it. -/
theorem Lawful.singleUnit : C.Meets singleUnit := by
  intro s hs
  unfold Parser.singleUnit
  rw [current_bind_apply]
  refine Ends.bind (hC.datetimeUnit s hs) fun unit t h ht => ?_
  obtain ⟨hend, rfl⟩ := datetimeUnit_eq_ok h
  dsimp only
  split
  · exact hC.refuses_passed _ hs hend
  · exact ht

/-! ## Limits and quantifiers -/

theorem Lawful.limit : C.Meets limit := by
  refine (hC.keyword .LIMIT).bind fun start => hC.count.bind fun first =>
    (hC.takeSymbol .comma).bind fun found => ?_
  split
  · exact hC.count.bind fun _ => (meets_spanFrom start).bind fun _ => meets_pure _
  · refine (hC.takeKeyword .OFFSET).bind fun found => ?_
    split
    · exact hC.count.bind fun _ => (meets_spanFrom start).bind fun _ => meets_pure _
    · exact (meets_spanFrom start).bind fun _ => meets_pure _

theorem Lawful.quantifier : C.Meets quantifier := by
  refine (hC.takeKeyword .ALL).bind fun found => ?_
  split
  · exact meets_pure _
  · refine (hC.takeKeyword .DISTINCT).bind fun found => ?_
    split
    · exact meets_pure _
    · exact meets_pure _

theorem Lawful.direction : C.Meets direction := by
  refine (hC.takeKeyword .ASC).bind fun found => ?_
  split
  · exact meets_pure _
  · refine (hC.takeKeyword .DESC).bind fun found => ?_
    split
    · exact meets_pure _
    · exact meets_pure _

theorem Lawful.nullOrder : C.Meets nullOrder := by
  refine (hC.takeKeyword .NULLS).bind fun found => ?_
  split
  · refine (hC.takeKeyword .FIRST).bind fun found => ?_
    split
    · exact meets_pure _
    · refine (hC.takeKeyword .LAST).bind fun found => ?_
      split
      · exact meets_pure _
      · exact hC.rejectCurrent _
  · exact meets_pure _

/-- A clause keeps the contract if its body does. -/
theorem Meets.clause {p : Parser α} (hp : C.Meets p) (allowed : Bool) (word : Keyword) :
    C.Meets (clause allowed word p) := by
  refine meets_atKeyword_bind word fun here => ?_
  split
  · exact (hp.recover hC).bind fun _ => hC.clauseEnd.bind fun _ => meets_pure _
  · exact meets_pure none

theorem Lawful.limitClause : C.Meets limitClause := by
  refine meets_atKeyword_bind .LIMIT fun here => ?_
  split
  · exact hC.limit.recover hC
  · exact meets_pure none

/-! ## Rules that call others -/

section Callees

variable {call : Callee} (hcall : ∀ {α : Type} (n : Nonterminal α), C.Meets (call n))

include hcall

theorem Lawful.commaExprs (htakes : Consumes (call .wholeExpr)) (rule : String) :
    C.Meets (Parser.commaSeparated rule (call .wholeExpr)) :=
  (hcall .wholeExpr).commaSeparated hC htakes rule

theorem Lawful.intervalRule : C.Meets (intervalRule call) :=
  (hC.keyword .INTERVAL).bind fun _ => (hcall .wholeExpr).bind fun _ => hC.datetimeUnit.bind fun _ =>
    meets_pure _

theorem Lawful.literalRule : C.Meets (literalRule call) := by
  refine meets_at_bind fun t => ?_
  split
  · exact (hC.simpleLiteral _).at t
  · exact hC.bracedLiteral.at t
  · exact (hC.simpleLiteral _).at t
  · exact (hC.simpleLiteral _).at t
  · exact (hC.simpleLiteral _).at t
  · exact (hcall .interval).at t
  · next hkind =>
    split
    · exact hC.wordLiteral (isEnd_eq_false (by simp [hkind])) _
    · exact (hC.rejectCurrent _).at t
  · split
    · exact (hC.datetimeConstant _).at t
    · exact (hC.rejectCurrent _).at t
  · exact (hC.rejectCurrent _).at t

theorem Lawful.constantRule : C.Meets (constantRule call) := by
  have hother (start : Span) : C.Meets (do
      let value ← Grammar.literalRule call
      return ⟨value, ← Parser.spanFrom start⟩ : Parser Constant) :=
    (hC.literalRule hcall).bind fun _ => (meets_spanFrom start).bind fun _ => meets_pure _
  refine meets_current_bind fun t => ?_
  split
  · exact hC.number
  · exact hC.number
  · exact hC.number
  · exact hC.number
  · exact meets_current_bind fun u => hother u.span

/-- Arguments are items that take tokens, so their list is never refused for an empty one. -/
theorem Lawful.argumentsRule (htakes : Consumes (call .wholeExpr)) :
    C.Meets (argumentsRule call) := by
  refine (hC.takeSymbol .rightParen).bind fun found => ?_
  split
  · exact meets_pure _
  · exact (hC.commaExprs hcall htakes _).bind fun _ => (hC.symbol .rightParen).bind fun _ => meets_pure _

theorem Lawful.scalarRule (category : ScalarCategory) : C.Meets (scalarRule call category) :=
  hC.callName.bind fun _ => (hcall .arguments).bind fun _ => meets_pure _

theorem Lawful.caseBranches : C.Meets (caseBranches call) := by
  have hstep (branches : List CaseBranch) : C.Meets (caseStep call branches) := by
    refine (hC.takeKeyword .WHEN).bind fun found => ?_
    cases found with
    | true =>
      exact (hcall .wholeExpr).bind fun _ => (hC.keyword .THEN).bind fun _ =>
        (hcall .wholeExpr).bind fun _ => meets_pure _
    | false => exact meets_pure _
  rw [caseBranches_eq]
  exact (Meets.loop hstep []).bind fun _ => meets_pure _

theorem Lawful.caseEnd (operand : Option Expr) (branches : List CaseBranch) :
    C.Meets (caseEnd call operand branches) := by
  have hrest : C.Meets (do
      let otherwise ← if ← Parser.takeKeyword .ELSE then some <$> call .wholeExpr else pure none
      let _ ← Parser.keyword .END
      return .case operand branches otherwise : Parser CallShape) := by
    refine (hC.takeKeyword .ELSE).bind fun found => ?_
    split
    · exact ((hcall .wholeExpr).map _).bind fun _ => (hC.keyword .END).bind fun _ => meets_pure _
    · exact (meets_pure _).bind fun _ => (hC.keyword .END).bind fun _ => meets_pure _
  unfold Grammar.caseEnd
  dsimp only
  split
  · exact hC.rejectCurrent_bind _ _
  · exact hrest

theorem Lawful.caseRule : C.Meets (caseRule call) := by
  have hrest (operand : Option Expr) : C.Meets (do
      let branches ← Grammar.caseBranches call
      Grammar.caseEnd call operand branches) :=
    (hC.caseBranches hcall).bind fun branches => hC.caseEnd hcall operand branches
  refine (hC.keyword .CASE).bind fun _ => meets_atKeyword_bind .WHEN fun here => ?_
  split
  · exact (meets_pure none).bind hrest
  · exact ((hcall .wholeExpr).map _).bind hrest

theorem Lawful.castRule : C.Meets (castRule call) :=
  (hC.keyword .CAST).bind fun _ => (hC.symbol .leftParen).bind fun _ =>
    (hcall .wholeExpr).bind fun _ => (hC.keyword .AS).bind fun _ => hC.dataType.bind fun _ =>
      (hC.symbol .rightParen).bind fun _ => meets_pure _

theorem Lawful.positionRule : C.Meets (positionRule call) :=
  hC.callName.bind fun _ => ((hcall .wholeExpr).atSeparator hC).bind fun _ =>
    (hC.keyword .IN).bind fun _ => (hcall .wholeExpr).bind fun _ =>
      (hC.symbol .rightParen).bind fun _ => meets_pure _

theorem Lawful.extractRule : C.Meets (extractRule call) :=
  hC.callName.bind fun _ => hC.datetimeUnit.bind fun _ => (hC.keyword .FROM).bind fun _ =>
    (hcall .wholeExpr).bind fun _ => (hC.symbol .rightParen).bind fun _ => meets_pure _

theorem Lawful.getFormatRule : C.Meets (getFormatRule call) :=
  hC.callName.bind fun _ => hC.formatTarget.bind fun _ => (hC.symbol .comma).bind fun _ =>
    (hcall .wholeExpr).bind fun _ => (hC.symbol .rightParen).bind fun _ => meets_pure _

theorem Lawful.timestampRule (function : TimestampFunction) :
    C.Meets (timestampRule call function) :=
  hC.callName.bind fun _ => hC.singleUnit.bind fun _ => (hC.symbol .comma).bind fun _ =>
    (hcall .wholeExpr).bind fun _ => (hC.symbol .comma).bind fun _ =>
      (hcall .wholeExpr).bind fun _ => (hC.symbol .rightParen).bind fun _ => meets_pure _

theorem Lawful.shapeRule (family : FunctionFamily) : C.Meets (shapeRule call family) := by
  cases family with
  | nested =>
    refine meets_get_bind fun s => ?_
    split
    · exact hC.nestedAll
    · exact hcall _
  | scalar category => exact hcall _
  | ranking function => exact hcall _
  | aggregate function => exact (hcall _).bind fun aggregate => hcall (.aggregateTail aggregate)
  | percentile function => exact (hcall _).bind fun aggregate => hcall (.aggregateTail aggregate)
  | score => exact hcall _
  | relevance kind => exact (hcall _).bind fun _ => meets_pure _
  | highlight => exact hC.highlight
  | position => exact hcall _
  | extract => exact hcall _
  | getFormat => exact hcall _
  | timestamp function => exact hcall _

theorem Lawful.callShape : C.Meets (callShape call) := by
  refine meets_at_bind fun t => ?_
  split
  · exact (hcall _).at t
  · exact (hcall _).at t
  · exact (hcall _).at t
  · exact (hcall _).at t
  · exact (hcall _).at t
  · exact (hcall _).at t
  · split
    · exact (hcall _).at t
    · exact hC.reject (.unknownFunction _)
  · exact hC.reject (.noAlternative _ _)

theorem Lawful.callRule : C.Meets (callRule call) := by
  have hbody : C.Meets (callBody call) :=
    meets_current_bind fun t => (hC.callShape hcall).bind fun _ =>
      (meets_spanFrom t.span).bind fun _ => meets_pure _
  rw [callRule_eq]
  exact hbody.nest hC 1

/-! ## Aggregates and windows -/

theorem Lawful.aggregateForm (htakes : Consumes (call .wholeExpr)) (function : AggregateFunction) :
    C.Meets (aggregateRule.form call function) := by
  have hregular : C.Meets (do
      return .regular function (← call .wholeExpr) : Parser Aggregate) :=
    (hcall .wholeExpr).bind fun _ => meets_pure _
  unfold aggregateRule.form
  dsimp only
  split
  · refine (hC.takeSymbol .star).bind fun found => ?_
    split
    · exact meets_pure _
    · refine (hC.takeKeyword .DISTINCT).bind fun found => ?_
      split
      · exact (hC.commaExprs hcall htakes _).bind fun _ => meets_pure _
      · exact hregular
  · exact hregular

theorem Lawful.aggregateRule (htakes : Consumes (call .wholeExpr)) (function : AggregateFunction) :
    C.Meets (aggregateRule call function) :=
  hC.callName.bind fun _ => (hC.aggregateForm hcall htakes function).bind fun _ =>
    (hC.symbol .rightParen).bind fun _ => meets_pure _

theorem Lawful.percentileRule (function : PercentileFunction) :
    C.Meets (percentileRule call function) := by
  refine hC.callName.bind fun _ => (hcall .wholeExpr).bind fun _ => (hC.symbol .comma).bind fun _ =>
    hC.number.bind fun _ => (hC.takeSymbol .comma).bind fun found => ?_
  split
  · exact (hC.number.map _).bind fun _ => (hC.symbol .rightParen).bind fun _ => meets_pure _
  · exact (meets_pure _).bind fun _ => (hC.symbol .rightParen).bind fun _ => meets_pure _

theorem Lawful.orderByRule (htakes : Consumes (call .orderItem)) : C.Meets (orderByRule call) :=
  (hC.keyword .ORDER).bind fun start => (hC.keyword .BY).bind fun _ =>
    ((hcall .orderItem).commaSeparated hC htakes _).bind fun _ => (meets_spanFrom start).bind fun _ =>
      meets_pure _

theorem Lawful.orderItemRule : C.Meets (orderItemRule call) :=
  (hcall .wholeExpr).bind fun _ => hC.direction.bind fun _ => hC.nullOrder.bind fun _ =>
    meets_pure _

theorem Lawful.partitionBy (htakes : Consumes (call .wholeExpr)) :
    C.Meets (partitionBy call) := by
  refine meets_atKeyword_bind .PARTITION fun here => ?_
  split
  · exact hC.take.bind fun start => (hC.keyword .BY).bind fun _ =>
      (hC.commaExprs hcall htakes _).bind fun _ => (meets_spanFrom start).bind fun _ => meets_pure _
  · exact meets_pure none

theorem Lawful.windowRule (htakes : Consumes (call .wholeExpr)) :
    C.Meets (windowRule call) := by
  refine (hC.keyword .OVER).bind fun start => (hC.symbol .leftParen).bind fun _ =>
    (hC.partitionBy hcall htakes).bind fun _ => meets_atKeyword_bind .ORDER fun here => ?_
  have hclose (f : Span → Window) : C.Meets (do
      let _ ← Parser.symbol .rightParen
      return f (← Parser.spanFrom start)) :=
    (hC.symbol .rightParen).bind fun _ => (meets_spanFrom start).bind fun _ => meets_pure _
  split
  · exact ((hcall .orderBy).map _).bind fun _ => hclose _
  · exact (meets_pure none).bind fun _ => hclose _

theorem Lawful.filterRule : C.Meets (filterRule call) :=
  (hC.keyword .FILTER).bind fun start => (hC.symbol .leftParen).bind fun _ =>
    (hC.keyword .WHERE).bind fun _ => (hcall .wholeExpr).bind fun _ =>
      (hC.symbol .rightParen).bind fun _ => (meets_spanFrom start).bind fun _ => meets_pure _

theorem Lawful.rankingRule (function : RankingFunction) : C.Meets (rankingRule call function) :=
  hC.callName.bind fun _ => (hcall .arguments).bind fun _ => (hcall .window).bind fun _ =>
    meets_pure _

/-- What an attempt has refused is forgotten, so the contract is kept behind it. -/
theorem Lawful.aggregateTailRule (hsteady : ∀ {α : Type} (n : Nonterminal α), Steady (call n))
    (aggregate : Aggregate) : C.Meets (aggregateTailRule call aggregate) := by
  have hordered : C.Meets (orderedFilter call) :=
    (hcall .orderBy).bind fun _ => (hcall .filter).bind fun _ => meets_pure _
  have hsteadyOrdered : Steady (orderedFilter call) :=
    (hsteady .orderBy).bind fun _ => (hsteady .filter).bind fun _ => steady_pure _
  refine meets_atKeyword_bind .OVER fun here => ?_
  split
  · exact (hcall .window).bind fun _ => meets_pure _
  refine meets_atKeyword_bind .FILTER fun here => ?_
  split
  · exact (hcall .filter).bind fun _ => meets_pure _
  refine meets_atKeyword_bind .ORDER fun here => ?_
  split
  · refine (hordered.attempt hC hsteadyOrdered _).bind fun found => ?_
    cases found with
    | some both => exact meets_pure _
    | none => exact meets_pure _
  · exact meets_pure _

/-! ## Expressions -/

theorem Lawful.logicalOperand : C.Meets (logicalOperand call) := by
  refine meets_atKeyword_bind .NOT fun here => ?_
  split
  · exact hC.take.bind fun start => (hcall _).bind fun _ => (meets_spanFrom start).bind fun _ =>
      meets_pure _
  · exact (hcall (.predicate 0)).bind fun _ => meets_pure _

theorem Lawful.logicalStep (least : Nat) (left : Expr) : C.Meets (logicalStep call least left) := by
  refine meets_current_bind fun t => ?_
  split
  · exact meets_pure _
  · dsimp only
    split
    · exact meets_pure _
    · exact (hC.skip 1).bind fun _ => (hcall _).bind fun _ => meets_pure _

theorem Lawful.exprRule (least : Nat) : C.Meets (exprRule call least) := by
  have hbody : C.Meets (exprBody call least) :=
    (hC.logicalOperand hcall).bind fun left => Meets.loop (hC.logicalStep hcall least) left
  rw [exprRule_eq]
  exact hbody.nest hC 1

theorem Lawful.testRule (htakes : Consumes (call .wholeExpr)) (left : Predicate) (test : Test) :
    C.Meets (testRule call left test) := by
  cases test with
  | comparison op => exact (hcall _).bind fun _ => meets_pure _
  | isNull negated => exact (hC.keyword .NULL).bind fun _ => meets_pure _
  | between negated =>
    exact (hcall _).bind fun _ => (hC.keyword .AND).bind fun _ => (hcall _).bind fun _ =>
      meets_pure _
  | like negated => exact (hcall _).bind fun _ => meets_pure _
  | regexp negated => exact (hcall _).bind fun _ => meets_pure _
  | within negated =>
    exact (hC.symbol .leftParen).bind fun _ => (hC.commaExprs hcall htakes _).bind fun _ =>
      (hC.symbol .rightParen).bind fun _ => (meets_spanFrom _).bind fun _ => meets_pure _

theorem Lawful.predicateStep (htakes : Consumes (call .wholeExpr)) (least : Nat)
    (left : Predicate) :
    C.Meets (predicateStep call least left) := by
  refine meets_get_bind fun s => ?_
  split
  · exact meets_pure _
  · dsimp only
    split
    · exact meets_pure _
    · exact (hC.skip _).bind fun _ => (hC.testRule hcall htakes left _).bind fun _ => meets_pure _

theorem Lawful.predicateRule (htakes : Consumes (call .wholeExpr)) (least : Nat) :
    C.Meets (predicateRule call least) :=
  (hcall (.arithmetic 0)).bind fun _ => Meets.loop (hC.predicateStep hcall htakes least) _

theorem Lawful.arithmeticStep (least : Nat) (left : Atom) :
    C.Meets (arithmeticStep call least left) := by
  refine meets_current_bind fun t => ?_
  split
  · exact meets_pure _
  · dsimp only
    split
    · exact meets_pure _
    · exact (hC.skip 1).bind fun _ => (hcall _).bind fun _ => meets_pure _

theorem Lawful.arithmeticRule (least : Nat) : C.Meets (arithmeticRule call least) :=
  (hcall .operand).bind fun left => Meets.loop (hC.arithmeticStep hcall least) left

theorem Lawful.operandRule : C.Meets (operandRule call) := by
  have hfieldEquals : C.Meets (fieldEqualsCall call) :=
    meets_current_bind fun t => (hcall .fieldEquals).bind fun _ => (meets_spanFrom t.span).bind
      fun _ => meets_pure _
  intro s hs
  rw [operandRule_eq, get_bind_apply]
  unfold operandAt
  dsimp only
  split
  · exact hfieldEquals.bind (fun _ => meets_pure _) s hs
  · cases s.cursor.operandForm? with
    | none => exact hC.refuses_current hs (.noAlternative _ _)
    | some form =>
      cases form with
      | parenthesized => exact hcall _ s hs
      | constant => exact (hcall .constant).bind (fun _ => meets_pure _) s hs
      | call => exact (hcall .call).bind (fun _ => meets_pure _) s hs
      | column => exact hC.qualifiedName.bind (fun _ => meets_pure _) s hs

theorem Lawful.parenthesizedRule : C.Meets (parenthesizedRule call) :=
  (hC.symbol .leftParen).bind fun start => (hcall .wholeExpr).bind fun _ =>
    (hC.symbol .rightParen).bind fun _ => (meets_spanFrom start).bind fun _ => meets_pure _

/-! ## Relevance functions -/

theorem Lawful.searchValueRule : C.Meets (searchValueRule call) := by
  refine meets_get_bind fun s => ?_
  split
  · exact (hcall .constant).bind fun _ => meets_pure _
  · exact hC.qualifiedName.bind fun _ => meets_pure _

omit hcall in
theorem Lawful.relevanceOptionName : C.Meets relevanceOptionName := by
  refine meets_current_bind fun t => ?_
  split
  · exact (hC.skip 1).bind fun _ => meets_pure _
  · exact (hC.optionName _ _).bind fun _ => meets_pure _

theorem Lawful.relevanceOptionsRule : C.Meets (relevanceOptionsRule call) := by
  have hstep (options : List RelevanceOption) : C.Meets (relevanceStep call options) := by
    refine (hC.takeSymbol .comma).bind fun found => ?_
    cases found with
    | true =>
      exact hC.relevanceOptionName.bind fun _ => (hC.symbol .eq).bind fun _ =>
        (hcall .searchValue).bind fun _ => meets_pure _
    | false => exact meets_pure _
  rw [relevanceOptionsRule_eq]
  exact (Meets.loop hstep []).bind fun _ => meets_pure _

theorem Lawful.namedArgument : C.Meets (namedArgument call) := by
  refine meets_current_bind fun t => ?_
  dsimp only
  split
  · exact (hC.skip 1).bind fun _ => (hC.symbol .eq).bind fun _ => (hcall .searchValue).bind fun _ =>
      meets_pure _
  split
  · refine (hC.skip 1).bind fun _ => (hC.symbol .eq).bind fun _ =>
      meets_atSymbol_bind .leftBracket fun here => ?_
    split
    · exact hC.fieldList.bind fun _ => meets_pure _
    · exact hC.weightedField.bind fun _ => meets_pure _
  · exact hC.rejectCurrent _

theorem Lawful.namedArgumentsRule : C.Meets (namedArgumentsRule call) := by
  refine (hC.namedArgument hcall).bind fun first => (hC.symbol .comma).bind fun _ =>
    (hC.namedArgument hcall).bind fun second => ?_
  split
  · exact meets_pure _
  · exact meets_pure _
  · exact hC.rejectCurrent _
  · exact hC.rejectCurrent _

theorem Lawful.searchTarget (kind : RelevanceKind) : C.Meets (searchTarget call kind) := by
  cases kind with
  | noField => exact (hcall .searchValue).bind fun _ => meets_pure _
  | singleField =>
    exact hC.field.bind fun _ => (hC.symbol .comma).bind fun _ => (hcall .searchValue).bind fun _ =>
      meets_pure _
  | multiField =>
    refine meets_current_bind fun t => meets_peek_bind 1 fun u => ?_
    split
    · exact (hcall .namedArguments).bind fun _ => meets_pure _
    · exact hC.fieldList.bind fun _ => (hC.symbol .comma).bind fun _ =>
        (hcall .searchValue).bind fun _ => meets_pure _

theorem Lawful.relevanceRule (kind : RelevanceKind) : C.Meets (relevanceRule call kind) :=
  hC.callName.bind fun _ => (hC.searchTarget hcall kind).bind fun _ =>
    (hcall .relevanceOptions).bind fun _ => (hC.symbol .rightParen).bind fun _ => meets_pure _

theorem Lawful.fieldEqualsRule : C.Meets (fieldEqualsRule call) := by
  refine hC.field.bind fun _ => (hC.symbol .eq).bind fun _ => meets_current_bind fun t => ?_
  split
  · exact hC.callName.bind fun _ => (hcall .searchValue).bind fun _ =>
      (hcall .relevanceOptions).bind fun _ => (hC.symbol .rightParen).bind fun _ => meets_pure _
  · exact hC.rejectCurrent _

theorem Lawful.scoredRelevance : C.Meets (scoredRelevance call) := by
  refine meets_get_bind fun s => ?_
  split
  · exact hcall .fieldEquals
  · refine meets_at_bind fun t => ?_
    split
    · exact (hcall _).at t
    · exact hC.reject (.noAlternative _ _)

theorem Lawful.scoreRule : C.Meets (scoreRule call) := by
  refine hC.callName.bind fun _ => (hC.scoredRelevance hcall).bind fun _ =>
    (hC.takeSymbol .comma).bind fun found => ?_
  split
  · exact (hC.weight.map _).bind fun _ => (hC.symbol .rightParen).bind fun _ => meets_pure _
  · exact (meets_pure _).bind fun _ => (hC.symbol .rightParen).bind fun _ => meets_pure _

/-! ## Queries -/

theorem Lawful.selectItemRule (starAllowed : Bool) : C.Meets (selectItemRule call starAllowed) := by
  have hexpr : C.Meets (do
      let expr ← call .wholeExpr
      return .expr expr (← Parser.optionalAlias) : Parser SelectItem) :=
    (hcall .wholeExpr).bind fun _ => hC.optionalAlias.bind fun _ => meets_pure _
  refine meets_atSymbol_bind .star fun here => ?_
  split
  · exact hC.take.bind fun _ => meets_pure _
  · exact hexpr

theorem Lawful.selectItemsRule (htakes : ∀ star, Consumes (call (.selectItem star))) :
    C.Meets (selectItemsRule call) :=
  (hcall (.selectItem true)).commaList hC (hcall (.selectItem false)) (htakes true) (htakes false) _

theorem Lawful.relationRule : C.Meets (relationRule call) := by
  refine (hC.keyword .FROM).bind fun _ => meets_atSymbol_bind .leftParen fun here => ?_
  split
  · exact hC.take.bind fun start => (((hcall .query).subquery hC).nest hC 2).bind fun _ =>
      (hC.symbol .rightParen).bind fun _ => (hC.takeKeyword .AS).bind fun _ =>
        hC.ident.bind fun _ => (meets_spanFrom start).bind fun _ => meets_pure _
  · exact hC.qualifiedName.bind fun _ => hC.optionalAlias.bind fun _ => meets_pure _

theorem Lawful.conditionRule (word : Keyword) : C.Meets (conditionRule call word) :=
  (hC.keyword word).bind fun start => (hcall .wholeExpr).bind fun _ =>
    (meets_spanFrom start).bind fun _ => meets_pure _

theorem Lawful.groupByRule (htakes : Consumes (call .wholeExpr)) :
    C.Meets (groupByRule call) :=
  (hC.keyword .GROUP).bind fun start => (hC.keyword .BY).bind fun _ =>
    (hC.commaExprs hcall htakes _).bind fun _ => (meets_spanFrom start).bind fun _ => meets_pure _

/-- Queries keep it, with all clauses that they pass over. -/
theorem Lawful.queryRule : C.Meets (queryRule call) :=
  (hC.keyword .SELECT).bind fun start => hC.quantifier.bind fun _ =>
    ((hcall .selectItems).recover hC).bind fun _ => hC.clauseEnd.bind fun _ =>
      meets_atKeyword_bind .FROM fun hasRelation =>
        ((hcall .relation).clause hC hasRelation .FROM).bind fun _ =>
        ((hcall (.condition .WHERE)).clause hC hasRelation .WHERE).bind fun _ =>
        ((hcall .groupBy).clause hC hasRelation .GROUP).bind fun _ =>
        ((hcall (.condition .HAVING)).clause hC hasRelation .HAVING).bind fun _ =>
        ((hcall .orderBy).clause hC hasRelation .ORDER).bind fun _ =>
        hC.limitClause.bind fun _ => (meets_spanFrom start).bind fun _ => meets_pure _

/-! ## Whole inputs -/

/-- Statements keep it. -/
theorem Lawful.statementRule : C.Meets (statementRule call) := by
  refine meets_at_bind fun t => ?_
  dsimp only
  split
  · exact ((hcall .query).bind fun _ => meets_pure _).at t
  · exact hC.showTables.at t
  · exact hC.describe.at t
  · exact hC.reject (.noAlternative _ _)

theorem Lawful.optionalStatement : C.Meets (optionalStatement call) := by
  refine meets_current_bind fun t => ?_
  split
  · exact meets_pure none
  · exact meets_pure none
  · exact (hC.statementRule hcall).recover hC

/-- A whole parse keeps it. -/
theorem Lawful.rootRule : C.Meets (rootRule call) :=
  (hC.optionalStatement hcall).bind fun _ => (hC.takeSymbol .semicolon).bind fun _ =>
    hC.inputEnd.bind fun _ => meets_pure _

/-- Each rule keeps a lawful contract if its callees do. -/
theorem Lawful.rule (hsteady : ∀ {α : Type} (n : Nonterminal α), Steady (call n))
    (htakes : ∀ {α : Type} (n : Nonterminal α), n.takes = true → Consumes (call n))
    (n : Nonterminal α) : C.Meets (rule call n) := by
  cases n with
  | expr least => exact hC.exprRule hcall least
  | predicate least => exact hC.predicateRule hcall (htakes _ rfl) least
  | arithmetic least => exact hC.arithmeticRule hcall least
  | operand => exact hC.operandRule hcall
  | parenthesized => exact hC.parenthesizedRule hcall
  | constant => exact hC.constantRule hcall
  | interval => exact hC.intervalRule hcall
  | call => exact hC.callRule hcall
  | shape family => exact hC.shapeRule hcall family
  | arguments => exact hC.argumentsRule hcall (htakes _ rfl)
  | scalar category => exact hC.scalarRule hcall category
  | case => exact hC.caseRule hcall
  | cast => exact hC.castRule hcall
  | ranking function => exact hC.rankingRule hcall function
  | aggregate function => exact hC.aggregateRule hcall (htakes _ rfl) function
  | percentile function => exact hC.percentileRule hcall function
  | aggregateTail aggregate => exact hC.aggregateTailRule hcall hsteady aggregate
  | window => exact hC.windowRule hcall (htakes _ rfl)
  | filter => exact hC.filterRule hcall
  | orderBy => exact hC.orderByRule hcall (htakes _ rfl)
  | orderItem => exact hC.orderItemRule hcall
  | score => exact hC.scoreRule hcall
  | relevance kind => exact hC.relevanceRule hcall kind
  | fieldEquals => exact hC.fieldEqualsRule hcall
  | namedArguments => exact hC.namedArgumentsRule hcall
  | searchValue => exact hC.searchValueRule hcall
  | relevanceOptions => exact hC.relevanceOptionsRule hcall
  | position => exact hC.positionRule hcall
  | extract => exact hC.extractRule hcall
  | getFormat => exact hC.getFormatRule hcall
  | timestamp function => exact hC.timestampRule hcall function
  | selectItems => exact hC.selectItemsRule hcall fun _ => htakes _ rfl
  | selectItem starAllowed => exact hC.selectItemRule hcall starAllowed
  | relation => exact hC.relationRule hcall
  | condition word => exact hC.conditionRule hcall word
  | groupBy => exact hC.groupByRule hcall (htakes _ rfl)
  | query => exact hC.queryRule hcall

end Callees

/-- Every rule meets a lawful contract, whatever fuel is left. -/
theorem Lawful.derive (fuel : Nat) (n : Nonterminal α) : C.Meets (derive fuel n) := by
  induction fuel generalizing α with
  | zero => exact fun _ hs => hs
  | succ fuel ih =>
    rw [derive_succ]
    exact hC.rule ih (steady_derive fuel) (consumes_derive fuel) n

/-- The run of a whole input keeps a lawful contract that its first state keeps. -/
theorem Lawful.runRoot [Time.Library] {tokens : List Token} {settings : Settings}
    (h : C.keeps (State.ofTokens tokens settings)) : C.Ends (runRoot tokens settings) :=
  hC.rootRule (hC.derive _) _ h

end Contract

/-- The run of a whole input takes back its changes of the settings and the counters. -/
theorem leads_runRoot [Time.Library] (tokens : List Token) (settings : Settings) :
    (State.ofTokens tokens settings).Leads (lastState (runRoot tokens settings)) := by
  have hquery := steady_derive (fuelFor settings) .query
  have hroot := steady_congruence.rootRule (b := 0) ⟨hquery, hquery⟩
    ⟨steady_inputEnd, steady_inputEnd⟩ (fun _ _ _ h => h.elim) (fun _ _ _ h => h.elim)
  exact hroot.1 (State.ofTokens tokens settings)

end Grammar

end SearchSql
