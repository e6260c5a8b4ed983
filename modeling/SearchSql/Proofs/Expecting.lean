import SearchSql.Proofs.RuleContract

/-!
# Constants that are expected

Only the rule of a constant refuses a token because a constant is expected there. The rules that come
to it look ahead first, and come to it only where a constant starts. So no rule ever expects a constant,
apart from that one where it is run in front of something else (`spares_derive`).
-/

set_option autoImplicit false

namespace SearchSql.Grammar

open SearchSql.Grammar.Parser Contract

variable {α β : Type}

/-- Whether a constant is what the diagnostic misses. -/
def AsksForConstant (d : Diagnostic) : Prop := ∃ found, d.cause = .unexpected "constant" found

/-- The contract that forbids to ask for a constant, and nothing else. -/
def withoutAsking : Contract where
  keeps _ := True
  refuses d _ := ¬AsksForConstant d

/-- No run of the parser fails because a constant is expected. -/
abbrev Spares (p : Parser α) : Prop := withoutAsking.Meets p

/-- The run of the parser from `s` does not fail because a constant is expected. -/
def SparesAt (s : State) (p : Parser α) : Prop := withoutAsking.Ends (p s)

theorem Spares.at {p : Parser α} (h : Spares p) (s : State) : SparesAt s p := h s trivial

/-- What spares the constant goes on with what does. -/
theorem SparesAt.bind {s : State} {p : Parser α} {f : α → Parser β} (hp : SparesAt s p)
    (hf : ∀ a, Spares (f a)) : SparesAt s (p >>= f) :=
  Contract.Ends.bind hp fun a t _ _ => hf a t trivial

/-! ## Refusals -/

/-- What misses something else does not ask for a constant. -/
theorem not_asks_unexpected {expected : String} (h : expected ≠ "constant") (t : Token) :
    ¬AsksForConstant (.unexpected expected t) := by
  rintro ⟨found, hfound⟩
  injection hfound with hexpected
  exact h hexpected

/-- Only an unexpected token is a reason to ask. -/
theorem not_asks_of_kind_ne {d : Diagnostic} (h : d.kind ≠ .unexpectedToken) :
    ¬AsksForConstant d := by
  rintro ⟨found, hfound⟩
  apply h
  unfold Diagnostic.kind
  rw [hfound]

theorem spares_reject {d : Diagnostic} (h : ¬AsksForConstant d) : Spares (reject d : Parser α) :=
  fun _ _ => h

/-- A parser may be refused for something else. -/
theorem spares_rejectCurrent {expected : String} (h : expected ≠ "constant") :
    Spares (rejectCurrent expected : Parser α) := fun _ _ => not_asks_unexpected h _

/-- What stands behind a refusal is not run. -/
theorem spares_rejectCurrent_bind {expected : String} (h : expected ≠ "constant")
    (f : α → Parser β) : Spares (rejectCurrent expected >>= f) := fun s hs =>
  Contract.Ends.bind (spares_rejectCurrent h s hs) fun _ _ ha _ => absurd ha rejectCurrent_ne_ok

/-- No sign is called a constant. -/
theorem description_ne (sign : Symbol) : (TokenKind.symbol sign).description ≠ "constant" := by
  cases sign <;> decide

/-- Nor is a reserved word. -/
theorem text_ne (word : Keyword) : word.text ≠ "constant" := by
  cases word <;> decide

/-! ## Taking tokens -/

theorem spares_skip (n : Nat) : Spares (Parser.skip n) := fun _ _ => trivial

theorem spares_take : Spares take :=
  meets_current_bind fun _ => (spares_skip 1).bind fun _ => meets_pure _

theorem spares_takeIf {here : Parser Bool} (h : Spares here) : Spares (takeIf here) := by
  refine h.bind fun found => ?_
  cases found with
  | true => exact (spares_skip 1).bind fun _ => meets_pure true
  | false => exact meets_pure false

theorem spares_takeSymbol (sign : Symbol) : Spares (takeSymbol sign) :=
  spares_takeIf (meets_current_bind fun _ => meets_pure _)

theorem spares_takeKeyword (word : Keyword) : Spares (takeKeyword word) :=
  spares_takeIf (meets_current_bind fun _ => meets_pure _)

/-- Where a sign is missing, the sign is asked for. -/
theorem spares_symbol (sign : Symbol) : Spares (symbol sign) := by
  refine meets_atSymbol_bind sign fun here => ?_
  cases here with
  | true => exact spares_take
  | false => exact spares_rejectCurrent (description_ne sign)

/-- Where a word is missing, the word is asked for. -/
theorem spares_keyword (word : Keyword) : Spares (keyword word) := by
  refine meets_atKeyword_bind word fun here => ?_
  cases here with
  | true => exact spares_take
  | false => exact spares_rejectCurrent (text_ne word)

theorem spares_string : Spares string := by
  refine meets_current_bind fun t => ?_
  split
  · exact (spares_skip 1).bind fun _ => meets_pure _
  · exact spares_rejectCurrent (by decide)

/-! ## Lists and changes of the state -/

theorem spares_taking {p : Parser α} (hp : Spares p) (rule : String) : Spares (taking rule p) := by
  rw [taking_eq]
  refine meets_get_bind fun s => hp.bind fun a => meets_get_bind fun t => ?_
  split
  · refine meets_current_bind fun u => ?_
    have hrefused : ¬AsksForConstant ⟨.noProgress rule, u.span⟩ := not_asks_of_kind_ne nofun
    exact (spares_reject hrefused).bind fun _ => meets_pure a
  · exact meets_pure a

theorem spares_commaList {first next : Parser α} (hfirst : Spares first) (hnext : Spares next)
    (rule : String) : Spares (commaList rule first next) := by
  have hstep (items : List α) : Spares (commaStep rule next items) := by
    refine (spares_takeSymbol .comma).bind fun found => ?_
    cases found with
    | true => exact (spares_taking hnext rule).bind fun _ => meets_pure _
    | false => exact meets_pure _
  rw [commaList_eq]
  exact (spares_taking hfirst rule).bind fun head => (Meets.loop hstep []).bind fun _ => meets_pure _

theorem spares_commaSeparated {p : Parser α} (hp : Spares p) (rule : String) :
    Spares (Parser.commaSeparated rule p) := spares_commaList hp hp rule

/-- To change the state behind a run changes no diagnostic. -/
theorem spares_mapState {r : Run α} (h : withoutAsking.Ends r) (change : State → State) :
    withoutAsking.Ends (mapState change r) := by
  cases r with
  | ok a t => trivial
  | error e t => cases e <;> exact h

/-- The limit of nesting is no question for a constant. -/
theorem spares_nest {p : Parser α} (hp : Spares p) (cost : Nat) : Spares (nest cost p) := by
  intro s hs
  rw [nest_apply]
  split
  · exact not_asks_of_kind_ne nofun
  · exact spares_mapState (hp _ trivial) _

theorem spares_subquery {p : Parser α} (hp : Spares p) : Spares (subquery p) := by
  intro s hs
  rw [subquery_apply]
  exact spares_mapState (hp _ trivial) _

theorem spares_atSeparator {p : Parser α} (hp : Spares p) : Spares (atSeparator p) := by
  intro s hs
  rw [atSeparator_apply]
  exact spares_mapState (hp _ trivial) _

/-- An attempt gives up what it refuses. -/
theorem spares_attempt (rule : String) (p : Parser α) : Spares (attempt rule p) := by
  intro s _
  rw [attempt_apply]
  cases p s.trying with
  | ok a t => trivial
  | error e t => cases e <;> trivial

/-! ## Reporting -/

theorem spares_report (d : Diagnostic) : Spares (report d) := by
  intro s _
  rw [report_apply]
  split
  · trivial
  · split
    · exact not_asks_of_kind_ne nofun
    · trivial

theorem spares_synchronize : Spares synchronize := fun _ _ => trivial

/-- What is passed over is reported for its own reason. -/
theorem spares_passOver {d : Diagnostic} (h : ¬AsksForConstant d) : Spares (passOver d) := by
  refine meets_get_bind fun s => ?_
  split
  · exact (spares_report d).bind fun _ => spares_synchronize
  · exact spares_reject h

/-- So is what is recovered from. -/
theorem spares_recover {p : Parser α} (hp : Spares p) : Spares (recover p) := by
  intro s hs
  have hends := hp s hs
  unfold Parser.recover
  cases hrun : p s with
  | ok a t => trivial
  | error e t =>
    rw [hrun] at hends
    cases e with
    | rejected d => exact ((spares_passOver hends).bind fun _ => meets_pure none) t trivial
    | outOfFuel => trivial

/-- At the end of a clause, another word is asked for. -/
theorem spares_clauseEnd : Spares clauseEnd := by
  refine meets_get_bind fun s => ?_
  split
  · exact meets_current_bind fun t => spares_passOver (not_asks_unexpected (by decide) t)
  · exact meets_pure _

/-- A malformed literal is reported as such. -/
theorem spares_malformedLiteral (kind : LiteralKind) (text : String) (fault : LiteralFault)
    (span : Span) : Spares (malformedLiteral kind text fault span) := by
  have hreport : Spares (reportLiteral (.malformed kind.text fault.message span)) := by
    refine meets_get_bind fun s => ?_
    split
    · exact spares_report _
    · exact spares_reject (not_asks_of_kind_ne nofun)
  exact hreport.bind fun _ => meets_pure _

/-! ## Names and numbers -/

theorem spares_ident : Spares ident := by
  have hreject : Spares (rejectCurrent "identifier" : Parser Ident) :=
    spares_rejectCurrent (by decide)
  refine meets_current_bind fun t => ?_
  split
  · exact spares_take.bind fun _ => meets_pure _
  · exact spares_take.bind fun _ => meets_pure _
  · split
    · exact spares_take.bind fun _ => meets_pure _
    · exact hreject
  · refine meets_peek_bind 1 fun u => ?_
    split
    · exact spares_take.bind fun _ => spares_take.bind fun _ => meets_pure _
    · exact hreject
  · exact hreject

theorem spares_qualifiedName : Spares qualifiedName := by
  have hpart (names : List Ident × Span) : Spares (namePart names) := by
    refine meets_atSymbol_bind .dot fun here => meets_peek_bind 1 fun t => ?_
    split
    · exact (spares_skip 1).bind fun _ => spares_ident.bind fun _ => meets_pure _
    · exact meets_pure _
  rw [qualifiedName_eq]
  exact spares_ident.bind fun first => (Meets.loop hpart _).bind fun _ => meets_pure _

theorem spares_optionalAlias : Spares optionalAlias := by
  refine (spares_takeKeyword .AS).bind fun found => ?_
  cases found with
  | true => exact spares_ident.bind fun _ => meets_pure _
  | false =>
    refine meets_current_bind fun t => ?_
    split
    · exact spares_ident.bind fun _ => meets_pure _
    · exact meets_pure none

theorem spares_count : Spares count := by
  refine meets_current_bind fun t => ?_
  dsimp only
  split
  · exact spares_rejectCurrent_bind (by decide) _
  · refine (spares_skip 1).bind fun _ => ?_
    split
    · exact meets_pure _
    · exact spares_reject (not_asks_of_kind_ne nofun)

theorem spares_weight : Spares weight := by
  refine meets_current_bind fun t => ?_
  dsimp only
  split
  · exact spares_rejectCurrent_bind (by decide) _
  · refine (spares_skip 1).bind fun _ => ?_
    split
    · exact meets_pure _
    · exact spares_reject (not_asks_of_kind_ne nofun)

theorem spares_datetimeUnit : Spares datetimeUnit := by
  refine meets_current_bind fun t => ?_
  split
  · exact (spares_skip 1).bind fun _ => meets_pure _
  · exact spares_rejectCurrent (by decide)

theorem spares_field : Spares field := by
  refine meets_current_bind fun t => ?_
  split
  · exact spares_take.bind fun _ => meets_pure _
  · exact spares_qualifiedName.bind fun _ => meets_pure _

theorem spares_weightedField : Spares weightedField := by
  have hweighted (f : Field) : Spares (do
      return ⟨f, some (← weight)⟩ : Parser WeightedField) :=
    spares_weight.bind fun _ => meets_pure _
  refine spares_field.bind fun f => (spares_takeSymbol .caret).bind fun found => ?_
  split
  · exact hweighted f
  · refine meets_current_bind fun t => ?_
    split
    · exact hweighted f
    · exact meets_pure _

theorem spares_fieldList : Spares fieldList :=
  (spares_symbol .leftBracket).bind fun _ => (spares_commaSeparated spares_weightedField _).bind
    fun _ => (spares_symbol .rightBracket).bind fun _ => meets_pure _

/-! ## Literals -/

/-- Where a number is missing, a number is asked for. -/
theorem spares_number : Spares number := by
  have hliteral (kind : TokenKind) (text : String) (span : Span) :
      Spares (numberLiteral kind text span) := by
    unfold numberLiteral
    split
    · split
      · exact meets_pure _
      · exact spares_malformedLiteral _ _ _ _
    · split
      · exact meets_pure _
      · exact spares_malformedLiteral _ _ _ _
  have hbehind (start : Span) (negative : Bool) : Spares (Likeness.numberBehind start negative) := by
    refine meets_current_bind fun t => ?_
    dsimp only
    split
    · exact spares_rejectCurrent_bind (by decide) _
    · exact (spares_skip 1).bind fun _ => (meets_spanFrom start).bind fun span =>
        (hliteral t.kind _ span).bind fun _ => meets_pure _
  rw [Likeness.number_eq]
  refine meets_current_bind fun t => (spares_takeSymbol .minus).bind fun negative => ?_
  dsimp only
  split
  · exact (spares_takeSymbol .plus).bind fun _ => hbehind t.span _
  · exact hbehind t.span _

theorem spares_temporalLiteral (kind : TemporalKind) (text : String) (span : Span) :
    Spares (temporalLiteral kind text span) := by
  refine meets_get_bind fun s => ?_
  split
  · exact meets_pure _
  · exact spares_malformedLiteral _ _ _ _

theorem spares_wordLiteral (kind : TemporalKind) : Spares (wordLiteral kind) :=
  spares_take.bind fun start => spares_string.bind fun text => (meets_spanFrom start).bind fun span =>
    spares_temporalLiteral kind text span

theorem spares_bracedLiteral : Spares bracedLiteral := by
  refine (spares_symbol .leftBrace).bind fun start => meets_current_bind fun t => ?_
  split
  · exact (spares_skip 1).bind fun _ => spares_string.bind fun text =>
      (spares_symbol .rightBrace).bind fun _ => (meets_spanFrom start).bind fun span =>
        spares_temporalLiteral _ text span
  · exact spares_rejectCurrent (by decide)

theorem spares_datetimeConstant (name : DatetimeConstant) : Spares (datetimeConstant name) := by
  refine (spares_skip 1).bind fun _ => (spares_takeSymbol .leftParen).bind fun parens => ?_
  dsimp only
  split
  · exact (spares_symbol .rightParen).bind fun _ => meets_pure _
  · exact meets_pure _

theorem spares_simpleLiteral (value : Literal) : Spares (simpleLiteral value) :=
  (spares_skip 1).bind fun _ => meets_pure _

/-! ## Calls without recursion -/

theorem spares_callName : Spares callName :=
  meets_current_bind fun _ => (spares_skip 1).bind fun _ => (spares_symbol .leftParen).bind fun _ =>
    meets_pure _

theorem spares_nestedAll : Spares nestedAll :=
  spares_callName.bind fun _ => spares_qualifiedName.bind fun _ => (spares_symbol .dot).bind fun _ =>
    (spares_symbol .star).bind fun _ => (spares_symbol .rightParen).bind fun _ => meets_pure _

theorem spares_optionName (names : List String) {expected : String} (h : expected ≠ "constant") :
    Spares (optionName names expected) := by
  refine meets_current_bind fun t => ?_
  split
  · split
    · exact (spares_skip 1).bind fun _ => meets_pure _
    · exact spares_rejectCurrent h
  · exact spares_rejectCurrent h

theorem spares_highlight : Spares highlight := by
  have hstep (options : List HighlightOption) : Spares (highlightStep options) := by
    refine (spares_takeSymbol .comma).bind fun found => ?_
    cases found with
    | true =>
      exact (spares_optionName _ (by decide)).bind fun _ => (spares_symbol .eq).bind fun _ =>
        spares_string.bind fun _ => meets_pure _
    | false => exact meets_pure _
  have hoptions : Spares highlightOptions := by
    rw [highlightOptions_eq]
    exact (Meets.loop hstep []).bind fun _ => meets_pure _
  exact spares_callName.bind fun _ => spares_field.bind fun _ => hoptions.bind fun _ =>
    (spares_symbol .rightParen).bind fun _ => meets_pure _

theorem spares_dataType : Spares dataType := by
  refine meets_current_bind fun t => ?_
  dsimp only
  split
  · exact (spares_skip 1).bind fun _ => meets_pure _
  · exact spares_rejectCurrent (by decide)

theorem spares_formatTarget : Spares formatTarget := by
  have htaken (target : FormatTarget) : Spares (formatTarget.taken target) :=
    (spares_skip 1).bind fun _ => meets_pure _
  refine meets_current_bind fun t => ?_
  split
  · exact htaken .date
  · exact htaken .datetime
  · exact htaken .time
  · exact htaken .timestamp
  · exact spares_rejectCurrent (by decide)

theorem spares_singleUnit : Spares singleUnit := by
  refine meets_current_bind fun t => spares_datetimeUnit.bind fun unit => ?_
  dsimp only
  split
  · exact (spares_reject (not_asks_unexpected (by decide) t)).bind fun _ => meets_pure _
  · exact meets_pure _

/-! ## Parts of clauses -/

theorem spares_direction : Spares direction := by
  refine (spares_takeKeyword .ASC).bind fun found => ?_
  split
  · exact meets_pure _
  · refine (spares_takeKeyword .DESC).bind fun found => ?_
    split
    · exact meets_pure _
    · exact meets_pure _

theorem spares_nullOrder : Spares nullOrder := by
  refine (spares_takeKeyword .NULLS).bind fun found => ?_
  split
  · refine (spares_takeKeyword .FIRST).bind fun found => ?_
    split
    · exact meets_pure _
    · refine (spares_takeKeyword .LAST).bind fun found => ?_
      split
      · exact meets_pure _
      · exact spares_rejectCurrent (by decide)
  · exact meets_pure _

theorem spares_quantifier : Spares quantifier := by
  refine (spares_takeKeyword .ALL).bind fun found => ?_
  split
  · exact meets_pure _
  · refine (spares_takeKeyword .DISTINCT).bind fun found => ?_
    split
    · exact meets_pure _
    · exact meets_pure _

theorem spares_limitClause : Spares limitClause := by
  have hlimit : Spares limit := by
    refine (spares_keyword .LIMIT).bind fun start => spares_count.bind fun first =>
      (spares_takeSymbol .comma).bind fun found => ?_
    split
    · exact spares_count.bind fun _ => (meets_spanFrom start).bind fun _ => meets_pure _
    · refine (spares_takeKeyword .OFFSET).bind fun found => ?_
      split
      · exact spares_count.bind fun _ => (meets_spanFrom start).bind fun _ => meets_pure _
      · exact (meets_spanFrom start).bind fun _ => meets_pure _
  refine meets_atKeyword_bind .LIMIT fun here => ?_
  split
  · exact spares_recover hlimit
  · exact meets_pure none

theorem spares_clause {p : Parser α} (hp : Spares p) (allowed : Bool) (word : Keyword) :
    Spares (clause allowed word p) := by
  refine meets_atKeyword_bind word fun here => ?_
  split
  · exact (spares_recover hp).bind fun _ => spares_clauseEnd.bind fun _ => meets_pure _
  · exact meets_pure none

/-! ## Where constants start -/

/-- An operand is read as a constant just where one starts. -/
theorem operandForm?_eq_constant_iff {first second third : TokenKind} :
    operandForm? first second third = some .constant ↔
      Grammar.startsConstant first second third = true := by
  unfold operandForm?
  cases Grammar.startsConstant first second third with
  | true => simp
  | false =>
    simp only [Bool.false_eq_true, if_false, iff_false]
    split <;> grind

/-- A word that starts a constant is a constant, or the word of a kind of literal. -/
theorem ofKeyword?_of_startsConstant {word : Keyword} {second third : TokenKind}
    (h : Grammar.startsConstant (.keyword word) second third = true)
    (hword : word ≠ .TRUE ∧ word ≠ .FALSE ∧ word ≠ .NULL ∧ word ≠ .INTERVAL) :
    ∃ kind, TemporalKind.ofKeyword? word = some kind := by
  obtain ⟨htrue, hfalse, hnull, hinterval⟩ := hword
  cases word with
  | DATE => exact ⟨.date, rfl⟩
  | TIME => exact ⟨.time, rfl⟩
  | TIMESTAMP => exact ⟨.timestamp, rfl⟩
  | TRUE => exact absurd rfl htrue
  | FALSE => exact absurd rfl hfalse
  | NULL => exact absurd rfl hnull
  | INTERVAL => exact absurd rfl hinterval
  | _ => cases h

/-- A name that starts a constant is a word for the current date or time. -/
theorem ofText?_of_startsConstant {word : String} {second third : TokenKind}
    (h : Grammar.startsConstant (.name word) second third = true) :
    ∃ name, DatetimeConstant.ofText? word = some name := by
  rw [startsConstant_name] at h
  exact Option.isSome_iff_exists.1 (Bool.and_eq_true_iff.1 h).1

/-! ## Rules that call others -/

/-- Whether the nonterminal is that of a constant. -/
def Nonterminal.isConstant : Nonterminal α → Bool
  | .constant => true
  | _ => false

/-- No callee asks for a constant, if that of a constant is run only where one starts. -/
structure CalleesSpare (call : Callee) : Prop where
  other : ∀ {α : Type} (n : Nonterminal α), n.isConstant = false → Spares (call n)
  constant : ∀ s : State, s.cursor.startsConstant = true → SparesAt s (call .constant)

section Callees

variable {call : Callee} (hcall : CalleesSpare call)

include hcall

/-- An expression asks for no constant. -/
theorem spares_wholeExpr : Spares (call .wholeExpr) := hcall.other _ rfl

theorem spares_commaExprs (rule : String) : Spares (Parser.commaSeparated rule (call .wholeExpr)) :=
  spares_commaSeparated (spares_wholeExpr hcall) rule

/-! ### Constants -/

theorem spares_intervalRule : Spares (intervalRule call) :=
  (spares_keyword .INTERVAL).bind fun _ => (spares_wholeExpr hcall).bind fun _ =>
    spares_datetimeUnit.bind fun _ => meets_pure _

/-- Where a constant starts, its rule finds one of the forms of a constant. -/
theorem sparesAt_constantRule {s : State} (h : s.cursor.startsConstant = true) :
    SparesAt s (constantRule call) := by
  unfold Cursor.startsConstant at h
  rw [Cursor.peek_zero] at h
  unfold SparesAt constantRule
  rw [current_bind_apply]
  show SparesAt s _
  split
  · exact spares_number.at s
  · exact spares_number.at s
  · exact spares_number.at s
  · exact spares_number.at s
  · next hplus hminus hinteger hreal =>
    unfold SparesAt
    rw [current_bind_apply]
    refine SparesAt.bind (s := s) ?_ fun value => (meets_spanFrom _).bind fun _ => meets_pure _
    unfold SparesAt literalRule
    rw [current_bind_apply]
    show SparesAt s _
    split
    · exact (spares_simpleLiteral _).at s
    · exact spares_bracedLiteral.at s
    · exact (spares_simpleLiteral _).at s
    · exact (spares_simpleLiteral _).at s
    · exact (spares_simpleLiteral _).at s
    · exact (hcall.other .interval rfl).at s
    · next word htrue hfalse hnull hinterval hkind =>
      rw [hkind] at h
      obtain ⟨kind, hkind⟩ := ofKeyword?_of_startsConstant h ⟨htrue, hfalse, hnull, hinterval⟩
      rw [hkind]
      exact (spares_wordLiteral kind).at s
    · next word hkind =>
      rw [hkind] at h
      obtain ⟨name, hname⟩ := ofText?_of_startsConstant h
      rw [hname]
      exact (spares_datetimeConstant name).at s
    · next hstring hbrace htrue hfalse hnull hinterval hword hname =>
      -- Nothing else starts a constant.
      cases hkind : s.cursor.current.kind with
      | string value => exact absurd hkind (hstring value)
      | keyword word => exact absurd hkind (hword word)
      | name word => exact absurd hkind (hname word)
      | integer => exact absurd hkind hinteger
      | real => exact absurd hkind hreal
      | symbol sign =>
        cases sign with
        | leftBrace => exact absurd hkind hbrace
        | plus => exact absurd hkind hplus
        | minus => exact absurd hkind hminus
        | _ =>
          rw [hkind] at h
          cases h
      | _ =>
        rw [hkind] at h
        cases h

/-! ### Calls -/

theorem spares_argumentsRule : Spares (argumentsRule call) := by
  refine (spares_takeSymbol .rightParen).bind fun found => ?_
  split
  · exact meets_pure _
  · exact (spares_commaExprs hcall _).bind fun _ => (spares_symbol .rightParen).bind fun _ =>
      meets_pure _

theorem spares_scalarRule (category : ScalarCategory) : Spares (scalarRule call category) :=
  spares_callName.bind fun _ => (hcall.other .arguments rfl).bind fun _ => meets_pure _

theorem spares_caseRule : Spares (caseRule call) := by
  have hexpr := spares_wholeExpr hcall
  have hstep (branches : List CaseBranch) : Spares (caseStep call branches) := by
    refine (spares_takeKeyword .WHEN).bind fun found => ?_
    cases found with
    | true =>
      exact hexpr.bind fun _ => (spares_keyword .THEN).bind fun _ => hexpr.bind fun _ => meets_pure _
    | false => exact meets_pure _
  have hbranches : Spares (caseBranches call) := by
    rw [caseBranches_eq]
    exact (Meets.loop hstep []).bind fun _ => meets_pure _
  have hend (operand : Option Expr) (branches : List CaseBranch) :
      Spares (caseEnd call operand branches) := by
    unfold caseEnd
    dsimp only
    split
    · exact spares_rejectCurrent_bind (by decide) _
    · refine (spares_takeKeyword .ELSE).bind fun found => ?_
      split
      · exact (hexpr.map _).bind fun _ => (spares_keyword .END).bind fun _ => meets_pure _
      · exact (meets_pure _).bind fun _ => (spares_keyword .END).bind fun _ => meets_pure _
  refine (spares_keyword .CASE).bind fun _ => meets_atKeyword_bind .WHEN fun here => ?_
  split
  · exact (meets_pure none).bind fun operand => hbranches.bind fun branches => hend operand branches
  · exact (hexpr.map _).bind fun operand => hbranches.bind fun branches => hend operand branches

theorem spares_castRule : Spares (castRule call) :=
  (spares_keyword .CAST).bind fun _ => (spares_symbol .leftParen).bind fun _ =>
    (spares_wholeExpr hcall).bind fun _ => (spares_keyword .AS).bind fun _ =>
      spares_dataType.bind fun _ => (spares_symbol .rightParen).bind fun _ => meets_pure _

theorem spares_positionRule : Spares (positionRule call) :=
  spares_callName.bind fun _ => (spares_atSeparator (spares_wholeExpr hcall)).bind fun _ =>
    (spares_keyword .IN).bind fun _ => (spares_wholeExpr hcall).bind fun _ =>
      (spares_symbol .rightParen).bind fun _ => meets_pure _

theorem spares_extractRule : Spares (extractRule call) :=
  spares_callName.bind fun _ => spares_datetimeUnit.bind fun _ => (spares_keyword .FROM).bind fun _ =>
    (spares_wholeExpr hcall).bind fun _ => (spares_symbol .rightParen).bind fun _ => meets_pure _

theorem spares_getFormatRule : Spares (getFormatRule call) :=
  spares_callName.bind fun _ => spares_formatTarget.bind fun _ => (spares_symbol .comma).bind fun _ =>
    (spares_wholeExpr hcall).bind fun _ => (spares_symbol .rightParen).bind fun _ => meets_pure _

theorem spares_timestampRule (function : TimestampFunction) : Spares (timestampRule call function) :=
  spares_callName.bind fun _ => spares_singleUnit.bind fun _ => (spares_symbol .comma).bind fun _ =>
    (spares_wholeExpr hcall).bind fun _ => (spares_symbol .comma).bind fun _ =>
      (spares_wholeExpr hcall).bind fun _ => (spares_symbol .rightParen).bind fun _ => meets_pure _

theorem spares_shapeRule (family : FunctionFamily) : Spares (shapeRule call family) := by
  cases family with
  | nested =>
    refine meets_get_bind fun s => ?_
    split
    · exact spares_nestedAll
    · exact hcall.other _ rfl
  | aggregate function =>
    exact (hcall.other _ rfl).bind fun aggregate => hcall.other (.aggregateTail aggregate) rfl
  | percentile function =>
    exact (hcall.other _ rfl).bind fun aggregate => hcall.other (.aggregateTail aggregate) rfl
  | relevance kind => exact (hcall.other _ rfl).bind fun _ => meets_pure _
  | highlight => exact spares_highlight
  | scalar category => exact hcall.other _ rfl
  | ranking function => exact hcall.other _ rfl
  | score => exact hcall.other _ rfl
  | position => exact hcall.other _ rfl
  | extract => exact hcall.other _ rfl
  | getFormat => exact hcall.other _ rfl
  | timestamp function => exact hcall.other _ rfl

theorem spares_callRule : Spares (callRule call) := by
  have hshape : Spares (callShape call) := by
    refine meets_current_bind fun t => ?_
    split
    · exact hcall.other _ rfl
    · exact hcall.other _ rfl
    · exact hcall.other _ rfl
    · exact hcall.other _ rfl
    · exact hcall.other _ rfl
    · exact hcall.other _ rfl
    · split
      · exact hcall.other _ rfl
      · exact spares_reject (not_asks_of_kind_ne nofun)
    · exact spares_reject (not_asks_of_kind_ne nofun)
  have hbody : Spares (callBody call) :=
    meets_current_bind fun t => hshape.bind fun _ => (meets_spanFrom t.span).bind fun _ =>
      meets_pure _
  rw [callRule_eq]
  exact spares_nest hbody 1

/-! ### Aggregates and windows -/

theorem spares_aggregateRule (function : AggregateFunction) :
    Spares (aggregateRule call function) := by
  have hregular : Spares (do return .regular function (← call .wholeExpr) : Parser Aggregate) :=
    (spares_wholeExpr hcall).bind fun _ => meets_pure _
  have hform : Spares (aggregateRule.form call function) := by
    unfold aggregateRule.form
    dsimp only
    split
    · refine (spares_takeSymbol .star).bind fun found => ?_
      split
      · exact meets_pure _
      · refine (spares_takeKeyword .DISTINCT).bind fun found => ?_
        split
        · exact (spares_commaExprs hcall _).bind fun _ => meets_pure _
        · exact hregular
    · exact hregular
  exact spares_callName.bind fun _ => hform.bind fun _ => (spares_symbol .rightParen).bind fun _ =>
    meets_pure _

theorem spares_percentileRule (function : PercentileFunction) :
    Spares (percentileRule call function) := by
  refine spares_callName.bind fun _ => (spares_wholeExpr hcall).bind fun _ =>
    (spares_symbol .comma).bind fun _ => spares_number.bind fun _ =>
      (spares_takeSymbol .comma).bind fun found => ?_
  split
  · exact (spares_number.map _).bind fun _ => (spares_symbol .rightParen).bind fun _ => meets_pure _
  · exact (meets_pure _).bind fun _ => (spares_symbol .rightParen).bind fun _ => meets_pure _

theorem spares_orderByRule : Spares (orderByRule call) :=
  (spares_keyword .ORDER).bind fun start => (spares_keyword .BY).bind fun _ =>
    (spares_commaSeparated (hcall.other .orderItem rfl) _).bind fun _ =>
      (meets_spanFrom start).bind fun _ => meets_pure _

theorem spares_orderItemRule : Spares (orderItemRule call) :=
  (spares_wholeExpr hcall).bind fun _ => spares_direction.bind fun _ => spares_nullOrder.bind fun _ =>
    meets_pure _

theorem spares_partitionBy : Spares (partitionBy call) := by
  refine meets_atKeyword_bind .PARTITION fun here => ?_
  split
  · exact spares_take.bind fun start => (spares_keyword .BY).bind fun _ =>
      (spares_commaExprs hcall _).bind fun _ => (meets_spanFrom start).bind fun _ => meets_pure _
  · exact meets_pure none

theorem spares_windowRule : Spares (windowRule call) := by
  refine (spares_keyword .OVER).bind fun start => (spares_symbol .leftParen).bind fun _ =>
    (spares_partitionBy hcall).bind fun _ => meets_atKeyword_bind .ORDER fun here => ?_
  have hclose (f : Span → Window) : Spares (do
      let _ ← symbol .rightParen
      return f (← spanFrom start)) :=
    (spares_symbol .rightParen).bind fun _ => (meets_spanFrom start).bind fun _ => meets_pure _
  split
  · exact ((hcall.other .orderBy rfl).map _).bind fun _ => hclose _
  · exact (meets_pure none).bind fun _ => hclose _

theorem spares_filterRule : Spares (filterRule call) :=
  (spares_keyword .FILTER).bind fun start => (spares_symbol .leftParen).bind fun _ =>
    (spares_keyword .WHERE).bind fun _ => (spares_wholeExpr hcall).bind fun _ =>
      (spares_symbol .rightParen).bind fun _ => (meets_spanFrom start).bind fun _ => meets_pure _

theorem spares_rankingRule (function : RankingFunction) : Spares (rankingRule call function) :=
  spares_callName.bind fun _ => (hcall.other .arguments rfl).bind fun _ =>
    (hcall.other .window rfl).bind fun _ => meets_pure _

theorem spares_aggregateTailRule (aggregate : Aggregate) :
    Spares (aggregateTailRule call aggregate) := by
  refine meets_atKeyword_bind .OVER fun here => ?_
  split
  · exact (hcall.other .window rfl).bind fun _ => meets_pure _
  refine meets_atKeyword_bind .FILTER fun here => ?_
  split
  · exact (hcall.other .filter rfl).bind fun _ => meets_pure _
  refine meets_atKeyword_bind .ORDER fun here => ?_
  split
  · refine (spares_attempt _ (orderedFilter call)).bind fun found => ?_
    cases found with
    | some both => exact meets_pure _
    | none => exact meets_pure _
  · exact meets_pure _

/-! ### Expressions -/

theorem spares_exprRule (least : Nat) : Spares (exprRule call least) := by
  have hoperand : Spares (logicalOperand call) := by
    refine meets_atKeyword_bind .NOT fun here => ?_
    split
    · exact spares_take.bind fun start => (hcall.other _ rfl).bind fun _ =>
        (meets_spanFrom start).bind fun _ => meets_pure _
    · exact (hcall.other (.predicate 0) rfl).bind fun _ => meets_pure _
  have hstep (left : Expr) : Spares (logicalStep call least left) := by
    refine meets_current_bind fun t => ?_
    split
    · exact meets_pure _
    · dsimp only
      split
      · exact meets_pure _
      · exact (spares_skip 1).bind fun _ => (hcall.other _ rfl).bind fun _ => meets_pure _
  have hbody : Spares (exprBody call least) := hoperand.bind fun left => Meets.loop hstep left
  rw [exprRule_eq]
  exact spares_nest hbody 1

theorem spares_testRule (left : Predicate) (test : Test) : Spares (testRule call left test) := by
  cases test with
  | comparison op => exact (hcall.other _ rfl).bind fun _ => meets_pure _
  | isNull negated => exact (spares_keyword .NULL).bind fun _ => meets_pure _
  | between negated =>
    exact (hcall.other _ rfl).bind fun _ => (spares_keyword .AND).bind fun _ =>
      (hcall.other _ rfl).bind fun _ => meets_pure _
  | like negated => exact (hcall.other _ rfl).bind fun _ => meets_pure _
  | regexp negated => exact (hcall.other _ rfl).bind fun _ => meets_pure _
  | within negated =>
    exact (spares_symbol .leftParen).bind fun _ => (spares_commaExprs hcall _).bind fun _ =>
      (spares_symbol .rightParen).bind fun _ => (meets_spanFrom _).bind fun _ => meets_pure _

theorem spares_predicateRule (least : Nat) : Spares (predicateRule call least) := by
  have hstep (left : Predicate) : Spares (predicateStep call least left) := by
    refine meets_get_bind fun s => ?_
    split
    · exact meets_pure _
    · dsimp only
      split
      · exact meets_pure _
      · exact (spares_skip _).bind fun _ => (spares_testRule hcall left _).bind fun _ => meets_pure _
  exact (hcall.other (.arithmetic 0) rfl).bind fun _ => Meets.loop hstep _

theorem spares_arithmeticRule (least : Nat) : Spares (arithmeticRule call least) := by
  have hstep (left : Atom) : Spares (arithmeticStep call least left) := by
    refine meets_current_bind fun t => ?_
    split
    · exact meets_pure _
    · dsimp only
      split
      · exact meets_pure _
      · exact (spares_skip 1).bind fun _ => (hcall.other _ rfl).bind fun _ => meets_pure _
  exact (hcall.other .operand rfl).bind fun left => Meets.loop hstep left

/-- An operand is read as a constant only where one starts. -/
theorem spares_operandRule : Spares (operandRule call) := by
  have hfieldEquals : Spares (fieldEqualsCall call) :=
    meets_current_bind fun t => (hcall.other .fieldEquals rfl).bind fun _ =>
      (meets_spanFrom t.span).bind fun _ => meets_pure _
  intro s hs
  rw [operandRule_eq, get_bind_apply]
  unfold operandAt
  dsimp only
  split
  · exact hfieldEquals.bind (fun _ => meets_pure _) s hs
  · cases hform : s.cursor.operandForm? with
    | none => exact not_asks_of_kind_ne nofun
    | some form =>
      cases form with
      | parenthesized => exact hcall.other _ rfl s hs
      | constant =>
        exact (hcall.constant s (operandForm?_eq_constant_iff.1 hform)).bind fun _ => meets_pure _
      | call => exact (hcall.other .call rfl).bind (fun _ => meets_pure _) s hs
      | column => exact spares_qualifiedName.bind (fun _ => meets_pure _) s hs

/-- A parenthesis is followed by an expression. -/
theorem spares_parenthesizedRule : Spares (parenthesizedRule call) :=
  (spares_symbol .leftParen).bind fun start => (spares_wholeExpr hcall).bind fun _ =>
    (spares_symbol .rightParen).bind fun _ => (meets_spanFrom start).bind fun _ => meets_pure _

/-! ### Relevance functions -/

/-- A search value is read as a constant only where one starts. -/
theorem spares_searchValueRule : Spares (searchValueRule call) := by
  intro s hs
  unfold searchValueRule
  rw [get_bind_apply]
  split
  · next hstarts => exact (hcall.constant s hstarts).bind fun _ => meets_pure _
  · exact spares_qualifiedName.bind (fun _ => meets_pure _) s hs

theorem spares_relevanceOptionsRule : Spares (relevanceOptionsRule call) := by
  have hname : Spares relevanceOptionName := by
    refine meets_current_bind fun t => ?_
    split
    · exact (spares_skip 1).bind fun _ => meets_pure _
    · exact (spares_optionName _ (by decide)).bind fun _ => meets_pure _
  have hstep (options : List RelevanceOption) : Spares (relevanceStep call options) := by
    refine (spares_takeSymbol .comma).bind fun found => ?_
    cases found with
    | true =>
      exact hname.bind fun _ => (spares_symbol .eq).bind fun _ =>
        (hcall.other .searchValue rfl).bind fun _ => meets_pure _
    | false => exact meets_pure _
  rw [relevanceOptionsRule_eq]
  exact (Meets.loop hstep []).bind fun _ => meets_pure _

theorem spares_namedArgument : Spares (namedArgument call) := by
  refine meets_current_bind fun t => ?_
  dsimp only
  split
  · exact (spares_skip 1).bind fun _ => (spares_symbol .eq).bind fun _ =>
      (hcall.other .searchValue rfl).bind fun _ => meets_pure _
  split
  · refine (spares_skip 1).bind fun _ => (spares_symbol .eq).bind fun _ =>
      meets_atSymbol_bind .leftBracket fun here => ?_
    split
    · exact spares_fieldList.bind fun _ => meets_pure _
    · exact spares_weightedField.bind fun _ => meets_pure _
  · exact spares_rejectCurrent (by decide)

theorem spares_namedArgumentsRule : Spares (namedArgumentsRule call) := by
  refine (spares_namedArgument hcall).bind fun first => (spares_symbol .comma).bind fun _ =>
    (spares_namedArgument hcall).bind fun second => ?_
  split
  · exact meets_pure _
  · exact meets_pure _
  · exact spares_rejectCurrent (by decide)
  · exact spares_rejectCurrent (by decide)

theorem spares_searchTarget (kind : RelevanceKind) : Spares (searchTarget call kind) := by
  have hvalue := hcall.other .searchValue rfl
  cases kind with
  | noField => exact hvalue.bind fun _ => meets_pure _
  | singleField =>
    exact spares_field.bind fun _ => (spares_symbol .comma).bind fun _ => hvalue.bind fun _ =>
      meets_pure _
  | multiField =>
    refine meets_current_bind fun t => meets_peek_bind 1 fun u => ?_
    split
    · exact (hcall.other .namedArguments rfl).bind fun _ => meets_pure _
    · exact spares_fieldList.bind fun _ => (spares_symbol .comma).bind fun _ => hvalue.bind fun _ =>
        meets_pure _

theorem spares_relevanceRule (kind : RelevanceKind) : Spares (relevanceRule call kind) :=
  spares_callName.bind fun _ => (spares_searchTarget hcall kind).bind fun _ =>
    (hcall.other .relevanceOptions rfl).bind fun _ => (spares_symbol .rightParen).bind fun _ =>
      meets_pure _

theorem spares_fieldEqualsRule : Spares (fieldEqualsRule call) := by
  refine spares_field.bind fun _ => (spares_symbol .eq).bind fun _ => meets_current_bind fun t => ?_
  split
  · exact spares_callName.bind fun _ => (hcall.other .searchValue rfl).bind fun _ =>
      (hcall.other .relevanceOptions rfl).bind fun _ => (spares_symbol .rightParen).bind fun _ =>
        meets_pure _
  · exact spares_rejectCurrent (by decide)

theorem spares_scoreRule : Spares (scoreRule call) := by
  have hscored : Spares (scoredRelevance call) := by
    refine meets_get_bind fun s => ?_
    split
    · exact hcall.other .fieldEquals rfl
    · refine meets_current_bind fun t => ?_
      split
      · exact hcall.other _ rfl
      · exact spares_reject (not_asks_of_kind_ne nofun)
  refine spares_callName.bind fun _ => hscored.bind fun _ => (spares_takeSymbol .comma).bind
    fun found => ?_
  split
  · exact (spares_weight.map _).bind fun _ => (spares_symbol .rightParen).bind fun _ => meets_pure _
  · exact (meets_pure _).bind fun _ => (spares_symbol .rightParen).bind fun _ => meets_pure _

/-! ### Queries -/

theorem spares_selectItemRule (starAllowed : Bool) : Spares (selectItemRule call starAllowed) := by
  refine meets_atSymbol_bind .star fun here => ?_
  split
  · exact spares_take.bind fun _ => meets_pure _
  · exact (spares_wholeExpr hcall).bind fun _ => spares_optionalAlias.bind fun _ => meets_pure _

theorem spares_selectItemsRule : Spares (selectItemsRule call) :=
  spares_commaList (hcall.other (.selectItem true) rfl) (hcall.other (.selectItem false) rfl) _

theorem spares_relationRule : Spares (relationRule call) := by
  refine (spares_keyword .FROM).bind fun _ => meets_atSymbol_bind .leftParen fun here => ?_
  split
  · exact spares_take.bind fun start =>
      (spares_nest (spares_subquery (hcall.other .query rfl)) 2).bind fun _ =>
        (spares_symbol .rightParen).bind fun _ => (spares_takeKeyword .AS).bind fun _ =>
          spares_ident.bind fun _ => (meets_spanFrom start).bind fun _ => meets_pure _
  · exact spares_qualifiedName.bind fun _ => spares_optionalAlias.bind fun _ => meets_pure _

theorem spares_conditionRule (word : Keyword) : Spares (conditionRule call word) :=
  (spares_keyword word).bind fun start => (spares_wholeExpr hcall).bind fun _ =>
    (meets_spanFrom start).bind fun _ => meets_pure _

theorem spares_groupByRule : Spares (groupByRule call) :=
  (spares_keyword .GROUP).bind fun start => (spares_keyword .BY).bind fun _ =>
    (spares_commaExprs hcall _).bind fun _ => (meets_spanFrom start).bind fun _ => meets_pure _

theorem spares_queryRule : Spares (queryRule call) :=
  (spares_keyword .SELECT).bind fun start => spares_quantifier.bind fun _ =>
    (spares_recover (hcall.other .selectItems rfl)).bind fun _ => spares_clauseEnd.bind fun _ =>
      meets_atKeyword_bind .FROM fun hasRelation =>
        (spares_clause (hcall.other .relation rfl) hasRelation .FROM).bind fun _ =>
        (spares_clause (hcall.other (.condition .WHERE) rfl) hasRelation .WHERE).bind fun _ =>
        (spares_clause (hcall.other .groupBy rfl) hasRelation .GROUP).bind fun _ =>
        (spares_clause (hcall.other (.condition .HAVING) rfl) hasRelation .HAVING).bind fun _ =>
        (spares_clause (hcall.other .orderBy rfl) hasRelation .ORDER).bind fun _ =>
        spares_limitClause.bind fun _ => (meets_spanFrom start).bind fun _ => meets_pure _

/-- If callees ask for no constant, the rules do not. -/
theorem calleesSpare_rule : CalleesSpare (rule call) where
  constant s h := sparesAt_constantRule hcall h
  other n hn := by
    cases n with
    | constant => cases hn
    | expr least => exact spares_exprRule hcall least
    | predicate least => exact spares_predicateRule hcall least
    | arithmetic least => exact spares_arithmeticRule hcall least
    | operand => exact spares_operandRule hcall
    | parenthesized => exact spares_parenthesizedRule hcall
    | interval => exact spares_intervalRule hcall
    | call => exact spares_callRule hcall
    | shape family => exact spares_shapeRule hcall family
    | arguments => exact spares_argumentsRule hcall
    | scalar category => exact spares_scalarRule hcall category
    | case => exact spares_caseRule hcall
    | cast => exact spares_castRule hcall
    | ranking function => exact spares_rankingRule hcall function
    | aggregate function => exact spares_aggregateRule hcall function
    | percentile function => exact spares_percentileRule hcall function
    | aggregateTail aggregate => exact spares_aggregateTailRule hcall aggregate
    | window => exact spares_windowRule hcall
    | filter => exact spares_filterRule hcall
    | orderBy => exact spares_orderByRule hcall
    | orderItem => exact spares_orderItemRule hcall
    | score => exact spares_scoreRule hcall
    | relevance kind => exact spares_relevanceRule hcall kind
    | fieldEquals => exact spares_fieldEqualsRule hcall
    | namedArguments => exact spares_namedArgumentsRule hcall
    | searchValue => exact spares_searchValueRule hcall
    | relevanceOptions => exact spares_relevanceOptionsRule hcall
    | position => exact spares_positionRule hcall
    | extract => exact spares_extractRule hcall
    | getFormat => exact spares_getFormatRule hcall
    | timestamp function => exact spares_timestampRule hcall function
    | selectItems => exact spares_selectItemsRule hcall
    | selectItem starAllowed => exact spares_selectItemRule hcall starAllowed
    | relation => exact spares_relationRule hcall
    | condition word => exact spares_conditionRule hcall word
    | groupBy => exact spares_groupByRule hcall
    | query => exact spares_queryRule hcall

end Callees

/-- No rule asks for a constant, that of a constant not where one starts, whatever fuel is left. -/
theorem calleesSpare_derive (fuel : Nat) : CalleesSpare (derive fuel) := by
  induction fuel with
  | zero => exact ⟨fun _ _ _ _ => trivial, fun _ _ => trivial⟩
  | succ fuel ih => exact calleesSpare_rule ih

end SearchSql.Grammar
