import SearchSql.Proofs.Reported
import SearchSql.Proofs.RuleSpending

/-!
# What is known of all constants in a tree

Constants are read at two places, where a number stands and where another literal does; all other
rules put together what they are given. So a property of the constants that are read there is one of
all constants in a tree (`allSatisfy_runRoot`). It may depend on the diagnostics of the whole parse:
none that is reported along with a constant is lost, unless the constant is.
-/

set_option autoImplicit false

namespace SearchSql

/-- Whether a literal of this form is read without fail. -/
def Literal.isUnfailing : Literal → Bool
  | .string _ | .boolean _ | .null | .interval _ _ | .datetime _ _ => true
  | _ => false

/-- Whether a literal other than a number may start with a token of this kind. -/
def TokenKind.startsLiteral : TokenKind → Bool
  | .string _ | .symbol .leftBrace | .keyword _ | .name _ => true
  | _ => false

namespace Grammar

open SearchSql.Grammar.Parser

variable {tokens : List Token} {D : List Diagnostic} {W : Constant → Prop}

/-- What has to be known of the constants where they are read, if all diagnostics are among `D`. All but
numbers start at a token that no number starts with. -/
structure Leaves (tokens : List Token) (D : List Diagnostic) (W : Constant → Prop) : Prop where
  unfailing {s : State} {value : Literal} (stop : Span) : s.IsReporting tokens [] →
    s.cursor.current.kind.startsLiteral = true → value.isUnfailing = true →
      W ⟨value, s.cursor.current.span.merge stop⟩
  number {s t : State} {c : Constant} : s.IsReporting tokens [] → number s = .ok c t →
    t.diagnostics ⊆ D → W c
  word {s t : State} {kind : TemporalKind} {value : Literal} : s.IsReporting tokens [] →
    s.cursor.current.kind.startsLiteral = true → isBoundary true s.cursor.current.kind = false →
      wordLiteral kind s = .ok value t → t.diagnostics ⊆ D →
        W ⟨value, s.cursor.current.span.merge t.cursor.previousSpan⟩
  braced {s t : State} {value : Literal} : s.IsReporting tokens [] →
    bracedLiteral s = .ok value t → t.diagnostics ⊆ D →
      W ⟨value, s.cursor.current.span.merge t.cursor.previousSpan⟩

/-- A temporal word starts no clause. -/
theorem TemporalKind.startsClause_of_ofKeyword? {word : Keyword} {kind : TemporalKind}
    (h : ofKeyword? word = some kind) : word.startsClause = false := by
  unfold ofKeyword? at h
  split at h
  · rfl
  · rfl
  · rfl
  · cases h

/-- All constants in what the rule of a nonterminal gives have the property. What follows an aggregate is
added to it, and an interval is read without fail. -/
def Nonterminal.Satisfies (W : Constant → Prop) : {α : Type} → Nonterminal α → α → Prop
  | _, .expr _, e => AllSatisfy W e.constants
  | _, .predicate _, p => AllSatisfy W p.constants
  | _, .arithmetic _, a | _, .operand, a | _, .parenthesized, a => AllSatisfy W a.constants
  | _, .constant, c => AllSatisfy W c.constants
  | _, .interval, value =>
      value.isUnfailing = true ∧ AllSatisfy W value.constants
  | _, .call, f => AllSatisfy W f.constants
  | _, .arguments, es => ∀ e ∈ es, AllSatisfy W e.constants
  | _, .shape _, f | _, .scalar _, f | _, .case, f | _, .cast, f | _, .ranking _, f | _, .score, f
  | _, .position, f | _, .extract, f | _, .getFormat, f | _, .timestamp _, f =>
      AllSatisfy W f.constants
  | _, .aggregate _, a | _, .percentile _, a => AllSatisfy W a.constants
  | _, .aggregateTail a, f => AllSatisfy W a.constants → AllSatisfy W f.constants
  | _, .window, w => AllSatisfy W w.constants
  | _, .filter, f => AllSatisfy W f.constants
  | _, .orderBy, o => AllSatisfy W o.constants
  | _, .orderItem, i => AllSatisfy W i.constants
  | _, .relevance _, r | _, .fieldEquals, r => AllSatisfy W r.constants
  | _, .namedArguments, r => AllSatisfy W r.1.constants
  | _, .searchValue, v => AllSatisfy W v.constants
  | _, .relevanceOptions, os => ∀ o ∈ os, AllSatisfy W o.constants
  | _, .selectItems, is => ∀ i ∈ is, AllSatisfy W i.constants
  | _, .selectItem _, i => AllSatisfy W i.constants
  | _, .relation, r => AllSatisfy W r.constants
  | _, .condition _, c => AllSatisfy W c.expr.constants
  | _, .groupBy, g => ∀ e ∈ g.exprs, AllSatisfy W e.constants
  | _, .query, q => AllSatisfy W q.constants

/-- What is known of the rules that a rule goes on to. -/
structure Satisfying (tokens : List Token) (D : List Diagnostic) (W : Constant → Prop)
    (call : Callee) : Prop where
  records {α : Type} (n : Nonterminal α) : Records tokens D (n.Satisfies W) (call n)
  meets {α : Type} (n : Nonterminal α) (ds : List Diagnostic) : (reporting tokens ds).Meets (call n)

section

variable {call : Callee} (h : Satisfying tokens D W call) (htokens : Token.InOrder tokens)

include h

/-- What a callee builds has the property in all of its constants; an expression does. -/
theorem Satisfying.expr (least : Nat) :
    Records tokens D (fun e => AllSatisfy W e.constants) (call (.expr least)) := h.records (.expr least)

theorem Satisfying.test (least : Nat) :
    Records tokens D (fun p => AllSatisfy W p.constants) (call (.predicate least)) :=
  h.records (.predicate least)

include htokens

/-- So does each expression of a list. -/
theorem Satisfying.exprs (rule : String) :
    Records tokens D (fun es => AllSatisfy W (constantsAll es))
      (Parser.commaSeparated rule (call .wholeExpr)) :=
  ((h.expr 0).commaSeparated htokens rule).imp fun _ hes => allSatisfy_constantsAll.2 hes

/-! ### Constants -/

omit h htokens in
/-- Only an interval holds constants. -/
theorem allSatisfy_literal {value : Literal} (hvalue : value.need = 0) :
    AllSatisfy W value.constants := by
  cases value with
  | interval amount unit => exact absurd hvalue (Nat.succ_ne_zero _)
  | _ => exact allSatisfy_nil

omit h in
/-- A number is known from where it is read. -/
theorem records_number (hleaves : Leaves tokens D W) :
    Records tokens D (fun c => AllSatisfy W c.constants) number := by
  intro s t c hs heq
  refine ⟨(records_plain (D := D) htokens (·.number) s t c hs heq).1, fun hD => ?_⟩
  have hneed : c.need = 0 := yields_number s t c heq
  have hc := hleaves.number hs heq hD
  obtain ⟨value, span⟩ := c
  exact allSatisfy_cons.2 ⟨hc, allSatisfy_literal hneed⟩

/-- The constants of an interval are those of its expression. -/
theorem records_intervalRule :
    Records tokens D (Nonterminal.interval.Satisfies W) (intervalRule call) := by
  refine records_behind htokens (·.keyword .INTERVAL) fun _ => (h.expr 0).bind fun amount => ?_
  exact records_behind htokens (·.datetimeUnit) fun _ => records_pure fun ha => ⟨rfl, ha⟩

/-- The literal that starts at the token `t` and ends in front of the cursor makes a constant with the
property, as do those inside it. -/
def SatisfiesAt (tokens : List Token) (D : List Diagnostic) (W : Constant → Prop) (t : Token)
    (p : Parser Literal) : Prop :=
  ∀ (s u : State) (value : Literal), s.IsReporting tokens [] → s.cursor.current = t →
    p s = .ok value u → u.diagnostics ⊆ D →
      AllSatisfy W (⟨value, t.span.merge u.cursor.previousSpan⟩ : Constant).constants

section

omit h htokens

variable {t : Token} {p : Parser Literal}

/-- What looks at the token in front may be taken to see the first token of the literal. -/
theorem satisfiesAt_current_bind {f : Token → Parser Literal}
    (hf : SatisfiesAt tokens D W t (f t)) : SatisfiesAt tokens D W t (current >>= f) := by
  intro s u value hs ht heq hD
  subst ht
  exact hf s u value hs rfl heq hD

/-- What is refused is no literal. -/
theorem satisfiesAt_rejectCurrent (expected : String) :
    SatisfiesAt tokens D W t (rejectCurrent expected) :=
  fun _ _ _ _ _ heq _ => absurd heq rejectCurrent_ne_ok

/-- A literal that never fails to be read, with nothing inside it. -/
theorem satisfiesAt_unfailing (hleaves : Leaves tokens D W) (hstarts : t.kind.startsLiteral = true)
    (hp : Yields (fun value => value.isUnfailing = true ∧ value.need = 0) p) :
    SatisfiesAt tokens D W t p := by
  intro s u value hs ht heq _
  obtain ⟨hvalue, hneed⟩ := hp s u value heq
  subst ht
  exact allSatisfy_cons.2 ⟨hleaves.unfailing _ hs hstarts hvalue, allSatisfy_literal hneed⟩

/-- A literal that is read without fail is known by the token it starts with. -/
theorem satisfiesAt_simpleLiteral (hleaves : Leaves tokens D W)
    (hstarts : t.kind.startsLiteral = true) {literal : Literal}
    (hvalue : literal.isUnfailing = true) (hneed : literal.need = 0) :
    SatisfiesAt tokens D W t (simpleLiteral literal) :=
  satisfiesAt_unfailing hleaves hstarts (yields_bind fun _ => yields_pure ⟨hvalue, hneed⟩)

/-- A literal that may have no value, with nothing inside it. -/
theorem satisfiesAt_leaf (hneed : Yields (fun value => value.need = 0) p)
    (hp : ∀ s u value, s.IsReporting tokens [] → s.cursor.current = t → p s = .ok value u →
      u.diagnostics ⊆ D → W ⟨value, s.cursor.current.span.merge u.cursor.previousSpan⟩) :
    SatisfiesAt tokens D W t p := by
  intro s u value hs ht heq hD
  have hvalue := hp s u value hs ht heq hD
  subst ht
  exact allSatisfy_cons.2 ⟨hvalue, allSatisfy_literal (hneed s u value heq)⟩

end

omit htokens in
/-- A literal is read together with the span that its constant is given. -/
theorem satisfiesAt_literalRule (hleaves : Leaves tokens D W) (t : Token) :
    SatisfiesAt tokens D W t (literalRule call) := by
  have hstarts {kind : TokenKind} (hkind : t.kind = kind) (hliteral : kind.startsLiteral = true) :
      t.kind.startsLiteral = true := by rw [hkind, hliteral]
  refine satisfiesAt_current_bind ?_
  split
  · next hkind => exact satisfiesAt_simpleLiteral hleaves (hstarts hkind rfl) rfl rfl
  · exact satisfiesAt_leaf yields_bracedLiteral fun s u value hs _ heq hD =>
      hleaves.braced hs heq hD
  · next hkind => exact satisfiesAt_simpleLiteral hleaves (hstarts hkind rfl) rfl rfl
  · next hkind => exact satisfiesAt_simpleLiteral hleaves (hstarts hkind rfl) rfl rfl
  · next hkind => exact satisfiesAt_simpleLiteral hleaves (hstarts hkind rfl) rfl rfl
  · next hkind =>
    intro s u value hs ht heq hD
    obtain ⟨hunfailing, hvalue⟩ := (h.records .interval s u value hs heq).2 hD
    subst ht
    exact allSatisfy_cons.2 ⟨hleaves.unfailing _ hs (hstarts hkind rfl) hunfailing, hvalue⟩
  · next hword =>
    split
    · next kind hkind =>
      refine satisfiesAt_leaf (yields_wordLiteral kind) fun s u value hs ht heq hD => ?_
      subst ht
      have hstart : isBoundary true s.cursor.current.kind = false := by
        rw [hword]
        exact TemporalKind.startsClause_of_ofKeyword? hkind
      exact hleaves.word hs (hstarts hword rfl) hstart heq hD
    · exact satisfiesAt_rejectCurrent _
  · next hkind =>
    split
    · refine satisfiesAt_unfailing hleaves (hstarts hkind rfl) ?_
      exact yields_bind fun _ => yields_bind fun _ => yields_guarded (yields_pure ⟨rfl, rfl⟩)
    · exact satisfiesAt_rejectCurrent _
  · exact satisfiesAt_rejectCurrent _

/-- A constant is known from where it is read, with what is inside of it. -/
theorem records_constantRule (hleaves : Leaves tokens D W) :
    Records tokens D (fun c => AllSatisfy W c.constants) (constantRule call) := by
  have hother : Records tokens D (fun c => AllSatisfy W c.constants) (do
      let start := (← current).span
      let value ← literalRule call
      return ⟨value, ← spanFrom start⟩ : Parser Constant) := by
    intro s t c hs heq
    have hmeets := (reporting_lawful htokens).literalRule fun n => h.meets n s.diagnostics
    rw [current_bind_apply] at heq
    obtain ⟨value, u, hvalue, hrest⟩ := bind_eq_ok_iff.1 heq
    rw [spanFrom_bind_apply] at hrest
    obtain ⟨rfl, rfl⟩ := pure_eq_ok_iff.1 hrest
    have hends := hmeets s hs.refl
    rw [hvalue] at hends
    exact ⟨hends, satisfiesAt_literalRule h hleaves _ s u value hs rfl hvalue⟩
  refine records_current_bind fun t => ?_
  split
  · exact records_number htokens hleaves
  · exact records_number htokens hleaves
  · exact records_number htokens hleaves
  · exact records_number htokens hleaves
  · exact hother

/-! ### Expressions -/

theorem records_exprRule (least : Nat) :
    Records tokens D (fun e => AllSatisfy W e.constants) (exprRule call least) := by
  have hoperand : Records tokens D (fun e => AllSatisfy W e.constants) (logicalOperand call) := by
    refine records_atKeyword_bind .NOT fun here => ?_
    split
    · refine records_behind htokens (·.take) fun start => (h.expr notPrecedence).bind fun e => ?_
      exact records_spanFrom_bind start fun _ => records_pure fun he => he
    · exact (h.test 0).bind fun p => records_pure fun hp => hp
  have hstep (left : Expr) :
      Records tokens D (fun r => AllSatisfy W left.constants → AllSatisfy W r.value.constants)
        (logicalStep call least left) := by
    refine records_current_bind fun t => ?_
    cases Connective.ofKind? t.kind with
    | none => exact records_pure fun hleft => hleft
    | some op =>
      dsimp only
      split
      · exact records_pure fun hleft => hleft
      · refine records_behind htokens (·.skip 1) fun _ => (h.expr _).bind fun right => ?_
        refine records_pure fun hright hleft => ?_
        cases op with
        | and => exact allSatisfy_append.2 ⟨hleft, hright⟩
        | or => exact allSatisfy_append.2 ⟨hleft, hright⟩
  rw [exprRule_eq]
  exact Records.nest (hoperand.bind (records_loop hstep))

/-- What is known of the predicate in front of a test is known behind it. -/
theorem records_testRule (left : Predicate) (test : Test) :
    Records tokens D (fun p => AllSatisfy W left.constants → AllSatisfy W p.constants)
      (testRule call left test) := by
  cases test with
  | comparison op =>
    exact (h.test _).bind fun right => records_pure fun hright hleft =>
      allSatisfy_append.2 ⟨hleft, hright⟩
  | isNull negated =>
    exact records_behind htokens (·.keyword .NULL) fun _ => records_pure fun hleft => hleft
  | between negated =>
    refine (h.test _).bind fun low => records_behind htokens (·.keyword .AND) fun _ =>
      (h.test _).bind fun high => records_pure fun hhigh hlow hleft => ?_
    exact allSatisfy_append.2 ⟨allSatisfy_append.2 ⟨hleft, hlow⟩, hhigh⟩
  | like negated =>
    exact (h.test _).bind fun pattern => records_pure fun hpattern hleft =>
      allSatisfy_append.2 ⟨hleft, hpattern⟩
  | regexp negated =>
    exact (h.test _).bind fun pattern => records_pure fun hpattern hleft =>
      allSatisfy_append.2 ⟨hleft, hpattern⟩
  | within negated =>
    refine records_behind htokens (·.symbol .leftParen) fun _ =>
      (h.exprs htokens "IN list item").bind fun items => ?_
    refine records_behind htokens (·.symbol .rightParen) fun _ =>
      records_spanFrom_bind left.span fun _ => records_pure fun hitems hleft => ?_
    exact allSatisfy_append.2 ⟨hleft, hitems⟩

theorem records_predicateRule (least : Nat) :
    Records tokens D (fun p => AllSatisfy W p.constants) (predicateRule call least) := by
  have hstep (left : Predicate) :
      Records tokens D (fun r => AllSatisfy W left.constants → AllSatisfy W r.value.constants)
        (predicateStep call least left) := by
    rw [predicateStep_eq]
    refine records_get_bind fun s => ?_
    unfold testStep
    split
    · exact records_pure fun hleft => hleft
    · split
      · exact records_pure fun hleft => hleft
      · refine records_behind htokens (·.skip _) fun _ => ?_
        exact (records_testRule h htokens left _).bind fun p => records_pure fun hp hleft => hp hleft
  exact (h.records (.arithmetic 0)).bind fun left => records_loop hstep (.atom left)

theorem records_arithmeticRule (least : Nat) :
    Records tokens D (fun a => AllSatisfy W a.constants) (arithmeticRule call least) := by
  have hstep (left : Atom) :
      Records tokens D (fun r => AllSatisfy W left.constants → AllSatisfy W r.value.constants)
        (arithmeticStep call least left) := by
    refine records_current_bind fun t => ?_
    cases ArithmeticOp.ofKind? t.kind with
    | none => exact records_pure fun hleft => hleft
    | some op =>
      dsimp only
      split
      · exact records_pure fun hleft => hleft
      · refine records_behind htokens (·.skip 1) fun _ => (h.records (.arithmetic _)).bind fun right => ?_
        exact records_pure fun hright hleft => allSatisfy_append.2 ⟨hleft, hright⟩
  exact (h.records .operand).bind (records_loop hstep)

theorem records_operandRule :
    Records tokens D (fun a => AllSatisfy W a.constants) (operandRule call) := by
  have hfieldEquals : Records tokens D (fun f => AllSatisfy W f.constants) (fieldEqualsCall call) :=
    records_current_bind fun t => (h.records .fieldEquals).bind fun _ =>
      records_spanFrom_bind t.span fun _ => records_pure fun hr => hr
  rw [operandRule_eq]
  refine records_get_bind fun s => ?_
  unfold operandAt
  split
  · exact hfieldEquals.bind fun _ => records_pure fun hf => hf
  · split
    · exact h.records .parenthesized
    · exact (h.records .constant).bind fun _ => records_pure fun hc => hc
    · exact (h.records .call).bind fun _ => records_pure fun hf => hf
    · exact records_behind htokens (·.qualifiedName) fun _ => records_pure allSatisfy_nil
    · exact records_reject _

theorem records_parenthesizedRule :
    Records tokens D (fun a => AllSatisfy W a.constants) (parenthesizedRule call) :=
  records_behind htokens (·.symbol .leftParen) fun start => (h.expr 0).bind fun _ =>
    records_behind htokens (·.symbol .rightParen) fun _ => records_spanFrom_bind start fun _ =>
      records_pure fun he => he

/-! ### Calls -/

theorem records_argumentsRule :
    Records tokens D (fun es => ∀ e ∈ es, AllSatisfy W e.constants) (argumentsRule call) := by
  refine records_behind htokens (·.takeSymbol .rightParen) fun found => ?_
  split
  · exact records_pure fun e he => absurd he List.not_mem_nil
  · exact ((h.expr 0).commaSeparated htokens _).bind fun _ =>
      records_behind htokens (·.symbol .rightParen) fun _ => records_pure fun hes => hes

theorem records_scalarRule (category : ScalarCategory) :
    Records tokens D (fun f => AllSatisfy W f.constants) (scalarRule call category) :=
  records_behind htokens (·.callName) fun _ => (h.records .arguments).bind fun _ =>
    records_pure fun hes => allSatisfy_constantsAll.2 hes

theorem records_caseBranches :
    Records tokens D (fun bs => AllSatisfy W (constantsBranches bs)) (caseBranches call) := by
  have hstep (branches : List CaseBranch) :
      Records tokens D
        (fun r => (∀ b ∈ branches, AllSatisfy W b.constants) → ∀ b ∈ r.value, AllSatisfy W b.constants)
        (caseStep call branches) := by
    refine records_behind htokens (·.takeKeyword .WHEN) fun found => ?_
    split
    · refine (h.expr 0).bind fun condition => records_behind htokens (·.keyword .THEN) fun _ =>
        (h.expr 0).bind fun result => records_pure fun hr hc hbranches => ?_
      exact List.forall_mem_cons.2 ⟨allSatisfy_append.2 ⟨hc, hr⟩, hbranches⟩
    · exact records_pure fun hbranches => hbranches
  rw [caseBranches_eq]
  refine (records_loop hstep []).bind fun bs => records_pure fun hbs => ?_
  have hbs := hbs fun b hb => absurd hb List.not_mem_nil
  exact allSatisfy_constantsBranches.2 fun b hb => hbs b (List.mem_reverse.1 hb)

/-- What is known of the branches is known of the whole `CASE`. -/
theorem records_caseEnd (operand : Option Expr) (branches : List CaseBranch) :
    Records tokens D
      (fun f => AllSatisfy W (constantsBranches branches) → AllSatisfy W (constantsOptional operand) →
        AllSatisfy W f.constants) (caseEnd call operand branches) := by
  refine records_guarded (records_rejectCurrent _) ?_
  refine records_behind htokens (·.takeKeyword .ELSE) fun found => ?_
  have hsome : Records tokens D (fun e => AllSatisfy W (constantsOptional e))
      (some <$> call .wholeExpr) := (h.expr 0).map fun _ he => he
  refine records_either hsome (records_pure allSatisfy_nil) fun otherwise => ?_
  refine records_behind htokens (·.keyword .END) fun _ => records_pure fun he hb ho => ?_
  exact allSatisfy_append.2 ⟨allSatisfy_append.2 ⟨ho, hb⟩, he⟩

theorem records_caseRule : Records tokens D (fun f => AllSatisfy W f.constants) (caseRule call) := by
  have hsome : Records tokens D (fun e => AllSatisfy W (constantsOptional e))
      (some <$> call .wholeExpr) := (h.expr 0).map fun _ he => he
  refine records_behind htokens (·.keyword .CASE) fun _ => records_atKeyword_bind .WHEN fun here => ?_
  refine records_either (records_pure allSatisfy_nil) hsome fun operand => ?_
  exact (records_caseBranches h htokens).bind fun branches => records_caseEnd h htokens operand branches

theorem records_castRule : Records tokens D (fun f => AllSatisfy W f.constants) (castRule call) :=
  records_behind htokens (·.keyword .CAST) fun _ => records_behind htokens (·.symbol .leftParen)
    fun _ => (h.expr 0).bind fun _ => records_behind htokens (·.keyword .AS) fun _ =>
      records_behind htokens (·.dataType) fun _ => records_behind htokens (·.symbol .rightParen)
        fun _ => records_pure fun he => he

theorem records_positionRule :
    Records tokens D (fun f => AllSatisfy W f.constants) (positionRule call) :=
  records_behind htokens (·.callName) fun _ => (h.expr 0).atSeparator.bind fun _ =>
    records_behind htokens (·.keyword .IN) fun _ => (h.expr 0).bind fun _ =>
      records_behind htokens (·.symbol .rightParen) fun _ => records_pure fun hstring hsubstring =>
        allSatisfy_append.2 ⟨hsubstring, hstring⟩

theorem records_extractRule :
    Records tokens D (fun f => AllSatisfy W f.constants) (extractRule call) :=
  records_behind htokens (·.callName) fun _ => records_behind htokens (·.datetimeUnit) fun _ =>
    records_behind htokens (·.keyword .FROM) fun _ => (h.expr 0).bind fun _ =>
      records_behind htokens (·.symbol .rightParen) fun _ => records_pure fun he => he

theorem records_getFormatRule :
    Records tokens D (fun f => AllSatisfy W f.constants) (getFormatRule call) :=
  records_behind htokens (·.callName) fun _ => records_behind htokens (·.formatTarget) fun _ =>
    records_behind htokens (·.symbol .comma) fun _ => (h.expr 0).bind fun _ =>
      records_behind htokens (·.symbol .rightParen) fun _ => records_pure fun he => he

theorem records_timestampRule (function : TimestampFunction) :
    Records tokens D (fun f => AllSatisfy W f.constants) (timestampRule call function) :=
  records_behind htokens (·.callName) fun _ => records_behind htokens (·.singleUnit) fun _ =>
    records_behind htokens (·.symbol .comma) fun _ => (h.expr 0).bind fun _ =>
      records_behind htokens (·.symbol .comma) fun _ => (h.expr 0).bind fun _ =>
        records_behind htokens (·.symbol .rightParen) fun _ => records_pure fun hsecond hfirst =>
          allSatisfy_append.2 ⟨hfirst, hsecond⟩

theorem records_shapeRule (family : FunctionFamily) :
    Records tokens D (fun f => AllSatisfy W f.constants) (shapeRule call family) := by
  have hfollowed {p : Parser Aggregate}
      (hp : Records tokens D (fun a : Aggregate => AllSatisfy W a.constants) p) :
      Records tokens D (fun f => AllSatisfy W f.constants) (do call (.aggregateTail (← p))) :=
    hp.bind fun a => h.records (.aggregateTail a)
  cases family with
  | nested =>
    refine records_get_bind fun s => ?_
    split
    · refine records_yields htokens (·.nestedAll) ?_
      exact yields_bind fun _ => yields_bind fun _ => yields_bind fun _ => yields_bind fun _ =>
        yields_bind fun _ => yields_pure allSatisfy_nil
    · exact h.records (.scalar .nested)
  | scalar category => exact h.records (.scalar category)
  | ranking function => exact h.records (.ranking function)
  | aggregate function => exact hfollowed (h.records (.aggregate function))
  | percentile function => exact hfollowed (h.records (.percentile function))
  | score => exact h.records .score
  | relevance kind => exact (h.records (.relevance kind)).bind fun _ => records_pure fun hr => hr
  | highlight =>
    refine records_yields htokens (·.highlight) ?_
    exact yields_bind fun _ => yields_bind fun _ => yields_bind fun _ => yields_bind fun _ =>
      yields_pure allSatisfy_nil
  | position => exact h.records .position
  | extract => exact h.records .extract
  | getFormat => exact h.records .getFormat
  | timestamp function => exact h.records (.timestamp function)

omit htokens in
theorem records_callRule : Records tokens D (fun f => AllSatisfy W f.constants) (callRule call) := by
  have hshape : Records tokens D (fun f => AllSatisfy W f.constants) (callShape call) := by
    refine records_current_bind fun t => ?_
    split
    · exact h.records .case
    · exact h.records .cast
    · exact h.records (.scalar .dateTime)
    · exact h.records (.scalar .dateTime)
    · exact h.records (.scalar .dateTime)
    · exact h.records (.scalar .dateTime)
    · split
      · exact h.records (.shape _)
      · exact records_reject _
    · exact records_reject _
  rw [callRule_eq]
  refine Records.nest (records_current_bind fun t => hshape.bind fun _ => ?_)
  exact records_spanFrom_bind t.span fun _ => records_pure fun hf => hf

/-! ### Aggregates and windows -/

theorem records_aggregateRule (function : AggregateFunction) :
    Records tokens D (fun a => AllSatisfy W a.constants) (aggregateRule call function) := by
  have hregular : Records tokens D (fun a => AllSatisfy W a.constants)
      (do return Aggregate.regular function (← call .wholeExpr)) :=
    (h.expr 0).bind fun _ => records_pure fun he => he
  have hform : Records tokens D (fun a => AllSatisfy W a.constants)
      (aggregateRule.form call function) := by
    unfold aggregateRule.form
    dsimp only
    split
    · refine records_behind htokens (·.takeSymbol .star) fun star => ?_
      split
      · exact records_pure allSatisfy_nil
      · refine records_behind htokens (·.takeKeyword .DISTINCT) fun distinct => ?_
        split
        · exact (h.exprs htokens _).bind fun _ => records_pure fun hes => hes
        · exact hregular
    · exact hregular
  exact records_behind htokens (·.callName) fun _ => hform.bind fun _ =>
    records_behind htokens (·.symbol .rightParen) fun _ => records_pure fun ha => ha

/-- The percentages are numbers that are read here, and not by a callee. -/
theorem records_percentileRule (hleaves : Leaves tokens D W) (function : PercentileFunction) :
    Records tokens D (fun a => AllSatisfy W a.constants) (percentileRule call function) := by
  have hsome : Records tokens D (fun c => AllSatisfy W (constantsConstant c)) (some <$> number) :=
    (records_number htokens hleaves).map fun _ hc => hc
  refine records_behind htokens (·.callName) fun _ => (h.expr 0).bind fun field =>
    records_behind htokens (·.symbol .comma) fun _ =>
      (records_number htokens hleaves).bind fun percent => records_behind htokens (·.takeSymbol .comma) fun found => ?_
  refine records_either hsome (records_pure allSatisfy_nil) fun compression => ?_
  refine records_behind htokens (·.symbol .rightParen) fun _ => records_pure fun hc hp hf => ?_
  exact allSatisfy_append.2 ⟨allSatisfy_append.2 ⟨hf, hp⟩, hc⟩

theorem records_orderByRule :
    Records tokens D (fun o => AllSatisfy W o.constants) (orderByRule call) :=
  records_behind htokens (·.keyword .ORDER) fun start => records_behind htokens (·.keyword .BY)
    fun _ => ((h.records .orderItem).commaSeparated htokens _).bind fun _ =>
      records_spanFrom_bind start fun _ => records_pure fun his => allSatisfy_constantsItems.2 his

theorem records_orderItemRule :
    Records tokens D (fun i => AllSatisfy W i.constants) (orderItemRule call) :=
  (h.expr 0).bind fun _ => records_behind htokens (·.direction) fun _ =>
    records_behind htokens (·.nullOrder) fun _ => records_pure fun he => he

theorem records_filterRule :
    Records tokens D (fun f => AllSatisfy W f.constants) (filterRule call) :=
  records_behind htokens (·.keyword .FILTER) fun start => records_behind htokens (·.symbol .leftParen)
    fun _ => records_behind htokens (·.keyword .WHERE) fun _ => (h.expr 0).bind fun _ =>
      records_behind htokens (·.symbol .rightParen) fun _ => records_spanFrom_bind start fun _ =>
        records_pure fun he => he

theorem records_windowRule :
    Records tokens D (fun w => AllSatisfy W w.constants) (windowRule call) := by
  have hpartition : Records tokens D (fun p => AllSatisfy W (constantsPartition p))
      (partitionBy call) := by
    refine records_atKeyword_bind .PARTITION fun here => ?_
    split
    · exact records_behind htokens (·.take) fun start => records_behind htokens (·.keyword .BY)
        fun _ => (h.exprs htokens _).bind fun _ => records_spanFrom_bind start fun _ =>
          records_pure fun hes => hes
    · exact records_pure allSatisfy_nil
  have hsome : Records tokens D (fun o => AllSatisfy W (constantsOrder o)) (some <$> call .orderBy) :=
    (h.records .orderBy).map fun _ ho => ho
  refine records_behind htokens (·.keyword .OVER) fun start =>
    records_behind htokens (·.symbol .leftParen) fun _ => hpartition.bind fun partition =>
      records_atKeyword_bind .ORDER fun here => ?_
  refine records_either hsome (records_pure allSatisfy_nil) fun orderBy => ?_
  exact records_behind htokens (·.symbol .rightParen) fun _ => records_spanFrom_bind start fun _ =>
    records_pure fun ho hp => allSatisfy_append.2 ⟨hp, ho⟩

theorem records_rankingRule (function : RankingFunction) :
    Records tokens D (fun f => AllSatisfy W f.constants) (rankingRule call function) :=
  records_behind htokens (·.callName) fun _ => (h.records .arguments).bind fun _ =>
    (h.records .window).bind fun _ => records_pure fun hw hes =>
      allSatisfy_append.2 ⟨allSatisfy_constantsAll.2 hes, hw⟩

omit htokens in
/-- What is known of the aggregate is known of what follows it. -/
theorem records_aggregateTailRule (aggregate : Aggregate) :
    Records tokens D (fun f => AllSatisfy W aggregate.constants → AllSatisfy W f.constants)
      (aggregateTailRule call aggregate) := by
  have hordered : Records tokens D (fun r => AllSatisfy W r.1.constants ∧ AllSatisfy W r.2.constants)
      (orderedFilter call) :=
    (h.records .orderBy).bind fun _ => (h.records .filter).bind fun _ =>
      records_pure fun hf ho => ⟨ho, hf⟩
  have hplain : Records tokens D (fun f => AllSatisfy W aggregate.constants → AllSatisfy W f.constants)
      (pure (CallShape.aggregate aggregate)) := records_pure fun ha => ha
  refine records_atKeyword_bind .OVER fun here => ?_
  split
  · exact (h.records .window).bind fun _ => records_pure fun hw ha => allSatisfy_append.2 ⟨ha, hw⟩
  refine records_atKeyword_bind .FILTER fun here => ?_
  split
  · refine (h.records .filter).bind fun _ => records_pure fun hf ha => ?_
    exact allSatisfy_append.2 ⟨allSatisfy_append.2 ⟨ha, allSatisfy_nil⟩, hf⟩
  refine records_atKeyword_bind .ORDER fun here => ?_
  split
  · refine (hordered.attempt _).bind fun found => ?_
    cases found with
    | some both =>
      refine records_pure fun hfound ha => ?_
      obtain ⟨ho, hf⟩ := hfound both rfl
      exact allSatisfy_append.2 ⟨allSatisfy_append.2 ⟨ha, ho⟩, hf⟩
    | none => exact hplain.imp fun _ hf _ => hf
  · exact hplain

/-! ### Full-text search -/

theorem records_searchValueRule :
    Records tokens D (fun v => AllSatisfy W v.constants) (searchValueRule call) := by
  refine records_get_bind fun s => ?_
  split
  · exact (h.records .constant).bind fun _ => records_pure fun hc => hc
  · exact records_behind htokens (·.qualifiedName) fun _ => records_pure allSatisfy_nil

theorem records_relevanceOptionsRule :
    Records tokens D (fun os => ∀ o ∈ os, AllSatisfy W o.constants) (relevanceOptionsRule call) := by
  have hstep (options : List RelevanceOption) :
      Records tokens D
        (fun r => (∀ o ∈ options, AllSatisfy W o.constants) → ∀ o ∈ r.value, AllSatisfy W o.constants)
        (relevanceStep call options) := by
    refine records_behind htokens (·.takeSymbol .comma) fun found => ?_
    cases found with
    | true =>
      refine records_behind htokens (·.relevanceOptionName) fun name =>
        records_behind htokens (·.symbol .eq) fun _ => (h.records .searchValue).bind fun value => ?_
      exact records_pure fun hvalue hoptions => List.forall_mem_cons.2 ⟨hvalue, hoptions⟩
    | false => exact records_pure fun hoptions => hoptions
  rw [relevanceOptionsRule_eq]
  refine (records_loop hstep []).bind fun os => records_pure fun hos => ?_
  have hos := hos fun o ho => absurd ho List.not_mem_nil
  exact fun o ho => hos o (List.mem_reverse.1 ho)

theorem records_namedArgumentsRule :
    Records tokens D (fun r => AllSatisfy W r.1.constants) (namedArgumentsRule call) := by
  have hargument : Records tokens D (fun a => ∀ value, a = .query value → AllSatisfy W value.constants)
      (namedArgument call) := by
    refine records_current_bind fun t => ?_
    dsimp only
    split
    · refine records_behind htokens (·.skip 1) fun _ => records_behind htokens (·.symbol .eq) fun _ =>
        (h.records .searchValue).bind fun v => records_pure fun hv => ?_
      rintro _ ⟨⟩
      exact hv
    · split
      · refine records_behind htokens (·.skip 1) fun _ => records_behind htokens (·.symbol .eq)
          fun _ => records_atSymbol_bind .leftBracket fun here => ?_
        split
        · exact records_behind htokens (·.fieldList) fun _ => records_pure nofun
        · exact records_behind htokens (·.weightedField) fun _ => records_pure nofun
      · exact records_rejectCurrent _
  refine hargument.bind fun first => records_behind htokens (·.symbol .comma) fun _ =>
    hargument.bind fun second => ?_
  split
  · exact records_pure fun _ hfirst => hfirst _ rfl
  · exact records_pure fun hsecond _ => hsecond _ rfl
  · exact records_rejectCurrent _
  · exact records_rejectCurrent _

theorem records_relevanceRule (kind : RelevanceKind) :
    Records tokens D (fun r => AllSatisfy W r.constants) (relevanceRule call kind) := by
  have htarget : Records tokens D (fun r => AllSatisfy W r.2.constants) (searchTarget call kind) := by
    cases kind with
    | noField => exact (h.records .searchValue).bind fun _ => records_pure fun hv => hv
    | singleField =>
      exact records_behind htokens (·.field) fun _ => records_behind htokens (·.symbol .comma)
        fun _ => (h.records .searchValue).bind fun _ => records_pure fun hv => hv
    | multiField =>
      refine records_current_bind fun t => records_peek_bind 1 fun u => ?_
      split
      · exact (h.records .namedArguments).bind fun _ => records_pure fun hr => hr
      · exact records_behind htokens (·.fieldList) fun _ => records_behind htokens (·.symbol .comma)
          fun _ => (h.records .searchValue).bind fun _ => records_pure fun hv => hv
  refine records_behind htokens (·.callName) fun _ => htarget.bind fun target =>
    (h.records .relevanceOptions).bind fun options => records_behind htokens (·.symbol .rightParen)
      fun _ => records_pure fun ho hvalue => ?_
  exact allSatisfy_append.2 ⟨hvalue, allSatisfy_constantsOptions.2 ho⟩

theorem records_fieldEqualsRule :
    Records tokens D (fun r => AllSatisfy W r.constants) (fieldEqualsRule call) := by
  refine records_behind htokens (·.field) fun _ => records_behind htokens (·.symbol .eq) fun _ =>
    records_current_bind fun t => ?_
  split
  · refine records_behind htokens (·.callName) fun _ => (h.records .searchValue).bind fun value =>
      (h.records .relevanceOptions).bind fun options => records_behind htokens (·.symbol .rightParen)
        fun _ => records_pure fun ho hvalue => ?_
    exact allSatisfy_append.2 ⟨hvalue, allSatisfy_constantsOptions.2 ho⟩
  · exact records_rejectCurrent _

theorem records_scoreRule : Records tokens D (fun f => AllSatisfy W f.constants) (scoreRule call) := by
  have hscored : Records tokens D (fun r => AllSatisfy W r.constants) (scoredRelevance call) := by
    refine records_get_bind fun s => ?_
    split
    · exact h.records .fieldEquals
    · refine records_current_bind fun t => ?_
      dsimp only
      split
      · exact h.records (.relevance _)
      · exact records_reject _
  have hweight : Records tokens D (fun _ => True) (some <$> weight) :=
    records_plain htokens fun hC => hC.weight.map _
  refine records_behind htokens (·.callName) fun _ => hscored.bind fun _ =>
    records_behind htokens (·.takeSymbol .comma) fun found => ?_
  refine records_either hweight (records_pure trivial) fun _ => ?_
  exact records_behind htokens (·.symbol .rightParen) fun _ => records_pure fun _ hr => hr

/-! ### Queries -/

theorem records_selectItemRule (starAllowed : Bool) :
    Records tokens D (fun i => AllSatisfy W i.constants) (selectItemRule call starAllowed) := by
  have hexpr : Records tokens D (fun i => AllSatisfy W i.constants) (do
      let e ← call .wholeExpr
      return SelectItem.expr e (← optionalAlias)) :=
    (h.expr 0).bind fun _ => records_behind htokens (·.optionalAlias) fun _ =>
      records_pure fun he => he
  unfold selectItemRule
  cases starAllowed with
  | true =>
    refine records_atSymbol_bind .star fun here => ?_
    split
    · exact records_behind htokens (·.take) fun _ => records_pure allSatisfy_nil
    · exact hexpr
  | false => exact records_atSymbol_bind .star fun _ => hexpr

theorem records_relationRule :
    Records tokens D (fun r => AllSatisfy W r.constants) (relationRule call) := by
  refine records_behind htokens (·.keyword .FROM) fun _ => records_atSymbol_bind .leftParen
    fun here => ?_
  split
  · refine records_behind htokens (·.take) fun start => (h.records .query).subquery.nest.bind fun q => ?_
    refine records_behind htokens (·.symbol .rightParen) fun _ =>
      records_behind htokens (·.takeKeyword .AS) fun _ => records_behind htokens (·.ident) fun _ => ?_
    exact records_spanFrom_bind start fun _ => records_pure fun hq => hq
  · exact records_behind htokens (·.qualifiedName) fun _ => records_behind htokens (·.optionalAlias)
      fun _ => records_pure allSatisfy_nil

theorem records_conditionRule (word : Keyword) :
    Records tokens D (fun c => AllSatisfy W c.expr.constants) (conditionRule call word) :=
  records_behind htokens (·.keyword word) fun start => (h.expr 0).bind fun _ =>
    records_spanFrom_bind start fun _ => records_pure fun he => he

theorem records_groupByRule :
    Records tokens D (fun g => ∀ e ∈ g.exprs, AllSatisfy W e.constants) (groupByRule call) :=
  records_behind htokens (·.keyword .GROUP) fun start => records_behind htokens (·.keyword .BY)
    fun _ => ((h.expr 0).commaSeparated htokens _).bind fun _ => records_spanFrom_bind start fun _ =>
      records_pure fun hes => hes

/-- A clause as it is read in a query. -/
theorem Satisfying.clause {α : Type} (n : Nonterminal α) (allowed : Bool) (word : Keyword) :
    Records tokens D (fun found => ∀ a ∈ found, n.Satisfies W a) (clause allowed word (call n)) :=
  (h.records n).clause htokens (h.meets n) allowed word

/-- The constants of a query are those of its clauses. -/
theorem records_queryRule : Records tokens D (fun q => AllSatisfy W q.constants) (queryRule call) := by
  have hnone {α : Type} {f : α → List Constant} {found : Option α}
      (hfound : ∀ a ∈ found, AllSatisfy W (f a)) : AllSatisfy W (found.elim [] f) := by
    cases found with
    | none => exact allSatisfy_nil
    | some a => exact hfound a rfl
  refine records_behind htokens (·.keyword .SELECT) fun start =>
    records_behind htokens (·.quantifier) fun _ =>
      ((h.records .selectItems).recover htokens (h.meets .selectItems)).bind fun items =>
        records_behind htokens (·.clauseEnd) fun _ =>
          records_atKeyword_bind .FROM fun hasRelation => ?_
  refine (h.clause htokens .relation hasRelation .FROM).bind fun relation => ?_
  refine (h.clause htokens (.condition .WHERE) hasRelation .WHERE).bind fun condition => ?_
  refine (h.clause htokens .groupBy hasRelation .GROUP).bind fun groupBy => ?_
  refine (h.clause htokens (.condition .HAVING) hasRelation .HAVING).bind fun having => ?_
  refine (h.clause htokens .orderBy hasRelation .ORDER).bind fun orderBy => ?_
  refine records_behind htokens (·.limitClause) fun limit => records_spanFrom_bind start fun span =>
    records_pure fun ho hh hg hc hr hitems => ?_
  simp only [Query.constants, allSatisfy_append]
  refine ⟨⟨⟨⟨⟨?_, ?_⟩, hnone hc⟩, hnone fun g hgroup => ?_⟩, hnone hh⟩, ?_⟩
  · intro c hmem
    obtain ⟨i, hi, hconstant⟩ := List.mem_flatMap.1 hmem
    cases items with
    | none => exact absurd hi List.not_mem_nil
    | some is => exact hitems is rfl i hi c hconstant
  · cases relation with
    | none => exact allSatisfy_nil
    | some r => exact hr r rfl
  · exact allSatisfy_constantsAll.2 (hg g hgroup)
  · cases orderBy with
    | none => exact allSatisfy_nil
    | some o => exact ho o rfl

/-- Each rule puts together trees whose constants have the property. -/
theorem satisfies_rule (hleaves : Leaves tokens D W) {α : Type} (n : Nonterminal α) :
    Records tokens D (n.Satisfies W) (rule call n) := by
  cases n with
  | expr least => exact records_exprRule h htokens least
  | predicate least => exact records_predicateRule h htokens least
  | arithmetic least => exact records_arithmeticRule h htokens least
  | operand => exact records_operandRule h htokens
  | parenthesized => exact records_parenthesizedRule h htokens
  | constant => exact records_constantRule h htokens hleaves
  | interval => exact records_intervalRule h htokens
  | call => exact records_callRule h
  | shape family => exact records_shapeRule h htokens family
  | arguments => exact records_argumentsRule h htokens
  | scalar category => exact records_scalarRule h htokens category
  | case => exact records_caseRule h htokens
  | cast => exact records_castRule h htokens
  | ranking function => exact records_rankingRule h htokens function
  | aggregate function => exact records_aggregateRule h htokens function
  | percentile function => exact records_percentileRule h htokens hleaves function
  | aggregateTail aggregate => exact records_aggregateTailRule h aggregate
  | window => exact records_windowRule h htokens
  | filter => exact records_filterRule h htokens
  | orderBy => exact records_orderByRule h htokens
  | orderItem => exact records_orderItemRule h htokens
  | score => exact records_scoreRule h htokens
  | relevance kind => exact records_relevanceRule h htokens kind
  | fieldEquals => exact records_fieldEqualsRule h htokens
  | namedArguments => exact records_namedArgumentsRule h htokens
  | searchValue => exact records_searchValueRule h htokens
  | relevanceOptions => exact records_relevanceOptionsRule h htokens
  | position => exact records_positionRule h htokens
  | extract => exact records_extractRule h htokens
  | getFormat => exact records_getFormatRule h htokens
  | timestamp function => exact records_timestampRule h htokens function
  | selectItems =>
    exact (h.records (.selectItem true)).commaList htokens (h.records (.selectItem false))
      "select element"
  | selectItem starAllowed => exact records_selectItemRule h htokens starAllowed
  | relation => exact records_relationRule h htokens
  | condition word => exact records_conditionRule h htokens word
  | groupBy => exact records_groupByRule h htokens
  | query => exact records_queryRule h htokens

end

/-! ## Parses -/

/-- All rules give constants with the property, whatever fuel there is. -/
theorem satisfying_derive (hleaves : Leaves tokens D W) (htokens : Token.InOrder tokens)
    (fuel : Nat) :
    Satisfying tokens D W (derive fuel) := by
  induction fuel with
  | zero =>
    exact ⟨fun _ _ _ _ _ heq => absurd heq nofun, fun n _ => (reporting_lawful htokens).derive 0 n⟩
  | succ fuel ih =>
    exact ⟨fun n => satisfies_rule ih htokens hleaves n, fun n _ => (reporting_lawful htokens).derive _ n⟩

/-- So does the rule of a statement. -/
theorem records_statementRule {call : Callee} (h : Satisfying tokens D W call)
    (htokens : Token.InOrder tokens) :
    Records tokens D (fun s => AllSatisfy W s.constants) (statementRule call) := by
  refine records_current_bind fun t => ?_
  dsimp only
  split
  · exact (h.records .query).bind fun _ => records_pure fun hq => hq
  · refine records_yields htokens (·.showTables) ?_
    exact yields_bind fun _ => yields_bind fun _ => yields_bind fun _ => yields_bind fun _ =>
      yields_pure allSatisfy_nil
  · refine records_yields htokens (·.describe) ?_
    exact yields_bind fun _ => yields_bind fun _ => yields_bind fun _ => yields_bind fun _ =>
      yields_bind fun _ => yields_pure allSatisfy_nil
  · exact records_reject _

section

variable [Time.Library] {settings : Settings} {found : Option Statement} {t : State} {last : Token}
  (htokens : Token.InOrder tokens) (hlast : tokens.getLast? = some last) (hend : last.isEnd = true)
  (heq : runRoot tokens settings = .ok found t)

include htokens hlast hend heq

/-- What is known of statements once all diagnostics are known is known of what a parse gives. -/
theorem satisfies_runRoot {P : Statement → Prop}
    (hstatement : Records tokens t.diagnostics P (statementRule (derive (fuelFor settings)))) :
    ∀ statement ∈ found, P statement := by
  have hoptional : Records tokens t.diagnostics (fun found => ∀ statement ∈ found, P statement)
      (optionalStatement (derive (fuelFor settings))) := by
    refine records_current_bind fun u => ?_
    split
    · exact records_pure nofun
    · exact records_pure nofun
    · refine hstatement.recover htokens fun ds => ?_
      exact (reporting_lawful htokens).statementRule fun n => (reporting_lawful htokens).derive _ n
  have hroot : Records tokens t.diagnostics (fun found => ∀ statement ∈ found, P statement)
      (rootRule (derive (fuelFor settings))) :=
    hoptional.bind fun _ => records_behind htokens (·.takeSymbol .semicolon) fun _ =>
      records_behind htokens (·.inputEnd) fun _ => records_pure fun hfound => hfound
  have hstart : (State.ofTokens tokens settings).IsReporting tokens [] :=
    ⟨isOrdered_ofTokens hlast hend settings, nofun, List.nil_subset _⟩
  exact (hroot _ t found hstart heq).2 (List.Subset.refl _)

/-- In what a parse gives, all constants have the property, if those that are read have it once all
diagnostics of the parse are known. -/
theorem allSatisfy_runRoot (hleaves : Leaves tokens t.diagnostics W) :
    ∀ statement ∈ found, AllSatisfy W statement.constants :=
  satisfies_runRoot htokens hlast hend heq
    (records_statementRule (satisfying_derive hleaves htokens _) htokens)

end

end Grammar

end SearchSql
