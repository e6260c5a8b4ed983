import SearchSql.Proofs.QueryCongruence

/-!
# Rules and their callees

A rule goes on to other rules at the same number of nested levels, which are of lower rank, or to
rules under further levels. A relation that the rules respect therefore holds of all nonterminals by
induction on the levels that are left, and on the rank among rules with as many.

Two relations are in use at a time. Only predicates depend on the depth at which `IN` separates the
operands of `POSITION`, and they are related from fewer states than the others: those that agree on
whether `IN` is a test.
-/

set_option autoImplicit false

namespace SearchSql.Grammar

open SearchSql.Grammar.Parser

namespace Nonterminal

/-- Whether the rule ends behind a token that it requires. -/
def firm : {α : Type} → Nonterminal α → Bool
  | _, .expr _ => false
  | _, .predicate _ => false
  | _, .arithmetic _ => false
  | _, .operand => false
  | _, .call => false
  | _, .shape _ => false
  | _, .aggregateTail _ => false
  | _, .orderBy => false
  | _, .orderItem => false
  | _, .selectItems => false
  | _, .selectItem _ => false
  | _, .condition _ => false
  | _, .groupBy => false
  | _, .query => false
  | _, _ => true

/-- Whether the rule belongs to queries and not to expressions. -/
def isQuery : {α : Type} → Nonterminal α → Bool
  | _, .selectItems => true
  | _, .selectItem _ => true
  | _, .relation => true
  | _, .condition _ => true
  | _, .groupBy => true
  | _, .query => true
  | _, _ => false

/-- Whether the rule looks for tests. -/
def isPredicate : {α : Type} → Nonterminal α → Bool
  | _, .predicate _ => true
  | _, _ => false

/-- The place of a rule among those with as many levels of nesting left: a rule goes on to rules of
lower rank. -/
def rank : {α : Type} → Nonterminal α → Nat
  | _, .expr _ => 0
  | _, .call => 0
  | _, .constant => 2
  | _, .orderBy => 2
  | _, .scalar _ => 2
  | _, .selectItems => 2
  | _, .searchValue => 3
  | _, .window => 3
  | _, .query => 3
  | _, .relevanceOptions => 4
  | _, .namedArguments => 4
  | _, .ranking _ => 4
  | _, .aggregateTail _ => 4
  | _, .fieldEquals => 5
  | _, .relevance _ => 5
  | _, .score => 6
  | _, .operand => 6
  | _, .shape _ => 7
  | _, .arithmetic least => 7 + (3 - least)
  | _, .predicate least => 11 + (7 - least)
  | _, _ => 1

/-- The ranks of all rules fit under the fuel of one level of nesting. -/
theorem rank_lt {α : Type} (n : Nonterminal α) : n.rank < fuelPerLevel := by
  cases n
  all_goals
    simp only [rank, fuelPerLevel]
    omega

/-- Whether a rule may go on to another at the same number of nested levels. -/
def isAbove {α β : Type} (n : Nonterminal α) (m : Nonterminal β) : Bool := m.rank < n.rank

/-- A rule is above another just if its rank is greater. -/
theorem isAbove_iff {α β : Type} {n : Nonterminal α} {m : Nonterminal β} :
    n.isAbove m = true ↔ m.rank < n.rank := by
  simp [isAbove]

end Nonterminal

/-- Two relations that the rules respect, of which the first is asked of all states and the second
only of those that agree on whether `IN` is a test. -/
structure CongruenceFamily (L : Bool → State → State → Prop) (left right : Nat → State → Prop)
    (R : Bool → Nat → Bool → {α : Type} → Parser α → Parser α → Prop) : Prop where
  congruence (aligned : Bool) : NestingCongruence (L aligned) left right (R aligned)
  align {b : Nat} {firm : Bool} {α : Type} {p q : Parser α} : R false b firm p q → R true b firm p q
  nestAligned {b : Nat} {firm : Bool} {α : Type} {p q : Parser α} :
    Steady p → Steady q → (∀ b' < b, R true b' firm p q) → R false b firm (nest 1 p) (nest 1 q)
  separator {s s' : State} : L true s s' → ∀ test, s.isSeparator test = s'.isSeparator test

/-- What the rules of expressions ask of their callees, beyond being related. -/
structure Callees (left right : Nat → State → Prop)
    (R : Bool → Nat → Bool → {α : Type} → Parser α → Parser α → Prop) (b : Nat) (c d : Callee) :
    Prop where
  steadyLeft {α : Type} (n : Nonterminal α) : Steady (c n)
  steadyRight {α : Type} (n : Nonterminal α) : Steady (d n)
  separating : R false b false (c .wholeExpr) (d .wholeExpr) → (∀ b' < b, ∀ {α : Type} (n : Nonterminal α), n.isQuery = false →
      R n.isPredicate b' n.firm (c n) (d n)) →
    R false b false (atSeparator (c .wholeExpr)) (atSeparator (d .wholeExpr))
  attempt : R false b true (orderedFilter c) (orderedFilter d) →
    R false b false (attempt "ordered aggregate filter" (orderedFilter c))
      (attempt "ordered aggregate filter" (orderedFilter d))
  waitsLeft : Waits true (c .filter)
  waitsRight : Waits true (d .filter)
  window : R false b false (c .wholeExpr) (d .wholeExpr) →
    R false b false (c .orderBy) (d .orderBy) → R false b true (windowRule c) (windowRule d)

/-- Arithmetic has three ranks. -/
theorem arithmeticPrecedence_lt (op : ArithmeticOp) : op.precedence < 3 := by
  cases op <;> decide

/-- Tests have six ranks below that of an atom. -/
theorem Test.precedence_lt (test : Test) : test.precedence < 7 := by
  cases test <;> exact of_decide_eq_true rfl

section

variable {L : Bool → State → State → Prop} {left right : Nat → State → Prop}
variable {R : Bool → Nat → Bool → {α : Type} → Parser α → Parser α → Prop}

/-- The rules of expressions are related if their callees are, those of lower rank and those under
further levels of nesting. -/
theorem CongruenceFamily.exprRule (hR : CongruenceFamily L left right R) {b : Nat} {c d : Callee}
    (h : Callees left right R b c d) {α : Type} (n : Nonterminal α) (hn : n.isQuery = false)
    (hflat : ∀ {β : Type} (m : Nonterminal β), m.isQuery = false → n.isAbove m = true →
      R m.isPredicate b m.firm (c m) (d m))
    (hdeep : ∀ b' < b, ∀ {β : Type} (m : Nonterminal β), m.isQuery = false →
      R m.isPredicate b' m.firm (c m) (d m)) :
    R n.isPredicate b n.firm (rule c n) (rule d n) := by
  have hR' := hR.congruence false
  cases n with
  -- A nested expression is read with fewer levels left, so its rules are those of `hdeep`.
  | expr least =>
    have hsteady := steady_congruence.exprBody (b := 0) (c := c) (d := d)
      (fun _ => ⟨h.steadyLeft _, h.steadyRight _⟩) ⟨h.steadyLeft _, h.steadyRight _⟩ least
    refine hR.nestAligned hsteady.1 hsteady.2 fun b' hb => ?_
    exact (hR.congruence true).exprBody (fun m => hR.align (hdeep b' hb (.expr m) rfl))
      (hdeep b' hb (.predicate 0) rfl) least
  -- The operands of a test are predicates of higher precedence, which stand below this one in
  -- rank.
  | predicate least =>
    have hpredicate (test : Test) (htest : least ≤ test.precedence) : R true b false
        (c (.predicate (test.precedence + 1))) (d (.predicate (test.precedence + 1))) := by
      have hlt := test.precedence_lt
      have hrel := hflat (.predicate (test.precedence + 1)) rfl
        (Nonterminal.isAbove_iff.2 (by simp only [Nonterminal.rank]; omega))
      exact hrel
    have harithmetic := hflat (.arithmetic 0) rfl
      (Nonterminal.isAbove_iff.2 (by simp only [Nonterminal.rank]; omega))
    have hexpr := hflat .wholeExpr rfl
      (Nonterminal.isAbove_iff.2 (by simp only [Nonterminal.rank]; omega))
    exact (hR.congruence true).predicateRule least (hR.align harithmetic) hpredicate
      (hR.align hexpr) h.steadyLeft h.steadyRight fun _ _ => hR.separator
  | arithmetic least =>
    have harithmetic (op : ArithmeticOp) (hop : least ≤ op.precedence) : R false b false
        (c (.arithmetic (op.precedence + 1))) (d (.arithmetic (op.precedence + 1))) := by
      have hlt := arithmeticPrecedence_lt op
      have hrel := hflat (.arithmetic (op.precedence + 1)) rfl
        (Nonterminal.isAbove_iff.2 (by simp only [Nonterminal.rank]; omega))
      exact hrel
    have hoperand := hflat .operand rfl
      (Nonterminal.isAbove_iff.2 (by simp only [Nonterminal.rank]; omega))
    exact hR'.arithmeticRule least hoperand harithmetic (fun _ => h.steadyLeft _)
      (fun _ => h.steadyRight _)
  | operand =>
    exact hR'.operandRule (hflat .fieldEquals rfl rfl)
      (hflat .parenthesized rfl rfl) (hflat .constant rfl rfl)
      (hflat .call rfl rfl)
  | parenthesized => exact hR'.parenthesizedRule (hflat .wholeExpr rfl rfl)
  | constant => exact hR'.constantRule (hflat .interval rfl rfl)
  | interval => exact hR'.intervalRule (hflat .wholeExpr rfl rfl)
  | call =>
    have hsteady := steady_congruence.callBody (b := 0) (c := c) (d := d)
      ⟨h.steadyLeft _, h.steadyRight _⟩ ⟨h.steadyLeft _, h.steadyRight _⟩
      (fun _ => ⟨h.steadyLeft _, h.steadyRight _⟩) (fun _ => ⟨h.steadyLeft _, h.steadyRight _⟩)
    refine hR'.nest (by decide) hsteady.1 hsteady.2 fun b' hb => ?_
    exact hR'.callBody (hdeep b' hb .case rfl) (hdeep b' hb .cast rfl)
      (fun category => hdeep b' hb (.scalar category) rfl)
      (fun family => hdeep b' hb (.shape family) rfl)
  | shape family =>
    exact hR'.shapeRule family (fun category => hflat (.scalar category) rfl rfl)
      (fun function => hflat (.ranking function) rfl rfl)
      (fun function => hflat (.aggregate function) rfl rfl)
      (fun function => hflat (.percentile function) rfl rfl)
      (fun aggregate => hflat (.aggregateTail aggregate) rfl rfl)
      (hflat .score rfl rfl) (fun kind => hflat (.relevance kind) rfl rfl)
      (hflat .position rfl rfl) (hflat .extract rfl rfl)
      (hflat .getFormat rfl rfl)
      (fun function => hflat (.timestamp function) rfl rfl)
  | arguments => exact hR'.argumentsRule (hflat .wholeExpr rfl rfl)
  | scalar category => exact hR'.scalarRule (hflat .arguments rfl rfl) category
  | case => exact hR'.caseRule (hflat .wholeExpr rfl rfl)
  | cast => exact hR'.castRule (hflat .wholeExpr rfl rfl)
  | ranking function =>
    exact hR'.rankingRule (hflat .arguments rfl rfl) (hflat .window rfl rfl)
      function
  | aggregate function =>
    exact hR'.aggregateRule (hflat .wholeExpr rfl rfl)
      function
  | percentile function => exact hR'.percentileRule (hflat .wholeExpr rfl rfl) function
  -- Only an attempt at a filter may be undone, so the family says itself what holds of attempts.
  | aggregateTail aggregate =>
    have hfilter := hflat .filter rfl rfl
    exact hR'.tailAround (hflat .window rfl rfl) hfilter
      (h.attempt (hR'.orderedFilter (hflat .orderBy rfl rfl) hfilter h.waitsLeft
        h.waitsRight)) aggregate
  | window => exact h.window (hflat .wholeExpr rfl rfl) (hflat .orderBy rfl rfl)
  | filter => exact hR'.filterRule (hflat .wholeExpr rfl rfl)
  | orderBy => exact hR'.orderByRule (hflat .orderItem rfl rfl)
  | orderItem => exact hR'.orderItemRule (hflat .wholeExpr rfl rfl)
  | score =>
    exact hR'.scoreRule (hflat .fieldEquals rfl rfl)
      (fun kind => hflat (.relevance kind) rfl rfl)
  | relevance kind =>
    exact hR'.relevanceRule (hflat .searchValue rfl rfl)
      (hflat .namedArguments rfl rfl) (hflat .relevanceOptions rfl rfl) kind
  | fieldEquals =>
    exact hR'.fieldEqualsRule (hflat .searchValue rfl rfl)
      (hflat .relevanceOptions rfl rfl)
  | namedArguments => exact hR'.namedArgumentsRule (hflat .searchValue rfl rfl)
  | searchValue => exact hR'.searchValueRule (hflat .constant rfl rfl)
  | relevanceOptions => exact hR'.relevanceOptionsRule (hflat .searchValue rfl rfl)
  | position =>
    have hexpr := hflat .wholeExpr rfl rfl
    exact hR'.positionRule hexpr (h.separating hexpr hdeep)
  | extract => exact hR'.extractRule (hflat .wholeExpr rfl rfl)
  | getFormat => exact hR'.getFormatRule (hflat .wholeExpr rfl rfl)
  | timestamp function => exact hR'.timestampRule (hflat .wholeExpr rfl rfl) function
  -- What follows belongs to queries.
  | selectItems => cases hn
  | selectItem => cases hn
  | relation => cases hn
  | condition => cases hn
  | groupBy => cases hn
  | query => cases hn

/-- All rules are related if their callees are, those of lower rank and those under further levels
of nesting. -/
theorem CongruenceFamily.queryRule (hR : CongruenceFamily L left right R)
    (hquery : QueryCongruence (L false) left right (R false)) {b : Nat} {c d : Callee}
    (h : Callees left right R b c d)
    (hclause : R false b false (c .orderBy) (d .orderBy) → ∀ allowed,
      Stays (left b) false (clause allowed .ORDER (c .orderBy)) ∧
        Stays (right b) false (clause allowed .ORDER (d .orderBy)))
    {α : Type} (n : Nonterminal α)
    (hflat : ∀ {β : Type} (m : Nonterminal β), n.isAbove m = true →
      R m.isPredicate b m.firm (c m) (d m))
    (hdeep : ∀ b' < b, ∀ {β : Type} (m : Nonterminal β),
      R m.isPredicate b' m.firm (c m) (d m)) :
    R n.isPredicate b n.firm (rule c n) (rule d n) := by
  cases hn : n.isQuery with
  | false =>
    exact hR.exprRule h n hn (fun m _ hm => hflat m hm) fun b' hb _ m _ => hdeep b' hb m
  | true =>
    cases n with
    | selectItems =>
      exact hquery.selectItemsRule (fun star => hflat (.selectItem star) rfl)
    | selectItem star => exact hquery.selectItemRule (hflat .wholeExpr rfl) star
    | relation =>
      exact hquery.relationRule (h.steadyLeft _) (h.steadyRight _)
        fun b' hb => hdeep b' hb .query
    | condition word => exact hquery.conditionRule (hflat .wholeExpr rfl) word
    | groupBy =>
      exact hquery.groupByRule (hflat .wholeExpr rfl)
    | query =>
      have horder := hflat .orderBy rfl
      exact hquery.queryRule (fun word => hflat (.condition word) rfl) (hflat .groupBy rfl) horder
        (fun allowed => (hclause horder allowed).1) (fun allowed => (hclause horder allowed).2)
        (hflat .selectItems rfl) (hflat .relation rfl)
    | _ => cases hn

end

/-! ## Steady parsers -/

/-- To take the token in front is steady, by the laws of the congruence; so is all that rules are
written with. -/
theorem steady_take : Steady take := (steady_congruence.take (b := 0)).1

theorem steady_symbol (sign : Symbol) : Steady (symbol sign) :=
  (steady_congruence.symbol sign (b := 0)).1

theorem steady_keyword (word : Keyword) : Steady (keyword word) :=
  (steady_congruence.keyword word (b := 0)).1

theorem steady_takeSymbol (sign : Symbol) : Steady (takeSymbol sign) :=
  (steady_congruence.takeSymbol sign (b := 0)).1

theorem steady_takeKeyword (word : Keyword) : Steady (takeKeyword word) :=
  (steady_congruence.takeKeyword word (b := 0)).1

theorem steady_spanFrom (start : Span) : Steady (spanFrom start) :=
  (steady_congruence.spanFrom start (b := 0)).1

theorem steady_string : Steady string := (steady_congruence.string (b := 0)).1

theorem steady_callName : Steady callName := (steady_congruence.callName (b := 0)).1

theorem steady_highlightOptions : Steady highlightOptions :=
  (steady_congruence.highlightOptions (b := 0)).1

theorem steady_dataType : Steady dataType := (steady_congruence.dataType (b := 0)).1

theorem steady_formatTarget : Steady formatTarget := (steady_congruence.formatTarget (b := 0)).1

theorem steady_direction : Steady direction := (steady_congruence.direction (b := 0)).1

theorem steady_nullOrder : Steady nullOrder := (steady_congruence.nullOrder (b := 0)).1

theorem steady_relevanceOptionName : Steady relevanceOptionName :=
  (steady_congruence.relevanceOptionName (b := 0)).1

theorem steady_quantifier : Steady quantifier := (steady_congruence.quantifier (b := 0)).1

theorem steady_qualifiedName : Steady qualifiedName := (steady_congruence.qualifiedName (b := 0)).1

theorem steady_field : Steady field := (steady_congruence.field (b := 0)).1

theorem steady_weightedField : Steady weightedField := (steady_congruence.weightedField (b := 0)).1

theorem steady_limit : Steady limit := (steady_congruence.limit (b := 0)).1

theorem steady_limitClause : Steady limitClause := (steady_congruence.limitClause (b := 0)).1

theorem steady_nameFilter : Steady nameFilter := (steady_congruence.nameFilter (b := 0)).1

theorem steady_columnFilter : Steady columnFilter := (steady_congruence.columnFilter (b := 0)).1

theorem steady_datetimeUnit : Steady datetimeUnit := (steady_congruence.datetimeUnit (b := 0)).1

theorem steady_commaStep {α : Type} (rule : String) {p : Parser α} (hp : Steady p)
    (items : List α) : Steady (commaStep rule p items) := by
  refine (steady_takeSymbol .comma).bind fun found => ?_
  cases found with
  | true => exact (steady_taking rule hp).bind fun _ => steady_pure _
  | false => exact steady_pure _

theorem steady_commaSeparated {α : Type} (rule : String) {p : Parser α} (hp : Steady p) :
    Steady (commaSeparated rule p) := by
  rw [show commaSeparated rule p = commaList rule p p from rfl, commaList_eq]
  exact (steady_taking rule hp).bind fun _ =>
    (steady_loop (steady_commaStep rule hp) []).bind fun _ => steady_pure _

/-! ## Steady rules -/

/-- In front of `ORDER`, no filter is read, whatever fuel there is. -/
theorem waits_derive_filter (fuel : Nat) : Waits true (derive fuel .filter) := by
  cases fuel with
  | zero => exact fun _ _ _ _ h => nomatch h
  | succ fuel => exact (waits_keyword (by decide)).bind_firm

/-- To be steady is respected by all rules. -/
theorem steady_family : CongruenceFamily (fun _ => Eq) (fun _ _ => False) (fun _ _ => False)
    (fun _ _ _ _ p q => Steady p ∧ Steady q) where
  congruence _ := steady_congruence.toNestingCongruence
  align h := h
  nestAligned hp hq _ := ⟨hp.nest, hq.nest⟩
  separator h _ := by rw [h]

/-- Each rule is steady if its callees are. -/
theorem steady_rule {call : Callee} (h : ∀ {α : Type} (n : Nonterminal α), Steady (call n))
    (hfilter : Waits true (call .filter)) {α : Type} (n : Nonterminal α) :
    Steady (rule call n) := by
  have hcallees : Callees (fun _ _ => False) (fun _ _ => False)
      (fun _ _ _ _ p q => Steady p ∧ Steady q) 0 call call :=
    { steadyLeft := h
      steadyRight := h
      separating := fun _ _ => ⟨(h _).atSeparator, (h _).atSeparator⟩
      attempt := fun hp => ⟨hp.1.attempt, hp.2.attempt⟩
      waitsLeft := hfilter
      waitsRight := hfilter
      window := fun hexpr horder => steady_congruence.windowRule (b := 0) hexpr horder
        (fun _ _ _ hs => hs.elim) fun _ _ _ hs => hs.elim }
  have hclause {p : Parser (Option OrderBy)} : Stays (fun _ => False) false p :=
    fun _ _ _ hs => hs.elim
  exact (steady_family.queryRule steady_congruence hcallees (fun _ _ => ⟨hclause, hclause⟩) n
    (fun m _ => ⟨h m, h m⟩) fun _ _ _ m => ⟨h m, h m⟩).1

/-- Rules are steady whatever fuel there is. -/
theorem steady_derive (fuel : Nat) {α : Type} (n : Nonterminal α) : Steady (derive fuel n) := by
  induction fuel generalizing α with
  | zero => exact State.Leads.refl
  | succ fuel ih => exact steady_rule ih (waits_derive_filter fuel) n

end SearchSql.Grammar
