import SearchSql.Proofs.Modes
import SearchSql.Proofs.RuleSpending

/-!
# The levels of nesting that a parse takes

Every rule spends what its tree needs (`spends_read`). So a parse reads a statement without error
exactly if it has as many levels of nesting as the statement needs, and reads it with the greatest
number of levels there is (`parse_isClean_iff`).
-/

set_option autoImplicit false

namespace SearchSql

/-- Whether the call is a relevance function behind its field. -/
def CallShape.isFieldEquals : CallShape → Bool
  | .relevance r => r.form.isFieldEquals
  | _ => false

/-- A call needs a level more than what is in it, unless it is a relevance function behind its
field. -/
theorem Call.need_eq {f : Call} (h : f.shape.isFieldEquals = false) :
    f.need = f.shape.inner + 1 := by
  obtain ⟨shape, span⟩ := f
  cases shape with
  | relevance r =>
    have hr : r.form.isFieldEquals = false := h
    rw [Call.need, hr]
    rfl
  | _ => rfl

end SearchSql

namespace SearchSql.Grammar

open SearchSql.Grammar.Parser

/-! ## Relevance functions behind their fields -/

section

variable {c : Callee}

/-- What a relevance function searches is inside of it, not in front. -/
theorem yields_searchTarget (kind : RelevanceKind) :
    Yields (fun found => found.1.isFieldEquals = false) (searchTarget c kind) := by
  cases kind with
  | noField => exact yields_map fun _ => rfl
  | singleField => exact yields_bind fun _ => yields_bind fun _ => yields_map fun _ => rfl
  | multiField =>
    refine yields_bind fun t => yields_bind fun u => ?_
    split
    · exact yields_bind fun _ => yields_pure rfl
    · exact yields_bind fun _ => yields_bind fun _ => yields_map fun _ => rfl

/-- A relevance function by its name is not behind its field. -/
theorem yields_relevance (hc : Closed c) (kind : RelevanceKind) :
    Yields (fun r => r.form.isFieldEquals = false) (c (.relevance kind)) := by
  rw [hc.eq_rule]
  exact yields_bind fun _ => (yields_searchTarget kind).bind fun _ hform => yields_bind fun _ =>
    yields_bind fun _ => yields_pure hform

/-- A relevance function behind its field is read as such. -/
theorem yields_fieldEquals (hc : Closed c) :
    Yields (fun r => r.form.isFieldEquals = true) (c .fieldEquals) := by
  rw [hc.eq_rule]
  refine yields_bind fun _ => yields_bind fun _ => yields_bind fun t => ?_
  split
  · next kind _ =>
    refine yields_bind fun _ => yields_bind fun _ => yields_bind fun _ => yields_bind fun _ =>
      yields_pure ?_
    dsimp only
    split <;> rfl
  · exact yields_rejectCurrent _

/-- The rules of calls other than relevance functions build no relevance function. -/
theorem yields_aggregateTail (hc : Closed c) (aggregate : Aggregate) :
    Yields (fun shape => shape.isFieldEquals = false) (c (.aggregateTail aggregate)) := by
  rw [hc.eq_rule]
  refine yields_bind fun windowed => ?_
  dsimp only
  split
  · exact yields_map fun _ => rfl
  · refine yields_bind fun filter => ?_
    split
    · exact yields_map fun _ => rfl
    · refine yields_bind fun order => ?_
      split
      · refine yields_bind fun found => ?_
        split <;> exact yields_pure rfl
      · exact yields_pure rfl

theorem yields_scalar (hc : Closed c) (category : ScalarCategory) :
    Yields (fun shape => shape.isFieldEquals = false) (c (.scalar category)) := by
  rw [hc.eq_rule]
  exact yields_bind fun _ => yields_map fun _ => rfl

theorem yields_score (hc : Closed c) :
    Yields (fun shape => shape.isFieldEquals = false) (c .score) := by
  rw [hc.eq_rule]
  refine yields_bind fun _ => yields_bind fun _ => yields_bind fun found => ?_
  dsimp only
  split
  all_goals exact yields_bind fun _ => yields_bind fun _ => yields_pure rfl

/-- No call by its name is a relevance function behind its field. -/
theorem yields_shapeRule (hc : Closed c) (family : FunctionFamily) :
    Yields (fun shape => shape.isFieldEquals = false) (c (.shape family)) := by
  rw [hc.eq_rule]
  cases family with
  | nested =>
    refine yields_bind fun s => ?_
    split
    · exact yields_bind fun _ => yields_bind fun _ => yields_bind fun _ => yields_bind fun _ =>
        yields_bind fun _ => yields_pure rfl
    · exact yields_scalar hc _
  | scalar category => exact yields_scalar hc _
  | ranking function =>
    show Yields _ (c (.ranking function))
    rw [hc.eq_rule]
    exact yields_bind fun _ => yields_bind fun _ => yields_map fun _ => rfl
  | aggregate function => exact yields_bind fun aggregate => yields_aggregateTail hc aggregate
  | percentile function => exact yields_bind fun aggregate => yields_aggregateTail hc aggregate
  | score => exact yields_score hc
  | relevance kind => exact (yields_relevance hc kind).map fun _ h => h
  | highlight =>
    exact yields_bind fun _ => yields_bind fun _ => yields_bind fun _ => yields_bind fun _ =>
      yields_pure rfl
  | position =>
    show Yields _ (c .position)
    rw [hc.eq_rule]
    exact yields_bind fun _ => yields_bind fun _ => yields_bind fun _ => yields_bind fun _ =>
      yields_bind fun _ => yields_pure rfl
  | extract =>
    show Yields _ (c .extract)
    rw [hc.eq_rule]
    exact yields_bind fun _ => yields_bind fun _ => yields_bind fun _ => yields_bind fun _ =>
      yields_bind fun _ => yields_pure rfl
  | getFormat =>
    show Yields _ (c .getFormat)
    rw [hc.eq_rule]
    exact yields_bind fun _ => yields_bind fun _ => yields_bind fun _ => yields_bind fun _ =>
      yields_bind fun _ => yields_pure rfl
  | timestamp function =>
    show Yields _ (c (.timestamp function))
    rw [hc.eq_rule]
    exact yields_bind fun _ => yields_bind fun _ => yields_bind fun _ => yields_bind fun _ =>
      yields_bind fun _ => yields_bind fun _ => yields_bind fun _ => yields_pure rfl

theorem yields_case (hc : Closed c) :
    Yields (fun shape => shape.isFieldEquals = false) (c .case) := by
  have hend (operand : Option Expr) (branches : List CaseBranch) :
      Yields (fun shape => shape.isFieldEquals = false) (caseEnd c operand branches) := by
    refine yields_guarded (yields_bind fun found => ?_)
    dsimp only
    split
    all_goals exact yields_bind fun _ => yields_bind fun _ => yields_pure rfl
  rw [hc.eq_rule]
  refine yields_bind fun _ => yields_bind fun here => ?_
  dsimp only
  split
  all_goals exact yields_bind fun operand => yields_bind fun branches => hend operand branches

theorem yields_cast (hc : Closed c) :
    Yields (fun shape => shape.isFieldEquals = false) (c .cast) := by
  rw [hc.eq_rule]
  exact yields_bind fun _ => yields_bind fun _ => yields_bind fun _ => yields_bind fun _ =>
    yields_bind fun _ => yields_bind fun _ => yields_pure rfl

/-- Nor is any form that such a call may have. -/
theorem yields_callShape (hc : Closed c) :
    Yields (fun shape => shape.isFieldEquals = false) (callShape c) := by
  refine yields_bind fun t => ?_
  have hscalar := yields_scalar hc .dateTime
  split
  · exact yields_case hc
  · exact yields_cast hc
  · exact hscalar
  · exact hscalar
  · exact hscalar
  · exact hscalar
  · split
    · exact yields_shapeRule hc _
    · exact yields_reject _
  · exact yields_reject _

end

/-! ## Every rule spends what its tree needs -/

namespace Nonterminal

/-- What the tree that a rule builds needs. -/
def need : {α : Type} → Nonterminal α → α → Nat
  | _, .expr _ => Expr.need
  | _, .predicate _ => Predicate.need
  | _, .arithmetic _ => Atom.need
  | _, .operand => Atom.need
  | _, .parenthesized => Atom.need
  | _, .constant => Constant.need
  | _, .interval => Literal.need
  | _, .call => Call.need
  | _, .shape _ => CallShape.inner
  | _, .arguments => needAll
  | _, .scalar _ => CallShape.inner
  | _, .case => CallShape.inner
  | _, .cast => CallShape.inner
  | _, .ranking _ => CallShape.inner
  | _, .aggregate _ => Aggregate.need
  | _, .percentile _ => Aggregate.need
  | _, .aggregateTail _ => CallShape.inner
  | _, .window => Window.need
  | _, .filter => Filter.need
  | _, .orderBy => OrderBy.need
  | _, .orderItem => OrderItem.need
  | _, .score => CallShape.inner
  | _, .relevance _ => Relevance.need
  | _, .fieldEquals => Relevance.need
  | _, .namedArguments => fun found => found.1.need
  | _, .searchValue => SearchValue.need
  | _, .relevanceOptions => needOptions
  | _, .position => CallShape.inner
  | _, .extract => CallShape.inner
  | _, .getFormat => CallShape.inner
  | _, .timestamp _ => CallShape.inner
  | _, .selectItems => greatest SelectItem.need
  | _, .selectItem _ => SelectItem.need
  | _, .relation => Relation.need
  | _, .condition _ => fun condition => condition.expr.need
  | _, .groupBy => fun g => greatest Expr.need g.exprs
  | _, .query => Query.need

/-- What was spent before a rule on the part of its tree that it is given. -/
def spent : {α : Type} → Nonterminal α → Nat
  | _, .aggregateTail before => before.need
  | _, _ => 0

end Nonterminal

/-- A rule spends what its tree needs, if the rules of lower rank do, and those under further
levels. -/
theorem spends_rule {library : Time.Library} {b : Nat} {α : Type} (n : Nonterminal α)
    (hflat : ∀ {β : Type} (m : Nonterminal β), n.isAbove m = true →
      Spends library m.isPredicate b m.spent m.need (read m))
    (hdeep : ∀ b' < b, ∀ {β : Type} (m : Nonterminal β),
      Spends library m.isPredicate b' m.spent m.need (read m)) :
    Spends library n.isPredicate b n.spent n.need (rule read n) := by
  -- An expression needs a level of its own: what it consists of has to need less.
  have hbody (least : Nat) (b' : Nat) (hb : b' < b) :
      Spends library true b' 0 Expr.inner (exprBody read least) :=
    Spends.exprBody (fun m => hdeep b' hb (.expr m)) (hdeep b' hb (.predicate 0)) least
  have hsteady (least : Nat) : Steady (exprBody read least) :=
    (steady_congruence.exprBody (b := 0) (c := read) (d := read)
      (fun _ => ⟨steady_read _, steady_read _⟩) ⟨steady_read _, steady_read _⟩ least).1
  cases n with
  | expr least => exact Spends.nest 1 Nat.one_pos (hsteady least) (hbody least)
  | predicate least =>
    refine Spends.predicateRule least (hflat (.arithmetic 0) ?_) (fun test htest => ?_)
      (hflat .wholeExpr ?_)
    · exact Nonterminal.isAbove_iff.2 (by simp only [Nonterminal.rank]; omega)
    · have hlt := test.precedence_lt
      exact hflat (.predicate (test.precedence + 1))
        (Nonterminal.isAbove_iff.2 (by simp only [Nonterminal.rank]; omega))
    · exact Nonterminal.isAbove_iff.2 (by simp only [Nonterminal.rank]; omega)
  | arithmetic least =>
    refine Spends.arithmeticRule least (hflat .operand ?_) fun op hop => ?_
    · exact Nonterminal.isAbove_iff.2 (by simp only [Nonterminal.rank]; omega)
    · have hlt := arithmeticPrecedence_lt op
      exact hflat (.arithmetic (op.precedence + 1))
        (Nonterminal.isAbove_iff.2 (by simp only [Nonterminal.rank]; omega))
  | operand =>
    rw [show rule read .operand = operandRule read from rfl, operandRule_eq]
    exact Spends.cursor_bind (f := operandAt read) (Spends.operandAt
      (Spends.fieldEqualsCall (hflat .fieldEquals rfl) (yields_fieldEquals closed_read))
      (hflat .parenthesized rfl) (hflat .constant rfl) (hflat .call rfl))
  | parenthesized => exact Spends.parenthesizedRule (hflat .wholeExpr rfl)
  | constant => exact Spends.constantRule (hflat .interval rfl)
  | interval => exact Spends.intervalRule (hflat .wholeExpr rfl)
  -- The level of a call is counted with its need, unless it is a search of one field, which takes
  -- none.
  | call =>
    have hyields : Yields (fun f => f.shape.isFieldEquals = false) (callBody read) :=
      yields_bind fun _ => (yields_callShape closed_read).bind fun _ h =>
        yields_bind fun _ => yields_pure h
    have hcall := steady_congruence.callBody (b := 0) (c := read) (d := read)
      ⟨steady_read _, steady_read _⟩ ⟨steady_read _, steady_read _⟩
      (fun _ => ⟨steady_read _, steady_read _⟩) (fun _ => ⟨steady_read _, steady_read _⟩)
    refine (Spends.nest 1 Nat.one_pos hcall.1 fun b' hb => ?_).congrOf hyields.nest
      fun f hf => (Call.need_eq hf).symm
    exact (Spends.callBody (Spends.callShape (hdeep b' hb .case) (hdeep b' hb .cast)
      (fun category => hdeep b' hb (.scalar category))
      fun family => hdeep b' hb (.shape family))).align
  | shape family =>
    exact Spends.shapeRule family (fun category => hflat (.scalar category) rfl)
      (fun function => hflat (.ranking function) rfl)
      (fun function => hflat (.aggregate function) rfl)
      (fun function => hflat (.percentile function) rfl)
      (fun aggregate => hflat (.aggregateTail aggregate) rfl) (hflat .score rfl)
      (fun kind => hflat (.relevance kind) rfl) (hflat .position rfl)
      (hflat .extract rfl) (hflat .getFormat rfl)
      (fun function => hflat (.timestamp function) rfl)
  | arguments => exact Spends.argumentsRule (hflat .wholeExpr rfl)
  | scalar category => exact Spends.scalarRule (hflat .arguments rfl) category
  | case => exact Spends.caseRule (hflat .wholeExpr rfl)
  | cast => exact Spends.castRule (hflat .wholeExpr rfl)
  | ranking function =>
    exact Spends.rankingRule (hflat .arguments rfl) (hflat .window rfl) function
  | aggregate function => exact Spends.aggregateRule (hflat .wholeExpr rfl) function
  | percentile function => exact Spends.percentileRule (hflat .wholeExpr rfl) function
  | aggregateTail aggregate =>
    have hfilter := hflat .filter rfl
    exact Spends.aggregateTailRule (hflat .window rfl) hfilter
      (Spends.orderedFilter (hflat .orderBy rfl) hfilter).attempt aggregate
  | window => exact Spends.windowRule (hflat .wholeExpr rfl) (hflat .orderBy rfl)
  | filter => exact Spends.filterRule (hflat .wholeExpr rfl)
  | orderBy => exact Spends.orderByRule (hflat .orderItem rfl)
  | orderItem => exact Spends.orderItemRule (hflat .wholeExpr rfl)
  | score =>
    exact Spends.scoreRule (hflat .fieldEquals rfl)
      fun kind => hflat (.relevance kind) rfl
  | relevance kind =>
    exact Spends.relevanceRule (hflat .searchValue rfl) (hflat .namedArguments rfl)
      (hflat .relevanceOptions rfl) kind
  | fieldEquals =>
    exact Spends.fieldEqualsRule (hflat .searchValue rfl)
      (hflat .relevanceOptions rfl)
  | namedArguments => exact Spends.namedArgumentsRule (hflat .searchValue rfl)
  | searchValue => exact Spends.searchValueRule (hflat .constant rfl)
  | relevanceOptions => exact Spends.relevanceOptionsRule (hflat .searchValue rfl)
  -- The operands of `POSITION` are read without the level that other expressions take.
  | position =>
    refine Spends.positionRule (hflat .wholeExpr rfl) ?_
    rw [closed_read.eq_rule .wholeExpr]
    exact Spends.atSeparator (hsteady 0) (hbody 0)
  | extract => exact Spends.extractRule (hflat .wholeExpr rfl)
  | getFormat => exact Spends.getFormatRule (hflat .wholeExpr rfl)
  | timestamp function => exact Spends.timestampRule (hflat .wholeExpr rfl) function
  | selectItems => exact Spends.selectItemsRule fun star => hflat (.selectItem star) rfl
  | selectItem star => exact Spends.selectItemRule (hflat .wholeExpr rfl) star
  | relation => exact Spends.relationRule (steady_read _) fun b' hb => hdeep b' hb .query
  | condition word => exact Spends.conditionRule (hflat .wholeExpr rfl) word
  | groupBy => exact Spends.groupByRule (hflat .wholeExpr rfl)
  | query =>
    exact Spends.queryRule (hflat .selectItems rfl) (hflat .relation rfl)
      (fun word => hflat (.condition word) rfl) (hflat .groupBy rfl)
      (hflat .orderBy rfl)

/-- Every rule spends what its tree needs. -/
theorem spends_read {library : Time.Library} (b : Nat) {α : Type} (n : Nonterminal α) :
    Spends library n.isPredicate b n.spent n.need (read n) := by
  induction b using Nat.strongRecOn generalizing α n with
  | ind b ihb =>
    induction hr : n.rank using Nat.strongRecOn generalizing α n with
    | ind r ihr =>
      rw [read_eq_rule]
      exact spends_rule n (fun m hm => ihr m.rank (hr ▸ Nonterminal.isAbove_iff.1 hm) m rfl) fun b' hb _ m => ihb b' hb m

/-- A parse without recovery reads a statement exactly if it has the levels that the statement
needs. -/
theorem runRoot_eq_ok_iff [library : Time.Library] (tokens : List Token)
    {settings settings' : Settings} (h : settings.recover = false) (h' : settings'.recover = false)
    (hlimit : settings.nestingLimit ≤ settings'.nestingLimit) (s : Statement) :
    (∃ t, runRoot tokens settings = .ok (some s) t) ↔
      (∃ t, runRoot tokens settings' = .ok (some s) t) ∧ s.need ≤ settings.nestingLimit := by
  have hspends : Spends library false settings'.nestingLimit 0 (orZero Statement.need)
      (rootRule read) := Spends.rootRule (spends_read settings'.nestingLimit .query)
  constructor
  · rintro ⟨t, hrun⟩
    refine ⟨levels_runRoot h h' hlimit hrun, ?_⟩
    rw [runRoot_eq] at hrun
    exact (hspends.spends (s := State.ofTokens tokens settings) h hlimit hrun).2 (Nat.zero_le _)
  · rintro ⟨⟨t', hrun⟩, hneed⟩
    have hlinked : (levels library true).Linked (State.ofTokens tokens settings)
        (State.ofTokens tokens settings') :=
      ⟨rfl, ⟨rfl, rfl, h, fun _ => h', nofun, nofun, fun _ hcost => Nat.le_trans hcost hlimit,
        Iff.rfl⟩, trivial⟩
    rw [runRoot_eq] at hrun
    obtain ⟨t, ht, _⟩ := hspends.affords hlinked (Nat.le_refl _) nofun hrun hneed
    exact ⟨t, (runRoot_eq tokens settings).trans ht⟩

end SearchSql.Grammar

namespace SearchSql

open SearchSql.Grammar

/-- A text is a statement under a limit on the levels of nesting exactly if it is that statement
under the greatest limit, and the statement needs no more levels than the limit grants. -/
theorem parse_isClean_iff [Time.Library] (text : String) (d n : Nat) (s : Statement) :
    (parse text ⟨d, true, n⟩).isClean = true ∧ (parse text ⟨d, true, n⟩).statement = some s ↔
      ((parse text ⟨128, true, n⟩).isClean = true ∧
          (parse text ⟨128, true, n⟩).statement = some s) ∧
        s.need ≤ min d 128 := by
  have hlimit : (⟨d, false, n⟩ : Settings).nestingLimit ≤ (⟨128, false, n⟩ : Settings).nestingLimit :=
    Nat.min_le_right d 128
  unfold parse
  rw [isClean_iff _ rfl, isClean_iff _ rfl]
  exact runRoot_eq_ok_iff _ rfl rfl hlimit s

end SearchSql
