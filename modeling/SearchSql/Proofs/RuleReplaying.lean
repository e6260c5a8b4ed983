import SearchSql.Proofs.LeafReplaying
import SearchSql.Proofs.Rounds
import SearchSql.Proofs.RuleLikeness

/-!
# Rules that read the same tokens again

Every rule whose run ends in front of a seam is repeated on the other side of it, if the rules that it
goes on to are (`Seam.replays_derive`). An attempt to read `ORDER BY` as a part of an aggregate asks
for both directions: where the first run gives it up, so must the second, for if the second succeeded,
in front of the seam, the first would have done so as well.
-/

set_option autoImplicit false

namespace SearchSql.Grammar

open SearchSql.Grammar.Parser

variable {α β γ : Type}

/-- How the rule of a nonterminal may end. -/
def Nonterminal.ending : {α : Type} → Nonterminal α → Ending
  | _, .predicate _ => .operand
  | _, .expr _ | _, .orderItem | _, .selectItem _ | _, .condition _ => .expression
  | _, .orderBy | _, .relevanceOptions | _, .selectItems | _, .groupBy | _, .query => .list
  | _, _ => .closed

namespace Seam

variable {B : Seam} {front : Bool} {ending first : Ending} {s s' t : State}

namespace Replays

/-- Behind an aggregate there is no word `ORDER` at the seam. -/
theorem atOrder_bind (hB : B.Orderless) {f : Bool → Parser α} (htrue : B.Replays true ending (f true))
    (hfalse : B.Replays front ending (f false)) :
    B.Replays front ending (atKeyword .ORDER >>= f) := by
  refine ⟨fun s => ?_, fun {s s' t a} hs hfront hrun hle hclear => ?_⟩
  · rw [atKeyword_bind_apply]
    cases s.cursor.current.kind == .keyword .ORDER with
    | true => exact htrue.steady s
    | false => exact hfalse.steady s
  · rw [atKeyword_bind_apply] at hrun ⊢
    obtain ⟨hin, heq⟩ | ⟨hleft, hright, -⟩ := hs.current
    · rw [heq]
      cases hkind : s.cursor.current.kind == .keyword .ORDER with
      | true =>
        rw [hkind] at hrun
        exact htrue.replay hs (fun _ => hin) hrun hle hclear
      | false =>
        rw [hkind] at hrun
        exact hfalse.replay hs hfront hrun hle hclear
    · have hl : (s.cursor.current.kind == .keyword .ORDER) = false := by
        rw [← kindAt_zero, hleft]
        exact beq_eq_false_iff_ne.2 hB.left
      have hr : (s'.cursor.current.kind == .keyword .ORDER) = false := by
        rw [← kindAt_zero, hright]
        exact beq_eq_false_iff_ne.2 hB.right
      rw [hl] at hrun
      rw [hr]
      exact hfalse.replay hs hfront hrun hle hclear

end Replays

/-- A unit is a word other than `NOT`. -/
theorem takes_datetimeUnit : Takes datetimeUnit := by
  intro s t unit hrun
  unfold datetimeUnit at hrun
  rw [current_bind_apply] at hrun
  cases hword : s.cursor.current.kind.bareWord?.bind DatetimeUnit.ofText? with
  | none =>
    rw [hword] at hrun
    exact absurd hrun rejectCurrent_ne_ok
  | some found =>
    rw [hword] at hrun
    obtain ⟨-, rfl⟩ := pure_eq_ok_iff.1 hrun
    have hne {k : TokenKind} (hk : k.bareWord? = none) : s.cursor.current.kind ≠ k := by
      rintro rfl
      rw [hk] at hword
      cases hword
    exact ⟨hne rfl, ahead_skip_lt (isEnd_eq_false (hne rfl)) 0⟩

/-- A list of items that take tokens takes one. -/
theorem takes_commaSeparated {p : Parser α} (hp : Steady p) {rule : String} {items : List α}
    (hrun : Parser.commaSeparated rule p s = .ok items t) :
    t.cursor.ahead.length < s.cursor.ahead.length := by
  rw [show Parser.commaSeparated rule p = commaList rule p p from rfl, commaList_eq] at hrun
  obtain ⟨head, u, hhead, hrest⟩ := bind_eq_ok_iff.1 hrun
  have hsteady : Steady (loop [] (Grammar.commaStep rule p)) := steady_loop (steady_commaStep rule hp) []
  have hle := ((hsteady.bind fun _ => steady_pure _).leads hrest).ahead.length_le
  exact Nat.lt_of_le_of_lt hle (taking_lt hp hhead)

/-- Callees whose runs in front of a seam are repeated. -/
structure ReplayCallees (B : Seam) (c : Callee) : Prop where
  steady {α : Type} (n : Nonterminal α) : Steady (c n)
  waits : Waits true (c .filter)
  takes : Takes (c .filter)
  replays {α : Type} (n : Nonterminal α) : (n.isQuery = true → B.Even) →
    B.Replays n.front n.ending (c n)

variable {c : Callee} (h : ReplayCallees B c)

include h

namespace ReplayCallees

/-- A rule that ends behind a token of its own. -/
theorem closed {n : Nonterminal α} (hending : n.ending = .closed) (hquery : n.isQuery = false)
    (hfront : n.front = false) : B.Replays front ending (c n) := by
  have hreplays := h.replays n (by rw [hquery]; nofun)
  rw [hending, hfront] at hreplays
  exact hreplays.weaken.relax

/-- A rule that is run only where a token belongs to it. -/
theorem fronted {n : Nonterminal α} (hending : n.ending = .closed) (hquery : n.isQuery = false) :
    B.Replays true ending (c n) := by
  have hreplays := h.replays n (by rw [hquery]; nofun)
  rw [hending] at hreplays
  exact Replays.relax ⟨hreplays.steady, fun hs hfront => hreplays.replay hs fun _ => hfront rfl⟩

theorem expr (least : Nat) : B.Replays front .expression (c (.expr least)) :=
  (show B.Replays false .expression _ from h.replays (.expr least) nofun).weaken

theorem predicate (least : Nat) : B.Replays front .operand (c (.predicate least)) :=
  (show B.Replays false .operand _ from h.replays (.predicate least) nofun).weaken

/-- A list of expressions ends as a list does. -/
theorem exprs (rule : String) :
    B.Replays front .list (Parser.commaSeparated rule (c .wholeExpr)) :=
  (h.expr 0).enlist.commaSeparated rule

theorem options : B.Replays front .list (c .relevanceOptions) :=
  (show B.Replays false .list _ from h.replays .relevanceOptions nofun).weaken

end ReplayCallees

/-! ## Constants and calls -/

/-- The unit stands behind the expression, so an interval ends with a token of its own. -/
theorem replays_intervalRule : B.Replays front ending (intervalRule c) :=
  (Replays.keyword .INTERVAL).bind fun _ =>
    (h.expr 0).bind_taking (fun _ => replays_datetimeUnit.map _) fun _ =>
      takes_datetimeUnit.bind fun _ => steady_pure _

theorem replays_literalRule : B.Replays front ending (literalRule c) := by
  refine Replays.current_bind_of_eq (fun t => ?_) (Replays.rejectCurrent "constant") ?_
  · obtain ⟨kind, text, span⟩ := t
    cases kind with
    | string value => exact replays_simpleLiteral _
    | symbol sign =>
      cases sign with
      | leftBrace => exact replays_bracedLiteral
      | _ => exact Replays.rejectCurrent _
    | keyword word =>
      cases word with
      | TRUE | FALSE | NULL => exact replays_simpleLiteral _
      | INTERVAL => exact h.closed rfl rfl rfl
      | DATE | TIME | TIMESTAMP => exact replays_wordLiteral _
      | _ => exact Replays.rejectCurrent _
    | name word =>
      dsimp only
      cases DatetimeConstant.ofText? word with
      | some name => exact replays_datetimeConstant name
      | none => exact Replays.rejectCurrent _
    | _ => exact Replays.rejectCurrent _
  · rintro ⟨kind, text, span⟩ hborder
    cases kind with
    | symbol sign => cases sign <;> first | rfl | cases hborder
    | keyword word => cases word <;> first | rfl | cases hborder
    | endOfInput => rfl
    | _ => cases hborder

theorem replays_constantRule : B.Replays true ending (constantRule c) := by
  refine Replays.current_bind fun t => ?_
  have hliteral : B.Replays true ending (do
      let start := (← current).span
      let value ← literalRule c
      return (⟨value, ← spanFrom start⟩ : Constant)) :=
    Replays.current_bind fun t => (replays_literalRule h).bind fun _ =>
      (Replays.spanFrom t.span).bind fun _ => Replays.pure _
  obtain ⟨kind, text, span⟩ := t
  cases kind with
  | symbol sign =>
    cases sign with
    | plus | minus => exact replays_number
    | _ => exact hliteral
  | integer | real => exact replays_number
  | _ => exact hliteral

theorem replays_argumentsRule : B.Replays front ending (argumentsRule c) := by
  have hlist : B.Replays true ending (do
      let args ← Parser.commaSeparated "function argument" (c .wholeExpr)
      let _ ← symbol .rightParen
      return args) := (h.exprs _).bind_symbol fun _ _ => Replays.pure _
  -- The closing parenthesis may be a border, but whatever is read here takes a token.
  refine Replays.of_front (Replays.takeSymbol_bind_front (Replays.pure []) hlist) ?_
  intro s t args hrun
  unfold argumentsRule at hrun
  rw [takeSymbol_bind_apply] at hrun
  split at hrun
  · next hkind =>
    obtain ⟨-, rfl⟩ := pure_eq_ok_iff.1 hrun
    exact ahead_skip_lt (isEnd_of_symbol hkind) 0
  · obtain ⟨items, u, hitems, hrest⟩ := bind_eq_ok_iff.1 hrun
    obtain ⟨span, v, hsymbol, hpure⟩ := bind_eq_ok_iff.1 hrest
    obtain ⟨-, rfl⟩ := pure_eq_ok_iff.1 hpure
    exact Nat.lt_trans (takes_symbol .rightParen u v span hsymbol).2
      (takes_commaSeparated (h.steady _) hitems)

theorem replays_scalarRule (category : ScalarCategory) :
    B.Replays true ending (scalarRule c category) :=
  replays_callName.bind fun _ => (h.closed rfl rfl rfl).map _

theorem replays_caseStep (branches : List CaseBranch) :
    B.Replays false .expression (caseStep c branches) :=
  Replays.takeKeyword_bind rfl
    ((h.expr 0).bind_keyword (by decide) fun _ _ => (h.expr 0).bind fun _ => Replays.pure _)
    (Replays.pure _)

theorem replays_caseBranches : B.Replays front .expression (caseBranches c) := by
  rw [caseBranches_eq]
  exact (Replays.loop (replays_caseStep h) (Congruence.advances_caseStep (h.steady _)) []).bind
    fun _ => Replays.pure _

/-- A `CASE` ends with a word of its own. -/
theorem replays_caseEnd (operand : Option Expr) (branches : List CaseBranch) :
    B.Replays front ending (caseEnd c operand branches) := by
  have hend {front : Bool} (otherwise : Option Expr) : B.Replays front ending (do
      let _ ← keyword .END
      return (.case operand branches otherwise : CallShape)) :=
    (Replays.keyword .END).bind fun _ => Replays.pure _
  cases branches with
  | nil =>
    rw [show caseEnd c operand [] = rejectCurrent "WHEN" from rfl]
    exact Replays.rejectCurrent _
  | cons _ _ =>
    exact Replays.takeKeyword_bind rfl
      (((h.expr 0).map some).bind_keyword (by decide) fun _ _ => Replays.pure _) (hend none)

omit h in
theorem takes_caseEnd (hsteady : Steady (c .wholeExpr)) (operand : Option Expr)
    (branches : List CaseBranch) : Takes (caseEnd c operand branches) := by
  intro s t shape hrun
  cases branches with
  | nil => cases hrun
  | cons branch branches =>
    change (takeKeyword .ELSE >>= _) s = _ at hrun
    rw [takeKeyword_bind_apply] at hrun
    split at hrun
    · next hkind =>
      have hrest : Steady (do
          let otherwise ← some <$> c .wholeExpr
          let _ ← keyword .END
          return (.case operand (branch :: branches) otherwise : CallShape)) :=
        (hsteady.bind fun _ => steady_pure _).bind fun _ =>
          (steady_congruence.keyword (b := 0) .END).1.bind fun _ => steady_pure _
      refine ⟨hkind ▸ nofun, ?_⟩
      exact Nat.lt_of_le_of_lt (hrest.leads hrun).ahead.length_le
        (ahead_skip_lt (isEnd_of_keyword hkind) 0)
    · exact ((takes_keyword (by decide)).bind fun _ => steady_pure _) s t shape hrun

/-- Behind the operand of a `CASE` stands its first branch. -/
theorem takes_branches (operand : Option Expr) : Takes (caseBranches c >>= caseEnd c operand) := by
  intro s t shape hrun
  have hend := takes_caseEnd (h.steady .wholeExpr) operand
  obtain ⟨branches, u, hbranches, hrest⟩ := bind_eq_ok_iff.1 hrun
  obtain ⟨hkind, hlt⟩ := hend branches u t shape hrest
  have hreplays : B.Replays false .expression (caseBranches c) := replays_caseBranches h
  have hle := (hreplays.steady.leads hbranches).ahead
  refine ⟨fun hnot => ?_, Nat.lt_of_lt_of_le hlt hle.length_le⟩
  -- In front of the word `NOT` there is no branch.
  have hstep : caseStep c [] s = .ok (.done []) s := by
    unfold caseStep
    rw [takeKeyword_bind_apply, if_neg (hnot ▸ nofun)]
    rfl
  have hloop := (loop_eq_ok_iff (Congruence.advances_caseStep (h.steady _))).2 (.last hstep)
  rw [caseBranches_eq, bind_of_ok hloop] at hbranches
  obtain ⟨rfl, -⟩ := pure_eq_ok_iff.1 hbranches
  cases hrest

theorem replays_caseRule : B.Replays front ending (caseRule c) := by
  have hrest {front : Bool} (operand : Option Expr) :
      B.Replays front ending (caseBranches c >>= caseEnd c operand) :=
    (replays_caseBranches h).bind_taking (replays_caseEnd h operand)
      (takes_caseEnd (h.steady _) operand)
  exact (Replays.keyword .CASE).bind fun _ => Replays.atKeyword_bind rfl (hrest none)
    (((h.expr 0).map some).bind_taking hrest (takes_branches h))

theorem replays_castRule : B.Replays front ending (castRule c) :=
  (Replays.keyword .CAST).bind fun _ => (Replays.symbol .leftParen).bind fun _ =>
    (h.expr 0).bind_keyword (by decide) fun _ _ => replays_dataType.bind fun _ =>
      (Replays.symbol .rightParen).bind fun _ => Replays.pure _

/-- `POSITION` ends with its closing parenthesis, and `IN` is in front of that. -/
theorem replays_positionRule : B.Replays true ending (positionRule c) :=
  replays_callName.bind fun _ =>
    ((h.expr 0).atSeparator (by decide)).bind_keyword (by decide) fun _ _ =>
      (h.expr 0).bind_symbol fun _ _ => Replays.pure _

theorem replays_extractRule : B.Replays true ending (extractRule c) :=
  replays_callName.bind fun _ => replays_datetimeUnit.bind fun _ =>
    (Replays.keyword .FROM).bind fun _ => (h.expr 0).bind_symbol fun _ _ => Replays.pure _

theorem replays_getFormatRule : B.Replays true ending (getFormatRule c) :=
  replays_callName.bind fun _ => replays_formatTarget.bind fun _ =>
    (Replays.symbol .comma).bind fun _ => (h.expr 0).bind_symbol fun _ _ => Replays.pure _

theorem replays_timestampRule (function : TimestampFunction) :
    B.Replays true ending (timestampRule c function) :=
  replays_callName.bind fun _ => replays_singleUnit.bind fun _ =>
    (Replays.symbol .comma).bind fun _ => (h.expr 0).bind_symbol fun _ _ =>
      (h.expr 0).bind_symbol fun _ _ => Replays.pure _

theorem replays_shapeRule (family : FunctionFamily) :
    B.Replays true ending (shapeRule c family) := by
  cases family with
  | nested =>
    refine ⟨(steady_rule h.steady h.waits (.shape .nested)), fun {s s' t a} hs hfront hrun hle hclear => ?_⟩
    change (get >>= fun s => if startsNestedAll s.cursor.ahead = true then nestedAll
      else c (.scalar .nested)) _ = _ at hrun
    show B.Repeats a t ((get >>= fun s => if startsNestedAll s.cursor.ahead = true then nestedAll
      else c (.scalar .nested)) s')
    rw [get_bind_apply] at hrun ⊢
    rw [hs.startsNestedAll (hfront rfl)]
    split at hrun
    · next hstarts =>
      rw [if_pos hstarts]
      exact replays_nestedAll.replay hs hfront hrun hle hclear
    · next hstarts =>
      rw [if_neg hstarts]
      exact (h.fronted rfl rfl).replay hs hfront hrun hle hclear
  | scalar category => exact h.fronted rfl rfl
  | ranking function => exact h.fronted rfl rfl
  | aggregate function =>
    exact (h.fronted (n := .aggregate function) rfl rfl).bind fun _ => h.closed rfl rfl rfl
  | percentile function =>
    exact (h.fronted (n := .percentile function) rfl rfl).bind fun _ => h.closed rfl rfl rfl
  | score => exact h.fronted rfl rfl
  | relevance kind => exact (h.fronted (n := .relevance kind) rfl rfl).map _
  | highlight => exact replays_highlight
  | position => exact h.fronted rfl rfl
  | extract => exact h.fronted rfl rfl
  | getFormat => exact h.fronted rfl rfl
  | timestamp function => exact h.fronted rfl rfl

theorem replays_callShape : B.Replays true ending (callShape c) := by
  refine Replays.current_bind fun t => ?_
  obtain ⟨kind, text, span⟩ := t
  cases kind with
  | keyword word =>
    cases word with
    | CASE | CAST => exact h.closed rfl rfl rfl
    | DATE | TIME | TIMESTAMP | DATETIME => exact h.fronted rfl rfl
    | _ => exact Replays.reject _
  | name name =>
    dsimp only
    cases FunctionFamily.ofUpper? (Text.upper name) with
    | some family => exact h.fronted rfl rfl
    | none => exact Replays.reject _
  | _ => exact Replays.reject _

/-- A call ends with its closing parenthesis. -/
theorem replays_callRule : B.Replays true .closed (callRule c) := by
  rw [callRule_eq]
  refine Replays.nest ?_ (by decide) 1
  exact Replays.current_bind fun t => (replays_callShape h).bind fun _ =>
    (Replays.spanFrom t.span).bind fun _ => Replays.pure _

/-! ## Aggregates and windows -/

theorem replays_aggregateRule (function : AggregateFunction) :
    B.Replays true ending (aggregateRule c function) := by
  have hregular : B.Replays false .list (Aggregate.regular function <$> c .wholeExpr) :=
    ((h.expr 0).map _).enlist
  have hform : B.Replays false .list (aggregateRule.form c function) := by
    unfold aggregateRule.form
    dsimp only
    split
    · exact Replays.takeSymbol_bind rfl (Replays.pure _)
        (Replays.takeKeyword_bind rfl ((h.exprs _).map _) hregular)
    · exact hregular
  exact replays_callName.bind fun _ => hform.bind_symbol fun _ _ => Replays.pure _

theorem replays_percentileRule (function : PercentileFunction) :
    B.Replays true ending (percentileRule c function) := by
  have hend {front : Bool} (field : Expr) (percent : Constant) (compression : Option Constant) :
      B.Replays front ending (do
        let _ ← symbol .rightParen
        return (.percentile function field percent compression : Aggregate)) :=
    (Replays.symbol .rightParen).bind fun _ => Replays.pure _
  exact replays_callName.bind fun _ => (h.expr 0).bind_symbol fun field _ =>
    replays_number.bind fun percent => Replays.takeSymbol_bind_taking
      ((replays_number.map some).bind (hend field percent)) (hend field percent none)
      ((takes_symbol .rightParen).bind fun _ => steady_pure _)

theorem replays_orderItemRule : B.Replays front .expression (orderItemRule c) :=
  (h.expr 0).bind fun _ => replays_direction.bind fun _ => replays_nullOrder.bind fun _ =>
    Replays.pure _

/-- An order is a list, so no comma is at the seam. -/
theorem replays_orderByRule : B.Replays front .list (orderByRule c) := by
  have hitem : B.Replays false .expression (c .orderItem) := h.replays .orderItem nofun
  exact (Replays.keyword .ORDER).bind fun start => (Replays.keyword .BY).bind fun _ =>
    (hitem.enlist.commaSeparated _).bind fun _ => (Replays.spanFrom start).bind fun _ =>
      Replays.pure _

theorem replays_partitionBy : B.Replays front .list (partitionBy c) :=
  Replays.atKeyword_bind rfl
    (Replays.take.bind fun start => (Replays.keyword .BY).bind fun _ => (h.exprs _).bind fun _ =>
      (Replays.spanFrom start).bind fun _ => Replays.pure _)
    (Replays.pure none)

/-- A filter ends with its closing parenthesis. -/
theorem replays_filterRule : B.Replays front ending (filterRule c) :=
  (Replays.keyword .FILTER).bind fun start => (Replays.symbol .leftParen).bind fun _ =>
    (Replays.keyword .WHERE).bind fun _ => (h.expr 0).bind_symbol fun _ _ =>
      (Replays.spanFrom start).bind fun _ => Replays.pure _

theorem replays_rankingRule (function : RankingFunction) :
    B.Replays true ending (rankingRule c function) :=
  replays_callName.bind fun _ => (h.closed (n := .arguments) rfl rfl rfl).bind fun _ =>
    (h.closed (n := .window) rfl rfl rfl).map _

/-- So does an order with a filter. -/
theorem replays_orderedFilter : B.Replays front ending (orderedFilter c) := by
  have horder : B.Replays front .list (c .orderBy) :=
    (show B.Replays false .list _ from h.replays .orderBy nofun).weaken
  have hfilter (o : OrderBy) : B.Replays false ending ((o, ·) <$> c .filter) :=
    (h.closed rfl rfl rfl).map _
  exact horder.bind_taking hfilter fun o => h.takes.bind fun _ => steady_pure _

theorem replays_windowRule (hB : B.Orderless) : B.Replays front ending (windowRule c) := by
  have hend (start : Span) (partition : Option PartitionBy) (orderBy : Option OrderBy) :
      B.Replays false ending (do
        let _ ← symbol .rightParen
        return Window.mk partition orderBy (← spanFrom start)) :=
    (Replays.symbol .rightParen).bind fun _ => (Replays.spanFrom start).bind fun _ => Replays.pure _
  have htakes (start : Span) (partition : Option PartitionBy) (orderBy : Option OrderBy) :
      Takes (do
        let _ ← symbol .rightParen
        return Window.mk partition orderBy (← spanFrom start)) :=
    (takes_symbol .rightParen).bind fun _ => fun s => State.Leads.refl s
  have horder : B.Replays true .list (some <$> c .orderBy) :=
    (show B.Replays false .list _ from h.replays .orderBy nofun).weaken.map _
  refine (Replays.keyword .OVER).bind fun start => (Replays.symbol .leftParen).bind fun _ =>
    (replays_partitionBy h).bind_taking (fun partition => ?_) fun partition => ?_
  · exact Replays.atOrder_bind hB (horder.bind_taking (hend start partition) (htakes start partition))
      ((Replays.pure none).bind (hend start partition))
  · intro s t window hrun
    rw [atKeyword_bind_apply] at hrun
    cases hkind : s.cursor.current.kind == .keyword .ORDER with
    | false =>
      rw [hkind] at hrun
      exact htakes start partition none s t window hrun
    | true =>
      rw [hkind] at hrun
      obtain ⟨orderBy, u, horderBy, hrest⟩ := bind_eq_ok_iff.1 hrun
      refine ⟨fun hnot => ?_, ?_⟩
      · rw [hnot] at hkind
        cases hkind
      · exact Nat.lt_of_lt_of_le (htakes start partition orderBy u t window hrest).2
          (horder.steady.leads horderBy).ahead.length_le

/-- What an aggregate is followed by is decided in front of the seam, if the attempt of an order is.
-/
theorem replays_tailAround (hB : B.Orderless) {ordered : Parser (Option (OrderBy × Filter))}
    (hordered : B.Replays true .closed ordered) (aggregate : Aggregate) :
    B.Replays front ending (tailAround c aggregate ordered) := by
  refine Replays.atKeyword_bind rfl ((h.closed (n := .window) rfl rfl rfl).bind fun _ => Replays.pure _) ?_
  refine Replays.atKeyword_bind rfl ((h.closed (n := .filter) rfl rfl rfl).bind fun _ => Replays.pure _) ?_
  refine Replays.atOrder_bind hB (hordered.relax.bind fun found => ?_) (Replays.pure _)
  split <;> exact Replays.pure _

/-! ## Expressions -/

theorem replays_logicalOperand : B.Replays front .expression (logicalOperand c) :=
  Replays.atKeyword_bind rfl
    (Replays.take.bind fun start => (h.expr _).bind fun _ => (Replays.spanFrom start).bind fun _ =>
      Replays.pure _)
    ((h.predicate 0).loosen.bind fun _ => Replays.pure _)

theorem replays_logicalStep (least : Nat) (left : Expr) :
    B.Replays false .expression (logicalStep c least left) := by
  refine Replays.current_bind_of_eq (fun t => ?_) (Replays.pure (.done left)) ?_
  · cases Connective.ofKind? t.kind with
    | none => exact Replays.pure _
    | some op =>
      dsimp only
      split
      · exact Replays.pure _
      · exact Replays.skip_one.bind fun _ => (h.expr _).bind fun _ => Replays.pure _
  · rintro ⟨kind, text, span⟩ hborder
    cases kind with
    | keyword word => cases word <;> first | rfl | cases hborder
    | _ => rfl

/-- An expression goes on with a connective, which is in front of no seam. -/
theorem replays_exprRule (least : Nat) : B.Replays front .expression (exprRule c least) := by
  rw [exprRule_eq]
  refine Replays.nest ?_ (by decide) 1
  exact (replays_logicalOperand h).bind fun left =>
    Replays.loop (replays_logicalStep h least) (advances_logicalStep (fun _ => h.steady _) least) left

theorem replays_testRule (left : Predicate) (test : Test) :
    B.Replays front .operand (testRule c left test) := by
  cases test with
  | comparison op => exact (h.predicate _).bind fun _ => Replays.pure _
  | isNull negated => exact (Replays.keyword .NULL).bind fun _ => Replays.pure _
  | between negated =>
    exact (h.predicate _).bind_keyword (by decide) fun _ _ => (h.predicate _).bind fun _ =>
      Replays.pure _
  | like negated => exact (h.predicate _).bind fun _ => Replays.pure _
  | regexp negated => exact (h.predicate _).bind fun _ => Replays.pure _
  | within negated =>
    exact (Replays.symbol .leftParen).bind fun _ => (h.exprs _).bind_symbol fun _ _ =>
      (Replays.spanFrom left.span).bind fun _ => Replays.pure _

omit h in
/-- The tokens of a test do not end the input. -/
theorem isEnd_skip_of_test {k : Cursor} {test : Test} {width : Nat}
    (htest : Test.at? k = some (test, width)) :
    ∀ n < width, (k.skip n).current.isEnd = false := by
  obtain ⟨htwo, hone⟩ := Likeness.Test.ofKinds?_width htest
  obtain ⟨hend, -⟩ := Test.at?_eq_some htest
  intro n hn
  match n with
  | 0 => exact hend
  | 1 =>
    rw [Cursor.current_skip_one hend]
    exact isEnd_eq_false fun hnext => absurd (hone hnext) (by omega)
  | n + 2 => omega

/-- A test begins with no token at the seam, unless it is `IN`. -/
theorem replays_predicateStep (least : Nat) (left : Predicate) :
    B.Replays false .operand (predicateStep c least left) := by
  have hsteady : Steady (predicateStep c least left) := fun s =>
    (steady_congruence.testStep (b := 0) least (fun _ _ => ⟨h.steady _, h.steady _⟩)
      ⟨h.steady _, h.steady _⟩ left s.isSeparator s.cursor).1 s
  refine ⟨hsteady, fun {s s' t r} hs _ hrun hle hclear => ?_⟩
  change testStep c least left s.isSeparator s.cursor s = _ at hrun
  show B.Repeats r t (testStep c least left s'.isSeparator s'.cursor s')
  have hseparator : s'.isSeparator = s.isSeparator := by
    funext test
    cases test <;> simp only [State.isSeparator, hs.frame.separatorDepth, hs.frame.depth]
  have hdone : B.Repeats (.done left) s ((pure (.done left) : Parser (ForInStep Predicate)) s') :=
    .inr ⟨s', rfl, hs⟩
  have hrule (test : Test) : B.Replays false .operand (do
      return .yield (← testRule c left test) : Parser (ForInStep Predicate)) :=
    (replays_testRule h left test).bind fun _ => Replays.pure _
  unfold testStep at hrun ⊢
  rw [hseparator]
  -- The two cursors see the same test, or one of them does not see all of it.
  obtain heq | ⟨haway, hleft, hright⟩ := hs.test
  · rw [heq]
    cases htest : Test.at? s.cursor with
    | none =>
      rw [htest] at hrun
      obtain ⟨rfl, rfl⟩ := pure_eq_ok_iff.1 hrun
      exact hdone
    | some found =>
      obtain ⟨test, width⟩ := found
      rw [htest] at hrun
      dsimp only at hrun ⊢
      split at hrun
      · next hstop =>
        obtain ⟨rfl, rfl⟩ := pure_eq_ok_iff.1 hrun
        rw [if_pos hstop]
        exact hdone
      · next hgo =>
        rw [if_neg hgo]
        rw [skip_bind_apply] at hrun ⊢
        exact (hrule test).replay (hs.skip (isEnd_skip_of_test htest)
          (Nat.le_trans hle ((hrule test).steady.leads hrun).ahead.length_le))
          (absurd · Bool.false_ne_true) hrun hle hclear
  · -- Neither run goes on: the first has no room for the test, for the second `IN` is the separator.
    have hstop : .done left = r ∧ s = t := by
      cases htest : Test.at? s.cursor with
      | none =>
        rw [htest] at hrun
        exact pure_eq_ok_iff.1 hrun
      | some found =>
        obtain ⟨test, width⟩ := found
        obtain ⟨negated, rfl, hlt⟩ := hleft test width htest
        rw [htest] at hrun
        dsimp only at hrun
        split at hrun
        · exact pure_eq_ok_iff.1 hrun
        · rw [skip_bind_apply] at hrun
          have hlength := ahead_skip_length (isEnd_skip_of_test htest)
          have hle' := ((hrule _).steady.leads hrun).ahead.length_le
          rw [State.skip_cursor] at hle'
          omega
    obtain ⟨rfl, rfl⟩ := hstop
    cases htest : Test.at? s'.cursor with
    | none => exact hdone
    | some found =>
      obtain ⟨test, width⟩ := found
      obtain ⟨negated, rfl, hin⟩ := hright test width htest
      obtain hdepth | haway' := hclear hin
      · have hseparates : s.isSeparator (.within negated) = true := beq_iff_eq.2 hdepth
        simp only [hseparates, Bool.or_true, if_true]
        exact hdone
      · exact absurd haway' haway

theorem replays_predicateRule (least : Nat) :
    B.Replays front .operand (predicateRule c least) :=
  (h.closed (n := .arithmetic 0) rfl rfl rfl).bind fun _ =>
    Replays.loop (replays_predicateStep h least)
      (Congruence.advances_predicateStep (fun _ => h.steady _) (h.steady _) least) _

/-- An operator is at no seam. -/
theorem replays_arithmeticStep (least : Nat) (left : Atom) :
    B.Replays false ending (arithmeticStep c least left) := by
  refine Replays.current_bind_of_eq (fun t => ?_) (Replays.pure (.done left)) ?_
  · cases ArithmeticOp.ofKind? t.kind with
    | none => exact Replays.pure _
    | some op =>
      dsimp only
      split
      · exact Replays.pure _
      · exact Replays.skip_one.bind fun _ =>
          (h.closed (n := .arithmetic (op.precedence + 1)) rfl rfl rfl).bind fun _ => Replays.pure _
  · rintro ⟨kind, text, span⟩ hborder
    cases kind with
    | symbol sign => cases sign <;> first | rfl | cases hborder
    | name value => cases hborder
    | _ => rfl

theorem replays_arithmeticRule (least : Nat) : B.Replays front ending (arithmeticRule c least) :=
  (h.closed (n := .operand) rfl rfl rfl).bind fun left =>
    Replays.loop (replays_arithmeticStep h least) (advances_arithmeticStep (fun _ => h.steady _) least)
      left

theorem replays_fieldEqualsCall : B.Replays true ending (fieldEqualsCall c) :=
  Replays.current_bind fun t => (h.fronted (n := .fieldEquals) rfl rfl).bind fun _ =>
    (Replays.spanFrom t.span).bind fun _ => Replays.pure _

/-- An operand ends with a token of its own, whatever its form. -/
theorem replays_operandRule : B.Replays front ending (operandRule c) := by
  refine ⟨steady_rule h.steady h.waits .operand, fun {s s' t a} hs hfront hrun hle hclear => ?_⟩
  rw [operandRule_eq, get_bind_apply] at hrun ⊢
  have hform : s'.cursor.operandForm? = s.cursor.operandForm? :=
    hs.nearsighted nearsighted_operandForm?
  unfold operandAt at hrun ⊢
  rw [hs.startsFieldEquals, hform]
  cases hstarts : startsFieldEquals s.cursor.ahead with
  | true =>
    rw [hstarts] at hrun
    exact ((replays_fieldEqualsCall h).map Atom.call).replay hs
      (fun _ => hs.front_of_startsFieldEquals hstarts) hrun hle hclear
  | false =>
    rw [hstarts] at hrun
    cases hop : s.cursor.operandForm? with
    | none =>
      rw [hop] at hrun
      exact absurd hrun reject_ne_ok
    | some form =>
      rw [hop] at hrun
      have hin : B.left.length < s.cursor.ahead.length :=
        hs.front_of_nearsighted nearsighted_operandForm?
          (show s.cursor.operandForm? ≠ _ from hop ▸ nofun)
      cases form with
      | parenthesized =>
        exact (h.closed (n := .parenthesized) rfl rfl rfl).replay hs hfront hrun hle hclear
      | constant =>
        exact ((h.fronted (n := .constant) rfl rfl).map Atom.constant).replay hs (fun _ => hin) hrun
          hle hclear
      | call =>
        exact ((h.fronted (n := .call) rfl rfl).map Atom.call).replay hs (fun _ => hin) hrun hle
          hclear
      | column => exact (replays_qualifiedName.map Atom.column).replay hs hfront hrun hle hclear

theorem replays_parenthesizedRule : B.Replays front ending (parenthesizedRule c) :=
  (Replays.symbol .leftParen).bind fun start => (h.expr 0).bind_symbol fun _ _ =>
    (Replays.spanFrom start).bind fun _ => Replays.pure _

/-! ## Full-text search -/

theorem replays_searchValueRule : B.Replays front ending (searchValueRule c) := by
  refine ⟨steady_rule h.steady h.waits .searchValue, fun {s s' t a} hs hfront hrun hle hclear => ?_⟩
  change (get >>= fun s => if s.cursor.startsConstant = true then SearchValue.constant <$> c .constant
    else SearchValue.name <$> qualifiedName) _ = _ at hrun
  show B.Repeats a t ((get >>= fun s => if s.cursor.startsConstant = true then
    SearchValue.constant <$> c .constant else SearchValue.name <$> qualifiedName) s')
  have hstarts : s'.cursor.startsConstant = s.cursor.startsConstant :=
    hs.nearsighted nearsighted_startsConstant
  rw [get_bind_apply] at hrun ⊢
  rw [hstarts]
  cases hconstant : s.cursor.startsConstant with
  | true =>
    rw [hconstant] at hrun
    have hin : B.left.length < s.cursor.ahead.length :=
      hs.front_of_nearsighted nearsighted_startsConstant
        (show s.cursor.startsConstant ≠ _ from hconstant ▸ nofun)
    exact ((h.fronted (n := .constant) rfl rfl).map _).replay hs (fun _ => hin) hrun hle hclear
  | false =>
    rw [hconstant] at hrun
    exact (replays_qualifiedName.map _).replay hs hfront hrun hle hclear

omit h in
theorem replays_relevanceOptionName : B.Replays front ending relevanceOptionName := by
  have hname {front : Bool} : B.Replays front ending
      ((·, false) <$> optionName relevanceOptionNames "relevance option name") :=
    (replays_optionName _ _).map _
  refine Replays.current_bind_of_eq (fun t => ?_) hname ?_
  · obtain ⟨kind, text, span⟩ := t
    cases kind with
    | string name => exact Replays.skip_one.bind fun _ => Replays.pure (name, true)
    | _ => exact hname
  · rintro ⟨kind, text, span⟩ hborder
    cases kind with
    | string name => cases hborder
    | _ => rfl

theorem replays_relevanceOptionsRule : B.Replays front .list (relevanceOptionsRule c) := by
  rw [relevanceOptionsRule_eq]
  refine (Replays.loop (fun options => ?_) (Congruence.advances_relevanceStep (h.steady _)) []).bind
    fun _ => Replays.pure _
  exact Replays.takeComma_bind
    (replays_relevanceOptionName.bind fun _ => (Replays.symbol .eq).bind fun _ =>
      (h.closed (n := .searchValue) rfl rfl rfl).bind fun _ => Replays.pure _)
    (Replays.pure _)

theorem replays_namedArgument : B.Replays front ending (namedArgument c) := by
  refine Replays.current_bind_of_eq (fun t => ?_) (Replays.rejectCurrent "query or fields") ?_
  · dsimp only
    split
    · exact Replays.skip_one.bind fun _ => (Replays.symbol .eq).bind fun _ =>
        (h.closed (n := .searchValue) rfl rfl rfl).map _
    · split
      · exact Replays.skip_one.bind fun _ => (Replays.symbol .eq).bind fun _ =>
          Replays.atSymbol_bind rfl (replays_fieldList.map _) (replays_weightedField.map _)
      · exact Replays.rejectCurrent _
  · rintro ⟨kind, text, span⟩ hborder
    cases kind with
    | name value => cases hborder
    | _ => rfl

theorem replays_namedArgumentsRule : B.Replays front ending (namedArgumentsRule c) := by
  refine (replays_namedArgument h).bind fun first => (Replays.symbol .comma).bind fun _ =>
    (replays_namedArgument h).bind fun second => ?_
  cases first with
  | query query =>
    cases second with
    | query _ => exact Replays.rejectCurrent _
    | fields fields => exact Replays.pure (query, fields)
  | fields fields =>
    cases second with
    | query query => exact Replays.pure (query, fields)
    | fields _ => exact Replays.rejectCurrent _

omit h in
/-- Whether an argument is named is decided by its first two tokens. -/
theorem nearsighted_startsNamedArgument :
    Nearsighted fun first second _ => startsNamedArgument first second where
  first l m hk := by
    rename_i k
    cases k with
    | name value => cases hk
    | _ => rfl
  second k l m hl := by
    have hsign : (l == .symbol .eq) = false := beq_eq_false_iff_ne.2 (TokenKind.ne_of_isBorder hl rfl)
    simp only [startsNamedArgument, hsign]
    rfl
  third k l m _ := rfl

theorem replays_searchTarget (kind : RelevanceKind) :
    B.Replays false ending (searchTarget c kind) := by
  have hvalue : B.Replays false ending (c .searchValue) := h.closed rfl rfl rfl
  cases kind with
  | noField => exact hvalue.map _
  | singleField =>
    exact replays_field.bind fun _ => (Replays.symbol .comma).bind fun _ => hvalue.map _
  | multiField =>
    have hnamed : B.Replays false ending
        ((fun r => (RelevanceForm.named r.2, r.1)) <$> c .namedArguments) :=
      (h.closed (n := .namedArguments) rfl rfl rfl).map _
    have hlisted : B.Replays false ending (do
        let fields ← fieldList
        let _ ← symbol .comma
        return (.fields fields, ← c .searchValue) : Parser (RelevanceForm × SearchValue)) :=
      replays_fieldList.bind fun _ => (Replays.symbol .comma).bind fun _ => hvalue.map _
    refine ⟨steady_current_bind fun t s => ?_, fun {s s' t a} hs hfront hrun hle hclear => ?_⟩
    · rw [peek_bind_apply]
      dsimp only
      split
      · exact hnamed.steady s
      · exact hlisted.steady s
    · have hnearsighted : startsNamedArgument (s'.cursor.peek 0).kind (s'.cursor.peek 1).kind =
          startsNamedArgument (s.cursor.peek 0).kind (s.cursor.peek 1).kind :=
        hs.nearsighted nearsighted_startsNamedArgument
      rw [Cursor.peek_zero, Cursor.peek_zero] at hnearsighted
      simp only [searchTarget, current_bind_apply, peek_bind_apply] at hrun ⊢
      rw [hnearsighted]
      split at hrun
      · next hstarts =>
        rw [if_pos hstarts]
        exact hnamed.replay hs (absurd · Bool.false_ne_true) hrun hle hclear
      · next hstarts =>
        rw [if_neg hstarts]
        exact hlisted.replay hs (absurd · Bool.false_ne_true) hrun hle hclear

theorem replays_relevanceRule (kind : RelevanceKind) :
    B.Replays true ending (relevanceRule c kind) :=
  replays_callName.bind fun _ => (replays_searchTarget h kind).bind fun _ =>
    h.options.bind_symbol fun _ _ => Replays.pure _

theorem replays_fieldEqualsRule : B.Replays true ending (fieldEqualsRule c) := by
  refine replays_field.bind fun field => (Replays.symbol .eq).bind fun _ => ?_
  refine Replays.current_bind_of_eq (fun t => ?_) (Replays.rejectCurrent "relevance function")
    fun t ht => by rw [TokenKind.bareWord?_of_isBorder ht]; rfl
  cases t.kind.bareWord?.bind fieldEqualsKind? with
  | none => exact Replays.rejectCurrent _
  | some kind =>
    exact replays_callName.bind fun _ => (h.closed (n := .searchValue) rfl rfl rfl).bind fun _ =>
      h.options.bind_symbol fun _ _ => Replays.pure _

theorem replays_namedRelevance : B.Replays front ending (namedRelevance c) := by
  refine replays_of_ne_ok (fun t => ?_) fun s t a hborder => ?_
  · cases t.kind.bareWord?.bind RelevanceKind.ofUpper? with
    | some kind => exact h.fronted rfl rfl
    | none => exact Replays.reject _
  · rw [TokenKind.bareWord?_of_isBorder hborder]
    nofun

theorem replays_scoredRelevance : B.Replays front ending (scoredRelevance c) := by
  have hsteady : Steady (scoredRelevance c) := fun s => by
    change (if startsFieldEquals s.cursor.ahead then c .fieldEquals else namedRelevance c) s |> fun r => s.Leads (lastState r)
    split
    · exact h.steady _ s
    · have hnamed : B.Replays front ending (namedRelevance c) := replays_namedRelevance h
      exact hnamed.steady s
  refine ⟨hsteady, fun {s s' t a} hs hfront hrun hle hclear => ?_⟩
  change (if startsFieldEquals s.cursor.ahead then c .fieldEquals else namedRelevance c) s = _ at hrun
  show B.Repeats a t ((if startsFieldEquals s'.cursor.ahead then c .fieldEquals
    else namedRelevance c) s')
  rw [hs.startsFieldEquals]
  split at hrun
  · next hstarts =>
    rw [if_pos hstarts]
    exact (h.fronted (n := .fieldEquals) rfl rfl).replay hs
      (fun _ => hs.front_of_startsFieldEquals hstarts) hrun hle hclear
  · next hstarts =>
    rw [if_neg hstarts]
    exact (replays_namedRelevance h).replay hs hfront hrun hle hclear

theorem replays_scoreRule : B.Replays true ending (scoreRule c) := by
  have hend {front : Bool} (name : String) (relevance : Relevance)
      (weight : Option Number.Binary64) : B.Replays front ending (do
        let _ ← symbol .rightParen
        return (.score name relevance weight : CallShape)) :=
    (Replays.symbol .rightParen).bind fun _ => Replays.pure _
  exact replays_callName.bind fun name => (replays_scoredRelevance h).bind fun relevance =>
    Replays.takeSymbol_bind_taking ((replays_weight.map some).bind (hend name relevance))
      (hend name relevance none) ((takes_symbol .rightParen).bind fun _ => steady_pure _)

end Seam

end SearchSql.Grammar
