import SearchSql.Proofs.LeafLikeness
import SearchSql.Proofs.QueryCongruence
import SearchSql.Tree.Extent

/-!
# Rules on token lists that look alike

Every rule respects a likeness: from what looks alike it builds what looks alike. There is one lemma
for each rule, against callees that respect the likeness, and `like_derive` ties them together.
-/

set_option autoImplicit false

namespace SearchSql.Grammar

open SearchSql.Grammar.Parser

variable {α β : Type}

/-! ## The spans of nodes as seen -/

section Spans

variable {V : View} (hV : V.Lawful)

include hV

theorem Atom.span_view (a : Atom) : (a.view V).span = V.span a.span := by
  match a with
  | .constant ⟨_, _⟩ | .column _ | .call ⟨_, _⟩ | .parenthesized _ _ => simp only [Atom.view]; rfl
  | .arithmetic op left right =>
    simp only [Atom.view, Atom.span, hV.merge]
    rw [Atom.span_view left, Atom.span_view right]

/-- A predicate as seen stands where it is seen to stand. -/
theorem Predicate.span_view (p : Predicate) : (p.view V).span = V.span p.span := by
  match p with
  | .comparison _ left right | .like left _ right | .regexp left _ right =>
    simp only [Predicate.view, Predicate.span, hV.merge]
    rw [Predicate.span_view left, Predicate.span_view right]
  | .between target _ _ high =>
    simp only [Predicate.view, Predicate.span, hV.merge]
    rw [Predicate.span_view target, Predicate.span_view high]
  | .isNull _ _ _ | .within _ _ _ _ => simp only [Predicate.view]; rfl
  | .atom a => simpa only [Predicate.view, Predicate.span] using Atom.span_view hV a

end Spans

/-! ## What rules build, as seen -/

namespace Nonterminal

/-- What the rule of a nonterminal builds, as seen. -/
def view (V : View) : {α : Type} → Nonterminal α → α → α
  | _, .expr _ => Expr.view V
  | _, .predicate _ => Predicate.view V
  | _, .arithmetic _ => Atom.view V
  | _, .operand => Atom.view V
  | _, .parenthesized => Atom.view V
  | _, .constant => Constant.view V
  | _, .interval => Literal.view V
  | _, .call => Call.view V
  | _, .shape _ => CallShape.view V
  | _, .arguments => List.map (Expr.view V)
  | _, .scalar _ => CallShape.view V
  | _, .case => CallShape.view V
  | _, .cast => CallShape.view V
  | _, .ranking _ => CallShape.view V
  | _, .aggregate _ => Aggregate.view V
  | _, .percentile _ => Aggregate.view V
  | _, .aggregateTail _ => CallShape.view V
  | _, .window => Window.view V
  | _, .filter => Filter.view V
  | _, .orderBy => OrderBy.view V
  | _, .orderItem => OrderItem.view V
  | _, .score => CallShape.view V
  | _, .relevance _ => Relevance.view V
  | _, .fieldEquals => Relevance.view V
  | _, .namedArguments => Prod.map (SearchValue.view V) (List.map (WeightedField.view V))
  | _, .searchValue => SearchValue.view V
  | _, .relevanceOptions => List.map (RelevanceOption.view V)
  | _, .position => CallShape.view V
  | _, .extract => CallShape.view V
  | _, .getFormat => CallShape.view V
  | _, .timestamp _ => CallShape.view V
  | _, .selectItems => List.map (SelectItem.view V)
  | _, .selectItem _ => SelectItem.view V
  | _, .relation => Relation.view V
  | _, .condition _ => Condition.view V
  | _, .groupBy => GroupBy.view V
  | _, .query => Query.view V

/-- The nonterminal as seen, which holds a tree only behind an aggregate. -/
def seen (V : View) : {α : Type} → Nonterminal α → Nonterminal α
  | _, .aggregateTail a => .aggregateTail (a.view V)
  | _, n => n

/-- Whether the rule of a nonterminal is run only in front of a token that belongs to it. -/
def front : {α : Type} → Nonterminal α → Bool
  | _, .constant | _, .call | _, .shape _ | _, .scalar _ | _, .ranking _ | _, .aggregate _
  | _, .percentile _ | _, .score | _, .relevance _ | _, .fieldEquals | _, .position | _, .extract
  | _, .getFormat | _, .timestamp _ => true
  | _, _ => false

end Nonterminal

namespace Likeness

variable {γ : Type} {L : Likeness} {front : Bool}

/-! ## Deciding by what is in sight -/

/-- Both runs may take tokens within sight, as many as there are. -/
theorem Linked.skip (hL : L.Lawful) {n : Nat} {s s' : State} (h : L.Linked s s')
    (hn : n ≤ (L.sight s.cursor).length) : L.Linked (s.skip n) (s'.skip n) := by
  induction n generalizing s s' with
  | zero => exact h
  | succ n ih =>
    have hend : L.ends s.cursor.current.kind = false :=
      ends_current hL fun hnil => by simp [hnil] at hn
    rw [sight_cons hL hend] at hn
    exact ih (h.skip_one hL hend) (Nat.le_of_succ_le_succ hn)

/-- What is decided by three kinds, none of them out of sight, is decided alike. -/
theorem Linked.shortsighted (hL : L.Lawful) {g : TokenKind → TokenKind → TokenKind → γ}
    (hg : Shortsighted g)
    (hview : ∀ k l m : TokenKind, g (k.view L.view) (l.view L.view) (m.view L.view) = g k l m)
    {s s' : State} (h : L.Linked s s') :
    g (s'.cursor.peek 0).kind (s'.cursor.peek 1).kind (s'.cursor.peek 2).kind =
      g (s.cursor.peek 0).kind (s.cursor.peek 1).kind (s.cursor.peek 2).kind := by
  rw [hg.eq hL.ends, hg.eq hL.ends]
  show g (kindAt (L.sight s'.cursor) 0) (kindAt (L.sight s'.cursor) 1) (kindAt (L.sight s'.cursor) 2)
    = g (kindAt (L.sight s.cursor) 0) (kindAt (L.sight s.cursor) 1) (kindAt (L.sight s.cursor) 2)
  rw [h.sight, kindAt_map, kindAt_map, kindAt_map, hview]

/-- Both runs find a relevance function behind its field or neither does. -/
theorem Linked.startsFieldEquals (hL : L.Lawful) {s s' : State} (h : L.Linked s s') :
    startsFieldEquals s'.cursor.ahead = startsFieldEquals s.cursor.ahead := by
  rw [← startsFieldEquals_inSight hL.ends, ← startsFieldEquals_inSight hL.ends s.cursor.ahead]
  show Grammar.startsFieldEquals (L.sight s'.cursor) = Grammar.startsFieldEquals (L.sight s.cursor)
  rw [h.sight, startsFieldEquals_map hL.view]

/-- Where it is found, something is in sight. -/
theorem sight_of_startsFieldEquals (hL : L.Lawful) {c : Cursor}
    (h : Grammar.startsFieldEquals c.ahead = true) : L.sight c ≠ [] := by
  rw [← startsFieldEquals_inSight hL.ends] at h
  intro hnil
  rw [show inSight L.ends c.ahead = [] from hnil] at h
  cases h

/-- A decision by three kinds that comes out otherwise at the end shows that something is in
sight. -/
theorem sight_of_shortsighted (hL : L.Lawful) {g : TokenKind → TokenKind → TokenKind → γ}
    (hg : Shortsighted g) {c : Cursor}
    (h : g (c.peek 0).kind (c.peek 1).kind (c.peek 2).kind ≠
      g .endOfInput .endOfInput .endOfInput) : L.sight c ≠ [] := by
  rw [hg.eq hL.ends] at h
  intro hnil
  rw [show inSight L.ends c.ahead = [] from hnil] at h
  exact h rfl

/-- The tokens of a test are within sight, as far as they tell what test it is. -/
theorem Test.ofKinds?_width {first second third : TokenKind} {test : Test} {width : Nat}
    (h : Test.ofKinds? first second third = some (test, width)) :
    width ≤ 2 ∧ (second = .endOfInput → width ≤ 1) := by
  unfold Test.ofKinds? at h
  split at h
  all_goals first
    | obtain ⟨_, rfl⟩ := Prod.mk.inj (Option.some.inj h)
      exact ⟨by decide, fun _ => by decide⟩
    | obtain ⟨_, rfl⟩ := Prod.mk.inj (Option.some.inj h)
      exact ⟨by decide, nofun⟩
    | obtain ⟨_, hword, heq⟩ := Option.map_eq_some_iff.1 h
      obtain ⟨_, rfl⟩ := Prod.mk.inj heq
      refine ⟨by decide, fun hsecond => ?_⟩
      first
        | exact Nat.le_refl _
        | rw [hsecond] at hword
          cases hword

/-- The tokens of a test are in sight. -/
theorem width_le_sight (hL : L.Lawful) {c : Cursor} {test : Test} {width : Nat}
    (h : Test.at? c = some (test, width)) : width ≤ (L.sight c).length := by
  unfold Test.at? at h
  rw [shortsighted_testKinds.eq hL.ends] at h
  change Test.ofKinds? (kindAt (L.sight c) 0) (kindAt (L.sight c) 1) (kindAt (L.sight c) 2) = _ at h
  obtain ⟨htwo, hone⟩ := Test.ofKinds?_width h
  match hsight : L.sight c with
  | [] =>
    rw [hsight] at h
    cases h
  | [_] =>
    rw [hsight] at hone
    exact hone rfl
  | _ :: _ :: _ => exact Nat.le_trans htwo (by simp)

/-! ## Callees -/

/-- Callees that respect a likeness. -/
structure LikeCallees (L : Likeness) (c d : Callee) : Prop where
  steadyLeft {α : Type} (n : Nonterminal α) : Steady (c n)
  steadyRight {α : Type} (n : Nonterminal α) : Steady (d n)
  like {α : Type} (n : Nonterminal α) :
    L.Like n.front (n.view L.view) (c n) (d (n.seen L.view))

variable {c d : Callee} (h : LikeCallees L c d)

include h

namespace LikeCallees

theorem expr (least : Nat) : L.Like front (Expr.view L.view) (c (.expr least)) (d (.expr least)) :=
  (show L.Like false _ _ _ from h.like (.expr least)).weaken

theorem predicate (least : Nat) :
    L.Like front (Predicate.view L.view) (c (.predicate least)) (d (.predicate least)) :=
  (show L.Like false _ _ _ from h.like (.predicate least)).weaken

theorem arithmetic (least : Nat) :
    L.Like front (Atom.view L.view) (c (.arithmetic least)) (d (.arithmetic least)) :=
  (show L.Like false _ _ _ from h.like (.arithmetic least)).weaken

/-- A list of expressions is read alike. -/
theorem exprs (rule : String) (hL : L.Lawful) :
    L.Like front (List.map (Expr.view L.view)) (Parser.commaSeparated rule (c .wholeExpr))
      (Parser.commaSeparated rule (d .wholeExpr)) :=
  (h.expr 0).commaSeparated hL rule (h.steadyLeft _) (h.steadyRight _)

end LikeCallees

variable (hL : L.Lawful)

include hL

/-! ## Constants and calls -/

/-- The unit behind the expression is a word, so both intervals have the same. -/
theorem like_intervalRule :
    L.Like front (Literal.view L.view) (intervalRule c) (intervalRule d) :=
  (like_keyword hL .INTERVAL).bind fun _ => (h.expr 0).bind fun _ => (like_datetimeUnit hL).map
    fun _ => rfl

/-- Each literal is known by the kind of its first token, which both runs see. -/
theorem like_literalRule : L.Like front (Literal.view L.view) (literalRule c) (literalRule d) := by
  refine like_current_bind_of_eq hL (fun t ht => ?_) (like_rejectCurrent hL "constant")
    (by rintro ⟨_, _, _⟩ (rfl | rfl) <;> rfl) (by rintro ⟨_, _, _⟩ (rfl | rfl) <;> rfl)
  have hreject : L.Like true (Literal.view L.view) (rejectCurrent "constant")
    (rejectCurrent "constant") := like_rejectCurrent hL _
  obtain ⟨kind, text, span⟩ := t
  cases kind with
  | string value => exact like_simpleLiteral hL rfl
  | symbol sign =>
    cases sign with
    | leftBrace => exact like_bracedLiteral hL
    | _ => exact hreject
  | keyword word =>
    cases word with
    | TRUE | FALSE | NULL => exact like_simpleLiteral hL rfl
    | INTERVAL => exact (show L.Like false _ _ _ from h.like .interval).weaken
    | DATE | TIME | TIMESTAMP => exact like_wordLiteral hL _
    | _ => exact hreject
  | name word =>
    have hname : DatetimeConstant.ofText? (L.view.word word) = DatetimeConstant.ofText? word := by
      unfold DatetimeConstant.ofText? Text.findSpelling
      rw [hL.view.upper]
    simp only [Token.view, TokenKind.view, hname]
    cases DatetimeConstant.ofText? word with
    | some name => exact like_datetimeConstant hL name
    | none => exact hreject
  | _ => exact hreject

/-- A constant is a literal with its place, or a number with its sign. -/
theorem like_constantRule :
    L.Like true (Constant.view L.view) (constantRule c) (constantRule d) := by
  refine like_current_bind hL (fun t ht => ?_) nofun
  have hliteral : L.Like true (Constant.view L.view)
      (current >>= fun t => literalRule c >>= fun value => spanFrom t.span >>= fun span =>
        pure ⟨value, span⟩)
      (current >>= fun t => literalRule d >>= fun value => spanFrom t.span >>= fun span =>
        pure ⟨value, span⟩) :=
    like_current_bind hL (fun t _ => (like_literalRule h hL).bind fun _ =>
      like_spanFrom_bind hL t.span fun _ => rfl) nofun
  obtain ⟨kind, text, span⟩ := t
  cases kind with
  | symbol sign =>
    cases sign with
    | plus | minus => exact like_number hL
    | _ => exact hliteral
  | integer | real => exact like_number hL
  | _ => exact hliteral

theorem like_argumentsRule :
    L.Like front (List.map (Expr.view L.view)) (argumentsRule c) (argumentsRule d) :=
  like_takeSymbol_bind hL (show Symbol.rightParen ≠ .semicolon by decide) (like_pure [])
    ((h.exprs _ hL).bind fun args => (like_symbol hL (by decide)).bind fun _ => like_pure args)

theorem like_scalarRule (category : ScalarCategory) :
    L.Like true (CallShape.view L.view) (scalarRule c category) (scalarRule d category) := by
  have harguments : L.Like false (List.map (Expr.view L.view)) (c .arguments) (d .arguments) :=
    h.like .arguments
  refine (like_callName hL).bind fun name => harguments.map fun args => ?_
  simp only [CallShape.view, viewAll_eq]

theorem like_caseStep (branches : List CaseBranch) :
    L.Like false (stepView (List.map (CaseBranch.view L.view))) (caseStep c branches)
      (caseStep d (branches.map (CaseBranch.view L.view))) :=
  like_takeKeyword_bind hL .WHEN
    ((h.expr 0).bind fun _ => (like_keyword hL .THEN).bind fun _ => (h.expr 0).map fun _ => rfl)
    (like_pure (ForInStep.done branches))

theorem like_caseBranches :
    L.Like front (List.map (CaseBranch.view L.view)) (caseBranches c) (caseBranches d) := by
  rw [caseBranches_eq, caseBranches_eq]
  have hloop : L.Like front (List.map (CaseBranch.view L.view)) (loop [] (caseStep c))
      (loop (List.map (CaseBranch.view L.view) []) (caseStep d)) :=
    like_loop (like_caseStep h hL) (Congruence.advances_caseStep (h.steadyLeft _))
      (Congruence.advances_caseStep (h.steadyRight _)) []
  exact hloop.bind fun _ => like_pure_of_eq List.map_reverse

theorem like_caseEnd (operand : Option Expr) (branches : List CaseBranch) :
    L.Like front (CallShape.view L.view) (caseEnd c operand branches)
      (caseEnd d (operand.map (Expr.view L.view)) (branches.map (CaseBranch.view L.view))) := by
  have hsome : L.Like false (Option.map (Expr.view L.view)) (some <$> c .wholeExpr)
      (some <$> d .wholeExpr) := (h.expr 0).map fun _ => rfl
  have hend (otherwise : Option Expr) : L.Like false (CallShape.view L.view)
      (keyword .END >>= fun _ => pure (.case operand branches otherwise))
      (keyword .END >>= fun _ => pure (.case (operand.map (Expr.view L.view))
        (branches.map (CaseBranch.view L.view)) (otherwise.map (Expr.view L.view)))) :=
    (like_keyword hL .END).bind fun _ => like_pure_of_eq (by
      simp only [CallShape.view, viewOptional_eq, viewBranches_eq])
  cases branches with
  | nil =>
    exact (like_rejectCurrent hL (f := id) "WHEN").bind fun _ =>
      like_takeKeyword_bind hL .ELSE (hsome.bind hend) (hend none)
  | cons _ _ => exact like_takeKeyword_bind hL .ELSE (hsome.bind hend) (hend none).weaken

theorem like_caseRule : L.Like front (CallShape.view L.view) (caseRule c) (caseRule d) := by
  have hsome : L.Like false (Option.map (Expr.view L.view)) (some <$> c .wholeExpr)
      (some <$> d .wholeExpr) := (h.expr 0).map fun _ => rfl
  have hrest (operand : Option Expr) : L.Like false (CallShape.view L.view)
      (caseBranches c >>= caseEnd c operand)
      (caseBranches d >>= caseEnd d (operand.map (Expr.view L.view))) :=
    (like_caseBranches h hL).bind (like_caseEnd h hL operand)
  exact (like_keyword hL .CASE).bind fun _ => like_atKeyword_bind hL .WHEN (hrest none).weaken
    (hsome.bind hrest)

theorem like_castRule : L.Like front (CallShape.view L.view) (castRule c) (castRule d) :=
  (like_keyword hL .CAST).bind fun _ => (like_symbol hL (by decide)).bind fun _ =>
    (h.expr 0).bind fun _ => (like_keyword hL .AS).bind fun _ => (like_dataType hL).bind fun _ =>
      (like_symbol hL (by decide)).bind fun _ => like_pure_of_eq (by simp only [CallShape.view, id])

/-- In the substring, `IN` separates for both runs. -/
theorem like_positionRule :
    L.Like true (CallShape.view L.view) (positionRule c) (positionRule d) :=
  (like_callName hL).bind fun _ => ((h.expr 0).atSeparator hL).bind fun _ =>
    (like_keyword hL .IN).bind fun _ => (h.expr 0).bind fun _ =>
      (like_symbol hL (by decide)).bind fun _ => like_pure_of_eq (by simp only [CallShape.view])

theorem like_extractRule : L.Like true (CallShape.view L.view) (extractRule c) (extractRule d) :=
  (like_callName hL).bind fun _ => (like_datetimeUnit hL).bind fun _ =>
    (like_keyword hL .FROM).bind fun _ => (h.expr 0).bind fun _ =>
      (like_symbol hL (by decide)).bind fun _ => like_pure_of_eq (by simp only [CallShape.view, id])

theorem like_getFormatRule :
    L.Like true (CallShape.view L.view) (getFormatRule c) (getFormatRule d) :=
  (like_callName hL).bind fun _ => (like_formatTarget hL).bind fun _ =>
    (like_symbol hL (by decide)).bind fun _ => (h.expr 0).bind fun _ =>
      (like_symbol hL (by decide)).bind fun _ => like_pure_of_eq (by simp only [CallShape.view, id])

theorem like_timestampRule (function : TimestampFunction) :
    L.Like true (CallShape.view L.view) (timestampRule c function) (timestampRule d function) :=
  (like_callName hL).bind fun _ => (like_singleUnit hL).bind fun _ =>
    (like_symbol hL (by decide)).bind fun _ => (h.expr 0).bind fun _ =>
      (like_symbol hL (by decide)).bind fun _ => (h.expr 0).bind fun _ =>
        (like_symbol hL (by decide)).bind fun _ =>
          like_pure_of_eq (by simp only [CallShape.view, id])

theorem like_shapeRule (family : FunctionFamily) :
    L.Like true (CallShape.view L.view) (shapeRule c family) (shapeRule d family) := by
  have htail {p q : Parser Aggregate} (hp : L.Like true (Aggregate.view L.view) p q) :
      L.Like true (CallShape.view L.view) (p >>= fun a => c (.aggregateTail a))
        (q >>= fun a => d (.aggregateTail a)) :=
    hp.bind fun a => h.like (.aggregateTail a)
  cases family with
  | nested =>
    refine like_get_bind fun s s' hs hfront => ?_
    have hstarts : startsNestedAll s'.cursor.ahead = startsNestedAll s.cursor.ahead := by
      have hne : L.sight s'.cursor ≠ [] := sight_ne_nil hL
        (hs.ends_false hL (ends_current hL (hfront rfl)))
      rw [← startsNestedAll_inSight hL.ends hne, ← startsNestedAll_inSight hL.ends (hfront rfl)]
      show startsNestedAll (L.sight s'.cursor) = startsNestedAll (L.sight s.cursor)
      rw [hs.sight, startsNestedAll_map]
    dsimp only
    rw [hstarts]
    cases startsNestedAll s.cursor.ahead with
    | true => exact like_nestedAll hL s s' hs hfront
    | false => exact h.like (.scalar .nested) s s' hs hfront
  | scalar category => exact h.like (.scalar category)
  | ranking function => exact h.like (.ranking function)
  | aggregate function => exact htail (h.like (.aggregate function))
  | percentile function => exact htail (h.like (.percentile function))
  | score => exact h.like .score
  | relevance kind =>
    exact (show L.Like true (Relevance.view L.view) _ _ from h.like (.relevance kind)).map fun _ => by
      simp only [CallShape.view]
  | highlight => exact like_highlight hL
  | position => exact h.like .position
  | extract => exact h.like .extract
  | getFormat => exact h.like .getFormat
  | timestamp function => exact h.like (.timestamp function)

/-- The function is known by its name up to case, which both runs see. -/
theorem like_callShape : L.Like true (CallShape.view L.view) (callShape c) (callShape d) := by
  refine like_current_bind hL (fun t ht => ?_) nofun
  have hreject : L.Like true (CallShape.view L.view)
      (reject (.noAlternative "function call" ["function name", "CASE", "CAST"] t))
      (reject (.noAlternative "function call" ["function name", "CASE", "CAST"] (t.view L.view))) :=
    like_reject hL (.noAlternative _ _ (.inSight ht))
  obtain ⟨kind, text, span⟩ := t
  cases kind with
  | keyword word =>
    cases word with
    | CASE => exact (show L.Like false _ _ _ from h.like .case).weaken
    | CAST => exact (show L.Like false _ _ _ from h.like .cast).weaken
    | DATE | TIME | TIMESTAMP | DATETIME => exact h.like (.scalar .dateTime)
    | _ => exact hreject
  | name name =>
    simp only [Token.view, TokenKind.view, hL.view.upper]
    cases FunctionFamily.ofUpper? (Text.upper name) with
    | some family => exact h.like (.shape family)
    | none => exact like_reject hL (.unknownFunction name (.inSight ht))
  | _ => exact hreject

theorem like_callRule : L.Like true (Call.view L.view) (callRule c) (callRule d) := by
  rw [callRule_eq, callRule_eq]
  refine Like.nest hL 1 (like_current_bind hL (fun t _ => ?_) nofun)
  exact (like_callShape h hL).bind fun shape => like_spanFrom_bind hL t.span fun span => by
    simp only [Call.view]

/-! ## Aggregates and windows -/

theorem like_aggregateRule (function : AggregateFunction) :
    L.Like true (Aggregate.view L.view) (aggregateRule c function) (aggregateRule d function) := by
  have hregular : L.Like false (Aggregate.view L.view) (Aggregate.regular function <$> c .wholeExpr)
      (Aggregate.regular function <$> d .wholeExpr) :=
    (h.expr 0).map fun _ => by simp only [Aggregate.view]
  have hform : L.Like false (Aggregate.view L.view) (aggregateRule.form c function)
      (aggregateRule.form d function) := by
    unfold aggregateRule.form
    dsimp only
    split
    · refine like_takeSymbol_bind hL (by decide) (like_pure_of_eq (by simp only [Aggregate.view])) ?_
      refine like_takeKeyword_bind hL .DISTINCT ?_ hregular
      exact (h.exprs _ hL).map fun _ => by simp only [Aggregate.view, viewAll_eq]
    · exact hregular
  exact (like_callName hL).bind fun _ => hform.bind fun _ => (like_symbol hL (by decide)).bind fun _ =>
    like_pure _

theorem like_percentileRule (function : PercentileFunction) :
    L.Like true (Aggregate.view L.view) (percentileRule c function) (percentileRule d function) := by
  have hsome : L.Like false (Option.map (Constant.view L.view)) (some <$> number)
      (some <$> number) := (like_number hL).map fun _ => rfl
  have hend (field : Expr) (percent : Constant) (compression : Option Constant) :
      L.Like false (Aggregate.view L.view)
        (symbol .rightParen >>= fun _ => pure (.percentile function field percent compression))
        (symbol .rightParen >>= fun _ => pure (.percentile function (field.view L.view)
          (percent.view L.view) (compression.map (Constant.view L.view)))) :=
    (like_symbol hL (by decide)).bind fun _ => like_pure_of_eq (by
      simp only [Aggregate.view, viewOptionalConstant_eq])
  exact (like_callName hL).bind fun _ => (h.expr 0).bind fun field =>
    (like_symbol hL (by decide)).bind fun _ => (like_number hL).bind fun percent =>
      like_takeSymbol_bind hL (by decide) (hsome.bind (hend field percent)) (hend field percent none)

theorem like_orderByRule :
    L.Like front (OrderBy.view L.view) (orderByRule c) (orderByRule d) := by
  have hitems : L.Like false (List.map (OrderItem.view L.view))
      (Parser.commaSeparated "ORDER BY item" (c .orderItem))
      (Parser.commaSeparated "ORDER BY item" (d .orderItem)) :=
    (show L.Like false _ _ _ from h.like .orderItem).commaSeparated hL _ (h.steadyLeft _)
      (h.steadyRight _)
  exact (like_keyword hL .ORDER).bind fun start => (like_keyword hL .BY).bind fun _ =>
    hitems.bind fun items => like_spanFrom_bind hL start fun _ => by
      simp only [OrderBy.view, viewItems_eq]

theorem like_orderItemRule :
    L.Like front (OrderItem.view L.view) (orderItemRule c) (orderItemRule d) :=
  (h.expr 0).bind fun _ => (like_direction hL).bind fun _ => (like_nullOrder hL).map fun _ => by
    simp only [OrderItem.view, id]

theorem like_partitionBy :
    L.Like front (Option.map (PartitionBy.view L.view)) (partitionBy c) (partitionBy d) :=
  like_atKeyword_bind hL .PARTITION
    ((like_take hL).bind fun start => (like_keyword hL .BY).bind fun _ =>
      (h.exprs _ hL).bind fun exprs => like_spanFrom_bind hL start fun _ => by
        simp only [Option.map_some, PartitionBy.view, viewAll_eq])
    (like_pure none)

theorem like_windowRule : L.Like front (Window.view L.view) (windowRule c) (windowRule d) := by
  have hsome : L.Like true (Option.map (OrderBy.view L.view)) (some <$> c .orderBy)
      (some <$> d .orderBy) :=
    (show L.Like false (OrderBy.view L.view) _ _ from h.like .orderBy).weaken.map fun _ => rfl
  have hend (start : Span) (partition : Option PartitionBy) (orderBy : Option OrderBy) :
      L.Like false (Window.view L.view)
        (symbol .rightParen >>= fun _ => spanFrom start >>= fun span =>
          pure ⟨partition, orderBy, span⟩)
        (symbol .rightParen >>= fun _ => spanFrom (L.view.span start) >>= fun span =>
          pure ⟨partition.map (PartitionBy.view L.view), orderBy.map (OrderBy.view L.view), span⟩) :=
    (like_symbol hL (by decide)).bind fun _ => like_spanFrom_bind hL start fun _ => by
      simp only [Window.view, viewOptionalPartition_eq, viewOptionalOrder_eq]
  exact (like_keyword hL .OVER).bind fun start => (like_symbol hL (by decide)).bind fun _ =>
    (like_partitionBy h hL).bind fun partition =>
      like_atKeyword_bind hL .ORDER (hsome.bind (hend start partition)) (hend start partition none)

theorem like_filterRule : L.Like front (Filter.view L.view) (filterRule c) (filterRule d) :=
  (like_keyword hL .FILTER).bind fun start => (like_symbol hL (by decide)).bind fun _ =>
    (like_keyword hL .WHERE).bind fun _ => (h.expr 0).bind fun _ =>
      (like_symbol hL (by decide)).bind fun _ => like_spanFrom_bind hL start fun _ => by
        simp only [Filter.view]

theorem like_rankingRule (function : RankingFunction) :
    L.Like true (CallShape.view L.view) (rankingRule c function) (rankingRule d function) := by
  have harguments : L.Like false (List.map (Expr.view L.view)) (c .arguments) (d .arguments) :=
    h.like .arguments
  have hwindow : L.Like false (Window.view L.view) (c .window) (d .window) := h.like .window
  exact (like_callName hL).bind fun _ => harguments.bind fun _ => hwindow.map fun _ => by
    simp only [CallShape.view, viewAll_eq]

omit hL in
/-- Both runs find an order with a filter behind it or neither does. -/
theorem like_orderedFilter :
    L.Like front (Prod.map (OrderBy.view L.view) (Filter.view L.view)) (orderedFilter c)
      (orderedFilter d) :=
  (show L.Like false (OrderBy.view L.view) _ _ from h.like .orderBy).weaken.bind fun _ =>
    (show L.Like false (Filter.view L.view) _ _ from h.like .filter).map fun _ => rfl

omit hL in
theorem steady_orderedFilter : Steady (orderedFilter c) ∧ Steady (orderedFilter d) :=
  ⟨(h.steadyLeft _).bind fun _ => (h.steadyLeft _).bind fun _ => steady_pure _,
    (h.steadyRight _).bind fun _ => (h.steadyRight _).bind fun _ => steady_pure _⟩

/-- Where both attempt the order, it is read by both or undone by both. -/
theorem like_aggregateTailRule (aggregate : Aggregate) :
    L.Like front (CallShape.view L.view) (aggregateTailRule c aggregate)
      (aggregateTailRule d (aggregate.view L.view)) := by
  have hwindow : L.Like false (Window.view L.view) (c .window) (d .window) := h.like .window
  have hfilter : L.Like false (Filter.view L.view) (c .filter) (d .filter) := h.like .filter
  have hplain {front : Bool} : L.Like front (CallShape.view L.view) (pure (.aggregate aggregate))
      (pure (.aggregate (aggregate.view L.view))) :=
    like_pure_of_eq (by simp only [CallShape.view])
  refine like_atKeyword_bind hL .OVER (hwindow.weaken.map fun _ => by simp only [CallShape.view]) ?_
  refine like_atKeyword_bind hL .FILTER (hfilter.weaken.map fun _ => by
    simp only [CallShape.view, viewOptionalOrder]) ?_
  refine like_atKeyword_bind hL .ORDER ?_ hplain
  refine ((like_orderedFilter h).attempt hL "ordered aggregate filter" (steady_orderedFilter h).1
    (steady_orderedFilter h).2).bind fun found => ?_
  cases found with
  | none => exact hplain
  | some found =>
    exact like_pure_of_eq (by
      simp only [CallShape.view, viewOptionalOrder])

/-! ## Expressions -/

theorem like_logicalOperand :
    L.Like front (Expr.view L.view) (logicalOperand c) (logicalOperand d) :=
  like_atKeyword_bind hL .NOT
    ((like_take hL).bind fun start => (h.expr _).bind fun _ => like_spanFrom_bind hL start fun _ => by
      simp only [Expr.view])
    ((h.predicate 0).map fun _ => by simp only [Expr.view])

/-- Both runs find a connective that binds tightly enough or neither does. -/
theorem like_logicalStep (least : Nat) (left : Expr) :
    L.Like false (stepView (Expr.view L.view)) (logicalStep c least left)
      (logicalStep d least (left.view L.view)) := by
  have hdone {front : Bool} : L.Like front (stepView (Expr.view L.view)) (pure (.done left))
      (pure (.done (left.view L.view))) := like_pure (ForInStep.done left)
  refine like_current_bind_of_eq hL (fun t ht => ?_) hdone
    (by rintro ⟨_, _, _⟩ (rfl | rfl) <;> rfl) (by rintro ⟨_, _, _⟩ (rfl | rfl) <;> rfl)
  rw [show (t.view L.view).kind = t.kind.view L.view from rfl, Connective.ofKind?_view]
  cases Connective.ofKind? t.kind with
  | none => exact hdone
  | some op =>
    dsimp only
    split
    · exact hdone
    · refine (like_skip_one hL).bind fun _ => (h.expr _).map fun right => ?_
      cases op <;> simp only [stepView, Connective.join, Expr.view]

theorem like_exprRule (least : Nat) :
    L.Like front (Expr.view L.view) (exprRule c least) (exprRule d least) := by
  rw [exprRule_eq, exprRule_eq]
  exact Like.nest hL 1 ((like_logicalOperand h hL).bind fun left =>
    like_loop (like_logicalStep h hL least) (advances_logicalStep (fun _ => h.steadyLeft _) least)
      (advances_logicalStep (fun _ => h.steadyRight _) least) left)

/-- Both runs make the same test of the same operand. -/
theorem like_testRule (left : Predicate) (test : Test) :
    L.Like front (Predicate.view L.view) (testRule c left test)
      (testRule d (left.view L.view) test) := by
  cases test with
  | comparison op => exact (h.predicate _).map fun _ => by simp only [Predicate.view]
  | isNull negated =>
    refine (like_keyword hL .NULL).map fun stop => ?_
    simp only [Predicate.view, Predicate.span_view hL.view, hL.view.merge]
  | between negated =>
    exact (h.predicate _).bind fun _ => (like_keyword hL .AND).bind fun _ =>
      (h.predicate _).map fun _ => by simp only [Predicate.view]
  | like negated => exact (h.predicate _).map fun _ => by simp only [Predicate.view]
  | regexp negated => exact (h.predicate _).map fun _ => by simp only [Predicate.view]
  | within negated =>
    refine (like_symbol hL (by decide)).bind fun _ => (h.exprs _ hL).bind fun items =>
      (like_symbol hL (by decide)).bind fun _ => ?_
    rw [Predicate.span_view hL.view]
    exact like_spanFrom_bind hL left.span fun _ => by simp only [Predicate.view, viewAll_eq]

theorem like_predicateStep (least : Nat) (left : Predicate) :
    L.Like false (stepView (Predicate.view L.view)) (predicateStep c least left)
      (predicateStep d least (left.view L.view)) := by
  have hdone {front : Bool} : L.Like front (stepView (Predicate.view L.view)) (pure (.done left))
      (pure (.done (left.view L.view))) := like_pure (ForInStep.done left)
  rw [predicateStep_eq, predicateStep_eq]
  refine like_get_bind fun s s' hs hfront => ?_
  have hat : Test.at? s'.cursor = Test.at? s.cursor :=
    hs.shortsighted hL shortsighted_testKinds Test.ofKinds?_view
  have hseparator (test : Test) : s'.isSeparator test = s.isSeparator test := by
    cases test <;> simp only [State.isSeparator, hs.frame.separatorDepth, hs.frame.depth]
  unfold testStep
  rw [hat, funext hseparator]
  cases hfound : Test.at? s.cursor with
  | none => exact hdone s s' hs hfront
  | some found =>
    obtain ⟨test, width⟩ := found
    dsimp only
    split
    · exact hdone s s' hs hfront
    · have htest : L.Like false (stepView (Predicate.view L.view))
          (ForInStep.yield <$> testRule c left test)
          (ForInStep.yield <$> testRule d (left.view L.view) test) :=
        (like_testRule h hL left test).map fun _ => rfl
      exact htest _ _ (hs.skip hL (width_le_sight hL hfound)) nofun

theorem like_predicateRule (least : Nat) :
    L.Like front (Predicate.view L.view) (predicateRule c least) (predicateRule d least) := by
  refine (h.arithmetic 0).bind fun left => ?_
  have hloop : L.Like false (Predicate.view L.view) (loop (.atom left) (predicateStep c least))
      (loop ((Predicate.atom left).view L.view) (predicateStep d least)) :=
    like_loop (like_predicateStep h hL least)
      (Congruence.advances_predicateStep (fun _ => h.steadyLeft _) (h.steadyLeft _) least)
      (Congruence.advances_predicateStep (fun _ => h.steadyRight _) (h.steadyRight _) least) _
  simpa only [Predicate.view] using hloop

/-- Both runs find an operator that binds tightly enough or neither does. -/
theorem like_arithmeticStep (least : Nat) (left : Atom) :
    L.Like false (stepView (Atom.view L.view)) (arithmeticStep c least left)
      (arithmeticStep d least (left.view L.view)) := by
  have hdone {front : Bool} : L.Like front (stepView (Atom.view L.view)) (pure (.done left))
      (pure (.done (left.view L.view))) := like_pure (ForInStep.done left)
  refine like_current_bind_of_eq hL (fun t ht => ?_) hdone
    (by rintro ⟨_, _, _⟩ (rfl | rfl) <;> rfl) (by rintro ⟨_, _, _⟩ (rfl | rfl) <;> rfl)
  rw [show (t.view L.view).kind = t.kind.view L.view from rfl, arithmeticOp_ofKind?_view hL.view]
  cases ArithmeticOp.ofKind? t.kind with
  | none => exact hdone
  | some op =>
    dsimp only
    split
    · exact hdone
    · exact (like_skip_one hL).bind fun _ => (h.arithmetic _).map fun _ => by
        simp only [stepView, Atom.view]

theorem like_arithmeticRule (least : Nat) :
    L.Like front (Atom.view L.view) (arithmeticRule c least) (arithmeticRule d least) :=
  (show L.Like false (Atom.view L.view) _ _ from h.like .operand).weaken.bind fun left =>
    like_loop (like_arithmeticStep h hL least) (advances_arithmeticStep (fun _ => h.steadyLeft _) least)
      (advances_arithmeticStep (fun _ => h.steadyRight _) least) left

theorem like_fieldEqualsCall :
    L.Like true (Call.view L.view) (fieldEqualsCall c) (fieldEqualsCall d) :=
  like_current_bind hL (fun t _ =>
    (show L.Like true (Relevance.view L.view) _ _ from h.like .fieldEquals).bind fun _ =>
      like_spanFrom_bind hL t.span fun _ => by simp only [Call.view, CallShape.view]) nofun

/-- The form of an operand is decided by what is in sight. -/
theorem like_operandRule : L.Like front (Atom.view L.view) (operandRule c) (operandRule d) := by
  rw [operandRule_eq, operandRule_eq]
  refine like_get_bind fun s s' hs hfront => ?_
  have hform : s'.cursor.operandForm? = s.cursor.operandForm? :=
    hs.shortsighted hL shortsighted_operandForm? (operandForm?_view hL.view)
  unfold operandAt
  rw [hs.startsFieldEquals hL, hform]
  cases hfield : startsFieldEquals s.cursor.ahead with
  | true =>
    have hcall : L.Like true (Atom.view L.view) (Atom.call <$> fieldEqualsCall c)
        (Atom.call <$> fieldEqualsCall d) :=
      (like_fieldEqualsCall h hL).map fun _ => by simp only [Atom.view]
    exact hcall s s' hs fun _ => sight_of_startsFieldEquals hL hfield
  | false =>
    cases hop : s.cursor.operandForm? with
    | none => exact .refused (hL.refused_matching hs (.noAlternative _ _ (hs.seen hL)))
    | some form =>
      have hsight : L.sight s.cursor ≠ [] := sight_of_shortsighted hL shortsighted_operandForm?
        (show s.cursor.operandForm? ≠ _ from hop ▸ nofun)
      cases form with
      | parenthesized =>
        exact (show L.Like false (Atom.view L.view) _ _ from h.like .parenthesized) s s' hs nofun
      | constant =>
        have hconstant : L.Like true (Atom.view L.view) (Atom.constant <$> c .constant)
            (Atom.constant <$> d .constant) :=
          (show L.Like true (Constant.view L.view) _ _ from h.like .constant).map fun _ => by
            simp only [Atom.view]
        exact hconstant s s' hs fun _ => hsight
      | call =>
        have hcall : L.Like true (Atom.view L.view) (Atom.call <$> c .call) (Atom.call <$> d .call) :=
          (show L.Like true (Call.view L.view) _ _ from h.like .call).map fun _ => by
            simp only [Atom.view]
        exact hcall s s' hs fun _ => hsight
      | column =>
        have hcolumn : L.Like false (Atom.view L.view) (Atom.column <$> qualifiedName)
            (Atom.column <$> qualifiedName) :=
          (like_qualifiedName hL).map fun _ => by simp only [Atom.view]
        exact hcolumn s s' hs nofun

theorem like_parenthesizedRule :
    L.Like front (Atom.view L.view) (parenthesizedRule c) (parenthesizedRule d) :=
  (like_symbol hL (by decide)).bind fun start => (h.expr 0).bind fun _ =>
    (like_symbol hL (by decide)).bind fun _ => like_spanFrom_bind hL start fun _ => by
      simp only [Atom.view]

/-! ## Full-text search -/

theorem like_searchValueRule :
    L.Like front (SearchValue.view L.view) (searchValueRule c) (searchValueRule d) := by
  refine like_get_bind fun s s' hs hfront => ?_
  have hstarts : s'.cursor.startsConstant = s.cursor.startsConstant :=
    hs.shortsighted hL shortsighted_startsConstant (startsConstant_view hL.view)
  dsimp only
  rw [hstarts]
  cases hconstant : s.cursor.startsConstant with
  | true =>
    have hsight : L.sight s.cursor ≠ [] := sight_of_shortsighted hL shortsighted_startsConstant
      (show s.cursor.startsConstant ≠ _ from hconstant ▸ nofun)
    have hlike : L.Like true (SearchValue.view L.view) (SearchValue.constant <$> c .constant)
        (SearchValue.constant <$> d .constant) :=
      (show L.Like true (Constant.view L.view) _ _ from h.like .constant).map fun _ => by
        simp only [SearchValue.view]
    exact hlike s s' hs fun _ => hsight
  | false =>
    have hlike : L.Like false (SearchValue.view L.view) (SearchValue.name <$> qualifiedName)
        (SearchValue.name <$> qualifiedName) :=
      (like_qualifiedName hL).map fun _ => by simp only [SearchValue.view]
    exact hlike s s' hs nofun

omit h in
/-- An option is known by its word, or by its string as it is. -/
theorem like_relevanceOptionName :
    L.Like front (fun o : String × Bool => (L.view.optionName o.2 o.1, o.2)) relevanceOptionName
      relevanceOptionName := by
  have hname {front : Bool} : L.Like front (fun o : String × Bool => (L.view.optionName o.2 o.1, o.2))
      ((·, false) <$> optionName relevanceOptionNames "relevance option name")
      ((·, false) <$> optionName relevanceOptionNames "relevance option name") :=
    (like_optionName hL _ _).map fun _ => rfl
  refine like_current_bind_of_eq hL (fun t ht => ?_) hname
    (by rintro ⟨_, _, _⟩ (rfl | rfl) <;> rfl) (by rintro ⟨_, _, _⟩ (rfl | rfl) <;> rfl)
  obtain ⟨kind, text, span⟩ := t
  cases kind with
  | string name => exact (like_skip_one hL).bind fun _ => like_pure (name, true)
  | _ => exact hname

theorem like_relevanceStep (options : List RelevanceOption) :
    L.Like false (stepView (List.map (RelevanceOption.view L.view))) (relevanceStep c options)
      (relevanceStep d (options.map (RelevanceOption.view L.view))) := by
  have hvalue : L.Like false (SearchValue.view L.view) (c .searchValue) (d .searchValue) :=
    h.like .searchValue
  refine like_takeSymbol_bind hL (by decide) ?_ (like_pure (ForInStep.done options))
  refine (like_relevanceOptionName hL).bind fun name => (like_symbol hL (by decide)).bind fun _ =>
    hvalue.map fun value => ?_
  simp only [stepView, List.map_cons, RelevanceOption.view]

theorem like_relevanceOptionsRule :
    L.Like front (List.map (RelevanceOption.view L.view)) (relevanceOptionsRule c)
      (relevanceOptionsRule d) := by
  rw [relevanceOptionsRule_eq, relevanceOptionsRule_eq]
  have hloop : L.Like front (List.map (RelevanceOption.view L.view)) (loop [] (relevanceStep c))
      (loop (List.map (RelevanceOption.view L.view) []) (relevanceStep d)) :=
    like_loop (like_relevanceStep h hL) (Congruence.advances_relevanceStep (h.steadyLeft _))
      (Congruence.advances_relevanceStep (h.steadyRight _)) []
  exact hloop.bind fun _ => like_pure_of_eq List.map_reverse

/-- A named argument as seen. -/
def viewArgument (V : View) : NamedArgument → NamedArgument
  | .query value => .query (value.view V)
  | .fields fields => .fields (fields.map (WeightedField.view V))

theorem like_namedArgument :
    L.Like front (viewArgument L.view) (namedArgument c) (namedArgument d) := by
  have hvalue : L.Like false (SearchValue.view L.view) (c .searchValue) (d .searchValue) :=
    h.like .searchValue
  refine like_current_bind_of_eq hL (fun t ht => ?_) (like_rejectCurrent hL "query or fields")
    (by rintro ⟨_, _, _⟩ (rfl | rfl) <;> rfl) (by rintro ⟨_, _, _⟩ (rfl | rfl) <;> rfl)
  rw [show (t.view L.view).kind = t.kind.view L.view from rfl, TokenKind.isWord_view hL.view,
    TokenKind.isWord_view hL.view]
  dsimp only
  split
  · exact (like_skip_one hL).bind fun _ => (like_symbol hL (by decide)).bind fun _ =>
      hvalue.map fun _ => rfl
  · split
    · exact (like_skip_one hL).bind fun _ => (like_symbol hL (by decide)).bind fun _ =>
        like_atSymbol_bind hL (by decide) ((like_fieldList hL).map fun _ => rfl)
          ((like_weightedField hL).map fun _ => rfl)
    · exact like_rejectCurrent hL _

theorem like_namedArgumentsRule :
    L.Like front (Prod.map (SearchValue.view L.view) (List.map (WeightedField.view L.view)))
      (namedArgumentsRule c) (namedArgumentsRule d) := by
  refine (like_namedArgument h hL).bind fun first => (like_symbol hL (by decide)).bind fun _ =>
    (like_namedArgument h hL).bind fun second => ?_
  cases first with
  | query query =>
    cases second with
    | query _ => exact like_rejectCurrent hL _
    | fields fields => exact like_pure (query, fields)
  | fields fields =>
    cases second with
    | query query => exact like_pure (query, fields)
    | fields _ => exact like_rejectCurrent hL _

theorem like_searchTarget (kind : RelevanceKind) :
    L.Like false (Prod.map (RelevanceForm.view L.view) (SearchValue.view L.view))
      (searchTarget c kind) (searchTarget d kind) := by
  have hvalue : L.Like false (SearchValue.view L.view) (c .searchValue) (d .searchValue) :=
    h.like .searchValue
  cases kind with
  | noField => exact hvalue.map fun _ => rfl
  | singleField =>
    exact (like_field hL).bind fun _ => (like_symbol hL (by decide)).bind fun _ =>
      hvalue.map fun _ => rfl
  | multiField =>
    have hnamed : L.Like false (Prod.map (RelevanceForm.view L.view) (SearchValue.view L.view))
        ((fun arguments : SearchValue × List WeightedField =>
          (RelevanceForm.named arguments.2, arguments.1)) <$> c .namedArguments)
        ((fun arguments : SearchValue × List WeightedField =>
          (RelevanceForm.named arguments.2, arguments.1)) <$> d .namedArguments) :=
      (show L.Like false (Prod.map (SearchValue.view L.view) (List.map (WeightedField.view L.view)))
        _ _ from h.like .namedArguments).map fun _ => rfl
    have hfields : L.Like false (Prod.map (RelevanceForm.view L.view) (SearchValue.view L.view))
        (fieldList >>= fun fields => symbol .comma >>= fun _ =>
          (RelevanceForm.fields fields, ·) <$> c .searchValue)
        (fieldList >>= fun fields => symbol .comma >>= fun _ =>
          (RelevanceForm.fields fields, ·) <$> d .searchValue) :=
      (like_fieldList hL).bind fun _ => (like_symbol hL (by decide)).bind fun _ =>
        hvalue.map fun _ => rfl
    intro s s' hs hfront
    have hstarts : startsNamedArgument s'.cursor.current.kind (s'.cursor.peek 1).kind =
        startsNamedArgument s.cursor.current.kind (s.cursor.peek 1).kind := by
      unfold startsNamedArgument
      rw [(asks_isWord hL "query").seen hL (hs.seen hL), (asks_isWord hL "fields").seen hL (hs.seen hL)]
      cases hend : L.ends s.cursor.current.kind with
      | true =>
        rw [(asks_isWord hL "query").ends (hL.ends.eq_or_eq hend),
          (asks_isWord hL "fields").ends (hL.ends.eq_or_eq hend)]
        rfl
      | false => rw [(hs.seen_next hL hend).beq_symbol hL (by decide)]
    unfold searchTarget
    dsimp only
    rw [current_bind_apply, current_bind_apply, peek_bind_apply, peek_bind_apply, hstarts]
    split
    · exact hnamed s s' hs nofun
    · exact hfields s s' hs nofun

theorem like_relevanceRule (kind : RelevanceKind) :
    L.Like true (Relevance.view L.view) (relevanceRule c kind) (relevanceRule d kind) := by
  have hoptions : L.Like false (List.map (RelevanceOption.view L.view)) (c .relevanceOptions)
    (d .relevanceOptions) := h.like .relevanceOptions
  exact (like_callName hL).bind fun _ => (like_searchTarget h hL kind).bind fun _ =>
    hoptions.bind fun _ => (like_symbol hL (by decide)).bind fun _ => like_pure_of_eq (by
      simp only [Relevance.view, viewOptions_eq])

theorem like_fieldEqualsRule :
    L.Like true (Relevance.view L.view) (fieldEqualsRule c) (fieldEqualsRule d) := by
  have hvalue : L.Like false (SearchValue.view L.view) (c .searchValue) (d .searchValue) :=
    h.like .searchValue
  have hoptions : L.Like false (List.map (RelevanceOption.view L.view)) (c .relevanceOptions)
    (d .relevanceOptions) := h.like .relevanceOptions
  refine (like_field hL).bind fun field => (like_symbol hL (by decide)).bind fun _ => ?_
  refine like_current_bind_of_eq hL (fun t ht => ?_) (like_rejectCurrent hL "relevance function")
    (by rintro ⟨_, _, _⟩ (rfl | rfl) <;> rfl) (by rintro ⟨_, _, _⟩ (rfl | rfl) <;> rfl)
  rw [show (t.view L.view).kind = t.kind.view L.view from rfl, TokenKind.bareWord?_view hL.view]
  cases t.kind.bareWord?.bind fieldEqualsKind? with
  | none => exact like_rejectCurrent hL _
  | some kind =>
    refine (like_callName hL).bind fun _ => hvalue.bind fun _ => hoptions.bind fun _ =>
      (like_symbol hL (by decide)).bind fun _ => like_pure_of_eq ?_
    simp only [Relevance.view, viewOptions_eq]
    split <;> rfl

theorem like_namedRelevance :
    L.Like front (Relevance.view L.view) (namedRelevance c) (namedRelevance d) := by
  refine like_current_bind hL (fun t ht => ?_) fun _ s s' hs hend hend' => ?_
  · rw [show (t.view L.view).kind = t.kind.view L.view from rfl, TokenKind.bareWord?_view hL.view]
    cases t.kind.bareWord?.bind RelevanceKind.ofUpper? with
    | some kind => exact h.like (.relevance kind)
    | none => exact like_reject hL (.noAlternative _ _ (.inSight ht))
  · have hnone {k : TokenKind} (hk : IsEndKind k) : k.bareWord? = none := by
      obtain rfl | rfl := hk <;> rfl
    rw [hnone hend, hnone hend']
    exact .refused (hL.refused_matching hs (.noAlternative _ _ (hs.seen hL)))

theorem like_scoredRelevance :
    L.Like front (Relevance.view L.view) (scoredRelevance c) (scoredRelevance d) := by
  refine like_get_bind fun s s' hs hfront => ?_
  dsimp only
  rw [hs.startsFieldEquals hL]
  cases hfield : startsFieldEquals s.cursor.ahead with
  | true =>
    exact (show L.Like true (Relevance.view L.view) _ _ from h.like .fieldEquals) s s' hs
      fun _ => sight_of_startsFieldEquals hL hfield
  | false => exact like_namedRelevance h hL s s' hs hfront

theorem like_scoreRule : L.Like true (CallShape.view L.view) (scoreRule c) (scoreRule d) := by
  have hsome : L.Like false id (some <$> weight) (some <$> weight) :=
    (like_weight hL).map fun _ => rfl
  have hend (name : String) (relevance : Relevance) (weight : Option Number.Binary64) :
      L.Like false (CallShape.view L.view)
        (symbol .rightParen >>= fun _ => pure (.score name relevance weight))
        (symbol .rightParen >>= fun _ => pure (.score (L.view.word name) (relevance.view L.view)
          weight)) :=
    (like_symbol hL (by decide)).bind fun _ => like_pure_of_eq (by simp only [CallShape.view])
  exact (like_callName hL).bind fun name => (like_scoredRelevance h hL).bind fun relevance =>
    like_takeSymbol_bind hL (by decide) (hsome.bind (hend name relevance)) (hend name relevance none)

end Likeness

end SearchSql.Grammar
