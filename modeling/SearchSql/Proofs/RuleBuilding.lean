import SearchSql.Proofs.Building
import SearchSql.Proofs.QueryLikeness
import SearchSql.Proofs.SourceOrder
import SearchSql.Time.Reading

/-!
# What rules build

Each rule builds well-formed trees if the rules it goes on to do, and they are higher by a few nodes
at most: `nodesPerRule` bounds what a rule adds to the heights of what it is given. Chains of operators
are the one thing that a single rule builds without bound, so heights are taken with a chain as a
single node. By induction over the fuel, a parse builds well-formed statements (`parse_wellFormed`),
whose height the limit on nesting bounds (`parse_height_le`).
-/

set_option autoImplicit false

namespace SearchSql

/-- A tree that satisfies `P` and whose height, with a chain of operators as a single node, is at most
`k`. -/
structure Within {α : Type} (P : α → Prop) (height : Nat → α → Nat) (k : Nat) (a : α) : Prop where
  wellFormed : P a
  height_le : height 0 a ≤ k

/-- What is within a height is within any greater one. -/
theorem Within.mono {α : Type} {P : α → Prop} {height : Nat → α → Nat} {k l : Nat} {a : α}
    (h : Within P height k a) (hle : k ≤ l) : Within P height l a :=
  ⟨h.wellFormed, Nat.le_trans h.height_le hle⟩

namespace Grammar

open SearchSql.Grammar.Parser

/-- More than the nodes that a rule adds to the height of what it is given. -/
def nodesPerRule : Nat := 4

/-- What a rule builds within the height `k`. What follows an aggregate is one node on top of it. -/
def Nonterminal.Builds (strict : Bool) (k : Nat) : {α : Type} → Nonterminal α → α → Prop
  | _, .expr _ => Within Expr.WellFormed Expr.height k
  | _, .predicate _ => Within Predicate.WellFormed Predicate.height k
  | _, .arithmetic _ | _, .operand | _, .parenthesized => Within Atom.WellFormed Atom.height k
  | _, .constant => Within Constant.WellFormed Constant.height k
  | _, .interval => Within Literal.WellFormed Literal.height k
  | _, .call => Within Call.WellFormed Call.height k
  | _, .arguments => Within WellFormedAll heightAll k
  | _, .shape _ | _, .scalar _ | _, .case | _, .cast | _, .ranking _ | _, .score | _, .position
  | _, .extract | _, .getFormat | _, .timestamp _ =>
      Within CallShape.WellFormed CallShape.height k
  | _, .aggregate _ | _, .percentile _ => Within Aggregate.WellFormed Aggregate.height k
  | _, .aggregateTail a => fun shape =>
      Within Aggregate.WellFormed Aggregate.height k a →
        Within CallShape.WellFormed CallShape.height (k + 1) shape
  | _, .window => Within Window.WellFormed Window.height k
  | _, .filter => Within Filter.WellFormed Filter.height k
  | _, .orderBy => Within OrderBy.WellFormed OrderBy.height k
  | _, .orderItem => Within OrderItem.WellFormed OrderItem.height k
  | _, .relevance _ | _, .fieldEquals => Within Relevance.WellFormed Relevance.height k
  | _, .namedArguments => fun r =>
      Within SearchValue.WellFormed SearchValue.height k r.1 ∧ r.2 ≠ [] ∧ ∀ f ∈ r.2, f.WellFormed
  | _, .searchValue => Within SearchValue.WellFormed SearchValue.height k
  | _, .relevanceOptions => Within WellFormedOptions heightOptions k
  | _, .selectItems => fun items =>
      items ≠ [] ∧ (∀ i ∈ items, Within SelectItem.WellFormed SelectItem.height k i) ∧
        ∀ i ∈ items.tail, i.isStar = false
  | _, .selectItem starAllowed => fun i =>
      Within SelectItem.WellFormed SelectItem.height k i ∧ (starAllowed = false → i.isStar = false)
  | _, .relation => Within (Relation.WellFormed strict) Relation.height k
  | _, .condition _ => Within (fun c => c.expr.WellFormed) Condition.height k
  | _, .groupBy => Within GroupBy.WellFormed GroupBy.height k
  | _, .query => Within (Query.WellFormed strict) Query.height k

section

variable {strict : Bool} {call : Callee} {k h : Nat}

/-- The rule of the nonterminal builds what its callees build within the height `k`, and adds at most
`nodesPerRule` to the height. -/
def Adds (strict : Bool) (k : Nat) {α : Type} (n : Nonterminal α) (p : Parser α) : Prop :=
  Grammar.Builds strict (n.Builds strict (k + nodesPerRule)) p

theorem add_one_le (hle : h ≤ k) : h + 1 ≤ k + nodesPerRule :=
  Nat.add_le_add hle (by decide)

theorem add_two_le (hle : h ≤ k) : h + 2 ≤ k + nodesPerRule :=
  Nat.add_le_add hle (by decide)

theorem add_three_le (hle : h ≤ k) : h + 3 ≤ k + nodesPerRule :=
  Nat.add_le_add hle (by decide)

theorem succ_le_add : k + 1 ≤ k + nodesPerRule := add_one_le (Nat.le_refl k)

variable (hcall : ∀ {α : Type} (n : Nonterminal α), Builds strict (n.Builds strict k) (call n))

include hcall

/-! ## Expressions -/

/-- `NOT` adds a node to its operand. -/
theorem builds_logicalOperand :
    Builds strict (Within Expr.WellFormed Expr.height (k + 1)) (logicalOperand call) := by
  refine builds_atKeyword_bind .NOT fun here => ?_
  split
  · refine steady_take.before fun start => (hcall (.expr notPrecedence)).bind fun operand ho => ?_
    refine (steady_spanFrom start).before fun span => builds_pure ?_
    exact ⟨ho.wellFormed, Nat.succ_le_succ ho.height_le⟩
  · refine (hcall (.predicate 0)).bind fun p hp => builds_pure ?_
    exact ⟨hp.wellFormed, Nat.succ_le_succ hp.height_le⟩

/-- The left operand stays at its height, and the right one is a node further down. -/
theorem builds_logicalStep (least : Nat) {left : Expr}
    (hleft : Within Expr.WellFormed Expr.height (k + 1) left) :
    Builds strict (fun r => Within Expr.WellFormed Expr.height (k + 1) r.value)
      (logicalStep call least left) := by
  refine builds_current_bind fun t => ?_
  cases Connective.ofKind? t.kind with
  | none => exact builds_pure hleft
  | some op =>
    dsimp only
    split
    · exact builds_pure hleft
    · refine (steady_skip 1).before fun _ => (hcall (.expr _)).bind fun right hr => builds_pure ?_
      have hheight : max (left.height 0) (right.height 0 + 1) ≤ k + 1 :=
        Nat.max_le.2 ⟨hleft.height_le, Nat.succ_le_succ hr.height_le⟩
      cases op with
      | and => exact ⟨⟨hleft.wellFormed, hr.wellFormed⟩, hheight⟩
      | or => exact ⟨⟨hleft.wellFormed, hr.wellFormed⟩, hheight⟩

/-- A chain of connectives is a single node on top of its operands. -/
theorem adds_exprRule (least : Nat) : Adds strict k (.expr least) (exprRule call least) := by
  rw [exprRule_eq]
  refine Builds.nest ?_ 1
  refine (builds_logicalOperand hcall).bind fun left hleft => ?_
  refine (builds_loop (fun e he => builds_logicalStep hcall least he) hleft).imp fun e he => ?_
  exact he.mono succ_le_add

/-- A test adds a node to the predicate in front of it. -/
theorem builds_testRule {left : Predicate}
    (hleft : Within Predicate.WellFormed Predicate.height (k + 1) left) (test : Test) :
    Builds strict (Within Predicate.WellFormed Predicate.height (k + 1)) (testRule call left test) := by
  cases test with
  | comparison op =>
    refine (hcall (.predicate _)).bind fun right hr => builds_pure ?_
    exact ⟨⟨hleft.wellFormed, hr.wellFormed⟩,
      Nat.max_le.2 ⟨hleft.height_le, Nat.succ_le_succ hr.height_le⟩⟩
  | isNull negated =>
    exact (steady_keyword .NULL).before fun stop => builds_pure ⟨hleft.wellFormed, hleft.height_le⟩
  | between negated =>
    refine (hcall (.predicate _)).bind fun low hl => (steady_keyword .AND).before fun _ => ?_
    refine (hcall (.predicate _)).bind fun high hh => builds_pure ?_
    exact ⟨⟨hleft.wellFormed, hl.wellFormed, hh.wellFormed⟩, Nat.max_le.2 ⟨hleft.height_le,
      Nat.succ_le_succ (Nat.max_le.2 ⟨hl.height_le, hh.height_le⟩)⟩⟩
  | like negated =>
    refine (hcall (.predicate _)).bind fun pattern hp => builds_pure ?_
    exact ⟨⟨hleft.wellFormed, hp.wellFormed⟩,
      Nat.max_le.2 ⟨hleft.height_le, Nat.succ_le_succ hp.height_le⟩⟩
  | regexp negated =>
    refine (hcall (.predicate _)).bind fun pattern hp => builds_pure ?_
    exact ⟨⟨hleft.wellFormed, hp.wellFormed⟩,
      Nat.max_le.2 ⟨hleft.height_le, Nat.succ_le_succ hp.height_le⟩⟩
  | within negated =>
    refine (steady_symbol .leftParen).before fun _ => ?_
    refine ((hcall .wholeExpr).commaSeparated _).bind fun items hitems => ?_
    refine (steady_symbol .rightParen).before fun _ => (steady_spanFrom _).before fun span => ?_
    have hall : heightAll 0 items ≤ k := heightAll_le_iff.2 fun e he => (hitems.2 e he).height_le
    exact builds_pure ⟨⟨hleft.wellFormed, hitems.1,
      wellFormedAll_iff.2 fun e he => (hitems.2 e he).wellFormed⟩,
      Nat.max_le.2 ⟨hleft.height_le, Nat.succ_le_succ hall⟩⟩

theorem builds_predicateStep (least : Nat) {left : Predicate}
    (hleft : Within Predicate.WellFormed Predicate.height (k + 1) left) :
    Builds strict (fun r => Within Predicate.WellFormed Predicate.height (k + 1) r.value)
      (predicateStep call least left) := by
  rw [predicateStep_eq]
  refine builds_get_bind fun s => ?_
  unfold testStep
  cases Test.at? s.cursor with
  | none => exact builds_pure hleft
  | some found =>
    obtain ⟨test, width⟩ := found
    dsimp only
    split
    · exact builds_pure hleft
    · exact (steady_skip width).before fun _ => (builds_testRule hcall hleft test).bind
        fun p hp => builds_pure hp

/-- A chain of tests is a single node. -/
theorem adds_predicateRule (least : Nat) :
    Adds strict k (.predicate least) (predicateRule call least) := by
  refine (hcall (.arithmetic 0)).bind fun a ha => ?_
  have hleft : Within Predicate.WellFormed Predicate.height (k + 1) (.atom a) :=
    ⟨ha.wellFormed, Nat.succ_le_succ ha.height_le⟩
  refine (builds_loop (fun p hp => builds_predicateStep hcall least hp) hleft).imp fun p hp => ?_
  exact hp.mono succ_le_add

theorem builds_arithmeticStep (least : Nat) {left : Atom}
    (hleft : Within Atom.WellFormed Atom.height (k + 1) left) :
    Builds strict (fun r => Within Atom.WellFormed Atom.height (k + 1) r.value)
      (arithmeticStep call least left) := by
  refine builds_current_bind fun t => ?_
  cases ArithmeticOp.ofKind? t.kind with
  | none => exact builds_pure hleft
  | some op =>
    dsimp only
    split
    · exact builds_pure hleft
    · refine (steady_skip 1).before fun _ => (hcall (.arithmetic _)).bind fun right hr => ?_
      exact builds_pure ⟨⟨hleft.wellFormed, hr.wellFormed⟩,
        Nat.max_le.2 ⟨hleft.height_le, Nat.succ_le_succ hr.height_le⟩⟩

/-- A chain of operators is a single node. -/
theorem adds_arithmeticRule (least : Nat) :
    Adds strict k (.arithmetic least) (arithmeticRule call least) := by
  refine (hcall .operand).bind fun left hleft => ?_
  have hstart : Within Atom.WellFormed Atom.height (k + 1) left := hleft.mono (Nat.le_succ k)
  refine (builds_loop (fun a ha => builds_arithmeticStep hcall least ha) hstart).imp fun a ha => ?_
  exact ha.mono succ_le_add

/-- A relevance function behind its field takes three nodes: its shape, the call and the atom. -/
theorem adds_operandRule : Adds strict k .operand (operandRule call) := by
  have hfieldEquals : Builds strict (Within Call.WellFormed Call.height (k + 2))
      (fieldEqualsCall call) := by
    refine builds_current_bind fun t => (hcall .fieldEquals).bind fun r hr => ?_
    exact (steady_spanFrom t.span).before fun span => builds_pure
      ⟨hr.wellFormed, Nat.add_le_add_right hr.height_le 2⟩
  rw [operandRule_eq]
  refine builds_get_bind fun s => ?_
  unfold operandAt
  split
  · refine hfieldEquals.bind fun f hf => builds_pure ⟨hf.wellFormed, ?_⟩
    exact Nat.le_trans (Nat.succ_le_succ hf.height_le) (add_three_le (Nat.le_refl k))
  · split
    · exact (hcall .parenthesized).imp fun a ha => ha.mono (Nat.le_add_right _ _)
    · exact (hcall .constant).bind fun c hc => builds_pure ⟨hc.wellFormed, add_one_le hc.height_le⟩
    · exact (hcall .call).bind fun f hf => builds_pure ⟨hf.wellFormed, add_one_le hf.height_le⟩
    · exact builds_qualifiedName.bind fun n hn => builds_pure
        ⟨hn, add_one_le (Nat.zero_le k)⟩
    · exact builds_reject _

theorem adds_parenthesizedRule : Adds strict k .parenthesized (parenthesizedRule call) :=
  (steady_symbol .leftParen).before fun start => (hcall .wholeExpr).bind fun _ he =>
    (steady_symbol .rightParen).before fun _ => (steady_spanFrom start).before fun _ =>
      builds_pure ⟨he.wellFormed, add_one_le he.height_le⟩

/-! ## Constants -/

theorem adds_intervalRule : Adds strict k .interval (intervalRule call) :=
  (steady_keyword .INTERVAL).before fun _ => (hcall .wholeExpr).bind fun _ he =>
    steady_datetimeUnit.before fun _ => builds_pure ⟨he.wellFormed, add_one_le he.height_le⟩

omit hcall in
/-- A literal without parts is a leaf. -/
theorem Plain.within {value : Literal} (hvalue : Plain value) (hpos : 1 ≤ k) :
    Within Literal.WellFormed Literal.height k value :=
  ⟨hvalue.1, hvalue.2 ▸ hpos⟩

theorem builds_literalRule :
    Builds strict (Within Literal.WellFormed Literal.height (k + 1)) (literalRule call) := by
  have hplain {p : Parser Literal} (hp : Builds strict Plain p) :
      Builds strict (Within Literal.WellFormed Literal.height (k + 1)) p :=
    hp.imp fun value hvalue => hvalue.within (Nat.le_add_left 1 k)
  refine builds_current_bind fun t => ?_
  split
  · exact hplain (builds_simpleLiteral ⟨trivial, rfl⟩)
  · exact hplain builds_bracedLiteral
  · exact hplain (builds_simpleLiteral ⟨trivial, rfl⟩)
  · exact hplain (builds_simpleLiteral ⟨trivial, rfl⟩)
  · exact hplain (builds_simpleLiteral ⟨trivial, rfl⟩)
  · exact (hcall .interval).imp fun value hvalue => hvalue.mono (Nat.le_succ k)
  · split
    · exact hplain (builds_wordLiteral _)
    · exact builds_rejectCurrent _
  · split
    · exact hplain (builds_datetimeConstant _)
    · exact builds_rejectCurrent _
  · exact builds_rejectCurrent _

omit hcall in
/-- A number is a leaf. -/
theorem builds_numberConstant :
    Builds strict (Within Constant.WellFormed Constant.height (k + nodesPerRule)) number := by
  refine builds_number.imp fun c hc => ?_
  obtain ⟨value, span⟩ := c
  refine ⟨hc.1, ?_⟩
  show value.height 0 + 1 ≤ k + nodesPerRule
  rw [hc.2]
  exact add_two_le (Nat.zero_le k)

theorem adds_constantRule : Adds strict k .constant (constantRule call) := by
  refine builds_current_bind fun t => ?_
  split
  · exact builds_numberConstant
  · exact builds_numberConstant
  · exact builds_numberConstant
  · exact builds_numberConstant
  · refine builds_current_bind fun t => (builds_literalRule hcall).bind fun value hvalue => ?_
    refine (steady_spanFrom t.span).before fun span => builds_pure ⟨hvalue.wellFormed, ?_⟩
    exact Nat.le_trans (Nat.succ_le_succ hvalue.height_le) (add_two_le (Nat.le_refl k))

/-! ## Calls -/

/-- A list of expressions is not empty, and none is higher than a callee builds it. -/
theorem builds_exprs (rule : String) :
    Builds strict (fun es => es ≠ [] ∧ Within WellFormedAll heightAll k es)
      (Parser.commaSeparated rule (call .wholeExpr)) :=
  ((hcall .wholeExpr).commaSeparated rule).imp fun _ hes =>
    ⟨hes.1, wellFormedAll_iff.2 fun e he => (hes.2 e he).wellFormed,
      heightAll_le_iff.2 fun e he => (hes.2 e he).height_le⟩

theorem adds_argumentsRule : Adds strict k .arguments (argumentsRule call) := by
  refine (steady_takeSymbol .rightParen).before fun found => ?_
  split
  · exact builds_pure ⟨trivial, Nat.zero_le _⟩
  · exact (builds_exprs hcall _).bind fun es hes => (steady_symbol .rightParen).before fun _ =>
      builds_pure (hes.2.mono (Nat.le_add_right _ _))

theorem adds_scalarRule (category : ScalarCategory) :
    Adds strict k (.scalar category) (scalarRule call category) :=
  steady_callName.before fun _ => (hcall .arguments).bind fun _ hargs =>
    builds_pure ⟨hargs.wellFormed, add_one_le hargs.height_le⟩

theorem builds_caseBranches :
    Builds strict (Within WellFormedBranches heightBranches (k + 1)) (caseBranches call) := by
  have hstep (branches : List CaseBranch)
      (hbranches : ∀ b ∈ branches, Within CaseBranch.WellFormed CaseBranch.height (k + 1) b) :
      Builds strict (fun r => ∀ b ∈ r.value, Within CaseBranch.WellFormed CaseBranch.height (k + 1) b)
        (caseStep call branches) := by
    refine (steady_takeKeyword .WHEN).before fun found => ?_
    cases found with
    | true =>
      refine (hcall .wholeExpr).bind fun condition hc => (steady_keyword .THEN).before fun _ => ?_
      refine (hcall .wholeExpr).bind fun result hr => builds_pure ?_
      exact List.forall_mem_cons.2 ⟨⟨⟨hc.wellFormed, hr.wellFormed⟩,
        Nat.succ_le_succ (Nat.max_le.2 ⟨hc.height_le, hr.height_le⟩)⟩, hbranches⟩
    | false => exact builds_pure hbranches
  rw [caseBranches_eq]
  refine (builds_loop hstep fun b h => absurd h List.not_mem_nil).bind fun branches h => ?_
  exact builds_pure
    ⟨wellFormedBranches_iff.2 fun b hb => (h b (List.mem_reverse.1 hb)).wellFormed,
      heightBranches_le_iff.2 fun b hb => (h b (List.mem_reverse.1 hb)).height_le⟩

/-- A `CASE` adds a node to its operand and its branches. -/
theorem builds_caseEnd {operand : Option Expr} {branches : List CaseBranch}
    (ho : Within WellFormedOptional heightOptional k operand)
    (hb : Within WellFormedBranches heightBranches (k + 1) branches) :
    Builds strict (Within CallShape.WellFormed CallShape.height (k + nodesPerRule))
      (caseEnd call operand branches) := by
  unfold caseEnd
  dsimp only
  split
  · exact builds_rejectCurrent_bind _ _
  · next hempty =>
    have hne : branches ≠ [] := by
      rintro rfl
      exact hempty rfl
    have hend {otherwise : Option Expr}
        (he : Within WellFormedOptional heightOptional k otherwise) :
        Within CallShape.WellFormed CallShape.height (k + nodesPerRule)
          (.case operand branches otherwise) :=
      ⟨⟨ho.wellFormed, hne, hb.wellFormed, he.wellFormed⟩, Nat.le_trans
        (Nat.succ_le_succ (Nat.max_le.2 ⟨Nat.le_succ_of_le ho.height_le,
          Nat.max_le.2 ⟨hb.height_le, Nat.le_succ_of_le he.height_le⟩⟩))
        (add_two_le (Nat.le_refl k))⟩
    have hsome (e : Expr) (he : Within Expr.WellFormed Expr.height k e) :
        Within WellFormedOptional heightOptional k (some e) := ⟨he.wellFormed, he.height_le⟩
    refine (steady_takeKeyword .ELSE).before fun found => ?_
    split
    · exact ((hcall .wholeExpr).some hsome).bind fun _ he => (steady_keyword .END).before fun _ =>
        builds_pure (hend he)
    · exact builds_pure_bind ((steady_keyword .END).before fun _ =>
        builds_pure (hend ⟨trivial, Nat.zero_le _⟩))

theorem adds_caseRule : Adds strict k .case (caseRule call) := by
  have hrest {operand : Option Expr} (ho : Within WellFormedOptional heightOptional k operand) :
      Builds strict (Within CallShape.WellFormed CallShape.height (k + nodesPerRule)) (do
        let branches ← caseBranches call
        caseEnd call operand branches) :=
    (builds_caseBranches hcall).bind fun branches hb => builds_caseEnd hcall ho hb
  refine (steady_keyword .CASE).before fun _ => builds_atKeyword_bind .WHEN fun here => ?_
  split
  · exact builds_pure_bind (hrest ⟨trivial, Nat.zero_le _⟩)
  · refine Builds.bind (P := Within WellFormedOptional heightOptional k) ?_ fun _ => hrest
    exact (hcall .wholeExpr).some fun e he => ⟨he.wellFormed, he.height_le⟩

theorem adds_castRule : Adds strict k .cast (castRule call) :=
  (steady_keyword .CAST).before fun _ => (steady_symbol .leftParen).before fun _ =>
    (hcall .wholeExpr).bind fun _ he => (steady_keyword .AS).before fun _ =>
      steady_dataType.before fun _ => (steady_symbol .rightParen).before fun _ =>
        builds_pure ⟨he.wellFormed, add_one_le he.height_le⟩

theorem adds_positionRule : Adds strict k .position (positionRule call) :=
  steady_callName.before fun _ => (hcall .wholeExpr).atSeparator.bind fun _ hsub =>
    (steady_keyword .IN).before fun _ => (hcall .wholeExpr).bind fun _ hstr =>
      (steady_symbol .rightParen).before fun _ => builds_pure
        ⟨⟨hsub.wellFormed, hstr.wellFormed⟩,
          add_one_le (Nat.max_le.2 ⟨hsub.height_le, hstr.height_le⟩)⟩

theorem adds_extractRule : Adds strict k .extract (extractRule call) :=
  steady_callName.before fun _ => steady_datetimeUnit.before fun _ =>
    (steady_keyword .FROM).before fun _ => (hcall .wholeExpr).bind fun _ he =>
      (steady_symbol .rightParen).before fun _ =>
        builds_pure ⟨he.wellFormed, add_one_le he.height_le⟩

theorem adds_getFormatRule : Adds strict k .getFormat (getFormatRule call) :=
  steady_callName.before fun _ => steady_formatTarget.before fun _ =>
    (steady_symbol .comma).before fun _ => (hcall .wholeExpr).bind fun _ he =>
      (steady_symbol .rightParen).before fun _ =>
        builds_pure ⟨he.wellFormed, add_one_le he.height_le⟩

theorem adds_timestampRule (function : TimestampFunction) :
    Adds strict k (.timestamp function) (timestampRule call function) :=
  steady_callName.before fun _ => builds_singleUnit.bind fun _ hunit =>
    (steady_symbol .comma).before fun _ => (hcall .wholeExpr).bind fun _ hfirst =>
      (steady_symbol .comma).before fun _ => (hcall .wholeExpr).bind fun _ hsecond =>
        (steady_symbol .rightParen).before fun _ => builds_pure
          ⟨⟨hunit, hfirst.wellFormed, hsecond.wellFormed⟩,
            add_one_le (Nat.max_le.2 ⟨hfirst.height_le, hsecond.height_le⟩)⟩

omit hcall in
/-- A nested field with a star is a leaf. -/
theorem builds_nestedAll :
    Builds strict (Within CallShape.WellFormed CallShape.height (k + nodesPerRule)) nestedAll :=
  steady_callName.before fun _ => builds_qualifiedName.bind fun _ hpath =>
    (steady_symbol .dot).before fun _ => (steady_symbol .star).before fun _ =>
      (steady_symbol .rightParen).before fun _ =>
        builds_pure ⟨hpath, add_one_le (Nat.zero_le k)⟩

omit hcall in
theorem builds_highlight :
    Builds strict (Within CallShape.WellFormed CallShape.height (k + nodesPerRule)) highlight :=
  steady_callName.before fun _ => builds_field.bind fun _ hfield =>
    steady_highlightOptions.before fun _ => (steady_symbol .rightParen).before fun _ =>
      builds_pure ⟨hfield, add_one_le (Nat.zero_le k)⟩

/-- What follows an aggregate is built on top of it. -/
theorem adds_shapeRule (family : FunctionFamily) :
    Adds strict k (.shape family) (shapeRule call family) := by
  have hsame {p : Parser CallShape}
      (hp : Builds strict (Within CallShape.WellFormed CallShape.height k) p) :
      Adds strict k (.shape family) p := hp.imp fun _ hs => hs.mono (Nat.le_add_right _ _)
  have hfollowed (p : Parser Aggregate)
      (hp : Builds strict (Within Aggregate.WellFormed Aggregate.height k) p) :
      Adds strict k (.shape family) (do call (.aggregateTail (← p))) :=
    hp.bind fun aggregate ha => (hcall (.aggregateTail aggregate)).imp fun _ hs =>
      (hs ha).mono succ_le_add
  cases family with
  | nested =>
    refine builds_get_bind fun s => ?_
    split
    · exact builds_nestedAll
    · exact hsame (hcall (.scalar .nested))
  | scalar category => exact hsame (hcall (.scalar category))
  | ranking function => exact hsame (hcall (.ranking function))
  | aggregate function => exact hfollowed _ (hcall (.aggregate function))
  | percentile function => exact hfollowed _ (hcall (.percentile function))
  | score => exact hsame (hcall .score)
  | relevance kind =>
    exact (hcall (.relevance kind)).bind fun _ hr =>
      builds_pure ⟨hr.wellFormed, add_one_le hr.height_le⟩
  | highlight => exact builds_highlight
  | position => exact hsame (hcall .position)
  | extract => exact hsame (hcall .extract)
  | getFormat => exact hsame (hcall .getFormat)
  | timestamp function => exact hsame (hcall (.timestamp function))

/-- The form of a call is what the rule of its function builds. -/
theorem builds_callShape :
    Builds strict (Within CallShape.WellFormed CallShape.height k) (callShape call) := by
  refine builds_current_bind fun t => ?_
  split
  · exact hcall .case
  · exact hcall .cast
  · exact hcall (.scalar _)
  · exact hcall (.scalar _)
  · exact hcall (.scalar _)
  · exact hcall (.scalar _)
  · split
    · exact hcall (.shape _)
    · exact builds_reject _
  · exact builds_reject _

theorem adds_callRule : Adds strict k .call (callRule call) := by
  rw [callRule_eq]
  refine Builds.nest ?_ 1
  exact builds_current_bind fun t => (builds_callShape hcall).bind fun _ hs =>
    (steady_spanFrom t.span).before fun _ => builds_pure ⟨hs.wellFormed, add_one_le hs.height_le⟩

/-! ## Aggregates and windows -/

theorem adds_aggregateRule (function : AggregateFunction) :
    Adds strict k (.aggregate function) (aggregateRule call function) := by
  have hregular : Adds strict k (.aggregate function)
      (do return .regular function (← call .wholeExpr)) :=
    (hcall .wholeExpr).bind fun _ he => builds_pure ⟨he.wellFormed, add_one_le he.height_le⟩
  have hform : Adds strict k (.aggregate function) (aggregateRule.form call function) := by
    unfold aggregateRule.form
    dsimp only
    split
    · refine (steady_takeSymbol .star).before fun found => ?_
      split
      · exact builds_pure ⟨trivial, add_one_le (Nat.zero_le k)⟩
      · refine (steady_takeKeyword .DISTINCT).before fun found => ?_
        split
        · exact (builds_exprs hcall _).bind fun _ hes => builds_pure
            ⟨⟨hes.1, hes.2.wellFormed⟩, add_one_le hes.2.height_le⟩
        · exact hregular
    · exact hregular
  exact steady_callName.before fun _ => hform.bind fun aggregate ha =>
    (steady_symbol .rightParen).before fun _ => builds_pure ha

theorem adds_percentileRule (function : PercentileFunction) :
    Adds strict k (.percentile function) (percentileRule call function) := by
  have hnumber : Builds strict (Within Constant.WellFormed Constant.height 2) number :=
    builds_number.imp fun ⟨_, _⟩ hc => ⟨hc.1, Nat.le_of_eq (congrArg (· + 1) hc.2)⟩
  have hend {field : Expr} {percent : Constant} {compression : Option Constant}
      (hf : Within Expr.WellFormed Expr.height k field)
      (hp : Within Constant.WellFormed Constant.height 2 percent)
      (hc : Within WellFormedOptionalConstant heightOptionalConstant 2 compression) :
      Adds strict k (.percentile function) (do
        let _ ← symbol .rightParen
        return .percentile function field percent compression) := by
    refine (steady_symbol .rightParen).before fun _ => builds_pure
      ⟨⟨hf.wellFormed, hp.wellFormed, hc.wellFormed⟩, ?_⟩
    refine Nat.le_trans (Nat.succ_le_succ (m := k + 2) (Nat.max_le.2 ⟨?_, Nat.max_le.2 ⟨?_, ?_⟩⟩))
      (add_three_le (Nat.le_refl k))
    · exact Nat.le_add_right_of_le hf.height_le
    · exact Nat.le_add_left_of_le hp.height_le
    · exact Nat.le_add_left_of_le hc.height_le
  refine steady_callName.before fun _ => (hcall .wholeExpr).bind fun field hf =>
    (steady_symbol .comma).before fun _ => hnumber.bind fun percent hp =>
      (steady_takeSymbol .comma).before fun found => ?_
  split
  · refine Builds.bind (P := Within WellFormedOptionalConstant heightOptionalConstant 2) ?_
      fun _ hc => hend hf hp hc
    exact hnumber.some fun c hc => ⟨hc.wellFormed, hc.height_le⟩
  · exact builds_pure_bind (hend hf hp ⟨trivial, Nat.zero_le _⟩)

theorem adds_orderByRule : Adds strict k .orderBy (orderByRule call) :=
  (steady_keyword .ORDER).before fun start => (steady_keyword .BY).before fun _ =>
    ((hcall .orderItem).commaSeparated _).bind fun _ hitems =>
      (steady_spanFrom start).before fun _ => builds_pure
        ⟨⟨hitems.1, wellFormedItems_iff.2 fun i hi => (hitems.2 i hi).wellFormed⟩,
          add_one_le (heightItems_le_iff.2 fun i hi => (hitems.2 i hi).height_le)⟩

theorem adds_orderItemRule : Adds strict k .orderItem (orderItemRule call) :=
  (hcall .wholeExpr).bind fun _ he => steady_direction.before fun _ => steady_nullOrder.before
    fun _ => builds_pure ⟨he.wellFormed, add_one_le he.height_le⟩

theorem adds_filterRule : Adds strict k .filter (filterRule call) :=
  (steady_keyword .FILTER).before fun start => (steady_symbol .leftParen).before fun _ =>
    (steady_keyword .WHERE).before fun _ => (hcall .wholeExpr).bind fun _ he =>
      (steady_symbol .rightParen).before fun _ => (steady_spanFrom start).before fun _ =>
        builds_pure ⟨he.wellFormed, add_one_le he.height_le⟩

theorem builds_partitionBy :
    Builds strict (Within WellFormedOptionalPartition heightOptionalPartition (k + 1))
      (partitionBy call) := by
  refine builds_atKeyword_bind .PARTITION fun here => ?_
  split
  · exact steady_take.before fun start => (steady_keyword .BY).before fun _ =>
      (builds_exprs hcall _).bind fun _ hes => (steady_spanFrom start).before fun _ =>
        builds_pure ⟨⟨hes.1, hes.2.wellFormed⟩, Nat.succ_le_succ hes.2.height_le⟩
  · exact builds_pure ⟨trivial, Nat.zero_le _⟩

theorem adds_windowRule : Adds strict k .window (windowRule call) := by
  refine (steady_keyword .OVER).before fun start => (steady_symbol .leftParen).before fun _ =>
    (builds_partitionBy hcall).bind fun partition hp => builds_atKeyword_bind .ORDER fun here => ?_
  have hend {orderBy : Option OrderBy}
      (ho : Within WellFormedOptionalOrder heightOptionalOrder k orderBy) :
      Adds strict k .window (do
        let _ ← symbol .rightParen
        return ⟨partition, orderBy, ← spanFrom start⟩) :=
    (steady_symbol .rightParen).before fun _ => (steady_spanFrom start).before fun _ => builds_pure
      ⟨⟨hp.wellFormed, ho.wellFormed⟩, Nat.le_trans
        (Nat.succ_le_succ (Nat.max_le.2 ⟨hp.height_le, Nat.le_succ_of_le ho.height_le⟩))
        (add_two_le (Nat.le_refl k))⟩
  split
  · refine Builds.bind (P := Within WellFormedOptionalOrder heightOptionalOrder k) ?_
      fun _ ho => hend ho
    exact (hcall .orderBy).some fun o ho => ⟨ho.wellFormed, ho.height_le⟩
  · exact builds_pure_bind (hend ⟨trivial, Nat.zero_le _⟩)

theorem adds_rankingRule (function : RankingFunction) :
    Adds strict k (.ranking function) (rankingRule call function) :=
  steady_callName.before fun _ => (hcall .arguments).bind fun _ hargs =>
    (hcall .window).bind fun _ hw => builds_pure
      ⟨⟨hargs.wellFormed, hw.wellFormed⟩,
        add_one_le (Nat.max_le.2 ⟨hargs.height_le, hw.height_le⟩)⟩

/-- What follows an aggregate is one node on top of it, whether an order is attempted or not. -/
theorem adds_aggregateTailRule
    (hsteady : ∀ {α : Type} (n : Nonterminal α), Steady (call n)) (aggregate : Aggregate) :
    Adds strict k (.aggregateTail aggregate) (aggregateTailRule call aggregate) := by
  have hordered : Builds strict (fun r => Within OrderBy.WellFormed OrderBy.height k r.1 ∧
      Within Filter.WellFormed Filter.height k r.2) (orderedFilter call) :=
    (hcall .orderBy).bind fun _ ho => (hcall .filter).bind fun _ hf => builds_pure ⟨ho, hf⟩
  have hsteadyOrdered : Steady (orderedFilter call) :=
    (hsteady .orderBy).bind fun _ => (hsteady .filter).bind fun _ => steady_pure _
  have hover : k ≤ k + nodesPerRule := Nat.le_add_right _ _
  have hplain : Adds strict k (.aggregateTail aggregate) (pure (.aggregate aggregate)) :=
    builds_pure fun ha => ⟨ha.wellFormed, Nat.succ_le_succ ha.height_le⟩
  refine builds_atKeyword_bind .OVER fun here => ?_
  split
  · exact (hcall .window).bind fun _ hw => builds_pure fun ha =>
      ⟨⟨ha.wellFormed, hw.wellFormed⟩,
        Nat.succ_le_succ (Nat.max_le.2 ⟨ha.height_le, Nat.le_trans hw.height_le hover⟩)⟩
  refine builds_atKeyword_bind .FILTER fun here => ?_
  split
  · exact (hcall .filter).bind fun _ hf => builds_pure fun ha =>
      ⟨⟨ha.wellFormed, trivial, hf.wellFormed⟩,
        Nat.succ_le_succ (Nat.max_le.2 ⟨ha.height_le,
          Nat.max_le.2 ⟨Nat.zero_le _, Nat.le_trans hf.height_le hover⟩⟩)⟩
  refine builds_atKeyword_bind .ORDER fun here => ?_
  split
  · refine (hordered.attempt hsteadyOrdered _).bind fun found hfound => ?_
    cases found with
    | some both =>
      obtain ⟨ho, hf⟩ := hfound both rfl
      exact builds_pure fun ha => ⟨⟨ha.wellFormed, ho.wellFormed, hf.wellFormed⟩,
        Nat.succ_le_succ (Nat.max_le.2 ⟨ha.height_le, Nat.max_le.2
          ⟨Nat.le_trans ho.height_le hover, Nat.le_trans hf.height_le hover⟩⟩)⟩
    | none => exact hplain
  · exact hplain

/-! ## Full-text search -/

theorem adds_searchValueRule : Adds strict k .searchValue (searchValueRule call) := by
  refine builds_get_bind fun s => ?_
  split
  · exact (hcall .constant).bind fun _ hc => builds_pure ⟨hc.wellFormed, add_one_le hc.height_le⟩
  · exact builds_qualifiedName.bind fun _ hn => builds_pure ⟨hn, add_one_le (Nat.zero_le k)⟩

theorem adds_relevanceOptionsRule :
    Adds strict k .relevanceOptions (relevanceOptionsRule call) := by
  have hstep (options : List RelevanceOption)
      (hoptions : ∀ o ∈ options, Within RelevanceOption.WellFormed RelevanceOption.height (k + 1) o) :
      Builds strict
        (fun r => ∀ o ∈ r.value, Within RelevanceOption.WellFormed RelevanceOption.height (k + 1) o)
        (relevanceStep call options) := by
    refine (steady_takeSymbol .comma).before fun found => ?_
    cases found with
    | true =>
      refine steady_relevanceOptionName.before fun name => (steady_symbol .eq).before fun _ =>
        (hcall .searchValue).bind fun _ hv => builds_pure (List.forall_mem_cons.2 ⟨?_, hoptions⟩)
      exact ⟨hv.wellFormed, Nat.succ_le_succ hv.height_le⟩
    | false => exact builds_pure hoptions
  rw [relevanceOptionsRule_eq]
  refine (builds_loop hstep fun o h => absurd h List.not_mem_nil).bind fun options h => ?_
  exact builds_pure
    ⟨wellFormedOptions_iff.2 fun o ho => (h o (List.mem_reverse.1 ho)).wellFormed,
      heightOptions_le_iff.2 fun o ho =>
        Nat.le_trans (h o (List.mem_reverse.1 ho)).height_le succ_le_add⟩

/-- What a named argument holds. -/
def NamedArgument.Builds (k : Nat) : NamedArgument → Prop
  | .query value => Within SearchValue.WellFormed SearchValue.height k value
  | .fields fs => fs ≠ [] ∧ ∀ f ∈ fs, f.WellFormed

theorem builds_namedArgument : Builds strict (NamedArgument.Builds k) (namedArgument call) := by
  refine builds_current_bind fun t => ?_
  dsimp only
  split
  · exact (steady_skip 1).before fun _ => (steady_symbol .eq).before fun _ =>
      (hcall .searchValue).bind fun _ hv => builds_pure hv
  · split
    · refine (steady_skip 1).before fun _ => (steady_symbol .eq).before fun _ =>
        builds_atSymbol_bind .leftBracket fun here => ?_
      split
      · exact builds_fieldList.bind fun _ hfs => builds_pure hfs
      · exact builds_weightedField.bind fun f hf => builds_pure
          ⟨List.cons_ne_nil _ _, List.forall_mem_cons.2 ⟨hf, fun _ h => absurd h List.not_mem_nil⟩⟩
    · exact builds_rejectCurrent _

theorem adds_namedArgumentsRule : Adds strict k .namedArguments (namedArgumentsRule call) := by
  have hover : k ≤ k + nodesPerRule := Nat.le_add_right _ _
  refine (builds_namedArgument hcall).bind fun first hfirst =>
    (steady_symbol .comma).before fun _ => (builds_namedArgument hcall).bind fun second hsecond => ?_
  split
  · exact builds_pure ⟨Within.mono hfirst hover, hsecond⟩
  · exact builds_pure ⟨Within.mono hsecond hover, hfirst⟩
  · exact builds_rejectCurrent _
  · exact builds_rejectCurrent _

/-- The form and the query of a relevance function hold what they must. -/
theorem builds_searchTarget (kind : RelevanceKind) :
    Builds strict (fun r => r.1.WellFormed ∧ Within SearchValue.WellFormed SearchValue.height k r.2)
      (searchTarget call kind) := by
  have hstandard {form : RelevanceForm} (hscope : form.scope.WellFormed)
      (hstyle : form.style = .standard) : form.WellFormed :=
    ⟨hscope, fun h => absurd (hstyle.symm.trans h) nofun,
      fun h => absurd (hstyle.symm.trans h) nofun⟩
  cases kind with
  | noField =>
    exact (hcall .searchValue).bind fun _ hv => builds_pure ⟨hstandard trivial rfl, hv⟩
  | singleField =>
    exact builds_field.bind fun _ hf => (steady_symbol .comma).before fun _ =>
      (hcall .searchValue).bind fun _ hv => builds_pure ⟨hstandard hf rfl, hv⟩
  | multiField =>
    refine builds_current_bind fun t => builds_peek_bind 1 fun u => ?_
    split
    · exact (hcall .namedArguments).bind fun r hr => builds_pure
        ⟨⟨hr.2.2, nofun, fun _ => ⟨r.2, hr.2.1, rfl⟩⟩, hr.1⟩
    · exact builds_fieldList.bind fun _ hfs => (steady_symbol .comma).before fun _ =>
        (hcall .searchValue).bind fun _ hv => builds_pure ⟨hstandard hfs.2 rfl, hv⟩

omit hcall in
/-- A relevance function adds a node to its query and its options. -/
theorem within_relevance {name : String} {form : RelevanceForm} {query : SearchValue}
    {options : List RelevanceOption} (hform : form.WellFormed)
    (hquery : Within SearchValue.WellFormed SearchValue.height k query)
    (hoptions : Within WellFormedOptions heightOptions k options) :
    Within Relevance.WellFormed Relevance.height (k + nodesPerRule) ⟨name, form, query, options⟩ :=
  ⟨⟨hform, hquery.wellFormed, hoptions.wellFormed⟩,
    add_one_le (Nat.max_le.2 ⟨hquery.height_le, hoptions.height_le⟩)⟩

theorem adds_relevanceRule (kind : RelevanceKind) :
    Adds strict k (.relevance kind) (relevanceRule call kind) :=
  steady_callName.before fun _ => (builds_searchTarget hcall kind).bind fun _ hr =>
    (hcall .relevanceOptions).bind fun _ ho => (steady_symbol .rightParen).before fun _ =>
      builds_pure (within_relevance hr.1 hr.2 ho)

/-- The field in front of the equals sign is the only one, and has no boost. -/
theorem adds_fieldEqualsRule : Adds strict k .fieldEquals (fieldEqualsRule call) := by
  refine builds_field.bind fun f hf => (steady_symbol .eq).before fun _ =>
    builds_current_bind fun t => ?_
  split
  · next kind _ =>
    refine steady_callName.before fun _ => (hcall .searchValue).bind fun _ hv =>
      (hcall .relevanceOptions).bind fun _ ho => (steady_symbol .rightParen).before fun _ =>
        builds_pure (within_relevance ?_ hv ho)
    split
    · refine ⟨fun g hg => ?_, fun _ => .inr ⟨f, rfl⟩, nofun⟩
      obtain rfl := List.mem_singleton.1 hg
      exact ⟨hf, nofun⟩
    · exact ⟨hf, fun _ => .inl ⟨f, rfl⟩, nofun⟩
  · exact builds_rejectCurrent _

theorem adds_scoreRule : Adds strict k .score (scoreRule call) := by
  have hscored : Builds strict (Within Relevance.WellFormed Relevance.height k)
      (scoredRelevance call) := by
    refine builds_get_bind fun s => ?_
    split
    · exact hcall .fieldEquals
    · refine builds_current_bind fun t => ?_
      split
      · exact hcall (.relevance _)
      · exact builds_reject _
  have hend {name : String} {r : Relevance} {w : Option Number.Binary64}
      (hr : Within Relevance.WellFormed Relevance.height k r) (hw : ∀ x ∈ w, x.isFinite = true) :
      Adds strict k .score (do
        let _ ← symbol .rightParen
        return .score name r w) :=
    (steady_symbol .rightParen).before fun _ =>
      builds_pure ⟨⟨hr.wellFormed, hw⟩, add_one_le hr.height_le⟩
  refine steady_callName.before fun _ => hscored.bind fun _ hr =>
    (steady_takeSymbol .comma).before fun found => ?_
  split
  · refine Builds.bind (P := fun w => ∀ x ∈ w, Number.Binary64.isFinite x = true) ?_
      fun _ hw => hend hr hw
    refine builds_weight.some fun w hw => ?_
    rintro x ⟨⟩
    exact hw
  · exact builds_pure_bind (hend hr fun _ h => nomatch h)

/-! ## Queries -/

theorem adds_selectItemRule (starAllowed : Bool) :
    Adds strict k (.selectItem starAllowed) (selectItemRule call starAllowed) := by
  have hexpr : Adds strict k (.selectItem starAllowed) (do
      let e ← call .wholeExpr
      return .expr e (← optionalAlias)) :=
    (hcall .wholeExpr).bind fun _ he => builds_optionalAlias.bind fun _ hname =>
      builds_pure ⟨⟨⟨he.wellFormed, hname⟩, add_one_le he.height_le⟩, fun _ => rfl⟩
  unfold selectItemRule
  cases starAllowed with
  | true =>
    refine builds_atSymbol_bind .star fun here => ?_
    split
    · exact steady_take.before fun _ => builds_pure ⟨⟨trivial, add_one_le (Nat.zero_le k)⟩, nofun⟩
    · exact hexpr
  | false =>
    refine builds_atSymbol_bind .star fun here => ?_
    exact hexpr

/-- Behind the first item no star is allowed. -/
theorem adds_selectItemsRule : Adds strict k .selectItems (selectItemsRule call) := by
  refine ((hcall (.selectItem true)).commaList (hcall (.selectItem false)) _).imp fun items h => ?_
  obtain ⟨head, tail, rfl, hhead, htail⟩ := h
  have hover : k ≤ k + nodesPerRule := Nat.le_add_right _ _
  refine ⟨List.cons_ne_nil _ _, List.forall_mem_cons.2 ⟨hhead.1.mono hover, fun i hi => ?_⟩,
    fun i hi => (htail i hi).2 rfl⟩
  exact (htail i hi).1.mono hover

theorem adds_relationRule : Adds strict k .relation (relationRule call) := by
  refine (steady_keyword .FROM).before fun _ => builds_atSymbol_bind .leftParen fun here => ?_
  split
  · refine steady_take.before fun start => ((hcall .query).subquery.nest 2).bind fun q hq => ?_
    exact (steady_symbol .rightParen).before fun _ => (steady_takeKeyword .AS).before fun _ =>
      builds_ident.bind fun _ hname => (steady_spanFrom start).before fun _ =>
        builds_pure ⟨⟨hq.wellFormed, hname⟩, add_one_le hq.height_le⟩
  · exact builds_qualifiedName.bind fun _ hn => builds_optionalAlias.bind fun _ hname =>
      builds_pure ⟨⟨hn, hname⟩, add_one_le (Nat.zero_le k)⟩

theorem adds_conditionRule (word : Keyword) :
    Adds strict k (.condition word) (conditionRule call word) :=
  (steady_keyword word).before fun start => (hcall .wholeExpr).bind fun _ he =>
    (steady_spanFrom start).before fun _ => builds_pure ⟨he.wellFormed, add_one_le he.height_le⟩

theorem adds_groupByRule : Adds strict k .groupBy (groupByRule call) :=
  (steady_keyword .GROUP).before fun start => (steady_keyword .BY).before fun _ =>
    (builds_exprs hcall _).bind fun _ hes => (steady_spanFrom start).before fun _ => builds_pure
      ⟨⟨hes.1, wellFormedAll_iff.1 hes.2.wellFormed⟩, add_one_le hes.2.height_le⟩

omit hcall in
/-- A clause that is not allowed is absent. -/
theorem Builds.clause {α : Type} {P : α → Prop} {p : Parser α} (hp : Builds strict P p)
    (hsteady : Steady p) (allowed : Bool) (word : Keyword) :
    Builds strict (fun found => (∀ a ∈ found, P a) ∧ (allowed = false → found = none))
      (Parser.clause allowed word p) := by
  refine builds_atKeyword_bind word fun here => ?_
  split
  · next hallowed =>
    refine (hp.recover hsteady).bind fun found hfound => steady_clauseEnd.before fun _ =>
      builds_pure ⟨hfound.1, fun hnot => ?_⟩
    rw [hnot] at hallowed
    cases hallowed
  · exact builds_pure ⟨nofun, fun _ => rfl⟩

omit hcall in
/-- Under `strict`, what follows the word `FROM` is there. -/
theorem Builds.fromClause {α β : Type} {P : α → Prop} {Q : β → Prop} {p : Parser α}
    {f : Bool → Option α → Parser β} (hp : Builds strict P p) (hsteady : Steady p)
    (hf : ∀ here found, (∀ a ∈ found, P a) → (strict = true → here = true → found.isSome = true) →
      Builds strict Q (f here found)) :
    Builds strict Q (do
      let here ← atKeyword .FROM
      let found ← Parser.clause here .FROM p
      f here found) := by
  intro s t b hs heq
  rw [atKeyword_bind_apply] at heq
  unfold Parser.clause at heq
  rw [bind_assoc, atKeyword_bind_apply] at heq
  revert heq
  cases s.cursor.current.kind == .keyword .FROM with
  | true =>
    refine Builds.bind (P := fun found => (∀ a ∈ found, P a) ∧ (strict = true → found.isSome = true))
      ?_ (fun found h => hf true found h.1 fun hstrict _ => h.2 hstrict) s t b hs
    exact (hp.recover hsteady).bind fun found h => steady_clauseEnd.before fun _ => builds_pure h
  | false => exact builds_pure_bind (hf false none nofun nofun) s t b hs

/-- A query adds a node to its clauses. -/
theorem adds_queryRule (hsteady : ∀ {α : Type} (n : Nonterminal α), Steady (call n)) :
    Adds strict k .query (queryRule call) := by
  have hclause {α : Type} (n : Nonterminal α) (allowed : Bool) (word : Keyword) :=
    (hcall n).clause (hsteady n) allowed word
  refine (steady_keyword .SELECT).before fun start => steady_quantifier.before fun quantifier => ?_
  refine ((hcall .selectItems).recover (hsteady .selectItems)).bind fun items hitems => ?_
  have hlist : ∀ i ∈ items.getD [], Within SelectItem.WellFormed SelectItem.height k i := by
    cases items with
    | none => exact fun _ h => absurd h List.not_mem_nil
    | some is => exact (hitems.1 is rfl).2.1
  have hstars : ∀ i ∈ (items.getD []).tail, i.isStar = false := by
    cases items with
    | none => exact fun _ h => absurd h List.not_mem_nil
    | some is => exact (hitems.1 is rfl).2.2
  have hsome (hstrict : strict = true) : items.getD [] ≠ [] := by
    obtain ⟨is, rfl⟩ := Option.isSome_iff_exists.1 (hitems.2 hstrict)
    exact (hitems.1 is rfl).1
  refine steady_clauseEnd.before fun _ => ?_
  refine (hcall .relation).fromClause (hsteady .relation) fun hasRelation relation hr hfrom => ?_
  refine (hclause (.condition .WHERE) hasRelation .WHERE).bind fun condition hc => ?_
  refine (hclause .groupBy hasRelation .GROUP).bind fun groupBy hg => ?_
  refine (hclause (.condition .HAVING) hasRelation .HAVING).bind fun having hh => ?_
  refine (hclause .orderBy hasRelation .ORDER).bind fun orderBy ho => ?_
  refine steady_limitClause.before fun limit => (steady_spanFrom start).before fun span =>
    builds_pure ⟨⟨?_, ?_, ?_, fun c h => (hc.1 c h).wellFormed, fun g h => (hg.1 g h).wellFormed,
      fun c h => (hh.1 c h).wellFormed, fun o h => (ho.1 o h).wellFormed,
      fun hstrict => ⟨?_, fun hclauses => ?_⟩⟩, ?_⟩
  case refine_1 => exact fun i hi => (hlist i hi).wellFormed
  case refine_2 => exact hstars
  case refine_3 =>
    cases relation with
    | none => exact trivial
    | some r => exact (hr r rfl).wellFormed
  case refine_4 => exact hsome hstrict
  case refine_5 =>
    cases hasRelation with
    | true => exact hfrom hstrict rfl
    | false =>
      -- Without a relation no other clause is read.
      rw [hc.2 rfl, hg.2 rfl, hh.2 rfl, ho.2 rfl] at hclauses
      simp at hclauses
  case refine_6 =>
    refine add_one_le (Nat.max_le.2 ⟨greatest_le_iff.2 fun i hi => (hlist i hi).height_le,
      Nat.max_le.2 ⟨?_, Nat.max_le.2 ⟨orZero_le_iff.2 fun c h => (hc.1 c h).height_le,
        Nat.max_le.2 ⟨orZero_le_iff.2 fun g h => (hg.1 g h).height_le,
          Nat.max_le.2 ⟨orZero_le_iff.2 fun c h => (hh.1 c h).height_le,
            orZero_le_iff.2 fun o h => (ho.1 o h).height_le⟩⟩⟩⟩⟩)
    cases relation with
    | none => exact Nat.zero_le k
    | some r => exact (hr r rfl).height_le

end

section

variable {strict : Bool} {k : Nat}

/-- Each rule adds few nodes to what its callees build. -/
theorem adds_rule {call : Callee}
    (hcall : ∀ {α : Type} (n : Nonterminal α), Builds strict (n.Builds strict k) (call n))
    (hsteady : ∀ {α : Type} (n : Nonterminal α), Steady (call n)) {α : Type} (n : Nonterminal α) :
    Adds strict k n (rule call n) := by
  cases n with
  | expr least => exact adds_exprRule hcall least
  | predicate least => exact adds_predicateRule hcall least
  | arithmetic least => exact adds_arithmeticRule hcall least
  | operand => exact adds_operandRule hcall
  | parenthesized => exact adds_parenthesizedRule hcall
  | constant => exact adds_constantRule hcall
  | interval => exact adds_intervalRule hcall
  | call => exact adds_callRule hcall
  | shape family => exact adds_shapeRule hcall family
  | arguments => exact adds_argumentsRule hcall
  | scalar category => exact adds_scalarRule hcall category
  | case => exact adds_caseRule hcall
  | cast => exact adds_castRule hcall
  | ranking function => exact adds_rankingRule hcall function
  | aggregate function => exact adds_aggregateRule hcall function
  | percentile function => exact adds_percentileRule hcall function
  | aggregateTail aggregate => exact adds_aggregateTailRule hcall hsteady aggregate
  | window => exact adds_windowRule hcall
  | filter => exact adds_filterRule hcall
  | orderBy => exact adds_orderByRule hcall
  | orderItem => exact adds_orderItemRule hcall
  | score => exact adds_scoreRule hcall
  | relevance kind => exact adds_relevanceRule hcall kind
  | fieldEquals => exact adds_fieldEqualsRule hcall
  | namedArguments => exact adds_namedArgumentsRule hcall
  | searchValue => exact adds_searchValueRule hcall
  | relevanceOptions => exact adds_relevanceOptionsRule hcall
  | position => exact adds_positionRule hcall
  | extract => exact adds_extractRule hcall
  | getFormat => exact adds_getFormatRule hcall
  | timestamp function => exact adds_timestampRule hcall function
  | selectItems => exact adds_selectItemsRule hcall
  | selectItem starAllowed => exact adds_selectItemRule hcall starAllowed
  | relation => exact adds_relationRule hcall
  | condition word => exact adds_conditionRule hcall word
  | groupBy => exact adds_groupByRule hcall
  | query => exact adds_queryRule hcall hsteady

/-! ## Parses -/

/-- Each rule that follows another adds to the height, and the fuel bounds how many do. -/
theorem builds_derive (fuel : Nat) {α : Type} (n : Nonterminal α) :
    Builds strict (n.Builds strict (nodesPerRule * fuel)) (derive fuel n) := by
  induction fuel generalizing α with
  | zero => exact fun _ _ _ _ heq => nomatch heq
  | succ fuel ih => exact adds_rule ih (steady_derive fuel) n

/-- The statements about the catalogue hold no tree of another statement. -/
theorem builds_statementRule {call : Callee}
    (hquery : Builds strict (Within (Query.WellFormed strict) Query.height k) (call .query)) :
    Builds strict (Within (Statement.WellFormed strict) Statement.height (k + 1))
      (statementRule call) := by
  have hone : 1 ≤ k + 1 := Nat.le_add_left 1 k
  refine builds_current_bind fun t => ?_
  dsimp only
  split
  · exact hquery.bind fun q hq => builds_pure ⟨hq.wellFormed, Nat.succ_le_succ hq.height_le⟩
  · exact (steady_keyword .SHOW).before fun start => (steady_keyword .TABLES).before fun _ =>
      steady_nameFilter.before fun _ => (steady_spanFrom start).before fun _ =>
        builds_pure ⟨trivial, hone⟩
  · exact (steady_keyword .DESCRIBE).before fun start => (steady_keyword .TABLES).before fun _ =>
      steady_nameFilter.before fun _ => steady_columnFilter.before fun _ =>
        (steady_spanFrom start).before fun _ => builds_pure ⟨trivial, hone⟩
  · exact builds_reject _

/-- What a parse finds is well-formed and no higher than its fuel tells. -/
theorem builds_runRoot [Time.Library] {text : String} {settings : Settings}
    {found : Option Statement} {t : State} (hstrict : strict = true → settings.recover = false)
    (h : runRoot (Token.tokenize text) settings = .ok found t) :
    ∀ statement ∈ found, Within (Statement.WellFormed strict) Statement.height
      (nodesPerRule * fuelFor settings + 1) statement := by
  have hall : (State.ofTokens (Token.tokenize text) settings).cursor.allTokens =
      Token.tokenize text :=
    Cursor.allTokens_ofTokens (Token.tiling_tokensFrom 0 text.toList).getLast?_eq rfl
  have hready : (State.ofTokens (Token.tokenize text) settings).Ready strict :=
    ⟨hall.symm ▸ (scanned_tokenize text).sound, hstrict⟩
  have hquery : Builds strict (Within (Query.WellFormed strict) Query.height
      (nodesPerRule * fuelFor settings)) (derive (fuelFor settings) .query) :=
    builds_derive (fuelFor settings) .query
  have hstatement := (builds_statementRule hquery).recover
    (steady_statementRule (steady_derive _ .query))
  have hroot : Builds strict (fun found => ∀ statement ∈ found,
      Within (Statement.WellFormed strict) Statement.height (nodesPerRule * fuelFor settings + 1)
        statement) (rootRule (derive (fuelFor settings))) := by
    refine Builds.bind (P := fun found => ∀ statement ∈ found, Within (Statement.WellFormed strict)
      Statement.height (nodesPerRule * fuelFor settings + 1) statement) ?_ fun found hfound =>
        (steady_takeSymbol .semicolon).before fun _ => steady_inputEnd.before fun _ =>
          builds_pure hfound
    refine builds_current_bind fun t => ?_
    dsimp only
    split
    · exact builds_pure nofun
    · exact builds_pure nofun
    · exact hstatement.imp fun _ h => h.1
  exact (hroot _ t found hready h).1

end

end Grammar

open Grammar

/-- All trees that a parse returns are well-formed. Where nothing is recovered from, no part of a
query is missing. -/
theorem parse_wellFormed [Time.Library] (text : String) (settings : Settings) :
    (∀ statement ∈ (parse text settings).statement, statement.WellFormed (!settings.recover)) ∧
      ∀ statement, parseStrict text settings = .ok statement → statement.WellFormed true := by
  constructor
  · intro statement h
    obtain ⟨t, hrun⟩ := parseTokens_statement_eq_some.1 h
    exact (builds_runRoot (fun h => by simpa using h) hrun statement rfl).wellFormed
  · intro statement h
    obtain ⟨t, hrun⟩ := parseTokensStrict_eq_ok.1 h
    exact (builds_runRoot (fun _ => rfl) hrun statement rfl).wellFormed

/-- Only the clauses that were read are in the tree, and those are well-formed. -/
theorem parse_wellFormed_damaged :
    (parse "SELECT FROM t WHERE a IN (1)" Settings.standard).statement.isSome = true ∧
      ∀ statement ∈ (parse "SELECT FROM t WHERE a IN (1)" Settings.standard).statement,
        statement.WellFormed false :=
  ⟨by decide +kernel, (parse_wellFormed "SELECT FROM t WHERE a IN (1)" Settings.standard).1⟩

/-- With a chain of operators as a single node, the height of a tree has a bound that only depends on
the limit on nesting. -/
theorem parse_height_le [Time.Library] (text : String) (settings : Settings) :
    ∀ statement ∈ (parse text settings).statement,
      statement.height 0 ≤ 80 * (min settings.maxDepth 128 + 1) + 1 := by
  intro statement h
  obtain ⟨t, hrun⟩ := parseTokens_statement_eq_some.1 h
  have hbuilt : Within (Statement.WellFormed false) Statement.height
      (nodesPerRule * fuelFor settings + 1) statement :=
    builds_runRoot (fun h => absurd h Bool.false_ne_true) hrun statement rfl
  refine Nat.le_trans hbuilt.height_le (Nat.le_of_eq ?_)
  show 4 * (20 * (min settings.maxDepth 128 + 1)) + 1 = _
  rw [← Nat.mul_assoc]

/-- Under a limit of two, the bound holds of a sum in parentheses. -/
theorem parse_height_le_sum :
    (parse "SELECT (1 + 1 + 1 + 1)" ⟨2, true, 100⟩).statement.isSome = true ∧
      ∀ statement ∈ (parse "SELECT (1 + 1 + 1 + 1)" ⟨2, true, 100⟩).statement,
        statement.height 0 ≤ 80 * (min 2 128 + 1) + 1 :=
  ⟨by decide +kernel, parse_height_le "SELECT (1 + 1 + 1 + 1)" ⟨2, true, 100⟩⟩

end SearchSql
