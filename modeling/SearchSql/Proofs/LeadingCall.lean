import SearchSql.Proofs.SideBySide

/-!
# The call a statement begins with

A select list may begin with a call. Where two texts differ in the tokens of this call only, the
statements differ in the call only: the expression around it, the items behind it and the clauses
behind them are built from the same tokens on both sides (`ends_runRoot`).
-/

set_option autoImplicit false

namespace SearchSql

/-! ## Changing the call in front -/

/-- The atom with the call it begins with changed. -/
def Atom.mapLeadingCall (g : Call → Call) : Atom → Atom
  | .call c => .call (g c)
  | .arithmetic op left right => .arithmetic op (left.mapLeadingCall g) right
  | a => a

/-- The predicate with the call it begins with changed. -/
def Predicate.mapLeadingCall (g : Call → Call) : Predicate → Predicate
  | .comparison op left right => .comparison op (left.mapLeadingCall g) right
  | .isNull target negated span => .isNull (target.mapLeadingCall g) negated span
  | .between target negated low high => .between (target.mapLeadingCall g) negated low high
  | .like left negated pattern => .like (left.mapLeadingCall g) negated pattern
  | .regexp left negated pattern => .regexp (left.mapLeadingCall g) negated pattern
  | .within target negated items span => .within (target.mapLeadingCall g) negated items span
  | .atom a => .atom (a.mapLeadingCall g)

/-- The expression with the call it begins with changed. -/
def Expr.mapLeadingCall (g : Call → Call) : Expr → Expr
  | .not operand span => .not operand span
  | .and left right => .and (left.mapLeadingCall g) right
  | .or left right => .or (left.mapLeadingCall g) right
  | .predicate p => .predicate (p.mapLeadingCall g)

/-- The select item with the call it begins with changed. -/
def SelectItem.mapLeadingCall (g : Call → Call) : SelectItem → SelectItem
  | .star span => .star span
  | .expr e aliasName => .expr (e.mapLeadingCall g) aliasName

/-- The statement with the call its select list begins with changed. -/
def Statement.mapLeadingCall (g : Call → Call) : Statement → Statement
  | .select query => .select { query with items := query.items.modifyHead (SelectItem.mapLeadingCall g) }
  | statement => statement

/-- An atom stays as it is if its first call does. -/
@[simp] theorem Atom.mapLeadingCall_id (a : Atom) : a.mapLeadingCall id = a := by
  fun_induction Atom.mapLeadingCall id a with
  | case1 => rfl
  | case2 op left right ih => rw [ih]
  | case3 => rfl

/-- A predicate stays as it is if its first call does. -/
@[simp] theorem Predicate.mapLeadingCall_id (p : Predicate) : p.mapLeadingCall id = p := by
  fun_induction Predicate.mapLeadingCall id p <;> simp_all

/-- To change no call changes no expression. -/
@[simp] theorem Expr.mapLeadingCall_id (e : Expr) : e.mapLeadingCall id = e := by
  fun_induction Expr.mapLeadingCall id e <;> simp_all

/-- An item of the select list stays as it is if its first call does. -/
@[simp] theorem SelectItem.mapLeadingCall_id : SelectItem.mapLeadingCall id = id := by
  funext item
  cases item <;> simp [SelectItem.mapLeadingCall]

/-- Where the call stays as it is, the statement does. -/
@[simp] theorem Statement.mapLeadingCall_id (statement : Statement) :
    statement.mapLeadingCall id = statement := by
  cases statement with
  | select query => cases query; simp [Statement.mapLeadingCall]
  | _ => rfl

namespace Grammar

open SearchSql.Grammar.Parser

variable {rest : List Token} {s s' t t' : State} {g : Call → Call}

/-! ## Around the call -/

/-- Atoms that differ in their places, and as `g` says in the calls they begin with. -/
def AtomsMatch (g : Call → Call) (a b : Atom) : Prop :=
  b.view .placeless = (a.mapLeadingCall g).view .placeless

/-- Predicates that differ in their places, and as `g` says in the calls they begin with. -/
def PredicatesMatch (g : Call → Call) (a b : Predicate) : Prop :=
  b.view .placeless = (a.mapLeadingCall g).view .placeless

/-- Expressions that differ in their places, and as `g` says in the calls they begin with. -/
def ExprsMatch (g : Call → Call) (a b : Expr) : Prop :=
  b.view .placeless = (a.mapLeadingCall g).view .placeless

/-- A step of arithmetic is steady. -/
theorem steady_arithmeticStep (least : Nat) (left : Atom) :
    Steady (arithmeticStep read least left) :=
  (steady_congruence.arithmeticStep (b := 0) least (fun _ _ => ⟨steady_read _, steady_read _⟩) left).1

/-- A chain of operators goes on alike behind operands that match. -/
theorem sides_arithmeticStep (least : Nat) (left left' : Atom) (h : AtomsMatch g left left') :
    Sides rest 0 (StepsAlike (AtomsMatch g)) (arithmeticStep read least left)
      (arithmeticStep read least left') := by
  refine sides_current_bind fun t t' hkind => ?_
  rw [hkind]
  cases ArithmeticOp.ofKind? t.kind with
  | none => exact sides_pure (.done h)
  | some op =>
    dsimp only
    split
    · exact sides_pure (.done h)
    refine (sides_skip 1).bind (fun _ => trivial) fun _ _ _ => (sides_read rfl).map fun a b hab => ?_
    have hright : b.view .placeless = a.view .placeless := hab
    refine .yield ?_
    simp only [AtomsMatch, Atom.mapLeadingCall, Atom.view] at h ⊢
    rw [h, hright]

/-- If the first operands match, the chains do. -/
theorem ends_arithmetic (h : Ends rest 0 (AtomsMatch g) (read .operand s) (read .operand s')) :
    Ends rest 0 (AtomsMatch g) (read (.arithmetic 0) s) (read (.arithmetic 0) s') := by
  rw [read_eq_rule]
  exact h.bind (steady_loop (steady_arithmeticStep 0)) (steady_loop (steady_arithmeticStep 0))
    fun a b t t' _ _ hab ht => (sides_loop (steady_arithmeticStep 0) (steady_arithmeticStep 0)
      (sides_arithmeticStep 0) hab).ends ht

/-- Tests of operands that match are tests that match. -/
theorem sides_testRule (left left' : Predicate) (h : PredicatesMatch g left left') (test : Test) :
    Sides rest 0 (PredicatesMatch g) (testRule read left test) (testRule read left' test) := by
  have hpredicate (least : Nat) : Sides rest 0
      (fun a b => Predicate.view .placeless b = Predicate.view .placeless a)
      (read (.predicate least)) (read (.predicate least)) :=
    sides_read (n := .predicate least) rfl
  unfold PredicatesMatch at h ⊢
  -- The call in front is in the left operand, and what stands behind the test does not depend on
  -- it.
  cases test with
  | comparison op =>
    refine (hpredicate _).map fun a b hab => ?_
    simp only [Predicate.mapLeadingCall, Predicate.view, h, hab]
  | isNull negated =>
    refine (sides_keyword .NULL).map fun _ _ _ => ?_
    simp only [Predicate.mapLeadingCall, Predicate.view, h]
    rfl
  | between negated =>
    refine (hpredicate _).bind (fun _ => rfl) fun low low' hlow =>
      (sides_keyword .AND).bind (fun _ => trivial) fun _ _ _ =>
        (hpredicate _).map fun high high' hhigh => ?_
    simp only [Predicate.mapLeadingCall, Predicate.view, h, hlow, hhigh]
  | like negated =>
    refine (hpredicate _).map fun a b hab => ?_
    simp only [Predicate.mapLeadingCall, Predicate.view, h, hab]
  | regexp negated =>
    refine (hpredicate _).map fun a b hab => ?_
    simp only [Predicate.mapLeadingCall, Predicate.view, h, hab]
  | within negated =>
    refine (sides_symbol .leftParen).bind (fun _ => trivial) fun _ _ _ =>
      (sides_commaSeparated (sides_read (n := .wholeExpr) rfl)).bind (fun _ => rfl)
        fun items items' hitems => (sides_symbol .rightParen).bind (fun _ => trivial) fun _ _ _ =>
          (sides_spanFrom left.span left'.span).map fun _ _ _ => ?_
    have hitems' : items'.map (Expr.view .placeless) = items.map (Expr.view .placeless) := hitems
    simp only [Predicate.mapLeadingCall, Predicate.view, h, viewAll_eq, hitems']
    rfl

/-- A test behind a predicate is steady. -/
theorem steady_predicateStep (least : Nat) (left : Predicate) :
    Steady (predicateStep read least left) :=
  (steady_congruence.predicateStep (b := 0) least (fun _ _ => ⟨steady_read _, steady_read _⟩)
    ⟨steady_read _, steady_read _⟩ (fun _ _ h _ => by rw [h]) left).1

/-- A test is read alike behind predicates that match. -/
theorem sides_predicateStep (least : Nat) (left left' : Predicate) (h : PredicatesMatch g left left') :
    Sides rest 0 (StepsAlike (PredicatesMatch g)) (predicateStep read least left)
      (predicateStep read least left') := by
  refine ⟨steady_predicateStep least left, steady_predicateStep least left', fun {s s'} hs => ?_⟩
  have hat : Test.at? s'.cursor = Test.at? s.cursor := by
    unfold Test.at?
    rw [hs.peek, hs.peek, hs.peek]
  have hseparator (test : Test) : s'.isSeparator test = s.isSeparator test := by
    unfold State.isSeparator
    rw [← hs.frame.separatorDepth, ← hs.frame.depth]
    rfl
  rw [predicateStep_eq, predicateStep_eq, get_bind_apply, get_bind_apply]
  unfold testStep
  rw [hat, funext hseparator]
  cases Test.at? s.cursor with
  | none => exact .ok (.done h) hs
  | some found =>
    obtain ⟨test, width⟩ := found
    dsimp only
    split
    · exact .ok (.done h) hs
    · have htest : Sides rest 0 (StepsAlike (PredicatesMatch g)) _ _ :=
        (sides_testRule left left' h test).map fun _ _ hab => .yield hab
      exact ((sides_skip width).bind (fun _ => trivial) fun _ _ _ => htest).ends hs

/-- If the first operands match, the predicates do. -/
theorem ends_predicate (h : Ends rest 0 (AtomsMatch g) (read .operand s) (read .operand s')) :
    Ends rest 0 (PredicatesMatch g) (read (.predicate 0) s) (read (.predicate 0) s') := by
  rw [read_eq_rule]
  have hsteady (a : Atom) : Steady (loop (.atom a) (predicateStep read 0)) :=
    steady_loop (steady_predicateStep 0) _
  refine (ends_arithmetic h).bind hsteady hsteady fun a b t t' _ _ hab ht => ?_
  have hatom : PredicatesMatch g (.atom a) (.atom b) := by
    simp only [PredicatesMatch, Predicate.mapLeadingCall, Predicate.view]
    exact congrArg Predicate.atom hab
  exact (sides_loop (steady_predicateStep 0) (steady_predicateStep 0) (sides_predicateStep 0)
    hatom).ends ht

/-- A step of connectives is steady. -/
theorem steady_logicalStep (least : Nat) (left : Expr) : Steady (logicalStep read least left) :=
  (steady_congruence.logicalStep (b := 0) (fun _ => ⟨steady_read _, steady_read _⟩) least left).1

/-- A chain of connectives goes on alike behind operands that match. -/
theorem sides_logicalStep (least : Nat) (left left' : Expr) (h : ExprsMatch g left left') :
    Sides rest 0 (StepsAlike (ExprsMatch g)) (logicalStep read least left)
      (logicalStep read least left') := by
  refine sides_current_bind fun t t' hkind => ?_
  rw [hkind]
  cases Connective.ofKind? t.kind with
  | none => exact sides_pure (.done h)
  | some op =>
    dsimp only
    split
    · exact sides_pure (.done h)
    refine (sides_skip 1).bind (fun _ => trivial) fun _ _ _ => (sides_read rfl).map fun a b hab => ?_
    have hright : b.view .placeless = a.view .placeless := hab
    refine .yield ?_
    unfold ExprsMatch at h ⊢
    cases op <;> simp only [Connective.join, Expr.mapLeadingCall, Expr.view, h, hright]

/-- Without a negation in front, the operand of a connective is a predicate. -/
theorem ends_logicalOperand (hnot : s.cursor.current.kind ≠ .keyword .NOT)
    (hnot' : s'.cursor.current.kind ≠ .keyword .NOT)
    (h : Ends rest 0 (AtomsMatch g) (read .operand s) (read .operand s')) :
    Ends rest 0 (ExprsMatch g) (logicalOperand read s) (logicalOperand read s') := by
  unfold logicalOperand
  rw [atKeyword_bind_apply, atKeyword_bind_apply, beq_false_of_ne hnot, beq_false_of_ne hnot']
  refine (ends_predicate h).map fun a b hab => ?_
  simp only [ExprsMatch, Expr.mapLeadingCall, Expr.view]
  exact congrArg Expr.predicate hab

/-- If the first operands match, the expressions do. -/
theorem ends_wholeExpr (hs : s.Abreast 0 s') (hnot : s.cursor.current.kind ≠ .keyword .NOT)
    (hnot' : s'.cursor.current.kind ≠ .keyword .NOT)
    (h : Ends rest 0 (AtomsMatch g) (read .operand (s.deeper 1)) (read .operand (s'.deeper 1))) :
    Ends rest 0 (ExprsMatch g) (read .wholeExpr s) (read .wholeExpr s') := by
  rw [read_eq_rule]
  have hsteady : Steady (exprBody read 0) :=
    (steady_congruence.exprBody (b := 0) (fun _ => ⟨steady_read _, steady_read _⟩)
      ⟨steady_read _, steady_read _⟩ 0).1
  have hloop := steady_loop (steady_logicalStep 0)
  have hoperand : Ends rest 0 (ExprsMatch g) (logicalOperand read (s.deeper 1))
      (logicalOperand read (s'.deeper 1)) := ends_logicalOperand hnot hnot' h
  exact Ends.nest (p := exprBody read 0) (q := exprBody read 0) hsteady hsteady hs <|
    hoperand.bind hloop hloop fun a b t t' _ _ hab ht =>
      (sides_loop (steady_logicalStep 0) (steady_logicalStep 0) (sides_logicalStep 0) hab).ends ht

/-! ## Around the expression -/

/-- An alias that may be missing is steady. -/
theorem steady_optionalAlias : Steady optionalAlias := (steady_congruence.optionalAlias (b := 0)).1

/-- An alias that may be missing never asks for more than the tokens ahead. -/
theorem complete_optionalAlias : Complete optionalAlias :=
  complete_of_identity fun _ =>
    (Simulation.query_congruence identity_lawful identity_queryLawful).optionalAlias

/-- Both sides have the same alias up to places, or neither has one. -/
theorem sides_optionalAlias : Sides rest 0
    (fun a b => b.map (View.ident .placeless) = a.map (View.ident .placeless)) optionalAlias
    optionalAlias := by
  have hlike : Likeness.placeless.Like false (Option.map (View.ident .placeless)) optionalAlias
      optionalAlias := Likeness.like_optionalAlias Likeness.lawful_placeless
  have hreplays : (Seam.mk [] []).Replays false .closed optionalAlias := Seam.replays_optionalAlias
  exact sides_of_like hlike steady_optionalAlias complete_optionalAlias hlike steady_optionalAlias
    complete_optionalAlias hreplays

/-- If the first operands match, the elements of the selection do. -/
theorem ends_selectItem (hs : s.Abreast 0 s') (hstar : s.cursor.current.kind ≠ .symbol .star)
    (hstar' : s'.cursor.current.kind ≠ .symbol .star)
    (hnot : s.cursor.current.kind ≠ .keyword .NOT) (hnot' : s'.cursor.current.kind ≠ .keyword .NOT)
    (h : Ends rest 0 (AtomsMatch g) (read .operand (s.deeper 1)) (read .operand (s'.deeper 1))) :
    Ends rest 0 (fun a b => b.view .placeless = (a.mapLeadingCall g).view .placeless)
      (read (.selectItem true) s) (read (.selectItem true) s') := by
  rw [read_eq_rule]
  show Ends rest 0 _ (selectItemRule read true s) (selectItemRule read true s')
  unfold selectItemRule
  rw [atSymbol_bind_apply, atSymbol_bind_apply, beq_false_of_ne hstar, beq_false_of_ne hstar']
  have hsteady (e : Expr) : Steady (optionalAlias >>= fun aliasName =>
      (pure (.expr e aliasName) : Parser SelectItem)) :=
    steady_optionalAlias.bind fun _ => steady_pure _
  refine (ends_wholeExpr hs hnot hnot' h).bind hsteady hsteady fun e e' t t' _ _ he ht => ?_
  refine (sides_optionalAlias.map fun a b hab => ?_).ends ht
  simp only [SelectItem.mapLeadingCall, SelectItem.view]
  rw [show e'.view .placeless = _ from he, show b.map _ = a.map _ from hab]

/-- The first elements match, and the others are the same up to places. -/
theorem ends_selectItems (hs : s.Abreast 0 s') (hstar : s.cursor.current.kind ≠ .symbol .star)
    (hstar' : s'.cursor.current.kind ≠ .symbol .star)
    (hnot : s.cursor.current.kind ≠ .keyword .NOT) (hnot' : s'.cursor.current.kind ≠ .keyword .NOT)
    (hlt : rest.length < s.cursor.ahead.length) (hlt' : rest.length < s'.cursor.ahead.length)
    (h : Ends rest 0 (AtomsMatch g) (read .operand (s.deeper 1)) (read .operand (s'.deeper 1))) :
    Ends rest 0 (fun a b => b.map (SelectItem.view .placeless) =
        (a.modifyHead (SelectItem.mapLeadingCall g)).map (SelectItem.view .placeless))
      (read .selectItems s) (read .selectItems s') := by
  rw [read_eq_rule]
  exact ends_commaList ((ends_selectItem hs hstar hstar' hnot hnot' h).taking (steady_read _)
    (steady_read _) hlt hlt') (sides_read (n := .selectItem false) rfl)

/-! ## Around the select list -/

/-- Queries that differ in their places, and as `g` says in the calls they begin with. -/
def QueriesMatch (g : Call → Call) (a b : Query) : Prop :=
  (Statement.select b).view .placeless = ((Statement.select a).mapLeadingCall g).view .placeless

/-- Both sides have a clause, the same up to places, or neither has it. -/
theorem sides_clause (allowed : Bool) (word : Keyword) {α : Type} {n : Nonterminal α}
    (hfront : n.front = false) :
    Sides rest 0 (fun a b => b.map (n.view .placeless) = a.map (n.view .placeless))
      (clause allowed word (read n)) (clause allowed word (read n)) := by
  have hnone : Sides rest 0 (fun a b => b.map (n.view .placeless) = a.map (n.view .placeless))
      (pure none) (pure none) := sides_pure rfl
  cases allowed with
  | false => exact hnone
  | true =>
    refine (sides_atKeyword word).bind (fun _ => rfl) fun here _ heq => ?_
    subst heq
    cases here with
    | false => exact hnone
    | true =>
      refine (sides_read hfront).recover.bind (fun a => ?_) fun a b hab =>
        sides_clauseEnd.bind (fun _ => trivial) fun _ _ _ => sides_pure ?_
      · cases a with
        | none => exact .none
        | some a => exact .some rfl
      · cases hab with
        | none => rfl
        | some hab => exact congrArg some hab

/-- The clause of a limit never asks for more than the tokens ahead. -/
theorem complete_limitClause : Complete limitClause :=
  complete_of_identity fun _ =>
    (Simulation.query_congruence identity_lawful identity_queryLawful).limitClause

/-- So it is with the limit. -/
theorem sides_limitClause : Sides rest 0
    (fun a b => b.map (Limit.view .placeless) = a.map (Limit.view .placeless)) limitClause
    limitClause :=
  sides_of_like (Likeness.like_limitClause Likeness.queryLawful_placeless) steady_limitClause
    complete_limitClause (Likeness.like_limitClause Likeness.queryLawful_placeless) steady_limitClause
    complete_limitClause (Seam.replays_limitClause rfl)

/-- The clauses behind a select list are read alike into queries that match. -/
theorem sides_fromRelation (start start' : Span) (quantifier : Option Quantifier)
    {items items' : List SelectItem} (hitems : items'.map (SelectItem.view .placeless) =
      (items.modifyHead (SelectItem.mapLeadingCall g)).map (SelectItem.view .placeless)) :
    Sides rest 0 (QueriesMatch g) (fromRelation read start (Query.mk quantifier items))
      (fromRelation read start' (Query.mk quantifier items')) := by
  refine sides_clauseEnd.bind (fun _ => trivial) fun _ _ _ =>
    (sides_atKeyword .FROM).bind (fun _ => rfl) fun allowed _ heq => ?_
  subst heq
  refine (sides_clause allowed .FROM (n := .relation) rfl).bind (fun _ => rfl) fun _ _ hrelation =>
    (sides_clause allowed .WHERE (n := .condition .WHERE) rfl).bind (fun _ => rfl) fun _ _ hcondition =>
    (sides_clause allowed .GROUP (n := .groupBy) rfl).bind (fun _ => rfl) fun _ _ hgroupBy =>
    (sides_clause allowed .HAVING (n := .condition .HAVING) rfl).bind (fun _ => rfl) fun _ _ hhaving =>
    (sides_clause allowed .ORDER (n := .orderBy) rfl).bind (fun _ => rfl) fun _ _ horderBy =>
    sides_limitClause.bind (fun _ => rfl) fun _ _ hlimit =>
      (sides_spanFrom start start').map fun _ _ _ => ?_
  simp only [Nonterminal.view] at hrelation hcondition hgroupBy hhaving horderBy
  simp only [QueriesMatch, Statement.mapLeadingCall, Statement.view, Query.view, viewFrom_eq, hitems,
    hrelation, hcondition, hgroupBy, hhaving, horderBy, hlimit]
  rfl

/-- The clauses behind a select list are steady. -/
theorem steady_fromRelation (start : Span) (quantifier : Option Quantifier) (items : List SelectItem) :
    Steady (fromRelation read start (Query.mk quantifier items)) := by
  have hsides : Sides [] 0 (QueriesMatch id) (fromRelation read start (Query.mk quantifier items))
      (fromRelation read start
        (Query.mk quantifier (items.modifyHead (SelectItem.mapLeadingCall id)))) :=
    sides_fromRelation start start quantifier rfl
  exact hsides.left

/-- Whether an expression may start with a token of this kind, and no negation does. -/
structure StartsOperand (kind : TokenKind) : Prop where
  star : kind ≠ .symbol .star
  not : kind ≠ .keyword .NOT
  all : kind ≠ .keyword .ALL
  distinct : kind ≠ .keyword .DISTINCT

/-- Queries are read alike if the operands they begin with are. -/
theorem ends_query (hs : s.Abreast 0 s') (hselect : s.cursor.current.kind = .keyword .SELECT)
    (hselect' : s'.cursor.current.kind = .keyword .SELECT)
    (hfirst : StartsOperand (s.skip 1).cursor.current.kind)
    (hfirst' : StartsOperand (s'.skip 1).cursor.current.kind)
    (hlt : rest.length < (s.skip 1).cursor.ahead.length)
    (hlt' : rest.length < (s'.skip 1).cursor.ahead.length)
    (h : Ends rest 0 (AtomsMatch g) (read .operand ((s.skip 1).deeper 1))
      (read .operand ((s'.skip 1).deeper 1))) :
    Ends rest 0 (QueriesMatch g) (read .query s) (read .query s') := by
  rw [read_eq_rule]
  show Ends rest 0 _ (queryRule read s) (queryRule read s')
  have hs₁ : (s.skip 1).Abreast 0 (s'.skip 1) := hs.leads (s.leads_skip 1) (s'.leads_skip 1)
  rw [queryRule_eq, bind_of_ok (keyword_eq_ok_iff.2 ⟨hselect, rfl, rfl⟩),
    bind_of_ok (keyword_eq_ok_iff.2 ⟨hselect', rfl, rfl⟩),
    bind_of_ok (quantifier_of_ne hfirst.all hfirst.distinct),
    bind_of_ok (quantifier_of_ne hfirst'.all hfirst'.distinct)]
  have hitems := (ends_selectItems hs₁ hfirst.star hfirst'.star hfirst.not hfirst'.not hlt hlt' h).recover
    (steady_read _) (steady_read _) hs₁
  have hsteady := fun (start : Span) (items : Option (List SelectItem)) =>
    steady_fromRelation start none (items.getD [])
  refine hitems.bind (hsteady _) (hsteady _) fun items items' t t' _ _ hab ht =>
    (sides_fromRelation _ _ none ?_).ends ht
  cases hab with
  | none => rfl
  | some hab => exact hab

/-- The input ends on both sides or on neither. -/
theorem sides_inputEnd : Sides rest 0 (fun _ _ => True) inputEnd inputEnd := by
  refine ⟨steady_inputEnd, steady_inputEnd, fun {s s'} hs => ?_⟩
  have hend : s'.cursor.current.isEnd = s.cursor.current.isEnd := congrArg (· == .endOfInput) hs.current
  cases h : s.cursor.current.isEnd with
  | true =>
    rw [inputEnd_of_isEnd h, inputEnd_of_isEnd (hend.trans h)]
    exact .ok trivial hs
  | false =>
    rw [inputEnd_apply hs.notRecovering.1, inputEnd_apply hs.notRecovering.2, hend, h]
    exact .failed

/-- The end of a statement is steady. -/
theorem steady_statementEnd (statement : Option Statement) : Steady (do
    let _ ← takeSymbol .semicolon
    inputEnd
    return statement) :=
  (steady_takeSymbol _).bind fun _ => steady_inputEnd.bind fun _ => steady_pure _

/-- What holds of the statements that two parses give, if they give any. -/
abbrev StatementsMatch (g : Call → Call) (a b : Option Statement) : Prop :=
  b.map (Statement.view .placeless) =
    a.map fun statement => (statement.mapLeadingCall g).view .placeless

/-- Statements are read alike if the operands they begin with are. -/
theorem ends_root (hs : s.Abreast 0 s') (hselect : s.cursor.current.kind = .keyword .SELECT)
    (hselect' : s'.cursor.current.kind = .keyword .SELECT)
    (h : Ends rest 0 (QueriesMatch g) (read .query s) (read .query s')) :
    Ends rest 0 (StatementsMatch g) (rootRule read s) (rootRule read s') := by
  have hstatement : Ends rest 0 (fun a b => b.view .placeless = (a.mapLeadingCall g).view .placeless)
      (statementRule read s) (statementRule read s') := by
    unfold statementRule
    rw [current_bind_apply, current_bind_apply]
    simp only [hselect, hselect']
    exact h.map fun _ _ hab => hab
  have hsteady := steady_statementRule (steady_read .query)
  have hoptional := hstatement.recover hsteady hsteady hs
  have hfound {u : State} (hu : u.cursor.current.kind = .keyword .SELECT) :
      optionalStatement read u = recover (statementRule read) u := by
    unfold optionalStatement
    rw [current_bind_apply]
    simp only [hu]
  rw [← hfound hselect, ← hfound hselect'] at hoptional
  refine hoptional.bind steady_statementEnd steady_statementEnd fun a b t t' _ _ hab ht => ?_
  have hmatch : StatementsMatch g a b := by
    cases hab with
    | none => rfl
    | some hab => exact congrArg some hab
  refine ((sides_takeSymbol .semicolon).bind (fun _ => rfl) fun _ _ _ =>
    sides_inputEnd.bind (fun _ => trivial) fun _ _ _ => sides_pure hmatch).ends ht

end Grammar

end SearchSql
