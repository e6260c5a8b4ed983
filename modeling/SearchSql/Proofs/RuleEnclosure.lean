import SearchSql.Proofs.Enclosure
import SearchSql.Proofs.Fuel

/-!
# What the rules pass

Every rule below a select list walks from one level of parentheses to the same level, one lemma for
each rule in the order of the grammar. The rules of most calls take the name of the call whatever it
is; they are only run where it is a name, and open a parenthesis right behind it. What may follow an
aggregate is the one place where `ORDER` can stand outside of parentheses.
-/

set_option autoImplicit false

namespace SearchSql

/-- Whatever may be a name is plain, reserved words at clauses are not among them. -/
theorem TokenKind.isPlain_of_isNameLike {kind : TokenKind} (h : kind.isNameLike = true) :
    kind.isPlain = true := by
  cases kind with
  | keyword word => cases word <;> first | rfl | cases h
  | symbol sign => cases h
  | _ => rfl

theorem TokenKind.isPlain_of_isNumber {kind : TokenKind} (h : kind.isNumber = true) :
    kind.isPlain = true := by
  cases kind with
  | keyword word => cases h
  | symbol sign => cases h
  | _ => rfl

theorem TokenKind.isPlain_of_bareWord? {kind : TokenKind} (h : kind.bareWord?.isSome = true) :
    kind.isPlain = true := by
  cases kind with
  | name value => rfl
  | _ => cases h

namespace Grammar

open SearchSql.Grammar.Parser

variable {α β : Type} {ordered : Bool} {k : Nat} {here : Token → Prop}

/-! ## Leaves -/

/-- A parser that takes the token under the cursor for what it is. -/
theorem walks_skip_pure (hplain : ∀ t, here t → t.kind.isPlain = true) (a : α) :
    WalksAt here ordered k k (Parser.skip 1 >>= fun _ => pure a) :=
  (walks_skip hplain).bind fun _ => walks_pure a

/-- A plain token that is taken leads to the same level. -/
theorem walks_take_pure (hplain : ∀ t, here t → t.kind.isPlain = true) (f : Span → α) :
    WalksAt here ordered k k (take >>= fun span => pure (f span)) :=
  (walks_take hplain).bind fun span => walks_pure (f span)

/-- A name behind a dot takes two tokens, of which neither is a parenthesis. -/
theorem walks_ident : Walks ordered k k ident := by
  refine walks_current_bind fun t => ?_
  split
  · next hkind => exact walks_take_pure (fun u hu => by rw [hu, hkind]; rfl) _
  · next hkind => exact walks_take_pure (fun u hu => by rw [hu, hkind]; rfl) _
  · next word hkind =>
    split
    · next hword =>
      exact walks_take_pure (fun u hu => by rw [hu, hkind]; exact TokenKind.isPlain_of_isNameLike hword) _
    · exact walks_rejectCurrent _
  · next hdot =>
    intro s hs
    have hcurrent : s.cursor.current.kind = .symbol .dot := hs ▸ hdot
    rw [peek_bind_apply]
    cases hname : (s.cursor.peek 1).kind with
    | name value =>
      have hnext : (s.skip 1).cursor.current.kind.isPlain = true := by
        rw [State.skip_cursor, Cursor.current_skip_one (isEnd_of_symbol hcurrent), hname]
        rfl
      exact (passes_plain (by rw [hcurrent]; rfl)).trans (passes_plain hnext)
    | _ => exact ⟨k, State.Passes.refl s⟩
  · exact walks_rejectCurrent _

/-- A name opens and closes nothing, nor does any other leaf. -/
theorem walks_qualifiedName : Walks ordered k k qualifiedName := by
  refine walks_ident.bind fun first => (walks_loop (fun found => ?_) _).bind fun found => walks_pure _
  refine walks_atSymbol_bind ?_ (walks_peek_bind 1 fun t => walks_pure _)
  refine walks_peek_bind 1 fun t => ?_
  split
  · refine (walks_skip fun u hu => ?_).bind fun _ => walks_ident.bind fun part => walks_pure _
    rw [hu]
    rfl
  · exact walks_pure _

theorem walks_optionalAlias : Walks ordered k k optionalAlias := by
  refine walks_takeKeyword_bind rfl (walks_ident.bind fun _ => walks_pure _) ?_
  refine walks_current_bind fun t => ?_
  split
  · exact (walks_ident.bind fun _ => walks_pure _).at
  · exact walks_pure _

theorem walks_weight : Walks ordered k k weight := by
  refine walks_current_bind fun t => ?_
  dsimp only
  split
  · exact walks_rejectCurrent_bind _ _
  · next hnumber =>
    have hplain : t.kind.isPlain = true := TokenKind.isPlain_of_isNumber (by simpa using hnumber)
    refine (walks_skip fun u (hu : u = t) => hu ▸ hplain).bind fun _ => ?_
    split
    · exact walks_pure _
    · exact walks_reject _

theorem walks_datetimeUnit : Walks ordered k k datetimeUnit := by
  refine walks_current_bind fun t => ?_
  split
  · next unit hunit =>
    refine walks_skip_pure (fun u (hu : u = t) => hu ▸ TokenKind.isPlain_of_bareWord? ?_) _
    cases hword : t.kind.bareWord? with
    | none => simp [hword] at hunit
    | some word => rfl
  · exact walks_rejectCurrent _

theorem walks_field : Walks ordered k k field := by
  refine walks_current_bind fun t => ?_
  split
  · next hkind => exact walks_take_pure (fun u hu => by rw [hu, hkind]; rfl) _
  · exact (walks_qualifiedName.bind fun _ => walks_pure _).at

theorem walks_weightedField : Walks ordered k k weightedField := by
  refine walks_field.bind fun field => ?_
  refine walks_takeSymbol_bind rfl (walks_weight.bind fun _ => walks_pure _) ?_
  refine walks_current_bind fun t => ?_
  split
  · exact (walks_weight.bind fun _ => walks_pure _).at
  · exact walks_pure _

theorem walks_fieldList : Walks ordered k k fieldList :=
  (walks_symbol rfl).bind fun _ => (walks_weightedField.commaSeparated _).bind fun _ =>
    (walks_symbol rfl).bind fun _ => walks_pure _

/-! ## Constants -/

theorem walks_number : Walks ordered k k number := by
  refine walks_current_bind fun start => ?_
  refine (walks_takeSymbol rfl).bind fun negative => ?_
  have hrest : Walks ordered k k (do
      let token ← current
      if !token.kind.isNumber then rejectCurrent "number"
      skip 1
      let span ← spanFrom start.span
      let text := if negative then "-" ++ token.text else token.text
      return (⟨← numberLiteral token.kind text span, span⟩ : Constant)) := by
    refine walks_current_bind fun t => ?_
    dsimp only
    split
    · exact walks_rejectCurrent_bind _ _
    · next hnumber =>
      have hplain : t.kind.isPlain = true := TokenKind.isPlain_of_isNumber (by simpa using hnumber)
      refine (walks_skip fun u (hu : u = t) => hu ▸ hplain).bind fun _ =>
        (walks_spanFrom _).bind fun span => WalksAt.bind ?_ fun _ => walks_pure _
      unfold numberLiteral
      split
      · split
        · exact walks_pure _
        · exact walks_malformedLiteral _ _ _ _
      · split
        · exact walks_pure _
        · exact walks_malformedLiteral _ _ _ _
  dsimp only
  split
  · exact (walks_takeSymbol rfl).bind fun _ => hrest
  · exact hrest

theorem walks_temporalLiteral (kind : TemporalKind) (text : String) (span : Span) :
    Walks ordered k k (temporalLiteral kind text span) := by
  refine walks_get_bind fun s => ?_
  split
  · exact walks_pure _
  · exact walks_malformedLiteral _ _ _ _

theorem walks_wordLiteral (kind : TemporalKind) (hplain : ∀ t, here t → t.kind.isPlain = true) :
    WalksAt here ordered k k (wordLiteral kind) :=
  (walks_take hplain).bind fun _ => walks_string.bind fun _ => (walks_spanFrom _).bind fun _ =>
    walks_temporalLiteral _ _ _

theorem walks_bracedLiteral : WalksAt here ordered k k bracedLiteral := by
  refine (walks_symbol rfl).bind fun start => walks_current_bind fun t => ?_
  split
  · next kind hkind =>
    refine (walks_skip fun u hu => ?_).bind fun _ => walks_string.bind fun _ =>
      (walks_symbol rfl).bind fun _ => (walks_spanFrom _).bind fun _ => walks_temporalLiteral _ _ _
    rw [hu]
    cases hw : t.kind with
    | keyword word =>
      rw [hw] at hkind
      cases word <;> first | rfl | cases hkind
    | symbol sign =>
      rw [hw] at hkind
      cases hkind
    | _ => rfl
  · exact walks_rejectCurrent _

theorem walks_datetimeConstant (name : DatetimeConstant)
    (hplain : ∀ t, here t → t.kind.isPlain = true) :
    WalksAt here ordered k k (datetimeConstant name) := by
  refine (walks_skip hplain).bind fun _ => walks_takeSymbol_bind rfl ?_ (walks_pure _)
  exact (walks_symbol rfl).bind fun _ => walks_pure _

/-! ## Rules -/

/-- The ways in which rules walk. -/
inductive Way where
  /-- The rule ends on the level it starts on. -/
  | level
  /-- The rule takes the parenthesis that closes its level. -/
  | closing
  /-- The rule takes a name, whatever token it is, and a parenthesis behind it. -/
  | opening
  /-- The rule may take the word `ORDER` outside of parentheses. -/
  | ordered
  /-- The rule takes a word that starts a clause. -/
  | clause

/-- A parser walks in the given way. -/
def Way.Of (p : Parser α) : Way → Prop
  | .level => ∀ ordered k, Walks ordered k k p
  | .closing => ∀ ordered k, Walks ordered (k + 1) k p
  | .opening => ∀ k, OpensAt (fun t => t.kind.isPlain = true) k k p
  | .ordered => ∀ k, Walks true k k p
  | .clause => True

/-- The way in which a rule walks. -/
def Nonterminal.way : {α : Type} → Nonterminal α → Way
  | _, .shape _ | _, .scalar _ | _, .ranking _ | _, .aggregate _ | _, .percentile _ | _, .score
  | _, .relevance _ | _, .position | _, .extract | _, .getFormat | _, .timestamp _ => .opening
  | _, .arguments => .closing
  | _, .aggregateTail _ | _, .orderBy => .ordered
  | _, .relation | _, .condition _ | _, .groupBy | _, .query => .clause
  | _, _ => .level

/-- All rules that the callee runs walk in their ways. -/
def Walking (c : Callee) : Prop := ∀ {α : Type} (n : Nonterminal α), n.way.Of (c n)

section

variable {c : Callee} (hc : Walking c)

include hc

/-- A callee on one level walks there. -/
theorem Walking.level {n : Nonterminal α} (hn : n.way = .level) : Walks ordered k k (c n) := by
  have hway := hc n
  rw [hn] at hway
  exact hway ordered k

/-- A callee behind an opening parenthesis closes it. -/
theorem Walking.closing {n : Nonterminal α} (hn : n.way = .closing) :
    Walks ordered (k + 1) k (c n) := by
  have hway := hc n
  rw [hn] at hway
  exact hway ordered k

/-- A callee that is a call opens a parenthesis of its own, and closes it. -/
theorem Walking.opening {n : Nonterminal α} (hn : n.way = .opening)
    (hplain : ∀ t, here t → t.kind.isPlain = true) : OpensAt here k k (c n) := by
  have hway := hc n
  rw [hn] at hway
  exact fun s hs => hway k s (hplain _ hs)

/-- A callee that may pass `ORDER` walks on an ordered way. -/
theorem Walking.ordering {n : Nonterminal α} (hn : n.way = .ordered) : Walks true k k (c n) := by
  have hway := hc n
  rw [hn] at hway
  exact hway k

/-! ### Expressions -/

theorem Walking.wholeExprs (rule : String) :
    Walks ordered k k (Parser.commaSeparated rule (c .wholeExpr)) :=
  Walks.commaSeparated (hc.level rfl) rule

/-- An expression stays on its level. -/
theorem walks_exprRule (least : Nat) : Walks ordered k k (exprRule c least) := by
  refine WalksAt.nest (WalksAt.bind ?_ fun left => walks_loop (fun left => ?_) _) 1
  · refine walks_atKeyword_bind ?_ ((hc.level rfl).bind fun _ => walks_pure _)
    refine (walks_take fun u (hu : u.kind = _) => by rw [hu]; rfl).bind fun start => ?_
    exact (hc.level rfl).bind fun _ => (walks_spanFrom _).bind fun _ => walks_pure _
  · refine walks_current_bind fun t => ?_
    split
    · exact walks_pure _
    · next op hop =>
      have hplain : t.kind.isPlain = true := by
        unfold Connective.ofKind? at hop
        split at hop <;> simp_all [TokenKind.isPlain, Keyword.startsClause]
      dsimp only
      split
      · exact walks_pure _
      · refine (walks_skip fun u (hu : u = t) => hu ▸ hplain).bind fun _ => ?_
        exact (hc.level rfl).bind fun _ => walks_pure _

theorem walks_testRule (left : Predicate) (test : Test) :
    Walks ordered k k (testRule c left test) := by
  cases test with
  | comparison op => exact (hc.level rfl).bind fun _ => walks_pure _
  | isNull negated => exact (walks_keyword rfl (by decide)).bind fun _ => walks_pure _
  | between negated =>
    exact (hc.level rfl).bind fun _ => (walks_keyword rfl (by decide)).bind fun _ =>
      (hc.level rfl).bind fun _ => walks_pure _
  | like negated => exact (hc.level rfl).bind fun _ => walks_pure _
  | regexp negated => exact (hc.level rfl).bind fun _ => walks_pure _
  | within negated =>
    exact opens_leftParen.walks.bind fun _ => (hc.wholeExprs _).bind fun _ =>
      (walks_symbol rfl).bind fun _ => (walks_spanFrom _).bind fun _ => walks_pure _

omit hc in
/-- The words and signs of a test are plain. -/
theorem isPlain_of_ofKinds? {first second third : TokenKind} {test : Test} {width : Nat}
    (h : Test.ofKinds? first second third = some (test, width)) :
    first.isPlain = true ∧ first ≠ .endOfInput ∧
      (width = 1 ∨ width = 2 ∧ second.isPlain = true) := by
  have hword {negated : Bool} {first second : TokenKind} {test : Test}
      (h : Test.ofWord? negated first second = some test) :
      first.isPlain = true ∧ first ≠ .endOfInput := by
    unfold Test.ofWord? at h
    split at h <;> first | exact ⟨rfl, nofun⟩ | cases h
  unfold Test.ofKinds? at h
  split at h
  all_goals first
    | obtain ⟨-, rfl⟩ := Prod.mk.inj (Option.some.inj h)
      first | exact ⟨rfl, nofun, .inl rfl⟩ | exact ⟨rfl, nofun, .inr ⟨rfl, rfl⟩⟩
    | obtain ⟨_, hof, heq⟩ := Option.map_eq_some_iff.1 h
      obtain ⟨-, rfl⟩ := Prod.mk.inj heq
      first | exact ⟨rfl, nofun, .inr ⟨rfl, (hword hof).1⟩⟩ | exact ⟨(hword hof).1, (hword hof).2, .inl rfl⟩

omit hc in
/-- The tokens of a test open and close nothing. -/
theorem passes_test {s : State} {test : Test} {width : Nat}
    (h : Test.at? s.cursor = some (test, width)) : s.Passes ordered k k (s.skip width) := by
  obtain ⟨hfirst, hend, hwidth⟩ := isPlain_of_ofKinds? h
  rw [Cursor.peek_zero] at hfirst hend
  obtain rfl | ⟨rfl, hsecond⟩ := hwidth
  · exact passes_plain hfirst
  · refine State.Passes.trans (passes_plain hfirst) (t := s.skip 1) (passes_plain ?_)
    rw [State.skip_cursor, Cursor.current_skip_one (isEnd_eq_false hend)]
    exact hsecond

theorem walks_predicateRule (least : Nat) : Walks ordered k k (predicateRule c least) := by
  refine (hc.level rfl).bind fun left => walks_loop (fun left s _ => ?_) _
  rw [predicateStep, get_bind_apply]
  cases htest : Test.at? s.cursor with
  | none => exact State.Passes.refl s
  | some found =>
    obtain ⟨test, width⟩ := found
    dsimp only
    split
    · exact State.Passes.refl s
    · rw [skip_bind_apply]
      exact (passes_test htest).endsWalk
        (((walks_testRule hc left test).bind fun _ => walks_pure _) _ trivial)

theorem walks_arithmeticRule (least : Nat) : Walks ordered k k (arithmeticRule c least) := by
  refine (hc.level rfl).bind fun left => walks_loop (fun left => ?_) _
  refine walks_current_bind fun t => ?_
  split
  · exact walks_pure _
  · next op hop =>
    have hplain : t.kind.isPlain = true := by
      unfold ArithmeticOp.ofKind? at hop
      split at hop <;> simp_all [TokenKind.isPlain]
    dsimp only
    split
    · exact walks_pure _
    · refine (walks_skip fun u (hu : u = t) => hu ▸ hplain).bind fun _ => ?_
      exact (hc.level rfl).bind fun _ => walks_pure _

theorem walks_operandRule : Walks ordered k k (operandRule c) := by
  refine walks_get_bind fun s => ?_
  dsimp only
  split
  · refine WalksAt.bind (walks_current_bind fun _ => ?_) fun _ => walks_pure _
    exact ((hc.level rfl).bind fun _ => (walks_spanFrom _).bind fun _ => walks_pure _).at
  · split
    · exact hc.level rfl
    · exact (hc.level rfl).bind fun _ => walks_pure _
    · exact (hc.level rfl).bind fun _ => walks_pure _
    · exact walks_qualifiedName.bind fun _ => walks_pure _
    · exact walks_reject _

/-- What stands in parentheses is on the level above, and they are closed. -/
theorem walks_parenthesizedRule : Walks ordered k k (parenthesizedRule c) :=
  opens_leftParen.walks.bind fun _ => (hc.level rfl).bind fun _ =>
    (walks_symbol rfl).bind fun _ => (walks_spanFrom _).bind fun _ => walks_pure _

theorem walks_intervalRule : Walks ordered k k (intervalRule c) :=
  (walks_keyword rfl (by decide)).bind fun _ => (hc.level rfl).bind fun _ =>
    walks_datetimeUnit.bind fun _ => walks_pure _

theorem walks_constantRule : Walks ordered k k (constantRule c) := by
  refine walks_current_bind fun t => ?_
  split
  iterate 4 exact walks_number.at
  refine walks_current_bind fun start => ?_
  refine WalksAt.bind (walks_current_bind fun t => ?_) fun _ => (walks_spanFrom _).bind fun _ => walks_pure _
  split
  · next hkind => exact walks_skip_pure (fun u (hu : u = t) => by rw [hu, hkind]; rfl) _
  · exact walks_bracedLiteral
  · next hkind => exact walks_skip_pure (fun u (hu : u = t) => by rw [hu, hkind]; rfl) _
  · next hkind => exact walks_skip_pure (fun u (hu : u = t) => by rw [hu, hkind]; rfl) _
  · next hkind => exact walks_skip_pure (fun u (hu : u = t) => by rw [hu, hkind]; rfl) _
  · exact (hc.level rfl).at
  · next word _ _ _ _ hkind =>
    split
    · next kind hword =>
      refine walks_wordLiteral kind fun u (hu : u = t) => ?_
      rw [hu, hkind]
      cases word <;> first | rfl | cases hword
    · exact walks_rejectCurrent _
  · next hkind =>
    split
    · exact walks_datetimeConstant _ fun u (hu : u = t) => by rw [hu, hkind]; rfl
    · exact walks_rejectCurrent _
  · exact walks_rejectCurrent _

/-! ### Calls -/

omit hc in
theorem opens_nestedAll (hplain : ∀ t, here t → t.kind.isPlain = true) :
    OpensAt here k k nestedAll :=
  (opens_callName hplain).bind fun _ => walks_qualifiedName.bind fun _ =>
    (walks_symbol rfl).bind fun _ => (walks_symbol rfl).bind fun _ => (walks_symbol rfl).bind fun _ =>
      walks_pure _

omit hc in
theorem walks_optionName (names : List String) (expected : String) :
    Walks ordered k k (optionName names expected) := by
  refine walks_current_bind fun t => ?_
  split
  · next hkind =>
    split
    · exact walks_skip_pure (fun u (hu : u = t) => by rw [hu, hkind]; rfl) _
    · exact walks_rejectCurrent _
  · exact walks_rejectCurrent _

omit hc in
theorem opens_highlight (hplain : ∀ t, here t → t.kind.isPlain = true) :
    OpensAt here k k highlight := by
  refine (opens_callName hplain).bind fun _ => walks_field.bind fun field =>
    WalksAt.bind (l := k + 1) ?_ fun options => (walks_symbol rfl).bind fun _ => walks_pure _
  refine (walks_loop (fun options => ?_) _).bind fun options => walks_pure _
  refine walks_takeSymbol_bind rfl ?_ (walks_pure _)
  exact (walks_optionName _ _).bind fun _ => (walks_symbol rfl).bind fun _ =>
    walks_string.bind fun _ => walks_pure _

omit hc in
/-- The word for a type stands between parentheses, where it may be any word. -/
theorem walks_dataType : Walks true (k + 1) (k + 1) dataType := by
  refine walks_current_bind fun t => ?_
  dsimp only
  split
  · next target htarget =>
    refine WalksAt.bind (fun s hs => ?_) fun _ => walks_pure _
    have hend : s.cursor.current.isEnd = false := by
      refine isEnd_eq_false fun hkind => ?_
      rw [← (hs : _ = t), hkind] at htarget
      cases htarget
    refine passes_step hend ?_ nofun
    rw [(hs : _ = t)]
    cases hkind : t.kind with
    | symbol sign =>
      rw [hkind] at htarget
      cases htarget
    | keyword word => simp [levelAfter?]
    | _ => rfl
  · exact walks_rejectCurrent _

omit hc in
theorem walks_formatTarget : Walks ordered k k formatTarget := by
  refine walks_current_bind fun t => ?_
  split
  iterate 4 
    next hkind => exact walks_skip_pure (fun u (hu : u = t) => by rw [hu, hkind]; rfl) _
  exact walks_rejectCurrent _

omit hc in
theorem walks_singleUnit : Walks ordered k k singleUnit := by
  refine walks_current_bind fun t => ?_
  refine WalksAt.bind walks_datetimeUnit.at fun unit => ?_
  dsimp only
  split
  · exact walks_reject _
  · exact walks_pure _

/-- Arguments end with the parenthesis that was open in front of them. -/
theorem walks_argumentsRule : Walks ordered (k + 1) k (argumentsRule c) := by
  refine walks_takeSymbol_bind rfl (walks_pure _) ?_
  exact (hc.wholeExprs _).bind fun _ => (walks_symbol rfl).bind fun _ => walks_pure _

theorem opens_scalarRule (category : ScalarCategory)
    (hplain : ∀ t, here t → t.kind.isPlain = true) : OpensAt here k k (scalarRule c category) :=
  (opens_callName hplain).bind fun _ => (hc.closing rfl).bind fun _ => walks_pure _

theorem walks_caseBranches : Walks ordered k k (caseBranches c) := by
  rw [caseBranches_eq]
  refine (walks_loop (fun branches => ?_) _).bind fun branches => walks_pure _
  refine walks_takeKeyword_bind rfl ?_ (walks_pure _)
  exact (hc.level rfl).bind fun _ => (walks_keyword rfl (by decide)).bind fun _ =>
    (hc.level rfl).bind fun _ => walks_pure _

theorem walks_caseEnd (operand : Option Expr) (branches : List CaseBranch) :
    Walks ordered k k (caseEnd c operand branches) := by
  have hend (otherwise : Option Expr) : Walks ordered k k (do
      let _ ← keyword .END
      return CallShape.case operand branches otherwise) :=
    (walks_keyword rfl (by decide)).bind fun _ => walks_pure _
  unfold caseEnd
  dsimp only
  split
  · exact walks_rejectCurrent_bind _ _
  · exact walks_takeKeyword_bind rfl (((hc.level rfl).map some).bind hend)
      ((walks_pure none).bind hend)

theorem walks_caseRule : Walks ordered k k (caseRule c) := by
  have hrest (operand : Option Expr) : Walks ordered k k (do
      let branches ← caseBranches c
      caseEnd c operand branches) :=
    (walks_caseBranches hc).bind fun branches => walks_caseEnd hc operand branches
  refine (walks_keyword rfl (by decide)).bind fun _ => walks_atKeyword_bind ?_ ?_
  · exact ((walks_pure none).bind hrest).at
  · exact ((hc.level rfl).map some).bind hrest

theorem walks_castRule : Walks ordered k k (castRule c) := by
  have hrest : OpensAt (fun _ => True) k k (symbol .leftParen >>= fun _ => do
      let expr ← c .wholeExpr
      let _ ← keyword .AS
      let target ← dataType
      let _ ← symbol .rightParen
      return CallShape.cast expr target) :=
    opens_leftParen.bind fun _ => (hc.level rfl).bind fun _ => (walks_keyword rfl (by decide)).bind fun _ =>
      walks_dataType.bind fun _ => (walks_symbol rfl).bind fun _ => walks_pure _
  exact (walks_keyword rfl (by decide)).bind fun _ => hrest.walks

theorem opens_positionRule (hplain : ∀ t, here t → t.kind.isPlain = true) :
    OpensAt here k k (positionRule c) :=
  (opens_callName hplain).bind fun _ => (WalksAt.atSeparator (hc.level rfl)).bind fun _ =>
    (walks_keyword rfl (by decide)).bind fun _ => (hc.level rfl).bind fun _ =>
      (walks_symbol rfl).bind fun _ => walks_pure _

theorem opens_extractRule (hplain : ∀ t, here t → t.kind.isPlain = true) :
    OpensAt here k k (extractRule c) :=
  (opens_callName hplain).bind fun _ => walks_datetimeUnit.bind fun _ =>
    (walks_keyword rfl (by decide)).bind fun _ => (hc.level rfl).bind fun _ =>
      (walks_symbol rfl).bind fun _ => walks_pure _

theorem opens_getFormatRule (hplain : ∀ t, here t → t.kind.isPlain = true) :
    OpensAt here k k (getFormatRule c) :=
  (opens_callName hplain).bind fun _ => walks_formatTarget.bind fun _ =>
    (walks_symbol rfl).bind fun _ => (hc.level rfl).bind fun _ =>
      (walks_symbol rfl).bind fun _ => walks_pure _

theorem opens_timestampRule (function : TimestampFunction)
    (hplain : ∀ t, here t → t.kind.isPlain = true) :
    OpensAt here k k (timestampRule c function) :=
  (opens_callName hplain).bind fun _ => walks_singleUnit.bind fun _ =>
    (walks_symbol rfl).bind fun _ => (hc.level rfl).bind fun _ =>
      (walks_symbol rfl).bind fun _ => (hc.level rfl).bind fun _ =>
        (walks_symbol rfl).bind fun _ => walks_pure _

/-- A call is complete, with its parentheses, before anything that may follow an aggregate. -/
theorem opens_shapeRule (family : FunctionFamily) (hplain : ∀ t, here t → t.kind.isPlain = true) :
    OpensAt here k k (shapeRule c family) := by
  cases family with
  | nested =>
    intro s hs
    show EndsOpening k k s ((if startsNestedAll s.cursor.ahead then nestedAll
      else c (.scalar .nested)) s)
    split
    · exact opens_nestedAll hplain s hs
    · exact hc.opening rfl hplain s hs
  | scalar category => exact hc.opening rfl hplain
  | ranking function => exact hc.opening rfl hplain
  | aggregate function => exact (hc.opening rfl hplain).bind fun a => hc.ordering rfl
  | percentile function => exact (hc.opening rfl hplain).bind fun a => hc.ordering rfl
  | score => exact hc.opening rfl hplain
  | relevance kind => exact (hc.opening rfl hplain).bind fun _ => walks_pure _
  | highlight => exact opens_highlight hplain
  | position => exact hc.opening rfl hplain
  | extract => exact hc.opening rfl hplain
  | getFormat => exact hc.opening rfl hplain
  | timestamp function => exact hc.opening rfl hplain

theorem walks_callRule : Walks ordered k k (callRule c) := by
  refine WalksAt.nest (walks_current_bind fun start => WalksAt.at (WalksAt.bind ?_ fun shape =>
    (walks_spanFrom _).bind fun _ => walks_pure _)) 1
  refine walks_current_bind fun t => ?_
  split
  · exact (hc.level rfl).at
  · exact (hc.level rfl).at
  iterate 4
    next hkind =>
      exact (hc.opening rfl fun u (hu : u = t) => by rw [hu, hkind]; rfl).walks
  · next hkind =>
    split
    · exact (hc.opening rfl fun u (hu : u = t) => by rw [hu, hkind]; rfl).walks
    · exact walks_reject _
  · exact walks_reject _

/-! ### Aggregates -/

theorem opens_aggregateRule (function : AggregateFunction)
    (hplain : ∀ t, here t → t.kind.isPlain = true) :
    OpensAt here k k (aggregateRule c function) := by
  have hregular : Walks true (k + 1) (k + 1) (do
      return Aggregate.regular function (← c .wholeExpr)) :=
    (hc.level rfl).bind fun _ => walks_pure _
  have hform : Walks true (k + 1) (k + 1) (aggregateRule.form c function) := by
    unfold aggregateRule.form
    dsimp only
    split
    · refine walks_takeSymbol_bind rfl (walks_pure _) ?_
      exact walks_takeKeyword_bind rfl ((hc.wholeExprs _).bind fun _ => walks_pure _) hregular
    · exact hregular
  exact (opens_callName hplain).bind fun _ => hform.bind fun _ => (walks_symbol rfl).bind fun _ =>
    walks_pure _

theorem opens_percentileRule (function : PercentileFunction)
    (hplain : ∀ t, here t → t.kind.isPlain = true) :
    OpensAt here k k (percentileRule c function) := by
  refine (opens_callName hplain).bind fun _ => (hc.level rfl).bind fun field =>
    (walks_symbol rfl).bind fun _ => walks_number.bind fun percent => ?_
  have hend (compression : Option Constant) : Walks true (k + 1) k (do
      let _ ← symbol .rightParen
      return Aggregate.percentile function field percent compression) :=
    (walks_symbol rfl).bind fun _ => walks_pure _
  exact walks_takeSymbol_bind rfl ((walks_number.map some).bind hend) ((walks_pure none).bind hend)

/-- An order passes the word `ORDER`. -/
theorem walks_orderByRule : Walks true k k (orderByRule c) :=
  walks_order.bind fun _ => (walks_keyword rfl (by decide)).bind fun _ =>
    (Walks.commaSeparated (hc.level rfl) _).bind fun _ => (walks_spanFrom _).bind fun _ =>
      walks_pure _

omit hc in
theorem walks_direction : Walks ordered k k direction :=
  walks_takeKeyword_bind rfl (walks_pure _) (walks_takeKeyword_bind rfl (walks_pure _) (walks_pure _))

omit hc in
theorem walks_nullOrder : Walks ordered k k nullOrder := by
  refine walks_takeKeyword_bind rfl ?_ (walks_pure _)
  exact walks_takeKeyword_bind rfl (walks_pure _)
    (walks_takeKeyword_bind rfl (walks_pure _) (walks_rejectCurrent_bind _ _))

theorem walks_orderItemRule : Walks ordered k k (orderItemRule c) :=
  (hc.level rfl).bind fun _ => walks_direction.bind fun _ => walks_nullOrder.bind fun _ =>
    walks_pure _

theorem walks_partitionBy : Walks ordered k k (partitionBy c) := by
  refine walks_atKeyword_bind ?_ (walks_pure _)
  refine (walks_take fun u (hu : u.kind = _) => by rw [hu]; rfl).bind fun start => ?_
  exact (walks_keyword rfl (by decide)).bind fun _ => (hc.wholeExprs _).bind fun _ =>
    (walks_spanFrom _).bind fun _ => walks_pure _

/-- A window stands in parentheses. -/
theorem opens_windowRule : OpensAt here k k (windowRule c) := by
  refine (walks_keyword rfl (by decide)).bind_opens fun start => opens_leftParen.bind fun _ =>
    (walks_partitionBy hc).bind fun partition => ?_
  have hend (orderBy : Option OrderBy) : Walks true (k + 1) k (do
      let _ ← symbol .rightParen
      return Window.mk partition orderBy (← spanFrom start)) :=
    (walks_symbol rfl).bind fun _ => (walks_spanFrom _).bind fun _ => walks_pure _
  exact walks_atKeyword_bind (((hc.ordering rfl).map some).bind hend).at ((walks_pure none).bind hend)

/-- So does the condition of a filter. -/
theorem opens_filterRule : OpensAt here k k (filterRule c) :=
  (walks_keyword rfl (by decide)).bind_opens fun _ => opens_leftParen.bind fun _ =>
    (walks_keyword rfl (by decide)).bind fun _ => (hc.level rfl).bind fun _ =>
      (walks_symbol rfl).bind fun _ => (walks_spanFrom _).bind fun _ => walks_pure _

theorem opens_rankingRule (function : RankingFunction)
    (hplain : ∀ t, here t → t.kind.isPlain = true) :
    OpensAt here k k (rankingRule c function) :=
  (opens_callName hplain).bind fun _ => (hc.closing rfl).bind fun _ => (hc.level rfl).bind fun _ =>
    walks_pure _

theorem walks_orderedFilter : Walks true k k (orderedFilter c) :=
  (hc.ordering rfl).bind fun _ => (hc.level rfl).bind fun _ => walks_pure _

/-- An aggregate may be followed by an order, so its tail walks on an ordered way. -/
theorem walks_tailAround {ordered : Parser (Option (OrderBy × Filter))}
    (hordered : Walks true k k ordered) (aggregate : Aggregate) :
    Walks true k k (tailAround c aggregate ordered) := by
  refine walks_atKeyword_bind ((hc.level rfl).bind fun _ => walks_pure _).at ?_
  refine walks_atKeyword_bind ((hc.level rfl).bind fun _ => walks_pure _).at ?_
  refine walks_atKeyword_bind (hordered.bind fun found => ?_).at (walks_pure _)
  split <;> exact walks_pure _

/-! ### Full-text search -/

theorem walks_searchValueRule : Walks ordered k k (searchValueRule c) := by
  refine walks_get_bind fun s => ?_
  dsimp only
  split
  · exact (hc.level rfl).bind fun _ => walks_pure _
  · exact walks_qualifiedName.bind fun _ => walks_pure _

omit hc in
theorem walks_relevanceOptionName : Walks ordered k k relevanceOptionName := by
  refine walks_current_bind fun t => ?_
  split
  · next hkind => exact walks_skip_pure (fun u (hu : u = t) => by rw [hu, hkind]; rfl) _
  · exact ((walks_optionName _ _).bind fun _ => walks_pure _).at

theorem walks_relevanceOptionsRule : Walks ordered k k (relevanceOptionsRule c) := by
  rw [relevanceOptionsRule_eq]
  refine (walks_loop (fun options => ?_) _).bind fun options => walks_pure _
  refine walks_takeSymbol_bind rfl ?_ (walks_pure _)
  exact walks_relevanceOptionName.bind fun name => (walks_symbol rfl).bind fun _ =>
    (hc.level rfl).bind fun _ => walks_pure _

theorem walks_namedArgument : Walks ordered k k (namedArgument c) := by
  refine walks_current_bind fun t => ?_
  have hplain {word : String} (h : t.kind.isWord word = true) : t.kind.isPlain = true := by
    cases hkind : t.kind with
    | name value => rfl
    | _ => rw [hkind] at h; cases h
  split
  · next hword =>
    exact (walks_skip fun u (hu : u = t) => hu ▸ hplain hword).bind fun _ =>
      (walks_symbol rfl).bind fun _ => (hc.level rfl).bind fun _ => walks_pure _
  · split
    · next hword =>
      refine (walks_skip fun u (hu : u = t) => hu ▸ hplain hword).bind fun _ =>
        (walks_symbol rfl).bind fun _ => walks_atSymbol_bind ?_ ?_
      · exact (walks_fieldList.bind fun _ => walks_pure _).at
      · exact walks_weightedField.bind fun _ => walks_pure _
    · exact walks_rejectCurrent _

theorem walks_namedArgumentsRule : Walks ordered k k (namedArgumentsRule c) := by
  refine (walks_namedArgument hc).bind fun first => (walks_symbol rfl).bind fun _ =>
    (walks_namedArgument hc).bind fun second => ?_
  split
  · exact walks_pure _
  · exact walks_pure _
  · exact walks_rejectCurrent _
  · exact walks_rejectCurrent _

theorem walks_searchTarget (kind : RelevanceKind) : Walks ordered k k (searchTarget c kind) := by
  cases kind with
  | noField => exact (hc.level rfl).bind fun _ => walks_pure _
  | singleField =>
    exact walks_field.bind fun _ => (walks_symbol rfl).bind fun _ => (hc.level rfl).bind fun _ =>
      walks_pure _
  | multiField =>
    refine walks_current_bind fun t => WalksAt.at (walks_peek_bind 1 fun u => ?_)
    dsimp only
    split
    · exact (hc.level rfl).bind fun _ => walks_pure _
    · exact walks_fieldList.bind fun _ => (walks_symbol rfl).bind fun _ => (hc.level rfl).bind fun _ =>
        walks_pure _

/-- The arguments of a relevance function stand in parentheses. -/
theorem opens_relevanceRule (kind : RelevanceKind) (hplain : ∀ t, here t → t.kind.isPlain = true) :
    OpensAt here k k (relevanceRule c kind) :=
  (opens_callName hplain).bind fun _ => (walks_searchTarget hc kind).bind fun _ =>
    (hc.level rfl).bind fun _ => (walks_symbol rfl).bind fun _ => walks_pure _

theorem walks_fieldEqualsRule : Walks ordered k k (fieldEqualsRule c) := by
  refine walks_field.bind fun field => (walks_symbol rfl).bind fun _ => walks_current_bind fun t => ?_
  split
  · next kind hkind =>
    have hplain : t.kind.isPlain = true := by
      refine TokenKind.isPlain_of_bareWord? ?_
      cases hword : t.kind.bareWord? with
      | none => simp [hword] at hkind
      | some word => rfl
    exact ((opens_callName fun u (hu : u = t) => hu ▸ hplain).bind fun _ => (hc.level rfl).bind fun _ =>
      (hc.level rfl).bind fun _ => (walks_symbol rfl).bind fun _ => walks_pure _).walks
  · exact walks_rejectCurrent _

theorem walks_scoredRelevance : Walks ordered k k (scoredRelevance c) := by
  refine walks_get_bind fun s => ?_
  dsimp only
  split
  · exact hc.level rfl
  · refine walks_current_bind fun t => ?_
    split
    · next kind hkind =>
      have hplain : t.kind.isPlain = true := by
        refine TokenKind.isPlain_of_bareWord? ?_
        cases hword : t.kind.bareWord? with
        | none => simp [hword] at hkind
        | some word => rfl
      exact (hc.opening rfl fun u (hu : u = t) => hu ▸ hplain).walks
    · exact walks_reject _

theorem opens_scoreRule (hplain : ∀ t, here t → t.kind.isPlain = true) :
    OpensAt here k k (scoreRule c) := by
  refine (opens_callName hplain).bind fun name => (walks_scoredRelevance hc).bind fun relevance => ?_
  have hend (boost : Option Number.Binary64) : Walks true (k + 1) k (do
      let _ ← symbol .rightParen
      return CallShape.score name relevance boost) :=
    (walks_symbol rfl).bind fun _ => walks_pure _
  exact walks_takeSymbol_bind rfl ((walks_weight.map some).bind hend) ((walks_pure none).bind hend)

/-! ### Select lists -/

omit hc in
theorem walks_quantifier : Walks ordered k k quantifier :=
  walks_takeKeyword_bind rfl (walks_pure _) (walks_takeKeyword_bind rfl (walks_pure _) (walks_pure _))

theorem walks_selectItemRule (starAllowed : Bool) :
    Walks ordered k k (selectItemRule c starAllowed) := by
  have hexpr : Walks ordered k k (do
      let expr ← c .wholeExpr
      return SelectItem.expr expr (← optionalAlias)) :=
    (hc.level rfl).bind fun _ => walks_optionalAlias.bind fun _ => walks_pure _
  cases starAllowed with
  | false => exact hexpr
  | true =>
    refine walks_atSymbol_bind ?_ hexpr
    exact (walks_take fun u (hu : u.kind = _) => by rw [hu]; rfl).bind fun _ => walks_pure _

end

/-- Every rule walks in its way, if the rules that it goes on to do. -/
theorem Walking.rule {c : Callee} (hc : Walking c) : Walking (fun n => Grammar.rule c n) := by
  intro α n
  cases n with
  | expr least => exact fun _ _ => walks_exprRule hc least
  | predicate least => exact fun _ _ => walks_predicateRule hc least
  | arithmetic least => exact fun _ _ => walks_arithmeticRule hc least
  | operand => exact fun _ _ => walks_operandRule hc
  | parenthesized => exact fun _ _ => walks_parenthesizedRule hc
  | constant => exact fun _ _ => walks_constantRule hc
  | interval => exact fun _ _ => walks_intervalRule hc
  | call => exact fun _ _ => walks_callRule hc
  | shape family => exact fun _ => opens_shapeRule hc family fun _ h => h
  | arguments => exact fun _ _ => walks_argumentsRule hc
  | scalar category => exact fun _ => opens_scalarRule hc category fun _ h => h
  | case => exact fun _ _ => walks_caseRule hc
  | cast => exact fun _ _ => walks_castRule hc
  | ranking function => exact fun _ => opens_rankingRule hc function fun _ h => h
  | aggregate function => exact fun _ => opens_aggregateRule hc function fun _ h => h
  | percentile function => exact fun _ => opens_percentileRule hc function fun _ h => h
  | aggregateTail aggregate => 
    exact fun _ => walks_tailAround hc ((walks_orderedFilter hc).attempt _) aggregate
  | window => exact fun _ _ => (opens_windowRule hc).walks
  | filter => exact fun _ _ => (opens_filterRule hc).walks
  | orderBy => exact fun _ => walks_orderByRule hc
  | orderItem => exact fun _ _ => walks_orderItemRule hc
  | score => exact fun _ => opens_scoreRule hc fun _ h => h
  | relevance kind => exact fun _ => opens_relevanceRule hc kind fun _ h => h
  | fieldEquals => exact fun _ _ => walks_fieldEqualsRule hc
  | namedArguments => exact fun _ _ => walks_namedArgumentsRule hc
  | searchValue => exact fun _ _ => walks_searchValueRule hc
  | relevanceOptions => exact fun _ _ => walks_relevanceOptionsRule hc
  | position => exact fun _ => opens_positionRule hc fun _ h => h
  | extract => exact fun _ => opens_extractRule hc fun _ h => h
  | getFormat => exact fun _ => opens_getFormatRule hc fun _ h => h
  | timestamp function => exact fun _ => opens_timestampRule hc function fun _ h => h
  | selectItems => exact fun _ _ => WalksAt.commaList (hc.level rfl) (hc.level rfl) "select element"
  | selectItem starAllowed => exact fun _ _ => walks_selectItemRule hc starAllowed
  | relation => trivial
  | condition word => trivial
  | groupBy => trivial
  | query => trivial

/-- A parser that only fails walks in any way. -/
theorem Way.of_throw (way : Way) : way.Of (throw .outOfFuel : Parser α) := by
  cases way with
  | level => exact fun _ k s _ => ⟨k, State.Passes.refl s⟩
  | closing => exact fun _ k s _ => ⟨k + 1, State.Passes.refl s⟩
  | opening => exact fun k s _ => ⟨k, State.Passes.refl s⟩
  | ordered => exact fun k s _ => ⟨k, State.Passes.refl s⟩
  | clause => trivial

/-- All rules walk in their ways, by induction on the rules that follow one another. -/
theorem walking_derive (fuel : Nat) : Walking (derive fuel) := by
  induction fuel with
  | zero => exact fun n => n.way.of_throw
  | succ fuel ih => exact ih.rule

/-- All rules walk in their ways. -/
theorem walking_read : Walking read := by
  intro α n
  have hway (fuel : Nat) := walking_derive fuel n
  unfold read
  cases hn : n.way with
  | level => exact fun ordered k s hs => (hn ▸ hway _ : Way.Of _ .level) ordered k s hs
  | closing => exact fun ordered k s hs => (hn ▸ hway _ : Way.Of _ .closing) ordered k s hs
  | opening => exact fun k s hs => (hn ▸ hway _ : Way.Of _ .opening) k s hs
  | ordered => exact fun k s hs => (hn ▸ hway _ : Way.Of _ .ordered) k s hs
  | clause => trivial

end Grammar

end SearchSql
