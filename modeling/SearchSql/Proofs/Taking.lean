import SearchSql.Proofs.RuleEnclosure

/-!
# Items take tokens

A list with commas checks of each of its items that it has taken a token. It need not: each rule that
stands as an item takes one whenever it succeeds (`ItemRule.consumes`). Whatever the tokens are, an
expression begins with a token that its first operand takes: an opening parenthesis, a constant, a
name, or what a call begins with. A call takes a parenthesis behind its name, so that what
`RuleEnclosure` says about parentheses settles it. Only what is behind an aggregate, and the options
of a search, may be made of no token at all.
-/

set_option autoImplicit false

namespace SearchSql

/-- A number is not the end. -/
theorem Token.isEnd_of_isNumber {t : Token} (h : t.kind.isNumber = true) : t.isEnd = false := by
  apply Grammar.isEnd_eq_false
  intro hkind
  rw [hkind] at h
  cases h

namespace Grammar

open SearchSql.Grammar.Parser

variable {α β : Type} {s t : State}

/-! ## Combining parsers -/

/-- What has taken a token goes on with what is steady. -/
theorem Consumes.bind {p : Parser α} {f : α → Parser β} (hp : Consumes p)
    (hf : ∀ a, Steady (f a)) : Consumes (p >>= f) where
  steady := hp.steady.bind hf
  taken h := by
    obtain ⟨a, u, hu, hrest⟩ := bind_eq_ok_iff.1 h
    exact Nat.lt_of_le_of_lt ((hf a).leads hrest).ahead.length_le (hp.taken hu)

/-- What comes first need not take a token. -/
theorem consumes_behind {p : Parser α} {f : α → Parser β} (hp : Steady p)
    (hf : ∀ a, Consumes (f a)) : Consumes (p >>= f) where
  steady := hp.bind fun a => (hf a).steady
  taken h := by
    obtain ⟨a, u, hu, hrest⟩ := bind_eq_ok_iff.1 h
    exact Nat.lt_of_lt_of_le ((hf a).taken hrest) (hp.leads hu).ahead.length_le

/-- What asks for a word is steady if it is for both answers. -/
theorem steady_atKeyword_bind {word : Keyword} {f : Bool → Parser α} (h : ∀ here, Steady (f here)) :
    Steady (atKeyword word >>= f) := steady_current_bind fun t => h (t.kind == .keyword word)

/-- What looks at the state takes a token if it does for every state. -/
theorem consumes_get_bind {f : State → Parser α} (h : ∀ s, Consumes (f s)) :
    Consumes (get >>= f) :=
  ⟨steady_get_bind fun s => (h s).steady, fun {s _ _} heq => (h s).taken heq⟩

/-- A failure has no successful runs, so all of them have taken a token. -/
theorem consumes_reject (d : Diagnostic) : Consumes (reject d : Parser α) :=
  ⟨steady_reject d, fun h => absurd h reject_ne_ok⟩

theorem consumes_rejectCurrent (expected : String) :
    Consumes (rejectCurrent expected : Parser α) :=
  ⟨steady_current_bind fun _ => steady_reject _, fun h => absurd h rejectCurrent_ne_ok⟩

/-- What is taken on further levels is taken. -/
theorem Consumes.nest {p : Parser α} (hp : Consumes p) (cost : Nat) : Consumes (nest cost p) where
  steady := hp.steady.nest
  taken h := by
    obtain ⟨-, u, hu, rfl⟩ := nest_eq_ok_iff.1 h
    have hlt := hp.taken hu
    exact hlt

/-- The parser takes a token whenever it is run in front of `t`. -/
def ConsumesAt (t : Token) (p : Parser α) : Prop :=
  Steady p ∧ ∀ {s u : State} {a : α}, s.cursor.current = t → p s = .ok a u →
    u.cursor.ahead.length < s.cursor.ahead.length

/-- What always takes a token does so in front of any. -/
theorem Consumes.at {p : Parser α} (hp : Consumes p) (t : Token) : ConsumesAt t p :=
  ⟨hp.steady, fun _ h => hp.taken h⟩

/-- What has taken the token in front goes on with what is steady. -/
theorem ConsumesAt.bind {t : Token} {p : Parser α} {f : α → Parser β} (hp : ConsumesAt t p)
    (hf : ∀ a, Steady (f a)) : ConsumesAt t (p >>= f) := by
  refine ⟨hp.1.bind hf, fun hs h => ?_⟩
  obtain ⟨a, u, hu, hrest⟩ := bind_eq_ok_iff.1 h
  exact Nat.lt_of_le_of_lt ((hf a).leads hrest).ahead.length_le (hp.2 hs hu)

/-- What looks at the token in front need only take it in front of that token. -/
theorem consumes_current_bind {f : Token → Parser α} (h : ∀ t, ConsumesAt t (f t)) :
    Consumes (current >>= f) :=
  ⟨steady_current_bind fun t => (h t).1, fun {s _ _} heq => (h s.cursor.current).2 rfl heq⟩

/-- What asks for a sign may take it where it is, and something else where it is not. -/
theorem consumes_atSymbol_bind {sign : Symbol} {f : Bool → Parser α}
    (htrue : ∀ t : Token, t.kind = .symbol sign → ConsumesAt t (f true))
    (hfalse : Consumes (f false)) : Consumes (atSymbol sign >>= f) := by
  refine consumes_current_bind (f := fun t => f (t.kind == .symbol sign)) fun t => ?_
  cases hkind : t.kind == .symbol sign with
  | true => exact htrue t (eq_of_beq hkind)
  | false => exact hfalse.at t

/-- The same for a word. -/
theorem consumes_atKeyword_bind {word : Keyword} {f : Bool → Parser α}
    (htrue : ∀ t : Token, t.kind = .keyword word → ConsumesAt t (f true))
    (hfalse : Consumes (f false)) : Consumes (atKeyword word >>= f) := by
  refine consumes_current_bind (f := fun t => f (t.kind == .keyword word)) fun t => ?_
  cases hkind : t.kind == .keyword word with
  | true => exact htrue t (eq_of_beq hkind)
  | false => exact hfalse.at t

/-- What looks further ahead takes the token in front if it does whatever is ahead. -/
theorem consumesAt_peek_bind (k : Nat) {t : Token} {f : Token → Parser α}
    (h : ∀ u, ConsumesAt t (f u)) : ConsumesAt t (peek k >>= f) :=
  ⟨steady_get_bind fun s => (h (s.cursor.peek k)).1,
    fun {s _ _} hs heq => (h (s.cursor.peek k)).2 hs heq⟩

/-- A token that does not end the input is passed. -/
theorem consumesAt_skip {t : Token} (ht : t.isEnd = false) : ConsumesAt t (Parser.skip 1) := by
  refine ⟨steady_skip 1, fun {s u _} hs h => ?_⟩
  injection h with _ hu
  rw [← hu]
  exact ahead_skip_lt (hs ▸ ht) 0

/-- A token that is not the end is taken. -/
theorem consumesAt_take {t : Token} (ht : t.isEnd = false) : ConsumesAt t take := by
  refine ⟨steady_take, fun {s u _} hs h => ?_⟩
  rw [take, current_bind_apply] at h
  exact ((consumesAt_skip ht).bind fun _ => steady_pure _).2 hs h

/-- What passes an opening parenthesis takes a token. -/
theorem OpensAt.taken {here : Token → Prop} {k l : Nat} {p : Parser α} {a : α}
    (hp : OpensAt here k l p) (hs : here s.cursor.current) (h : p s = .ok a t) :
    t.cursor.ahead.length < s.cursor.ahead.length := by
  have hends := hp s hs
  rw [h] at hends
  obtain ⟨tokens, hahead, -, -, u, hu, -⟩ := hends
  rw [hahead, List.length_append]
  have hpos : 0 < tokens.length := List.length_pos_of_mem hu
  omega

/-! ## Tokens and names -/

theorem consumes_symbol (sign : Symbol) : Consumes (symbol sign) where
  steady := steady_symbol sign
  taken h := by
    obtain ⟨hkind, -, rfl⟩ := symbol_eq_ok_iff.1 h
    exact ahead_skip_lt (isEnd_of_symbol hkind) 0

theorem consumes_keyword (word : Keyword) : Consumes (keyword word) where
  steady := steady_keyword word
  taken h := by
    obtain ⟨hkind, -, rfl⟩ := keyword_eq_ok_iff.1 h
    exact ahead_skip_lt (isEnd_of_keyword hkind) 0

theorem consumes_ident : Consumes ident := by
  refine consumes_current_bind fun t => ?_
  split
  · next hkind =>
    exact (consumesAt_take (isEnd_eq_false (by simp [hkind]))).bind fun _ => steady_pure _
  · next hkind =>
    exact (consumesAt_take (isEnd_eq_false (by simp [hkind]))).bind fun _ => steady_pure _
  · next hkind =>
    split
    · exact (consumesAt_take (isEnd_of_keyword hkind)).bind fun _ => steady_pure _
    · exact (consumes_rejectCurrent _).at t
  · next hkind =>
    refine consumesAt_peek_bind 1 fun u => ?_
    split
    · exact (consumesAt_take (isEnd_of_symbol hkind)).bind fun _ =>
        steady_take.bind fun _ => steady_pure _
    · exact (consumes_rejectCurrent _).at t
  · exact (consumes_rejectCurrent _).at t

/-- A name begins with a token of its own. -/
theorem consumes_qualifiedName : Consumes qualifiedName := by
  rw [qualifiedName_eq]
  exact consumes_ident.bind fun first =>
    (steady_loop (fun names => (steady_congruence.namePart (b := 0) names).1) _).bind fun _ =>
      steady_pure _

theorem consumes_field : Consumes field := by
  refine consumes_current_bind fun t => ?_
  split
  · next hkind =>
    exact (consumesAt_take (isEnd_eq_false (by simp [hkind]))).bind fun _ => steady_pure _
  · exact (consumes_qualifiedName.bind fun _ => steady_pure _).at t

theorem consumes_weightedField : Consumes weightedField := by
  have hweighted (f : Field) : Steady (do
      return ⟨f, some (← Parser.weight)⟩ : Parser WeightedField) :=
    (steady_congruence.weight (b := 0)).1.bind fun _ => steady_pure _
  refine consumes_field.bind fun f => (steady_takeSymbol .caret).bind fun found => ?_
  split
  · exact hweighted f
  · refine steady_current_bind fun t => ?_
    split
    · exact hweighted f
    · exact steady_pure _

/-! ## Constants -/

theorem consumes_numberBehind (start : Span) (negative : Bool) :
    Consumes (Likeness.numberBehind start negative) := by
  refine consumes_current_bind fun t => ?_
  dsimp only
  split
  · exact ((consumes_rejectCurrent _).bind fun _ => (steady_skip 1).bind fun _ =>
      (steady_spanFrom start).bind fun _ =>
        (steady_congruence.numberLiteral (b := 0) _ _ _).1.bind fun _ => steady_pure _).at t
  · next hnumber =>
    refine (consumesAt_skip (Token.isEnd_of_isNumber (by simpa using hnumber))).bind fun _ => ?_
    exact (steady_spanFrom start).bind fun _ =>
      (steady_congruence.numberLiteral (b := 0) _ _ _).1.bind fun _ => steady_pure _

/-- A number, with its sign or without, takes a token. -/
theorem consumes_number : Consumes number := by
  rw [Likeness.number_eq]
  refine consumes_current_bind fun t => Consumes.at ?_ t
  refine consumes_behind (steady_takeSymbol .minus) fun negative => ?_
  cases negative with
  | true => exact consumes_numberBehind _ _
  | false => exact consumes_behind (steady_takeSymbol .plus) fun _ => consumes_numberBehind _ _

theorem consumesAt_simpleLiteral {t : Token} (ht : t.isEnd = false) (value : Literal) :
    ConsumesAt t (simpleLiteral value) := (consumesAt_skip ht).bind fun _ => steady_pure value

/-- Every literal takes a token. -/
theorem consumes_literalRule {call : Callee} (hinterval : Consumes (call .interval)) :
    Consumes (literalRule call) := by
  have htemporal (kind : TemporalKind) (text : String) (span : Span) :
      Steady (temporalLiteral kind text span) :=
    (steady_congruence.temporalLiteral (b := 0) kind text span).1
  refine consumes_current_bind fun t => ?_
  have hword {word : Keyword} (hkind : t.kind = .keyword word) := isEnd_of_keyword hkind
  split
  · next hkind => exact consumesAt_simpleLiteral (isEnd_eq_false (by simp [hkind])) _
  · refine Consumes.at ((consumes_symbol .leftBrace).bind fun start => ?_) t
    refine steady_current_bind fun u => ?_
    split
    · exact (steady_skip 1).bind fun _ => steady_string.bind fun _ =>
        (steady_symbol .rightBrace).bind fun _ => (steady_spanFrom start).bind fun _ =>
          htemporal _ _ _
    · exact (consumes_rejectCurrent _).steady
  · next hkind => exact consumesAt_simpleLiteral (hword hkind) _
  · next hkind => exact consumesAt_simpleLiteral (hword hkind) _
  · next hkind => exact consumesAt_simpleLiteral (hword hkind) _
  · exact hinterval.at t
  · next hkind =>
    split
    · exact (consumesAt_take (hword hkind)).bind fun start => steady_string.bind fun _ =>
        (steady_spanFrom start).bind fun _ => htemporal _ _ _
    · exact (consumes_rejectCurrent _).at t
  · next hkind =>
    split
    · refine (consumesAt_skip (isEnd_eq_false (by simp [hkind]))).bind fun _ =>
        (steady_takeSymbol .leftParen).bind fun parens => ?_
      dsimp only
      split
      · exact (steady_symbol .rightParen).bind fun _ => steady_pure _
      · exact steady_pure _
    · exact (consumes_rejectCurrent _).at t
  · exact (consumes_rejectCurrent _).at t

theorem consumes_constantRule {call : Callee} (hinterval : Consumes (call .interval)) :
    Consumes (constantRule call) := by
  refine consumes_current_bind fun t => Consumes.at ?_ t
  split
  · exact consumes_number
  · exact consumes_number
  · exact consumes_number
  · exact consumes_number
  · exact consumes_current_bind fun u => Consumes.at ((consumes_literalRule hinterval).bind
      fun _ => (steady_spanFrom u.span).bind fun _ => steady_pure _) u

section

variable {call : Callee} (hsteady : ∀ {α : Type} (n : Nonterminal α), Steady (call n))

include hsteady

theorem consumes_intervalRule : Consumes (intervalRule call) :=
  (consumes_keyword .INTERVAL).bind fun _ => (hsteady .wholeExpr).bind fun _ =>
    steady_datetimeUnit.bind fun _ => steady_pure _

/-! ## Calls -/

theorem consumes_caseRule : Consumes (caseRule call) := by
  have hrest (operand : Option Expr) : Steady (do
      let branches ← Grammar.caseBranches call
      Grammar.caseEnd call operand branches) := by
    have hexpr : Steady (call .wholeExpr) ∧ Steady (call .wholeExpr) := ⟨hsteady _, hsteady _⟩
    rw [caseBranches_eq]
    exact ((steady_loop (fun branches =>
      (steady_congruence.caseStep (b := 0) hexpr branches).1) []).bind fun _ => steady_pure _).bind
        fun branches => (steady_congruence.caseEnd (b := 0) hexpr operand branches).1
  refine (consumes_keyword .CASE).bind fun _ => steady_atKeyword_bind fun here => ?_
  split
  · exact (steady_pure none).bind hrest
  · exact ((hsteady .wholeExpr).bind fun _ => steady_pure _).bind hrest

theorem consumes_castRule : Consumes (castRule call) :=
  (consumes_keyword .CAST).bind fun _ => (steady_symbol .leftParen).bind fun _ =>
    (hsteady .wholeExpr).bind fun _ => (steady_keyword .AS).bind fun _ => steady_dataType.bind
      fun _ => (steady_symbol .rightParen).bind fun _ => steady_pure _

/-- A call takes the token of its name. -/
theorem consumes_callRule (hwalking : Walking call) (hcase : Consumes (call .case))
    (hcast : Consumes (call .cast)) : Consumes (callRule call) := by
  have hopening {t : Token} (n : Nonterminal CallShape) (hn : n.way = .opening)
      (ht : t.kind.isPlain = true) : ConsumesAt t (call n) := by
    have hopens : OpensAt (fun u => u = t) 0 0 (call n) := hwalking.opening hn fun u hu => hu ▸ ht
    exact ⟨hsteady n, fun hs h => hopens.taken hs h⟩
  have hshape : Consumes (callShape call) := by
    refine consumes_current_bind fun t => ?_
    have hword {word : Keyword} (hkind : t.kind = .keyword word)
        (hplain : (TokenKind.keyword word).isPlain = true) : t.kind.isPlain = true := hkind ▸ hplain
    split
    · exact hcase.at t
    · exact hcast.at t
    · next hkind => exact hopening (.scalar .dateTime) rfl (hword hkind rfl)
    · next hkind => exact hopening (.scalar .dateTime) rfl (hword hkind rfl)
    · next hkind => exact hopening (.scalar .dateTime) rfl (hword hkind rfl)
    · next hkind => exact hopening (.scalar .dateTime) rfl (hword hkind rfl)
    · next hkind =>
      split
      · exact hopening (.shape _) rfl (by rw [hkind]; rfl)
      · exact (consumes_reject _).at t
    · exact (consumes_reject _).at t
  have hbody : Consumes (callBody call) := consumes_current_bind fun t =>
    Consumes.at (hshape.bind fun _ => (steady_spanFrom t.span).bind fun _ => steady_pure _) t
  rw [callRule_eq]
  exact hbody.nest 1

theorem consumes_fieldEqualsRule : Consumes (fieldEqualsRule call) := by
  refine consumes_field.bind fun f => (steady_symbol .eq).bind fun _ => steady_current_bind fun t => ?_
  split
  · exact steady_callName.bind fun _ => (hsteady .searchValue).bind fun _ =>
      (hsteady .relevanceOptions).bind fun _ => (steady_symbol .rightParen).bind fun _ =>
        steady_pure _
  · exact (consumes_rejectCurrent _).steady

/-! ## Expressions -/

theorem consumes_parenthesizedRule : Consumes (parenthesizedRule call) :=
  (consumes_symbol .leftParen).bind fun start => (hsteady .wholeExpr).bind fun _ =>
    (steady_symbol .rightParen).bind fun _ => (steady_spanFrom start).bind fun _ => steady_pure _

omit hsteady in
/-- Whatever an operand turns out to be, it takes a token. -/
theorem consumes_operandRule (hfieldEquals : Consumes (call .fieldEquals))
    (hparenthesized : Consumes (call .parenthesized)) (hconstant : Consumes (call .constant))
    (hcall : Consumes (call .call)) : Consumes (operandRule call) := by
  have hfield : Consumes (fieldEqualsCall call) := consumes_current_bind fun t =>
    Consumes.at (hfieldEquals.bind fun _ => (steady_spanFrom t.span).bind fun _ => steady_pure _) t
  rw [operandRule_eq]
  refine consumes_get_bind fun s => ?_
  unfold operandAt
  dsimp only
  split
  · exact hfield.bind fun _ => steady_pure _
  · cases s.cursor.operandForm? with
    | none => exact consumes_reject _
    | some form =>
      cases form with
      | parenthesized => exact hparenthesized
      | constant => exact hconstant.bind fun _ => steady_pure _
      | call => exact hcall.bind fun _ => steady_pure _
      | column => exact consumes_qualifiedName.bind fun _ => steady_pure _

theorem consumes_arithmeticRule (least : Nat) (hoperand : Consumes (call .operand)) :
    Consumes (arithmeticRule call least) :=
  hoperand.bind fun left => steady_loop (fun left => (steady_congruence.arithmeticStep (b := 0)
    least (fun _ _ => ⟨hsteady _, hsteady _⟩) left).1) left

theorem consumes_predicateRule (least : Nat) (harithmetic : Consumes (call (.arithmetic 0))) :
    Consumes (predicateRule call least) :=
  harithmetic.bind fun left => steady_loop (fun left => (steady_congruence.predicateStep (b := 0)
    least (fun _ _ => ⟨hsteady _, hsteady _⟩) ⟨hsteady _, hsteady _⟩ (fun _ _ h _ => by rw [h])
      left).1) (.atom left)

/-- An expression begins with an operand, so it takes a token. -/
theorem consumes_exprRule (least : Nat) (hpredicate : Consumes (call (.predicate 0))) :
    Consumes (exprRule call least) := by
  have hoperand : Consumes (logicalOperand call) := by
    refine consumes_atKeyword_bind (fun t hword => ?_) (hpredicate.bind fun _ => steady_pure _)
    exact (consumesAt_take (isEnd_of_keyword hword)).bind fun start => (hsteady _).bind fun _ =>
      (steady_spanFrom start).bind fun _ => steady_pure _
  have hbody : Consumes (exprBody call least) := hoperand.bind fun left =>
    steady_loop (fun left => (steady_congruence.logicalStep (b := 0)
      (fun _ => ⟨hsteady _, hsteady _⟩) least left).1) left
  rw [exprRule_eq]
  exact hbody.nest 1

omit hsteady in
theorem consumes_orderItemRule (hexpr : Consumes (call .wholeExpr)) :
    Consumes (orderItemRule call) :=
  hexpr.bind fun _ => steady_direction.bind fun _ => steady_nullOrder.bind fun _ => steady_pure _

omit hsteady in
theorem consumes_selectItemRule (starAllowed : Bool) (hexpr : Consumes (call .wholeExpr)) :
    Consumes (selectItemRule call starAllowed) := by
  have halias : Steady optionalAlias := (steady_congruence.optionalAlias (b := 0)).1
  have hitem : Consumes (do
      let expr ← call .wholeExpr
      return .expr expr (← Parser.optionalAlias) : Parser SelectItem) :=
    hexpr.bind fun _ => halias.bind fun _ => steady_pure _
  refine consumes_atSymbol_bind (fun t hstar => ?_) ?_
  · split
    · exact (consumesAt_take (isEnd_of_symbol hstar)).bind fun _ => steady_pure _
    · exact hitem.at t
  · rw [Bool.and_false]
    exact hitem

end

/-! ## Rules -/

/-- The rules that an item of a list begins with. -/
def Nonterminal.takes : {α : Type} → Nonterminal α → Bool
  | _, .expr _ | _, .predicate _ | _, .arithmetic _ | _, .operand | _, .parenthesized
  | _, .constant | _, .interval | _, .call | _, .case | _, .cast | _, .fieldEquals | _, .orderItem
  | _, .selectItem _ => true
  | _, _ => false

/-- The rules that an item begins with take a token, if those among them that they go on to do. -/
theorem consumes_rule {call : Callee} (hsteady : ∀ {α : Type} (n : Nonterminal α), Steady (call n))
    (hwalking : Walking call)
    (hcall : ∀ {α : Type} (n : Nonterminal α), n.takes = true → Consumes (call n))
    (n : Nonterminal α) (hn : n.takes = true) : Consumes (rule call n) := by
  cases n with
  | expr least => exact consumes_exprRule hsteady least (hcall _ rfl)
  | predicate least => exact consumes_predicateRule hsteady least (hcall _ rfl)
  | arithmetic least => exact consumes_arithmeticRule hsteady least (hcall _ rfl)
  | operand =>
    exact consumes_operandRule (hcall _ rfl) (hcall _ rfl) (hcall _ rfl) (hcall _ rfl)
  | parenthesized => exact consumes_parenthesizedRule hsteady
  | constant => exact consumes_constantRule (hcall _ rfl)
  | interval => exact consumes_intervalRule hsteady
  | call => exact consumes_callRule hsteady hwalking (hcall _ rfl) (hcall _ rfl)
  | case => exact consumes_caseRule hsteady
  | cast => exact consumes_castRule hsteady
  | fieldEquals => exact consumes_fieldEqualsRule hsteady
  | orderItem => exact consumes_orderItemRule (hcall _ rfl)
  | selectItem starAllowed => exact consumes_selectItemRule starAllowed (hcall _ rfl)
  | _ => cases hn

/-- The rules that items begin with take a token, whatever fuel there is. -/
theorem consumes_derive (fuel : Nat) (n : Nonterminal α) (hn : n.takes = true) :
    Consumes (derive fuel n) := by
  induction fuel generalizing α with
  | zero => exact ⟨steady_derive 0 n, fun h => nomatch h⟩
  | succ fuel ih =>
    rw [derive_succ]
    exact consumes_rule (steady_derive fuel) (walking_derive fuel) ih n hn

/-- What stands between the commas of a list: the elements of a selection, expressions, the items
of `ORDER BY`, and the fields of a search. -/
inductive ItemRule (call : Callee) : {α : Type} → Parser α → Prop where
  | selectItem (starAllowed : Bool) : ItemRule call (call (.selectItem starAllowed))
  | expr : ItemRule call (call .wholeExpr)
  | orderItem : ItemRule call (call .orderItem)
  | field : ItemRule call weightedField

/-- Every item takes a token. -/
theorem ItemRule.consumes {fuel : Nat} {p : Parser α} (h : ItemRule (derive fuel) p) :
    Consumes p := by
  cases h with
  | selectItem starAllowed => exact consumes_derive fuel _ rfl
  | expr => exact consumes_derive fuel _ rfl
  | orderItem => exact consumes_derive fuel _ rfl
  | field => exact consumes_weightedField

end Grammar

end SearchSql
