import SearchSql.Proofs.Ladders
import SearchSql.Proofs.RuleRetracing

/-!
# Retracing expressions

Behind an operand, an operator in front of the written tokens was in front of the source as well, so
each layer of an expression goes on, or stops, where it did in the source.
-/

set_option autoImplicit false

namespace SearchSql.Grammar

open SearchSql.Grammar.Parser SearchSql.Token

variable {library : Time.Library} {α β : Type} [Erases α] [Erases β] {s t : State} {c d : Cursor}
variable {items before : List Item} {tokens rest : List Token} {here : Token → Prop}
variable {front R : Outlook} {call : Callee}

/-! ## Operators -/

/-- An operator with its right operand is retraced, where an operator that is in front of the written
tokens is in front of the source. -/
theorem Ladder.retraces_step {κ : Type} (L : Ladder κ α) (outline : α → List Item)
    {side side' : Nat → Parser α} {N : Outlook} {least : Nat} {left left' : α}
    (hleft : erase left = erase left')
    (hseen : ∀ c tokens op, Alike c tokens → L.op? (kindAt tokens 0) = some op →
      L.op? c.current.kind = some op)
    (htaken : ∀ op, ∃ m : Mark, m.token.isEnd = false ∧ L.op? m.token.kind = some op ∧
      (∀ a right, outline (L.join op a right) = outline a ++ .mark m :: outline right) ∧
        ∀ c rest, L.op? c.current.kind = some op → N (c.skip 1) rest → Alike c (m.token :: rest))
    (hjoin : ∀ op a a' right right', erase a = erase a' → erase right = erase right' →
      erase (L.join op a right) = erase (L.join op a' right'))
    (hside : ∀ least, Retraces Anywhere N [] (side least) (side' least) outline (fun _ => Alike)) :
    Retraces here Alike (before ++ outline left) (L.step side least left) (L.step side' least left')
      (fun r => before ++ outline r.value) (roundOutlook Alike Alike) := by
  -- Where no operator is taken nothing is written, and what follows shows none either.
  have hdone {here : Token → Prop} : Retraces here Alike (before ++ outline left)
      (pure (.done left) : Parser (ForInStep α)) (pure (.done left'))
      (fun r => before ++ outline r.value) (roundOutlook Alike Alike) :=
    retraces_pure_of rfl (congrArg ForInStep.done hleft) fun _ _ h => h
  refine retraces_of fun s _ _ => ?_
  cases hop : L.op? s.cursor.current.kind with
  | none =>
    refine ⟨Alike, _, _, hdone, ?_, fun tokens halike => ⟨halike, fun s' _ hfaces => ?_⟩⟩
    · unfold step
      rw [current_bind_apply, hop]
    · unfold step
      rw [current_bind_apply, hfaces.current]
      cases hwritten : L.op? (kindAt tokens 0) with
      | none => rfl
      | some op =>
        rw [hseen _ _ _ halike hwritten] at hop
        cases hop
  | some op =>
    by_cases hleast : L.precedence op < least
    · refine ⟨Alike, _, _, hdone, ?_, fun tokens halike => ⟨halike, fun s' _ hfaces => ?_⟩⟩
      · unfold step
        rw [current_bind_apply, hop]
        dsimp only
        rw [if_pos hleast]
      · unfold step
        rw [current_bind_apply, hfaces.current]
        cases hwritten : L.op? (kindAt tokens 0) with
        | none => rfl
        | some op' =>
          obtain rfl := Option.some.inj (hop.symm.trans (hseen _ _ _ halike hwritten))
          dsimp only
          rw [if_pos hleast]
    -- An operator that is taken is written as its mark, with its right operand behind it.
    · obtain ⟨m, hend, hwritten, houtline, hfront⟩ := htaken op
      have hnext (left left' : α) (hleft : erase left = erase left') :
          Retraces (fun u => u = s.cursor.current)
            (fun c tokens => Alike c tokens ∧ L.op? (kindAt tokens 0) = some op)
            (before ++ outline left)
            (skip 1 >>= fun _ => side (L.precedence op + 1) >>= fun right =>
              pure (.yield (L.join op left right)))
            (skip 1 >>= fun _ => side' (L.precedence op + 1) >>= fun right =>
              pure (.yield (L.join op left' right)))
            (fun r => before ++ outline r.value) (roundOutlook Alike Alike) := by
        refine (retraces_skip (m := m) hend fun c rest hhere hrest => ?_).bind fun _ _ _ =>
          (hside _).behindAll.bind fun right right' hright => ?_
        · exact ⟨hfront c rest (by rw [hhere]; exact hop) hrest, hwritten⟩
        · refine retraces_pure_of ?_ (congrArg ForInStep.yield (hjoin op _ _ _ _ hleft hright))
            fun _ _ h => h
          simp [ForInStep.value, houtline]
      refine ⟨_, _, _, hnext left left' hleft, ?_,
        fun tokens hseen => ⟨hseen.1, fun s' _ hfaces => ?_⟩⟩
      · unfold step
        rw [current_bind_apply, hop]
        dsimp only
        rw [if_neg hleast]
      · unfold step
        rw [current_bind_apply, hfaces.current, hseen.2]
        dsimp only
        rw [if_neg hleast]

/-- The outlook behind a test, in front of its operands. -/
def Test.Next : Test → Outlook
  | .comparison _ | .between _ | .like _ | .regexp _ => Operands
  | .isNull _ => Meets (.keyword .NULL)
  | .within _ => Meets (.symbol .leftParen)

/-! ## Connectives -/

section Callees

variable (hcall : AllRetrace call)

include hcall

theorem AllRetrace.exprFrom (least : Nat) :
    Retraces here Heads before (call (.expr least)) (read (.expr least))
      (fun e => before ++ e.outline) (fun _ => Alike) := (hcall.retraces (.expr least) rfl).anywhere

theorem AllRetrace.predicate (least : Nat) :
    Retraces here Operands before (call (.predicate least)) (read (.predicate least))
      (fun p => before ++ p.outline) (fun _ => Alike) :=
  (hcall.retraces (.predicate least) rfl).anywhere

theorem AllRetrace.arithmetic (least : Nat) :
    Retraces here Operands before (call (.arithmetic least)) (read (.arithmetic least))
      (fun a => before ++ a.outline) (fun _ => Alike) :=
  (hcall.retraces (.arithmetic least) rfl).anywhere

theorem retraces_logicalOperand :
    Retraces here Heads before (logicalOperand call) (logicalOperand read)
      (fun e => before ++ e.outline) (fun _ => Alike) := by
  refine retraces_atKeyword_bind (S := Meets (.keyword .NOT)) (U := Operands) ?_ ?_
    (fun _ _ _ h => ⟨h.heads rfl rfl, h.2⟩) fun _ _ _ h => h
  · refine (retraces_take (m := .keyword .NOT) (N := Heads) rfl fun _ _ hkind _ => ⟨hkind, rfl⟩).bind
      fun _ _ _ => (hcall.exprFrom notPrecedence).bind fun operand operand' hoperand => ?_
    refine retraces_spanFrom_bind fun _ _ => retraces_pure ?_ ?_
    · simp [Expr.outline]
    · exact congrArg (Expr.not · default) hoperand
  · refine (hcall.predicate 0).bind fun p p' hp => retraces_pure ?_ ?_
    · simp [Expr.outline]
    · exact congrArg Expr.predicate hp

omit hcall in
/-- Behind an expression, a connective is in front of both. -/
theorem alike_of_connective {op : Connective} (h : Connective.ofKind? c.current.kind = some op)
    (hwritten : Connective.ofKind? (kindAt tokens 0) = some op) : Alike c tokens := by
  unfold Connective.ofKind? at h hwritten
  split at h
  · next hsource =>
    cases h
    split at hwritten
    · next hkind => exact Meets.alike_keyword ⟨hsource, hkind⟩ rfl (by decide)
    · cases hwritten
    · cases hwritten
  · next hsource =>
    cases h
    split at hwritten
    · cases hwritten
    · next hkind => exact Meets.alike_keyword ⟨hsource, hkind⟩ rfl (by decide)
    · cases hwritten
  · cases h

omit hcall in
/-- A connective in front of the written tokens is in front of the source. -/
theorem Alike.connective {op : Connective} (h : Alike c tokens)
    (hop : Connective.ofKind? (kindAt tokens 0) = some op) :
    Connective.ofKind? c.current.kind = some op := by
  have hword {word : Keyword} (hkind : kindAt tokens 0 = .keyword word) (hne : word ≠ .AS) :
      c.current.kind = kindAt tokens 0 := (h.keyword word hkind hne).trans hkind.symm
  rw [← hop]
  unfold Connective.ofKind? at hop
  split at hop
  · next hkind => rw [hword hkind (by decide)]
  · next hkind => rw [hword hkind (by decide)]
  · cases hop

theorem retraces_logicalStep (least : Nat) {left left' : Expr} (hleft : erase left = erase left') :
    Retraces here Alike (before ++ left.outline) (logicalStep call least left)
      (logicalStep read least left') (fun r => before ++ r.value.outline)
      (roundOutlook Alike Alike) := by
  rw [logicalStep_eq, logicalStep_eq]
  refine connectiveLadder.retraces_step Expr.outline (N := Heads) hleft
    (fun _ _ _ => Alike.connective) (fun op => ?_) (fun op a a' right right' ha hright => ?_)
    fun least => hcall.rule (.expr least)
  · cases op with
    | and =>
      refine ⟨.keyword .AND, rfl, rfl, fun a right => ?_, fun c rest h _ => ?_⟩
      · simp [connectiveLadder, connectiveLayers, Expr.outline]
      · exact alike_of_connective h rfl
    | or =>
      refine ⟨.keyword .OR, rfl, rfl, fun a right => ?_, fun c rest h _ => ?_⟩
      · simp [connectiveLadder, connectiveLayers, Expr.outline]
      · exact alike_of_connective h rfl
  · cases op with
    | and => exact congrArg₂ Expr.and ha hright
    | or => exact congrArg₂ Expr.or ha hright

theorem retraces_exprBody (least : Nat) :
    Retraces here Heads before (exprBody call least) (exprBody read least)
      (fun e => before ++ e.outline) (fun _ => Alike) :=
  (retraces_logicalOperand hcall).bind fun _ _ hleft => retraces_loop
    (fun e => advances_logicalStep (fun _ => steady_read _) least e)
    (fun _ _ h => retraces_logicalStep hcall least h) hleft

theorem retraces_exprRule (least : Nat) :
    Retraces here Heads before (exprRule call least) (exprRule read least)
      (fun e => before ++ e.outline) (fun _ => Alike) := by
  rw [exprRule_eq, exprRule_eq]
  exact (retraces_exprBody hcall least).nest 1

/-! ## Arithmetic -/

omit hcall in
/-- Behind an expression, an arithmetic operator is in front of both. -/
theorem alike_of_arithmetic {op : ArithmeticOp} (h : ArithmeticOp.ofKind? c.current.kind = some op)
    (hwritten : ArithmeticOp.ofKind? (kindAt tokens 0) = some op) : Alike c tokens := by
  have hne {kind : TokenKind} (hk : ArithmeticOp.ofKind? kind = none) : kindAt tokens 0 ≠ kind := by
    rintro rfl
    rw [hk] at hwritten
    cases hwritten
  refine ⟨hne rfl, hne rfl, fun h => absurd h (hne rfl), fun _ h => absurd h (hne rfl), fun hname => ?_,
    fun op' hop' => ?_, fun test width htest => ?_, fun h => absurd h.1 (hne rfl),
    not_doomed_of_ne (hne rfl)⟩
  · have hname := hname.resolve_left (hne rfl)
    refine .inr ?_
    generalize kindAt tokens 0 = written at hwritten hname
    cases hkind : c.current.kind with
    | name value => rfl
    | symbol sign =>
      -- A sign stands for another operator than a word does.
      rw [hkind] at h
      have hop : op ≠ .wholeDivide ∧ op ≠ .wholeModulo := by
        cases sign
        all_goals cases h
        all_goals decide
      cases written with
      | name value =>
        unfold ArithmeticOp.ofKind? at hwritten
        dsimp only at hwritten
        split at hwritten
        · exact absurd (Option.some.inj hwritten).symm hop.1
        · split at hwritten
          · exact absurd (Option.some.inj hwritten).symm hop.2
          · cases hwritten
      | _ => first
        | cases hwritten
        | cases hname
    | _ =>
      rw [hkind] at h
      cases h
  · obtain rfl := Option.some.inj (hwritten.symm.trans hop')
    exact h
  · generalize kindAt tokens 0 = written at hwritten htest
    cases written with
    | symbol sign =>
      cases sign with
      | plus | minus | star | slash | percent => cases htest
      | _ => cases hwritten
    | name value => cases htest
    | _ => cases hwritten

theorem retraces_arithmeticStep (least : Nat) {left left' : Atom} (hleft : erase left = erase left') :
    Retraces here Alike (before ++ left.outline) (arithmeticStep call least left)
      (arithmeticStep read least left') (fun r => before ++ r.value.outline)
      (roundOutlook Alike Alike) := by
  rw [arithmeticStep_eq, arithmeticStep_eq]
  refine arithmeticLadder.retraces_step Atom.outline (N := Operands) hleft
    (fun _ _ op h => h.arithmetic op) (fun op => ?_)
    (fun op _ _ _ _ ha hright => congrArg₂ (Atom.arithmetic op) ha hright)
    fun least => hcall.rule (.arithmetic least)
  have hop : ∃ m, op.outline = .mark m ∧ m.token.isEnd = false ∧
      ArithmeticOp.ofKind? m.token.kind = some op := by
    cases op with
    | add => exact ⟨.symbol .plus, rfl, rfl, rfl⟩
    | subtract => exact ⟨.symbol .minus, rfl, rfl, rfl⟩
    | multiply => exact ⟨.symbol .star, rfl, rfl, rfl⟩
    | divide => exact ⟨.symbol .slash, rfl, rfl, rfl⟩
    | modulo => exact ⟨.symbol .percent, rfl, rfl, rfl⟩
    | wholeDivide => exact ⟨.word "DIV", rfl, by decide, by decide⟩
    | wholeModulo => exact ⟨.word "MOD", rfl, by decide, by decide⟩
  obtain ⟨m, houtline, hend, hwritten⟩ := hop
  refine ⟨m, hend, hwritten, fun a right => ?_, fun c rest h _ => alike_of_arithmetic h hwritten⟩
  rw [← houtline]
  rfl

theorem retraces_arithmeticRule (least : Nat) :
    Retraces here Operands before (arithmeticRule call least) (arithmeticRule read least)
      (fun a => before ++ a.outline) (fun _ => Alike) :=
  (hcall.retraces .operand rfl).anywhere.bind fun _ _ hleft => retraces_loop
    (fun a => advances_arithmeticStep (fun _ => steady_read _) least a)
    (fun _ _ h => retraces_arithmeticStep hcall least h) hleft

/-! ## Tests -/

omit hcall in
/-- Behind what is written for a test stands what the test is in front of. -/
theorem Test.ofKinds?_written {test : Test} (h : test.Next c tokens) :
    Test.ofKinds? (kindAt (writtenTokens test.outline ++ tokens) 0)
      (kindAt (writtenTokens test.outline ++ tokens) 1)
      (kindAt (writtenTokens test.outline ++ tokens) 2) =
        some (test, (writtenTokens test.outline).length) := by
  cases test with
  | comparison op =>
    have hne {sign : Symbol} (hsign : isOpening (.symbol sign) = false) :
        kindAt tokens 0 ≠ .symbol sign := h.1.ne hsign
    cases op with
    | eq | notEq | ltEq | gtEq => rfl
    -- A sign that could go on to a longer one is followed by none, as an operand starts behind it.
    | lt =>
      show Test.ofKinds? (.symbol .lt) (kindAt tokens 0) (kindAt tokens 1) = _
      have heq : kindAt tokens 0 ≠ .symbol .eq := hne rfl
      have hgt : kindAt tokens 0 ≠ .symbol .gt := hne rfl
      unfold Test.ofKinds?
      split
      all_goals first
        | rfl
        | contradiction
    | gt =>
      show Test.ofKinds? (.symbol .gt) (kindAt tokens 0) (kindAt tokens 1) = _
      have heq : kindAt tokens 0 ≠ .symbol .eq := hne rfl
      unfold Test.ofKinds?
      split
      all_goals first
        | rfl
        | contradiction
  | isNull negated =>
    cases negated with
    | false =>
      show Test.ofKinds? (.keyword .IS) (kindAt tokens 0) (kindAt tokens 1) = _
      rw [h.2]
      rfl
    | true => rfl
  | within negated =>
    cases negated with
    | false =>
      show Test.ofKinds? (.keyword .IN) (kindAt tokens 0) (kindAt tokens 1) = _
      rw [h.2]
      rfl
    | true =>
      show Test.ofKinds? (.keyword .NOT) (.keyword .IN) (kindAt tokens 0) = _
      rw [h.2]
      rfl
  | between negated | like negated | regexp negated => cases negated <;> rfl

omit hcall in
theorem Test.isEnd_written (test : Test) : ∀ u ∈ writtenTokens test.outline, u.isEnd = false := by
  cases test with
  | comparison op => cases op <;> decide
  | isNull negated | between negated | like negated | regexp negated | within negated =>
    cases negated <;> decide

omit hcall in
/-- What is written for a test starts as the test does, unless it is a comparison that is written
apart. -/
theorem Test.first_written (tokens : List Token) {first second third : TokenKind} {test : Test}
    {width : Nat} (h : Test.ofKinds? first second third = some (test, width)) :
    kindAt (writtenTokens test.outline ++ tokens) 0 = first ∨
      ∃ op : ComparisonOp, test = .comparison op ∧ (op = .ltEq ∨ op = .notEq ∨ op = .gtEq) := by
  have htoken {m : Mark} {kind : TokenKind} (hm : Mark.IsFixed m kind) : m.token.kind = kind := by
    cases hm <;> rfl
  obtain ⟨-, m, hm, houtline⟩ | ⟨-, hsplit⟩ | ⟨-, m, n, hm, -, houtline⟩ := Test.ofKinds?_eq_some h
  · rw [houtline]
    exact .inl (htoken hm)
  · unfold isSplitComparison at hsplit
    split at hsplit
    · cases h
      exact .inr ⟨.ltEq, rfl, .inl rfl⟩
    · cases h
      exact .inr ⟨.notEq, rfl, .inr (.inl rfl)⟩
    · cases h
      exact .inr ⟨.gtEq, rfl, .inr (.inr rfl)⟩
    · cases hsplit
  · rw [houtline]
    exact .inl (htoken hm)

omit hcall in
/-- Only an equals sign joins a field to the name of a search, and it is a single token in the source. -/
theorem joinsField_of_test {test : Test} {width : Nat} (h : Test.at? c = some (test, width))
    (hrest : test.Next (c.skip width) tokens)
    (hjoins : JoinsField (writtenTokens test.outline ++ tokens)) : JoinsField c.ahead := by
  have hwritten := Test.ofKinds?_written hrest
  obtain ⟨heq, hfunction, hparen⟩ := hjoins
  have hcomparison : test = .comparison .eq := by
    rw [heq] at hwritten
    cases hwritten
    rfl
  subst hcomparison
  unfold Test.at? at h
  rw [Cursor.peek_zero] at h
  rcases Test.first_written tokens h with hfirst | ⟨op, heq, hop⟩
  · have hsource : c.current.kind = .symbol .eq := hfirst.symm
    have hwidth : width = 1 := by
      rw [hsource] at h
      cases h
      rfl
    subst hwidth
    obtain ⟨kind, hkind⟩ := Option.isSome_iff_exists.1 hfunction
    obtain ⟨word, hword, hkind⟩ := Option.bind_eq_some_iff.1 hkind
    have hend := isEnd_of_symbol hsource
    obtain ⟨hnext, hopen⟩ := hrest.1.called word hword hparen
    rw [Cursor.current_skip_one hend] at hnext
    rw [peek_skip_one hend] at hopen
    refine ⟨(kindAt_zero c).trans hsource, ?_, (kindAt_ahead c 2).trans hopen⟩
    rw [kindAt_ahead, hnext, Option.bind_some, hkind]
    rfl
  · obtain rfl := Test.comparison.inj heq
    rcases hop with hop | hop | hop
    all_goals cases hop

omit hcall in
/-- The first token of a test is written as it was read, but for the comparisons that may be spelled in
two tokens. -/
theorem Test.firstKind_written (tokens : List Token) {test : Test} {width : Nat}
    (h : Test.at? c = some (test, width)) :
    kindAt (writtenTokens test.outline ++ tokens) 0 = c.current.kind ∨
      ∃ sign, kindAt (writtenTokens test.outline ++ tokens) 0 = .symbol sign ∧
        ArithmeticOp.ofKind? (.symbol sign) = none := by
  unfold Test.at? at h
  rw [Cursor.peek_zero] at h
  rcases Test.first_written tokens h with hfirst | ⟨op, rfl, rfl | rfl | rfl⟩
  · exact .inl hfirst
  · exact .inr ⟨.ltEq, rfl, rfl⟩
  · exact .inr ⟨.notEq, rfl, rfl⟩
  · exact .inr ⟨.gtEq, rfl, rfl⟩

omit hcall in
/-- Behind an expression, a test is in front of both. -/
theorem alike_of_test {test : Test} {width : Nat} (h : Test.at? c = some (test, width))
    (hrest : test.Next (c.skip width) tokens) :
    Alike c (writtenTokens test.outline ++ tokens) := by
  have hwritten := Test.ofKinds?_written hrest
  have hne {kind : TokenKind} (hk : ∀ second third, Test.ofKinds? kind second third = none) :
      kindAt (writtenTokens test.outline ++ tokens) 0 ≠ kind := by
    rintro rfl
    rw [hk] at hwritten
    cases hwritten
  have hsame := Test.firstKind_written tokens h
  refine ⟨hne fun _ _ => rfl, hne fun _ _ => rfl, fun hcomma => absurd hcomma (hne fun _ _ => rfl),
    fun word hword _ => ?_, fun hname => ?_, fun op hop => ?_, fun test' width' htest => ?_,
    joinsField_of_test h hrest, not_doomed_of_ne (hne fun _ _ => rfl)⟩
  · rcases hsame with hsame | ⟨sign, hsign, -⟩
    · exact hsame.symm.trans hword
    · cases hsign.symm.trans hword
  · rcases hsame with hsame | ⟨sign, hsign, -⟩
    · rw [← hsame]
      exact hname
    · rw [hsign] at hname
      rcases hname with hname | hname
      · cases hname
      · cases hname
  · rcases hsame with hsame | ⟨sign, hsign, hnone⟩
    · rw [← hsame]
      exact hop
    · rw [hsign, hnone] at hop
      cases hop
  · obtain ⟨rfl, -⟩ := Prod.ext_iff.1 (Option.some.inj (hwritten.symm.trans htest))
    exact ⟨width, h⟩

/-- A test is retraced from its operands on. -/
theorem retraces_testRule {left left' : Predicate} (hleft : erase left = erase left') (test : Test) :
    Retraces here test.Next (before ++ left.outline ++ test.outline) (testRule call left test)
      (testRule read left' test) (fun p => before ++ p.outline) (fun _ => Alike) := by
  cases test with
  | comparison op =>
    refine (hcall.predicate _).bind fun right right' hright => retraces_pure ?_ ?_
    · simp [Predicate.outline, Test.outline]
    · exact congrArg₂ (Predicate.comparison op) hleft hright
  | isNull negated =>
    refine (retraces_keyword .NULL (N := Alike)).bind fun stop stop' _ => retraces_pure ?_ ?_
    · simp [Predicate.outline, Test.outline]
    · exact congrArg (Predicate.isNull · negated default) hleft
  | between negated =>
    refine ((hcall.predicate _).ending fun _ _ _ (h : Meets (.keyword .AND) _ _) =>
      h.alike_keyword rfl (by decide)).bind fun low low' hlow => ?_
    refine (retraces_keyword .AND (N := Operands)).bind fun _ _ _ =>
      (hcall.predicate _).bind fun high high' hhigh => retraces_pure ?_ ?_
    · simp [Predicate.outline, Test.outline]
    · show Predicate.between _ _ _ _ = Predicate.between _ _ _ _
      rw [show left.view .erased = left'.view .erased from hleft,
        show low.view .erased = low'.view .erased from hlow,
        show high.view .erased = high'.view .erased from hhigh]
  | like negated =>
    refine (hcall.predicate _).bind fun pattern pattern' hpattern => retraces_pure ?_ ?_
    · simp [Predicate.outline, Test.outline]
    · exact congrArg₂ (Predicate.like · negated ·) hleft hpattern
  | regexp negated =>
    refine (hcall.predicate _).bind fun pattern pattern' hpattern => retraces_pure ?_ ?_
    · simp [Predicate.outline, Test.outline]
    · exact congrArg₂ (Predicate.regexp · negated ·) hleft hpattern
  | within negated =>
    refine (retraces_symbol .leftParen (N := Heads)).bind fun _ _ _ => ?_
    refine ((hcall.commaExprs _).ending fun _ _ _ (h : Meets (.symbol .rightParen) _ _) =>
      h.alike_symbol rfl).bind fun items items' hitems => ?_
    refine (retraces_symbol .rightParen (N := Alike)).bind fun _ _ _ =>
      retraces_spanFrom_bind fun span span' => retraces_pure ?_ ?_
    · simp [Predicate.outline, Test.outline]
    · exact congrArg₂ (Predicate.within · negated · default) hleft (viewAll_erased hitems)

omit hcall in
/-- The tokens faced may be passed one after the other. -/
theorem State.Faces.skipAll {us : List Token} (h : s.Faces (us ++ tokens))
    (hends : ∀ u ∈ us, u.isEnd = false) : (s.skip us.length).Faces tokens := by
  induction us generalizing s with
  | nil => exact h
  | cons u us ih =>
    show ((s.skip 1).skip us.length).Faces tokens
    exact ih (h.skip (hends u List.mem_cons_self)) fun v hv => hends v (List.mem_cons_of_mem _ hv)

theorem retraces_predicateStep (least : Nat) {left left' : Predicate}
    (hleft : erase left = erase left') :
    Retraces here Alike (before ++ left.outline) (predicateStep call least left)
      (predicateStep read least left') (fun r => before ++ r.value.outline)
      (roundOutlook Alike Alike) := by
  intro s r t hs hhere heq
  -- Where no test is read the written tokens must not show one either: `Alike` says that a test
  -- ahead of them is ahead of the source too, and that one binds too loosely.
  have hdone (hrun : (pure (.done left) : Parser (ForInStep Predicate)) s = .ok r t)
      (hstop : ∀ test width, Test.at? s.cursor = some (test, width) →
        (test.precedence < least || s.isSeparator test) = true) :
      ∃ items, before ++ r.value.outline = before ++ left.outline ++ items ∧
        Retrace Alike (roundOutlook Alike Alike r) (predicateStep read least left') items s r t := by
    have h : Retraces here Alike (before ++ left.outline)
        (pure (.done left) : Parser (ForInStep Predicate)) (pure (.done left'))
        (fun r => before ++ r.value.outline) (roundOutlook Alike Alike) :=
      retraces_pure_of rfl (congrArg ForInStep.done hleft) fun _ _ h => h
    obtain ⟨items, hafter, hr⟩ := h s r t hs hhere hrun
    refine ⟨items, hafter, hr.congr fun tokens halike => ⟨halike, fun s' htwin hfaces => ?_⟩⟩
    rw [predicateStep_eq, get_bind_apply]
    unfold testStep Test.at?
    rw [hfaces.peek, hfaces.peek, hfaces.peek]
    cases hwritten : Test.ofKinds? (kindAt tokens 0) (kindAt tokens 1) (kindAt tokens 2) with
    | none => rfl
    | some found =>
      obtain ⟨test, width'⟩ := found
      obtain ⟨width, hsource⟩ := halike.test test width' hwritten
      dsimp only
      rw [htwin.isSeparator, if_pos (hstop test width hsource)]
  rw [predicateStep_eq, get_bind_apply] at heq
  unfold testStep at heq
  cases htest : Test.at? s.cursor with
  | none =>
    rw [htest] at heq
    refine hdone heq fun test width h => ?_
    rw [htest] at h
    cases h
  | some found =>
    obtain ⟨test, width⟩ := found
    rw [htest] at heq
    dsimp only at heq
    split at heq
    · next hstop =>
      refine hdone heq fun test' width' h => ?_
      obtain ⟨rfl, -⟩ := Prod.ext_iff.1 (Option.some.inj (htest.symm.trans h))
      exact hstop
    · next hgo =>
      rw [skip_bind_apply] at heq
      obtain ⟨p, u, hp, hrest⟩ := bind_eq_ok_iff.1 heq
      obtain ⟨rfl, rfl⟩ := pure_eq_ok_iff.1 hrest
      have hrule : Retraces Anywhere test.Next (before ++ left.outline ++ test.outline)
          (testRule call left test) (testRule read left' test) (fun p => before ++ p.outline)
          (fun _ => Alike) := retraces_testRule hcall hleft test
      obtain ⟨items, hafter, hr⟩ := hrule (s.skip width) p u (hs.skip width) trivial hp
      refine ⟨test.outline ++ items, by simpa [ForInStep.value] using hafter,
        (s.leads_skip width).trans hr.leads, ?_, ?_⟩
      · intro rest hfine hrear
        rw [writtenTokens_append, List.append_assoc]
        exact alike_of_test htest (hr.front rest hfine.right hrear)
      · intro s' rest hfine htwin hfaces hrear
        rw [writtenTokens_append, List.append_assoc] at hfaces
        have hwritten := Test.ofKinds?_written (hr.front rest hfine.right hrear)
        obtain ⟨p', u', hrun, hsame, hrest⟩ := hr.again _ rest hfine.right
          (htwin.skip width _) (hfaces.skipAll test.isEnd_written) hrear
        refine ⟨.yield p', u', ?_, congrArg ForInStep.yield hsame, hrest⟩
        rw [predicateStep_eq, get_bind_apply]
        unfold testStep Test.at?
        rw [hfaces.peek, hfaces.peek, hfaces.peek, hwritten]
        dsimp only
        rw [htwin.isSeparator, if_neg hgo, skip_bind_apply, bind_of_ok hrun]
        rfl

theorem retraces_predicateRule (least : Nat) :
    Retraces here Operands before (predicateRule call least) (predicateRule read least)
      (fun p => before ++ p.outline) (fun _ => Alike) := by
  refine (hcall.arithmetic 0).bind fun left left' hleft => ?_
  have hadv (p : Predicate) : Advances (predicateStep read least p) :=
    Congruence.advances_predicateStep (fun _ => steady_read _) (steady_read _) least p
  have h : Retraces Anywhere Alike (before ++ (Predicate.atom left).outline)
      (loop (.atom left) (predicateStep call least)) (loop (.atom left') (predicateStep read least))
      (fun p => before ++ p.outline) (fun _ => Alike) :=
    retraces_loop hadv (fun _ _ h => retraces_predicateStep hcall least h)
      (congrArg Predicate.atom hleft)
  simpa [Predicate.outline] using h

/-! ## Operands -/

omit hcall in
theorem Calls.exists_cons (h : Calls c tokens) :
    ∃ u v, tokens = u :: v :: tokens.drop 2 ∧ v.kind = .symbol .leftParen := by
  have hwritten := h.written
  rcases tokens with _ | ⟨u, _ | ⟨v, rest⟩⟩
  · cases hwritten
  · cases hwritten
  · exact ⟨u, v, rfl, hwritten⟩

omit hcall in
/-- Behind a written field, a parenthesis follows the name of a call. -/
theorem Calls.afterField? (h : Calls c tokens) (hrest : afterField? tokens = some rest) :
    kindAt rest 0 = .symbol .leftParen := by
  obtain ⟨u, v, htokens, hparen⟩ := h.exists_cons
  have hstring : u.kind.isString = false := by
    cases hkind : u.kind with
    | string value =>
      have hne : kindAt tokens 0 ≠ .string value := h.ne rfl rfl
      refine absurd ?_ hne
      rw [htokens]
      exact hkind
    | _ => rfl
  have hdot : (u.kind == .symbol .dot) = false := by
    have hne : kindAt tokens 0 ≠ .symbol .dot := h.ne rfl rfl
    refine beq_eq_false_iff_ne.2 fun hkind => hne ?_
    rw [htokens]
    exact hkind
  rw [htokens] at hrest
  simp only [Grammar.afterField?, hstring, Bool.false_eq_true, if_false] at hrest
  obtain ⟨middle, hmiddle, rfl⟩ := Option.map_eq_some_iff.1 hrest
  simp only [afterIdent?, hdot, Bool.false_and, Bool.false_eq_true, if_false] at hmiddle
  split at hmiddle
  · cases hmiddle
    rw [afterSegments_of_ne_dot]
    · exact hparen
    · exact (hparen : v.kind = _).trans_ne (by decide)
  · cases hmiddle

omit hcall in
/-- A relevance function behind its field starts with no reserved word that negates. -/
theorem FieldFirst.operands (h : FieldFirst c tokens) : Operands c tokens := by
  refine ⟨h.1, fun hnot => ?_⟩
  obtain ⟨rest, hrest, -⟩ := startsFieldEquals_iff.1 h.2
  rw [afterField?_of_isFieldless (by rw [hnot]; rfl)] at hrest
  cases hrest

omit hcall in
/-- Of a reserved word, only the next token tells whether it starts a constant. -/
theorem startsConstant_keyword (word : Keyword) (second third third' : TokenKind) :
    startsConstant (.keyword word) second third = startsConstant (.keyword word) second third' := by
  cases word <;> rfl

omit hcall in
/-- A call in front of the written tokens starts a constant only if it does so in the source. -/
theorem Calls.startsConstant (h : Calls c tokens)
    (hsource : startsConstant c.current.kind (.symbol .leftParen) (c.peek 2).kind = false) :
    startsConstant (kindAt tokens 0) (.symbol .leftParen) (kindAt tokens 2) = false := by
  refine Bool.eq_false_iff.2 fun hstarts => ?_
  have hword := h.word
  have hclose := h.close
  generalize kindAt tokens 0 = written at hword hstarts
  generalize c.current.kind = kind at hword hsource
  cases hword with
  | keyword word =>
    rw [startsConstant_keyword word _ _ (c.peek 2).kind, hsource] at hstarts
    cases hstarts
  | @name value value' hupper =>
    have hspelled : DatetimeConstant.ofText? value = DatetimeConstant.ofText? value' := by
      rw [← DatetimeConstant.ofText?_upper value, hupper, DatetimeConstant.ofText?_upper]
    rw [startsConstant_name] at hstarts hsource
    obtain ⟨hfound, hthird⟩ := Bool.and_eq_true_iff.1 hstarts
    have hright : (c.peek 2).kind = .symbol .rightParen := hclose (by simpa using hthird)
    rw [hright, hspelled, hfound] at hsource
    cases hsource

omit hcall in
/-- A call may stand in front of an expression where the source is at a call. -/
theorem Calls.operands (h : Calls c tokens) (hform : c.operandForm? = some .call)
    (hopening : isOpening (kindAt tokens 0) = true) : Operands c tokens := by
  refine operands_of_ahead hopening (h.ne rfl rfl) (fun hnot => ?_) (fun word hbare _ => ?_) ?_
  · have hword := h.word
    rw [hnot] at hword
    unfold Cursor.operandForm? at hform
    rw [Cursor.peek_zero] at hform
    generalize c.current.kind = kind at hword hform
    cases hword
    cases hform
  · exact ⟨h.word.bareWord?.trans hbare, h.paren⟩
  · intro rest hrest
    have hparen := h.afterField? hrest
    exact ⟨hparen.trans_ne (by decide), fun hjoins => absurd hjoins.1 (hparen.trans_ne (by decide))⟩

omit hcall in
/-- A call in front of the written tokens is seen as one where the source is at a call. -/
theorem Calls.operandForm? (h : Calls c tokens) (hform : c.operandForm? = some .call) :
    operandForm? (kindAt tokens 0) (kindAt tokens 1) (kindAt tokens 2) = some .call := by
  unfold Cursor.operandForm? at hform
  rw [Cursor.peek_zero, h.paren] at hform
  have hsource :
      Grammar.startsConstant c.current.kind (.symbol .leftParen) (c.peek 2).kind = false := by
    refine Bool.eq_false_iff.2 fun hstarts => ?_
    unfold Grammar.operandForm? at hform
    rw [hstarts] at hform
    cases hform
  have htarget := h.startsConstant hsource
  have hword := h.word
  rw [h.written, ← hform]
  unfold Grammar.operandForm?
  rw [hsource, htarget]
  generalize kindAt tokens 0 = written at hword
  generalize c.current.kind = kind at hword
  cases hword <;> rfl

/-- What reads an operand of a form. -/
def operandOf (call : Callee) : OperandForm → Parser Atom
  | .parenthesized => call .parenthesized
  | .constant => Atom.constant <$> call .constant
  | .call => Atom.call <$> call .call
  | .column => Atom.column <$> qualifiedName

omit hcall in
theorem operandRule_eq_of_form (call : Callee) {form : OperandForm}
    (hstarts : startsFieldEquals s.cursor.ahead = false) (hform : s.cursor.operandForm? = some form) :
    operandRule call s = operandOf call form s := by
  rw [operandRule_eq, get_bind_apply]
  unfold operandAt
  rw [hstarts, if_neg Bool.false_ne_true, hform]
  cases form <;> rfl

omit hcall in
/-- An operand of a form is in front of the written tokens, and may stand there for the source. -/
def Forms (form : OperandForm) : Outlook := fun c tokens =>
  Operands c tokens ∧
    operandForm? (kindAt tokens 0) (kindAt tokens 1) (kindAt tokens 2) = some form

/-- An operand is retraced by its form. -/
theorem retrace_operandOf {form : OperandForm} {a : Atom} (hs : s.Primed)
    (hform : s.cursor.operandForm? = some form) (heq : operandOf call form s = .ok a t) :
    ∃ items, before ++ a.outline = before ++ items ∧
      Retrace (Forms form) Alike (operandOf read form) items s a t := by
  cases form with
  | parenthesized =>
    have h : Retraces Anywhere (Meets (.symbol .leftParen)) before (call .parenthesized)
        (read .parenthesized) (fun a => before ++ a.outline) (fun _ => Outlook.any) :=
      hcall.retraces .parenthesized rfl
    obtain ⟨items, hafter, hr⟩ := h s a t hs trivial heq
    refine ⟨items, hafter, (hr.ending fun _ _ => trivial).congr fun tokens hfront => ?_⟩
    refine ⟨⟨⟨hfront.heads rfl rfl, hfront.2.trans_ne (by decide)⟩, ?_⟩, fun _ _ _ => rfl⟩
    rw [hfront.2]
    rfl
  | constant =>
    have h : Retraces Anywhere Constants before (operandOf call .constant) (operandOf read .constant)
        (fun a => before ++ a.outline) (fun _ => Follows) :=
      (hcall.retraces .constant rfl).map (fun _ => rfl) fun _ _ h => congrArg Atom.constant h
    obtain ⟨items, hafter, hr⟩ := h s a t hs trivial heq
    refine ⟨items, hafter, (hr.ending fun _ => Alike.follows).congr fun tokens hfront => ?_⟩
    refine ⟨⟨hfront.2, ?_⟩, fun _ _ _ => rfl⟩
    unfold operandForm?
    rw [hfront.1]
    rfl
  | call =>
    have h : Retraces Anywhere OpeningCalls before (operandOf call .call) (operandOf read .call)
        (fun a => before ++ a.outline) (fun _ => Alike) :=
      (hcall.retraces .call rfl).map (fun _ => rfl) fun _ _ h => congrArg Atom.call h
    obtain ⟨items, hafter, hr⟩ := h s a t hs trivial heq
    refine ⟨items, hafter, hr.congr fun tokens hfront => ⟨?_, fun _ _ _ => rfl⟩⟩
    rcases hfront with hfront | hfront | ⟨hcalls, hopening⟩
    · refine ⟨⟨hfront.heads rfl rfl, hfront.2.trans_ne (by decide)⟩, ?_⟩
      rw [hfront.2]
      rfl
    · refine ⟨⟨hfront.heads rfl rfl, hfront.2.trans_ne (by decide)⟩, ?_⟩
      rw [hfront.2]
      rfl
    · exact ⟨hcalls.operands hform hopening, hcalls.operandForm? hform⟩
  | column =>
    have hname : Retraces Anywhere (Forms .column) before qualifiedName qualifiedName
        (fun name => before ++ name.outline) (fun _ => Alike) := by
      refine retraces_qualifiedName (fun s name t rest hname hfine halike => ?_)
        fun _ _ halike => nameEnds_of_ne_dot halike.dot
      exact ⟨operands_of_name hname hfine halike.follows,
        (nameStarts_written hfine rest).operandForm? halike.paren _⟩
    have h : Retraces Anywhere (Forms .column) before (operandOf call .column)
        (operandOf read .column) (fun a => before ++ a.outline) (fun _ => Alike) :=
      hname.map (fun _ => rfl) fun _ _ h => congrArg Atom.column h
    exact h s a t hs trivial heq

theorem retraces_fieldEqualsCall :
    Retraces here FieldFirst before (fieldEqualsCall call) (fieldEqualsCall read)
      (fun f => before ++ f.outline) (fun _ => Alike) := by
  refine retraces_start_bind fun u u' => ?_
  refine ((hcall.retraces .fieldEquals rfl).ending fun _ _ _ _ => trivial).anywhere.bind
    fun relevance relevance' hrelevance => retraces_spanFrom_bind fun span span' =>
      retraces_pure rfl ?_
  exact congrArg (fun r => Call.mk (.relevance r) default) hrelevance

theorem retraces_operandRule :
    Retraces here Operands before (operandRule call) (operandRule read)
      (fun a => before ++ a.outline) (fun _ => Alike) := by
  intro s a t hs _ heq
  cases hstarts : startsFieldEquals s.cursor.ahead with
  -- A search behind its field is found by looking ahead over the field, in the source as in what
  -- is written.
  | true =>
    have h : Retraces Anywhere FieldFirst before (Atom.call <$> fieldEqualsCall call)
        (Atom.call <$> fieldEqualsCall read) (fun a => before ++ a.outline) (fun _ => Alike) :=
      (retraces_fieldEqualsCall hcall).map (fun _ => rfl) fun _ _ h => congrArg Atom.call h
    rw [operandRule_eq, get_bind_apply] at heq
    unfold operandAt at heq
    rw [hstarts, if_pos rfl] at heq
    obtain ⟨items, hafter, hr⟩ := h s a t hs trivial heq
    refine ⟨items, hafter, hr.congr fun tokens hfront => ⟨hfront.operands, fun s' _ hfaces => ?_⟩⟩
    rw [operandRule_eq, get_bind_apply]
    unfold operandAt
    rw [hfaces.startsFieldEquals, hfront.2, if_pos rfl]
    rfl
  | false =>
    cases hform : s.cursor.operandForm? with
    | none =>
      rw [operandRule_eq, get_bind_apply] at heq
      unfold operandAt at heq
      rw [hstarts, if_neg Bool.false_ne_true, hform] at heq
      exact absurd heq reject_ne_ok
    | some form =>
      rw [operandRule_eq_of_form call hstarts hform] at heq
      obtain ⟨items, hafter, hr⟩ := retrace_operandOf hcall hs hform heq
      refine ⟨items, hafter, hr.congr fun tokens hfront => ⟨hfront.1, fun s' _ hfaces => ?_⟩⟩
      have hwritten : startsFieldEquals s'.cursor.ahead = false := by
        rw [hfaces.startsFieldEquals]
        refine Bool.eq_false_iff.2 fun hwritten => ?_
        rw [hfront.1.1.joins hwritten] at hstarts
        cases hstarts
      refine operandRule_eq_of_form read hwritten ?_
      unfold Cursor.operandForm?
      rw [hfaces.peek, hfaces.peek, hfaces.peek]
      exact hfront.2

theorem retraces_parenthesizedRule :
    Retraces here (Meets (.symbol .leftParen)) before (parenthesizedRule call)
      (parenthesizedRule read) (fun a => before ++ a.outline) (fun _ => R) := by
  refine (retraces_symbol .leftParen (N := Heads)).bind fun start start' _ => ?_
  refine (hcall.expr.ending fun _ _ _ (h : Meets (.symbol .rightParen) _ _) =>
    h.alike_symbol rfl).bind fun inner inner' hinner => ?_
  refine (retraces_symbol .rightParen (N := R)).bind fun _ _ _ =>
    retraces_spanFrom_bind fun span span' => retraces_pure ?_ ?_
  · simp [Atom.outline]
  · exact congrArg (Atom.parenthesized · default) hinner

end Callees

end SearchSql.Grammar
