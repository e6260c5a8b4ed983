import SearchSql.Proofs.Ahead
import SearchSql.Proofs.Ladders
import SearchSql.Proofs.LiteralReading
import SearchSql.Proofs.RuleBuilding
import SearchSql.Proofs.Writing
import SearchSql.Time.Reading

/-!
# Chains of operators

An operator that joins its operands from the left is read by a repetition, which takes no level of
nesting. A sum of any length is parsed under every limit that allows for a single expression, and each
operator adds a node to the height of its tree. So the limit on nesting does not bound the height of
the trees that a parse returns (`not_exists_height_le`), unless a chain of operators is taken for a
single node (`parse_height_le`).
-/

set_option autoImplicit false

namespace SearchSql.Grammar

open SearchSql.Grammar.Parser
open SearchSql.Token (ofKeyword ofSymbol tokensOf)

variable {s t : State}

/-- The number one. -/
def one : Token := numeralToken (Nat.toDigits 10 1)

/-- Signs of addition with a one behind each. -/
def additions : Nat → String
  | 0 => ""
  | n + 1 => " + 1" ++ additions n

/-- The tokens of signs of addition with a one behind each. -/
def additionTokens : Nat → List Token
  | 0 => []
  | n + 1 => ofSymbol .plus :: one :: additionTokens n

/-- A query for the sum of ones. -/
def sum (n : Nat) : String := "SELECT 1" ++ additions n

theorem trails_additions (n : Nat) : Trails (additions n) (additionTokens n) := by
  induction n with
  | zero => exact trails_nil
  | succ n ih =>
    have hone : Lexes "1" [one] := lexes_count 1
    have hsum : Lexes ("+ " ++ "1") [ofSymbol .plus, one] :=
      (opens_symbol_space .plus).lexes_append hone
    exact (hsum.trails_space).append ih

theorem tokensOf_sum (n : Nat) :
    tokensOf (sum n).toList = ofKeyword .SELECT :: one :: additionTokens n ++ [.ending] := by
  have hone : Lexes "1" [one] := lexes_count 1
  have hselect : Lexes ("SELECT " ++ "1") [ofKeyword .SELECT, one] :=
    (lexes_keyword .SELECT).space.lexes_append hone
  have h := (hselect.append (trails_additions n)) [] Token.stops_nil
  rwa [List.append_nil, Token.tokensOf_nil] at h

/-! ## Reading a sum -/

/-- A one is an operand. -/
theorem read_operand_one {tokens : List Token} (h : s.Faces (one :: tokens)) :
    ∃ a, read .operand s = .ok a (s.skip 1) := by
  have hkind : s.cursor.current.kind = .integer := h.current
  have hahead := ahead_eq_cons (isEnd_eq_false (t := s.cursor.current) (by rw [hkind]; nofun))
  -- An integer starts neither a field nor a call.
  have hfield : startsFieldEquals s.cursor.ahead = false := by
    refine startsFieldEquals_eq_false fun rest hrest => ?_
    rw [hahead] at hrest
    simp only [afterField?, hkind, TokenKind.isString, Bool.false_eq_true, if_false, afterName?,
      Option.map_eq_some_iff] at hrest
    obtain ⟨behind, hbehind, -⟩ := hrest
    cases hnext : (s.cursor.skip 1).ahead <;>
      simp [afterIdent?, hkind, TokenKind.isNameLike, hnext] at hbehind
  have hform : s.cursor.operandForm? = some .constant := by
    unfold Cursor.operandForm? Grammar.operandForm? Grammar.startsConstant
    rw [Cursor.peek_zero, hkind]
    rfl
  have hread : Number.readSigned s.cursor.current.text = .ok 1 := by
    rw [h.text]
    decide
  have hconstant : ∃ c, read .constant s = .ok c (s.skip 1) := by
    refine ⟨⟨.integer 1, s.cursor.current.span.merge (s.skip 1).cursor.previousSpan⟩, ?_⟩
    rw [read_eq_rule]
    show constantRule read s = _
    unfold constantRule
    rw [current_bind_apply, hkind]
    exact (number_of_isNumber (hkind ▸ rfl)).trans
      (numberBehind_of_integer hkind (String.empty_append ▸ hread))
  obtain ⟨c, hc⟩ := hconstant
  refine ⟨.constant c, ?_⟩
  rw [read_eq_rule]
  show operandRule read s = _
  unfold operandRule
  rw [get_bind_apply]
  dsimp only
  rw [hfield, hform]
  exact bind_of_ok hc

theorem kindAt_additionTokens (n : Nat) :
    kindAt (additionTokens n) 0 = if n = 0 then .endOfInput else .symbol .plus := by
  cases n <;> rfl

/-- The signs of addition are read one after the other, and each adds a node on the left. -/
theorem rounds_additions {n : Nat} (h : s.Faces (additionTokens n)) (left : Atom) :
    ∃ a t, Rounds (arithmeticLadder.step (fun least => read (.arithmetic least)) 0) left s a t ∧
      t.Faces [] ∧ left.height 1 + n ≤ a.height 1 := by
  induction n generalizing s left with
  | zero =>
    refine ⟨left, s, .last (Ladder.step_eq_done_iff.2 ⟨fun op hop => ?_, rfl, rfl⟩), h, Nat.le_refl _⟩
    rw [show s.cursor.current.kind = .endOfInput from h.current] at hop
    cases hop
  | succ n ih =>
    have hplus : s.cursor.current.kind = .symbol .plus := h.current
    have hone : (s.skip 1).Faces (one :: additionTokens n) := h.skip rfl
    obtain ⟨right, hright⟩ := read_operand_one hone
    obtain ⟨a, t, hrounds, ht, ha⟩ := ih (hone.skip rfl) (.arithmetic .add left right)
    refine ⟨a, t, .more (Ladder.step_eq_yield_iff.2 ⟨.add, right, ?_, Nat.zero_le _, ?_, rfl⟩) hrounds,
      ht, ?_⟩
    · rw [hplus]
      rfl
    · refine (Ladder.side_loose arithmeticLadder_climbs).2 ⟨(right, []), beneath_zero.2 ?_, rfl⟩
      refine ⟨(s.skip 1).skip 1, hright, .stop fun op hop => ?_⟩
      rw [((hone.skip rfl).current).trans (kindAt_additionTokens n)] at hop
      split at hop <;> cases hop
    · rw [Atom.height] at ha
      omega

/-- A sum is an expression, up to the end of the input. -/
theorem read_expr_sum {n : Nat} (h : s.Faces (one :: additionTokens n))
    (hlimit : s.depth + 1 ≤ s.settings.nestingLimit) :
    ∃ e t, read .wholeExpr s = .ok e t ∧ t.Faces [] ∧ n ≤ e.height 1 := by
  obtain ⟨left, hleft⟩ := read_operand_one (s := s.deeper 1) h
  have hrest : ((s.deeper 1).skip 1).Faces (additionTokens n) := State.Faces.skip (s := s.deeper 1) h rfl
  -- All additions are rounds of one climb, which adds a level of height each and none of nesting.
  obtain ⟨a, t, hrounds, ht, ha⟩ := rounds_additions hrest left
  have hatom : read (.arithmetic 0) (s.deeper 1) = .ok a t := by
    rw [← arithmeticLadder_climb]
    exact (Ladder.climb_eq_ok_iff arithmeticLadder_climbs).2 ⟨left, _, hleft, hrounds⟩
  have hend : t.cursor.current.kind = .endOfInput := ht.current
  have hpredicate : read (.predicate 0) (s.deeper 1) = .ok (.atom a) t := by
    rw [read_eq_rule]
    refine (bind_of_ok hatom).trans ?_
    refine (loop_eq_ok_iff (Congruence.advances_predicateStep (fun _ => steady_read _) (steady_read _) 0)).2 (.last ?_)
    show predicateStep read 0 (.atom a) t = .ok (.done (.atom a)) t
    unfold predicateStep
    have htest : Test.at? t.cursor = none := by
      unfold Test.at?
      rw [Cursor.peek_zero, hend]
      rfl
    rw [get_bind_apply, htest]
    rfl
  refine ⟨.predicate (.atom a), t.shallower 1, ?_, ht, ?_⟩
  · rw [read_eq_rule, show rule read (.expr 0) = nest 1 (exprBody read 0) from rfl, nest_eq_ok_iff]
    refine ⟨hlimit, t, ?_, rfl⟩
    rw [← connectiveLadder_climb]
    refine (Ladder.climb_eq_ok_iff connectiveLadder_climbs).2 ⟨.predicate (.atom a), t, ?_, .last ?_⟩
    · refine logicalOperand_eq_ok_iff.2 (.inl ⟨?_, _, hpredicate, rfl⟩)
      rw [show (s.deeper 1).cursor.current.kind = .integer from h.current]
      nofun
    · refine Ladder.step_eq_done_iff.2 ⟨fun op hop => ?_, rfl, rfl⟩
      rw [hend] at hop
      cases hop
  · simp only [Expr.height, Predicate.height]
    omega

theorem optionalAlias_of_end (h : s.cursor.current.kind = .endOfInput) :
    optionalAlias s = .ok none s := by
  unfold optionalAlias
  rw [takeKeyword_bind_apply, if_neg (by simp [h])]
  show (current >>= fun _ => _) s = _
  rw [current_bind_apply, h]
  rfl

/-- A sum is all there is in a list of selected items. -/
theorem read_selectItems_sum {n : Nat} (h : s.Faces (one :: additionTokens n))
    (hlimit : s.depth + 1 ≤ s.settings.nestingLimit) :
    ∃ e t, read .selectItems s = .ok [.expr e none] t ∧ t.Faces [] ∧ n ≤ e.height 1 := by
  obtain ⟨e, t, he, ht, hheight⟩ := read_expr_sum h hlimit
  have hend : t.cursor.current.kind = .endOfInput := ht.current
  have hitem : read (.selectItem true) s = .ok (.expr e none) t := by
    rw [read_eq_rule]
    show selectItemRule read true s = _
    unfold selectItemRule
    rw [atSymbol_bind_apply, show s.cursor.current.kind = .integer from h.current]
    show (read .wholeExpr >>= fun expr => optionalAlias >>= fun name => pure (SelectItem.expr expr name)) s = _
    rw [bind_of_ok he, bind_of_ok (optionalAlias_of_end hend)]
    rfl
  have htaken : t.cursor.ahead.length < s.cursor.ahead.length := by
    rw [ht.length, h.length]
    exact Nat.succ_pos _
  refine ⟨e, t, ?_, ht, hheight⟩
  rw [read_eq_rule]
  exact commaList_of_single (steady_read _) (steady_read _) hitem htaken (by simp [hend])

/-- At the end of the input there are no further clauses. -/
theorem fromRelation_of_end (start : Span)
    (finish : Option Relation → Option Condition → Option GroupBy → Option Condition →
      Option OrderBy → Option Limit → Span → Query) (h : s.cursor.current.kind = .endOfInput) :
    fromRelation read start finish s =
      .ok (finish none none none none none none (start.merge s.cursor.previousSpan)) s := by
  have hend : clauseEnd s = .ok () s := by
    unfold clauseEnd
    rw [get_bind_apply, show s.atBoundary = true by unfold State.atBoundary; rw [h]; rfl]
    rfl
  have hclause {α : Type} (word : Keyword) (p : Parser α) : clause false word p s = .ok none s := rfl
  have hlimit : limitClause s = .ok none s := by
    unfold limitClause
    rw [atKeyword_bind_apply, h]
    rfl
  unfold fromRelation
  rw [bind_of_ok hend, atKeyword_bind_apply, h]
  show (clause false .FROM (read .relation) >>= fun _ => _) s = _
  rw [bind_of_ok (hclause .FROM _)]
  show (clause false .WHERE _ >>= fun _ => clause false .GROUP _ >>= fun _ =>
    clause false .HAVING _ >>= fun _ => clause false .ORDER _ >>= fun _ => limitClause >>= fun _ =>
      spanFrom start >>= fun _ => _) s = _
  rw [bind_of_ok (hclause .WHERE _), bind_of_ok (hclause .GROUP _), bind_of_ok (hclause .HAVING _),
    bind_of_ok (hclause .ORDER _), bind_of_ok hlimit, spanFrom_bind_apply]
  rfl

/-- A sum is parsed whatever its length, if expressions are allowed at all. -/
theorem parse_sum [Time.Library] {n : Nat} {settings : Settings} (h : 1 ≤ settings.nestingLimit) :
    ∃ statement, (parse (sum n) settings).statement = some statement ∧ n ≤ statement.height 1 := by
  have hfaces := faces_ofTokens settings (tokensOf_sum n)
  generalize hstart : State.ofTokens (Token.tokenize (sum n)) settings = s at hfaces
  have hselect : s.cursor.current.kind = .keyword .SELECT := hfaces.current
  have hskip : (s.skip 1).Faces (one :: additionTokens n) := hfaces.skip rfl
  have hquantifier : quantifier (s.skip 1) = .ok none (s.skip 1) := by
    have hone : (s.skip 1).cursor.current.kind = .integer := hskip.current
    unfold quantifier
    rw [takeKeyword_bind_apply, if_neg (by rw [hone]; simp)]
    show (takeKeyword .DISTINCT >>= fun _ => _) (s.skip 1) = _
    rw [takeKeyword_bind_apply, if_neg (by rw [hone]; simp)]
    rfl
  have hsettings : s.depth + 1 ≤ s.settings.nestingLimit := by
    subst hstart
    exact h
  obtain ⟨e, t, hitems, ht, hheight⟩ := read_selectItems_sum hskip hsettings
  have hend : t.cursor.current.kind = .endOfInput := ht.current
  -- The query is the select list alone, since the input ends behind it.
  have hquery : ∃ q, read .query s = .ok q t ∧ n ≤ q.height 1 := by
    refine ⟨⟨none, [.expr e none], none, none, none, none, none, none,
      s.cursor.current.span.merge t.cursor.previousSpan⟩, ?_, ?_⟩
    · rw [read_eq_rule]
      show queryRule read s = _
      rw [queryRule_eq, bind_of_ok (keyword_eq_ok_iff.2 ⟨hselect, rfl, rfl⟩),
        bind_of_ok hquantifier]
      refine (bind_of_ok (a := some [.expr e none]) ?_).trans (fromRelation_of_end _ _ hend)
      unfold recover
      rw [hitems]
    · simp only [Query.height, greatest, SelectItem.height]
      omega
  obtain ⟨q, hq, hqheight⟩ := hquery
  refine ⟨.select q, ?_, Nat.le_succ_of_le hqheight⟩
  have hroot : rootRule read s = .ok (some (.select q)) t := by
    have hstatement : optionalStatement read s = .ok (some (.select q)) t := by
      unfold optionalStatement
      rw [current_bind_apply, hselect]
      show recover (statementRule read) s = _
      unfold recover statementRule
      rw [current_bind_apply, hselect]
      dsimp only
      rw [bind_of_ok hq]
      rfl
    unfold rootRule
    rw [bind_of_ok hstatement, takeSymbol_bind_apply, if_neg (by simp [hend])]
    refine bind_of_ok (a := ()) ?_
    unfold inputEnd
    rw [current_bind_apply, show t.cursor.current.isEnd = true from beq_iff_eq.2 hend]
    rfl
  unfold parse parseTokens
  rw [runRoot_eq, hstart, hroot]
  rfl

end SearchSql.Grammar

namespace SearchSql

open Grammar

/-- The limit on nesting does not bound the height of the trees that a parse returns: a chain of
operators makes a tree as high as the chain is long. -/
theorem not_exists_height_le :
    ¬∃ bound : Nat → Nat, ∀ (text : String) (settings : Settings),
      ∀ statement ∈ (parse text settings).statement,
        statement.height 1 ≤ bound settings.maxDepth := by
  rintro ⟨bound, hbound⟩
  obtain ⟨statement, hstatement, hheight⟩ :=
    parse_sum (n := bound Settings.standard.maxDepth + 1)
      (show 1 ≤ Settings.standard.nestingLimit by decide)
  exact absurd (hbound _ _ statement hstatement) (Nat.not_le.2 hheight)

end SearchSql
