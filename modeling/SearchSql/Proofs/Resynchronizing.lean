import Mathlib.Order.Bounds.Basic
import SearchSql.Proofs.Checked
import SearchSql.Proofs.SubqueryRecovery

/-!
# Where recovery stops

Recovery leaves out tokens up to the first one that ends the input, or that a clause may end in front
of while no parenthesis is open (`synchronize_isLeast`). It changes nothing else, and the end of a
clause, which is required there next, is found without a further report.

Parentheses are counted from where recovery starts. One that closes nothing does not count, so the
count never falls below zero.
-/

set_option autoImplicit false

namespace SearchSql.Grammar

open SearchSql.Grammar.Parser

/-! ## Stops -/

/-- The parentheses that are open behind a token, if `opened` are open in front of it. -/
def openedBehind (opened : Nat) (t : Token) : Nat :=
  if t.kind = .symbol .leftParen then opened + 1
  else if t.kind = .symbol .rightParen then opened - 1
  else opened

/-- Whether the kind ends a clause where no parenthesis is open: a semicolon, a word that starts a
clause, or the parenthesis that closes the innermost open query, if there is one. -/
def EndsClause (insideParens : Bool) (kind : TokenKind) : Prop :=
  kind = .symbol .semicolon ∨
    (∃ word ∈ [Keyword.FROM, .WHERE, .GROUP, .HAVING, .ORDER, .LIMIT], kind = .keyword word) ∨
    insideParens = true ∧ kind = .symbol .rightParen

/-- Whether recovery stops in front of the token at `index`, if `opened` parentheses are open in
front of the list. -/
def StopsAt (insideParens : Bool) (opened : Nat) (tokens : List Token) (index : Nat) : Prop :=
  ∃ t, tokens[index]? = some t ∧
    (t.kind = .endOfInput ∨
      (tokens.take index).foldl openedBehind opened = 0 ∧ EndsClause insideParens t.kind)

theorem openAfter_eq (opened : Nat) (t : Token) : openAfter opened t.kind = openedBehind opened t := by
  unfold openAfter openedBehind
  split
  · next h => rw [if_pos h]
  · next h => rw [if_neg (by rw [h]; nofun), if_pos h]
  · next hleft hright => rw [if_neg hleft, if_neg hright]

theorem startsClause_iff_mem {word : Keyword} :
    word.startsClause = true ↔ word ∈ [Keyword.FROM, .WHERE, .GROUP, .HAVING, .ORDER, .LIMIT] := by
  cases word <;> decide

/-- A boundary is an end of input, or ends a clause. -/
theorem isBoundary_iff {insideParens : Bool} {kind : TokenKind} :
    isBoundary insideParens kind = true ↔ kind = .endOfInput ∨ EndsClause insideParens kind := by
  cases kind with
  | keyword word => simp [isBoundary, EndsClause, startsClause_iff_mem]
  | symbol sign => cases sign <;> simp [isBoundary, EndsClause]
  | endOfInput => simp [isBoundary]
  | _ => simp [isBoundary, EndsClause]

section

variable {insideParens : Bool} {opened : Nat} {t : Token} {ts : List Token}

/-- The test that recovery makes of a token. -/
theorem stopsAt_zero :
    StopsAt insideParens opened (t :: ts) 0 ↔
      (t.isEnd || (opened == 0 && isBoundary insideParens t.kind)) = true := by
  have hend : t.isEnd = true ↔ t.kind = .endOfInput := beq_iff_eq
  simp only [StopsAt, List.getElem?_cons_zero, Option.some.injEq, exists_eq_left', List.take_zero,
    List.foldl_nil, Bool.or_eq_true, Bool.and_eq_true, beq_iff_eq, hend, isBoundary_iff]
  tauto

theorem stopsAt_succ {index : Nat} :
    StopsAt insideParens opened (t :: ts) (index + 1) ↔
      StopsAt insideParens (openedBehind opened t) ts index := Iff.rfl

end

/-- In front of the closing token, the boundary that recovery looks for is the first stop. -/
theorem boundaryDistance_isLeast (insideParens : Bool) (opened : Nat) {closing : Token}
    (hclosing : closing.isEnd = true) (ahead : List Token) :
    IsLeast {index | StopsAt insideParens opened (ahead ++ [closing]) index}
      (boundaryDistance insideParens opened ahead) := by
  induction ahead generalizing opened with
  | nil =>
    refine ⟨?_, fun _ _ => Nat.zero_le _⟩
    exact stopsAt_zero.2 (by rw [hclosing]; rfl)
  | cons t ts ih =>
    cases hstop : t.isEnd || (opened == 0 && isBoundary insideParens t.kind) with
    | true =>
      rw [boundaryDistance, if_pos hstop]
      exact ⟨stopsAt_zero.2 hstop, fun _ _ => Nat.zero_le _⟩
    | false =>
      rw [boundaryDistance, hstop, if_neg Bool.false_ne_true, openAfter_eq]
      obtain ⟨hmem, hleast⟩ := ih (openedBehind opened t)
      refine ⟨stopsAt_succ.2 hmem, fun index hindex => ?_⟩
      cases index with
      | zero => exact Bool.noConfusion ((stopsAt_zero.1 hindex).symm.trans hstop)
      | succ index => exact Nat.succ_le_succ (hleast (stopsAt_succ.1 hindex))

/-! ## The cursor -/

/-- No token that recovery leaves out ends the input. -/
theorem isEnd_of_mem_take_boundaryDistance (insideParens : Bool) (opened : Nat)
    (tokens : List Token) :
    ∀ t ∈ tokens.take (boundaryDistance insideParens opened tokens), t.isEnd = false := by
  induction tokens generalizing opened with
  | nil => exact fun t ht => absurd ht List.not_mem_nil
  | cons t ts ih =>
    cases hstop : t.isEnd || (opened == 0 && isBoundary insideParens t.kind) with
    | true =>
      rw [boundaryDistance, if_pos hstop]
      exact fun t ht => absurd ht List.not_mem_nil
    | false =>
      rw [boundaryDistance, hstop, if_neg Bool.false_ne_true, List.take_succ_cons]
      rintro u (_ | ⟨_, hu⟩)
      · exact (Bool.or_eq_false_iff.1 hstop).1
      · exact ih _ u hu

/-- Recovery moves the cursor by the distance to the next boundary. -/
theorem position_skip_boundaryDistance (insideParens : Bool) (opened : Nat) (c : Cursor) :
    (c.skip (boundaryDistance insideParens opened c.ahead)).position =
      c.position + boundaryDistance insideParens opened c.ahead := by
  have hlength : (c.ahead.take (boundaryDistance insideParens opened c.ahead)).length =
      boundaryDistance insideParens opened c.ahead :=
    List.length_take_of_le (boundaryDistance_le_length _ _ _)
  obtain ⟨hpassed, -⟩ := Cursor.skip_append (List.take_append_drop _ c.ahead).symm
    (isEnd_of_mem_take_boundaryDistance insideParens opened c.ahead)
  rw [hlength] at hpassed
  unfold Cursor.position
  rw [hpassed, List.length_append, List.length_reverse, hlength, Nat.add_comm]

theorem drop_position_allTokens (c : Cursor) :
    c.allTokens.drop c.position = c.ahead ++ [c.closing] := by
  unfold Cursor.allTokens Cursor.position
  rw [List.append_assoc, ← List.length_reverse, List.drop_left]

/-- Whether recovery that starts at the cursor stops in front of the token at `index` in the list of
all tokens. -/
def StopsFrom (insideParens : Bool) (c : Cursor) (index : Nat) : Prop :=
  c.position ≤ index ∧ ∃ t, c.allTokens[index]? = some t ∧
    (t.kind = .endOfInput ∨
      ((c.allTokens.take index).drop c.position).foldl openedBehind 0 = 0 ∧
        EndsClause insideParens t.kind)

/-- Indices in the list of all tokens are those in the list ahead, moved by the position. -/
theorem stopsFrom_iff {insideParens : Bool} {c : Cursor} {index : Nat} :
    StopsFrom insideParens c (c.position + index) ↔
      StopsAt insideParens 0 (c.ahead ++ [c.closing]) index := by
  unfold StopsFrom
  rw [← List.getElem?_drop, List.drop_take, Nat.add_sub_cancel_left, drop_position_allTokens]
  exact and_iff_right (Nat.le_add_right _ _)

/-- Recovery moves the cursor to the first stop. -/
theorem position_skip_isLeast (insideParens : Bool) (c : Cursor) :
    IsLeast {index | StopsFrom insideParens c index}
      (c.skip (boundaryDistance insideParens 0 c.ahead)).position := by
  obtain ⟨hstop, hleast⟩ := boundaryDistance_isLeast insideParens 0 c.closing_isEnd c.ahead
  rw [position_skip_boundaryDistance]
  refine ⟨stopsFrom_iff.2 hstop, fun index hindex => ?_⟩
  obtain ⟨offset, rfl⟩ := Nat.exists_eq_add_of_le hindex.1
  exact Nat.add_le_add_left (hleast (stopsFrom_iff.1 hindex)) _

/-- A cursor at a stop is at a boundary. -/
theorem isBoundary_of_stopsFrom {insideParens : Bool} {c d : Cursor}
    (htokens : d.allTokens = c.allTokens) (h : StopsFrom insideParens c d.position) :
    isBoundary insideParens d.current.kind = true := by
  obtain ⟨-, t, ht, hends⟩ := h
  rw [← htokens, Cursor.getElem?_position] at ht
  obtain rfl := Option.some.inj ht
  exact isBoundary_iff.2 (hends.imp_right And.right)

/-! ## Recovery -/

/-- From every state, recovery moves the cursor to the first token from there on that ends the input,
or that ends a clause while every parenthesis opened on the way is closed. Besides the cursor it only
adds an event, and behind it the end of a clause is found as it is. -/
theorem synchronize_isLeast (s : State) :
    ∃ t, synchronize s = .ok () t ∧
      IsLeast {index | StopsFrom (0 < s.subqueries) s.cursor index} t.cursor.position ∧
      t.cursor.allTokens = s.cursor.allTokens ∧
      (∃ event, t = { s with cursor := t.cursor, events := event :: s.events }) ∧
      clauseEnd t = .ok () t := by
  have hleast := position_skip_isLeast (0 < s.subqueries) s.cursor
  have htokens := Cursor.allTokens_skip (boundaryDistance (0 < s.subqueries) 0 s.cursor.ahead) s.cursor
  exact ⟨_, rfl, hleast, htokens, ⟨_, rfl⟩,
    clauseEnd_of_atBoundary (isBoundary_of_stopsFrom htokens hleast.1)⟩

end SearchSql.Grammar
