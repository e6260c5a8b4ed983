import SearchSql.Token.Basic

/-!
# Cursors into a token list

A cursor splits a token list at the current token. The last token of every list marks the end of the
input; `Cursor.ofTokens` supplies it when the producer did not. Moving on stops at the first such
token, wherever it stands, so a cursor never leaves the list.

The tokens already passed are kept with the latest first: `allTokens` does not change as the cursor
moves (`allTokens_skip`), and `position` counts what was passed.
-/

set_option autoImplicit false

namespace SearchSql

/-- A position in a token list: the tokens passed with the latest first, the tokens ahead, and the
closing token after them. -/
structure Cursor where
  passed : List Token
  ahead : List Token
  closing : Token
  closing_isEnd : closing.isEnd = true

namespace Cursor

/-- The cursor at the start of `tokens`. A list that does not end in an end-of-input token is closed
by one at the end of its last token. -/
def ofTokens (tokens : List Token) : Cursor :=
  match tokens.getLast? with
  | none => ⟨[], [], Token.endOfInput 0, rfl⟩
  | some last =>
      if h : last.isEnd = true then ⟨[], tokens.dropLast, last, h⟩
      else ⟨[], tokens, Token.endOfInput last.span.stop, rfl⟩

/-- The token `k` places ahead; past the end it is the closing token. -/
def peek (c : Cursor) (k : Nat) : Token := c.ahead[k]?.getD c.closing

/-- The token under the cursor. -/
def current (c : Cursor) : Token := c.ahead.headD c.closing

/-- The number of tokens passed. -/
def position (c : Cursor) : Nat := c.passed.length

/-- The tokens of the whole list, the closing one included. -/
def allTokens (c : Cursor) : List Token := c.passed.reverse ++ c.ahead ++ [c.closing]

/-- The cursor after the current token, which is never moved past an end of input. -/
def advance (c : Cursor) : Cursor :=
  match c.ahead with
  | [] => c
  | t :: ts => if t.isEnd then c else { c with passed := t :: c.passed, ahead := ts }

/-- The cursor after `n` steps. -/
def skip : Nat → Cursor → Cursor
  | 0, c => c
  | n + 1, c => skip n c.advance

/-- The span of the token passed last; before the first, the empty span where the list starts. -/
def previousSpan (c : Cursor) : Span :=
  match c.passed with
  | [] => Span.point c.current.span.start
  | t :: _ => t.span

@[simp] theorem peek_zero (c : Cursor) : c.peek 0 = c.current := by
  cases h : c.ahead <;> simp [peek, current, h]

/-- The token under the cursor is the first of those that are left. -/
theorem exists_current_cons (c : Cursor) : ∃ rest, c.ahead ++ [c.closing] = c.current :: rest := by
  obtain ⟨passed, ahead, closing, h⟩ := c
  cases ahead with
  | nil => exact ⟨[], rfl⟩
  | cons t ts => exact ⟨ts ++ [closing], rfl⟩

theorem allTokens_advance (c : Cursor) : c.advance.allTokens = c.allTokens := by
  rcases c with ⟨passed, ahead, closing, h⟩
  cases ahead with
  | nil => rfl
  | cons t ts => by_cases ht : t.isEnd = true <;> simp [advance, allTokens, ht]

theorem allTokens_skip (n : Nat) (c : Cursor) : (skip n c).allTokens = c.allTokens := by
  induction n generalizing c with
  | zero => rfl
  | succ n ih => exact (ih c.advance).trans (allTokens_advance c)

theorem closing_advance (c : Cursor) : c.advance.closing = c.closing := by
  rcases c with ⟨passed, ahead, closing, h⟩
  cases ahead with
  | nil => rfl
  | cons t ts => by_cases ht : t.isEnd = true <;> simp [advance, ht]

theorem position_advance (c : Cursor) (h : c.current.isEnd = false) :
    c.advance.position = c.position + 1 := by
  rcases c with ⟨passed, ahead, closing, hc⟩
  cases ahead with
  | nil => simp [current, hc] at h
  | cons t ts => simp_all [current, advance, position]

theorem ahead_length_advance (c : Cursor) (h : c.current.isEnd = false) :
    c.advance.ahead.length + 1 = c.ahead.length := by
  rcases c with ⟨passed, ahead, closing, hc⟩
  cases ahead with
  | nil => simp [current, hc] at h
  | cons t ts => simp_all [current, advance]

section

variable {c : Cursor} (h : c.current.isEnd = false)

include h

theorem passed_skip_one : (c.skip 1).passed = c.current :: c.passed := by
  obtain ⟨passed, ahead, closing, hclosing⟩ := c
  cases ahead with
  | nil => exact absurd (hclosing.symm.trans h) nofun
  | cons t ts =>
    have ht : t.isEnd = false := h
    simp [skip, advance, current, ht]

theorem current_skip_one : (c.skip 1).current = c.peek 1 := by
  obtain ⟨passed, ahead, closing, hclosing⟩ := c
  cases ahead with
  | nil => exact absurd (hclosing.symm.trans h) nofun
  | cons t ts =>
    have ht : t.isEnd = false := h
    cases ts <;> simp [skip, advance, current, peek, ht]

theorem previousSpan_skip_one : (c.skip 1).previousSpan = c.current.span := by
  unfold previousSpan
  rw [passed_skip_one h]

end

end Cursor

end SearchSql
