import SearchSql.Proofs.Recovering
import SearchSql.Proofs.StatementReading

/-!
# Where recovery goes on

Recovery leaves out the tokens up to the next boundary, passing over parentheses that it sees opened.
`fromBoundary` gives the tokens it goes on with. A parser under `recover` ends where it ends, or in
front of these tokens; the end of a clause moves there in any case.
-/

set_option autoImplicit false

namespace SearchSql.Grammar

open SearchSql.Grammar.Parser

variable {α : Type}

/-! ## Boundaries -/

/-- The tokens from the next boundary on. -/
def fromBoundary (insideParens : Bool) : Nat → List Token → List Token
  | _, [] => []
  | opened, t :: ts =>
      if t.isEnd || (opened == 0 && isBoundary insideParens t.kind) then t :: ts
      else fromBoundary insideParens (openAfter opened t.kind) ts

section

variable {insideParens : Bool} {opened : Nat} {t : Token} {ts : List Token}

theorem fromBoundary_of_stop
    (h : (t.isEnd || (opened == 0 && isBoundary insideParens t.kind)) = true) :
    fromBoundary insideParens opened (t :: ts) = t :: ts := if_pos h

theorem fromBoundary_of_pass
    (h : (t.isEnd || (opened == 0 && isBoundary insideParens t.kind)) = false) :
    fromBoundary insideParens opened (t :: ts) =
      fromBoundary insideParens (openAfter opened t.kind) ts := by
  rw [fromBoundary, h]
  rfl

theorem ahead_skip_boundaryDistance (insideParens : Bool) (opened : Nat) (c : Cursor) :
    (c.skip (boundaryDistance insideParens opened c.ahead)).ahead =
      fromBoundary insideParens opened c.ahead := by
  generalize htokens : c.ahead = tokens
  induction tokens generalizing opened c with
  | nil => exact htokens
  | cons t ts ih =>
    cases h : t.isEnd || (opened == 0 && isBoundary insideParens t.kind) with
    | true =>
      rw [fromBoundary_of_stop h, boundaryDistance, h]
      exact htokens
    | false =>
      rw [fromBoundary_of_pass h, boundaryDistance, h]
      have hend : t.isEnd = false := (Bool.or_eq_false_iff.1 h).1
      have hadvance : c.advance.ahead = ts := by
        rcases c with ⟨passed, ahead, closing, hclosing⟩
        obtain rfl : ahead = t :: ts := htokens
        simp [Cursor.advance, hend]
      exact ih _ c.advance hadvance

/-- Recovery goes on at a boundary, at an end of input, or where no token is left. -/
theorem fromBoundary_idem (tokens : List Token) :
    fromBoundary insideParens 0 (fromBoundary insideParens opened tokens) =
      fromBoundary insideParens opened tokens := by
  induction tokens generalizing opened with
  | nil => rfl
  | cons t ts ih =>
    cases h : t.isEnd || (opened == 0 && isBoundary insideParens t.kind) with
    | true =>
      rw [fromBoundary_of_stop h]
      refine fromBoundary_of_stop ?_
      simp only [Bool.or_eq_true, Bool.and_eq_true] at h ⊢
      exact h.imp_right fun hstop => ⟨rfl, hstop.2⟩
    | false =>
      rw [fromBoundary_of_pass h]
      exact ih

/-- At a boundary, nothing is left out. -/
theorem fromBoundary_of_isBoundary {c : Cursor} (h : isBoundary insideParens c.current.kind = true) :
    fromBoundary insideParens 0 c.ahead = c.ahead := by
  rcases c with ⟨passed, ahead, closing, hclosing⟩
  cases ahead with
  | nil => rfl
  | cons t ts => exact fromBoundary_of_stop (by rw [show isBoundary _ t.kind = true from h]; simp)

end

/-! ## Runs that recover -/

section

variable {s t : State}

/-- Whether a closing parenthesis is a boundary. -/
def State.inside (s : State) : Bool := 0 < s.subqueries

theorem synchronize_eq_ok (h : synchronize s = .ok () t) :
    t.cursor.ahead = fromBoundary s.inside 0 s.cursor.ahead := by
  obtain ⟨-, rfl⟩ := EStateM.Result.ok.inj h
  exact ahead_skip_boundaryDistance s.inside 0 s.cursor

/-- Only a diagnostic that is not fatal is passed over. -/
theorem passOver_eq_ok {d : Diagnostic} (h : passOver d s = .ok () t) :
    d.isFatal = false ∧ t.cursor.ahead = fromBoundary s.inside 0 s.cursor.ahead := by
  unfold passOver at h
  rw [get_bind_apply] at h
  split at h
  · next hpass =>
    refine ⟨by simpa using (Bool.and_eq_true_iff.1 hpass).1, ?_⟩
    obtain ⟨_, u, hreport, hsync⟩ := bind_eq_ok_iff.1 h
    -- Reporting moves no cursor.
    have hu : u.cursor = s.cursor ∧ u.inside = s.inside := by
      rw [report_apply] at hreport
      split at hreport
      · cases hreport
        exact ⟨rfl, rfl⟩
      · split at hreport
        · cases hreport
        · cases hreport
          exact ⟨rfl, rfl⟩
    rw [synchronize_eq_ok hsync, hu.1, hu.2]
  · cases h

theorem recover_eq_ok {p : Parser α} {found : Option α} (h : recover p s = .ok found t) :
    (∃ a, p s = .ok a t ∧ found = some a) ∨
      ∃ d u, p s = .error (.rejected d) u ∧ passOver d u = .ok () t ∧ found = none := by
  unfold recover at h
  cases hrun : p s with
  | ok a u =>
    rw [hrun] at h
    cases h
    exact .inl ⟨a, rfl, rfl⟩
  | error e u =>
    rw [hrun] at h
    cases e with
    | outOfFuel => cases h
    | rejected d =>
      obtain ⟨_, v, hpass, hpure⟩ := bind_eq_ok_iff.1 h
      obtain ⟨rfl, rfl⟩ := pure_eq_ok_iff.1 hpure
      exact .inr ⟨d, u, rfl, hpass, rfl⟩

/-- The end of a clause is at a boundary, or there is no token left. -/
theorem clauseEnd_eq_ok (h : clauseEnd s = .ok () t) :
    t.cursor.ahead = fromBoundary s.inside 0 s.cursor.ahead := by
  unfold clauseEnd at h
  rw [get_bind_apply] at h
  split at h
  · obtain ⟨_, _, hcurrent, hpass⟩ := bind_eq_ok_iff.1 h
    obtain ⟨-, rfl⟩ := EStateM.Result.ok.inj hcurrent
    exact (passOver_eq_ok hpass).2
  · next hboundary =>
    obtain ⟨-, rfl⟩ := EStateM.Result.ok.inj h
    have hs : s.atBoundary = true := by simpa using hboundary
    exact (fromBoundary_of_isBoundary hs).symm

/-- Behind a clause that stands here, what it took is passed, or what it came to. -/
theorem clause_eq_ok {p : Parser α} {word : Keyword} {found : Option α}
    (hword : s.cursor.current.kind = .keyword word) (h : clause true word p s = .ok found t) :
    ∃ u, recover p s = .ok found u ∧ clauseEnd u = .ok () t := by
  unfold clause at h
  rw [atKeyword_bind_apply, hword, beq_self_eq_true] at h
  obtain ⟨found', u, hrecover, hrest⟩ := bind_eq_ok_iff.1 h
  obtain ⟨_, v, hend, hpure⟩ := bind_eq_ok_iff.1 hrest
  obtain ⟨rfl, rfl⟩ := pure_eq_ok_iff.1 hpure
  exact ⟨u, hrecover, hend⟩

theorem clause_of_ne {p : Parser α} {word : Keyword} (allowed : Bool)
    (hword : s.cursor.current.kind ≠ .keyword word) : clause allowed word p s = .ok none s := by
  unfold clause
  rw [atKeyword_bind_apply, beq_eq_false_iff_ne.2 hword, Bool.and_false]
  rfl

theorem limitClause_of_ne (hword : s.cursor.current.kind ≠ .keyword .LIMIT) :
    limitClause s = .ok none s := by
  unfold limitClause
  rw [atKeyword_bind_apply, beq_eq_false_iff_ne.2 hword]
  rfl

end

end SearchSql.Grammar
