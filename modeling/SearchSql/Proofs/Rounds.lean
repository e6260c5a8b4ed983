import SearchSql.Proofs.Congruence

/-!
# The rounds of a repetition

A repetition may make as many rounds as there are tokens ahead. Where each round but the last takes a
token, this is no bound: the repetition runs its step until it is done (`loop_eq_ok_iff`).
-/

set_option autoImplicit false

namespace SearchSql.Grammar

open SearchSql.Grammar.Parser

variable {α : Type}

/-- Runs of `step` in a row, of which the last is done. -/
inductive Rounds (step : α → Parser (ForInStep α)) : α → State → α → State → Prop where
  | last {a b : α} {s t : State} : step a s = .ok (.done b) t → Rounds step a s b t
  | more {a b c : α} {s t u : State} : step a s = .ok (.yield b) t → Rounds step b t c u →
      Rounds step a s c u

/-- A repetition that succeeds makes its rounds. -/
theorem rounds_of_loopOver {step : α → Parser (ForInStep α)} {rounds : List Token} {a b : α}
    {s t : State} (h : loopOver step rounds a s = .ok b t) : Rounds step a s b t := by
  induction rounds generalizing a s with
  | nil =>
    rw [loopOver_eq] at h
    obtain ⟨r, u, hr, hrest⟩ := bind_eq_ok_iff.1 h
    cases r with
    | done c =>
      obtain ⟨rfl, rfl⟩ := pure_eq_ok_iff.1 hrest
      exact .last hr
    | yield c => cases hrest
  | cons _ rounds ih =>
    rw [loopOver_eq] at h
    obtain ⟨r, u, hr, hrest⟩ := bind_eq_ok_iff.1 h
    cases r with
    | done c =>
      obtain ⟨rfl, rfl⟩ := pure_eq_ok_iff.1 hrest
      exact .last hr
    | yield c => exact .more hr (ih hrest)

/-- A repetition makes any rounds that there are, as long as each of them takes a token. -/
theorem Rounds.loopOver {step : α → Parser (ForInStep α)} (hadv : ∀ a, Advances (step a)) {a b : α}
    {s t : State} (h : Rounds step a s b t) :
    ∀ {rounds : List Token}, s.cursor.ahead.length ≤ rounds.length →
      Parser.loopOver step rounds a s = .ok b t := by
  induction h with
  | last hstep =>
    intro rounds _
    rw [loopOver_eq, bind_of_ok hstep]
    cases rounds <;> rfl
  | more hstep _ ih =>
    intro rounds hrounds
    -- The round has taken a token, so there was one ahead to pay for it.
    have htaken := hadv _ _ _ _ hstep
    cases rounds with
    | nil => exact absurd (Nat.lt_of_lt_of_le htaken hrounds) (Nat.not_lt_zero _)
    | cons _ rounds =>
      rw [loopOver_eq, bind_of_ok hstep]
      exact ih (Nat.le_of_lt_succ (Nat.lt_of_lt_of_le htaken hrounds))

/-- A repetition runs its step until it is done. -/
theorem loop_eq_ok_iff {step : α → Parser (ForInStep α)} (hadv : ∀ a, Advances (step a)) {a b : α}
    {s t : State} : loop a step s = .ok b t ↔ Rounds step a s b t := by
  constructor
  · intro h
    exact rounds_of_loopOver h
  · intro h
    exact h.loopOver hadv (Nat.le_refl _)

theorem loop_of_done {step : α → Parser (ForInStep α)} (hadv : ∀ a, Advances (step a)) {a : α}
    {s : State} (h : step a s = .ok (.done a) s) : loop a step s = .ok a s :=
  (loop_eq_ok_iff hadv).2 (.last h)

/-! ## Lists -/

/-- A list gets longer with each round but the last, which takes nothing. -/
theorem rounds_commaStep {rule : String} {next : Parser α} {items items' : List α} {s t : State}
    (h : Rounds (commaStep rule next) items s items' t) :
    items.length < items'.length ∨ items' = items ∧ t = s := by
  induction h with
  | last hstep =>
    unfold commaStep at hstep
    rw [takeSymbol_bind_apply] at hstep
    split at hstep
    · obtain ⟨_, -, hyield⟩ := map_eq_ok_iff.1 hstep
      cases hyield
    · obtain ⟨hdone, rfl⟩ := pure_eq_ok_iff.1 hstep
      exact .inr ⟨(ForInStep.done.inj hdone).symm, rfl⟩
  | more hstep _ ih =>
    unfold commaStep at hstep
    rw [takeSymbol_bind_apply] at hstep
    split at hstep
    · obtain ⟨item, -, hyield⟩ := map_eq_ok_iff.1 hstep
      obtain rfl := ForInStep.yield.inj hyield
      rcases ih with hlt | ⟨rfl, -⟩
      · exact .inl (Nat.lt_trans (Nat.lt_succ_self _) hlt)
      · exact .inl (Nat.lt_succ_self _)
    · cases (pure_eq_ok_iff.1 hstep).1

/-- A list of one item ends behind it. -/
theorem commaList_eq_single {rule : String} {first next : Parser α} {a : α} {s t : State}
    (hnext : Steady next) (h : commaList rule first next s = .ok [a] t) : first s = .ok a t := by
  rw [commaList_eq] at h
  obtain ⟨head, u, htaking, h⟩ := bind_eq_ok_iff.1 h
  obtain ⟨tail, v, hloop, h⟩ := bind_eq_ok_iff.1 h
  obtain ⟨hlist, rfl⟩ := pure_eq_ok_iff.1 h
  obtain ⟨rfl, htail⟩ := List.cons.inj hlist
  obtain rfl : tail = [] := List.reverse_eq_nil_iff.1 htail
  rcases rounds_commaStep ((loop_eq_ok_iff (Congruence.advances_commaStep rule hnext)).1 hloop) with
    hlt | ⟨-, rfl⟩
  · exact absurd hlt (Nat.lt_irrefl _)
  · exact taking_eq_ok htaking

/-- A list ends behind its first item if no comma follows. -/
theorem commaList_of_single {rule : String} {first next : Parser α} {a : α} {s t : State}
    (hfirst : Steady first) (hnext : Steady next) (h : first s = .ok a t)
    (htaken : t.cursor.ahead.length < s.cursor.ahead.length)
    (hcomma : t.cursor.current.kind ≠ .symbol .comma) : commaList rule first next s = .ok [a] t := by
  have hstep : commaStep rule next [] t = .ok (.done []) t := by
    unfold commaStep
    rw [takeSymbol_bind_apply, if_neg hcomma]
    rfl
  rw [commaList_eq, bind_of_ok (taking_of_ok hfirst h htaken),
    bind_of_ok (loop_of_done (Congruence.advances_commaStep rule hnext) hstep)]
  rfl

end SearchSql.Grammar
