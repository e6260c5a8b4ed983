import SearchSql.Proofs.Fuel
import SearchSql.Time.Reading

/-!
# Parses end

Two things keep a parse going: rules that go on to other rules, and repetitions. Rules follow one
another in a depth that only the limit on the levels of nesting bounds, whatever the input is. A
repetition takes a token in each of its rounds but the last (`Repetition.advances`), and what moves
the cursor over several tokens at once takes each of them (`Cursor.Takes`). Main statement:
`parse_isBounded`.
-/

set_option autoImplicit false

namespace SearchSql

/-! ## Steps over tokens -/

namespace Cursor

/-- Each of `n` steps of the cursor takes a token. -/
def Takes (c : Cursor) (n : Nat) : Prop :=
  ∀ k < n, (c.skip (k + 1)).position = (c.skip k).position + 1

theorem takes_zero (c : Cursor) : c.Takes 0 := by
  intro k hk
  exact absurd hk (Nat.not_lt_zero k)

/-- The first step takes a token, and so does each of the steps behind it. -/
theorem Takes.succ {c : Cursor} {n : Nat} (hend : c.current.isEnd = false)
    (h : c.advance.Takes n) : c.Takes (n + 1) := by
  intro k hk
  cases k with
  | zero => exact position_advance c hend
  | succ k => exact h k (Nat.lt_of_succ_lt_succ hk)

/-- Steps over tokens ahead that do not end the input take a token each. -/
theorem takes_of_prefix {tokens : List Token} (hends : ∀ t ∈ tokens, t.isEnd = false) :
    ∀ {c : Cursor}, tokens <+: c.ahead → c.Takes tokens.length := by
  induction tokens with
  | nil =>
    intro c _
    exact takes_zero c
  | cons t ts ih =>
    intro c hprefix
    obtain ⟨passed, ahead, closing, hclosing⟩ := c
    obtain ⟨rest, rfl⟩ := hprefix
    have ht : t.isEnd = false := hends t List.mem_cons_self
    refine Takes.succ ht (ih (fun u hu => hends u (List.mem_cons_of_mem t hu)) ?_)
    simp [advance, ht]

/-- At the end of the input, the cursor stands still. -/
theorem skip_of_isEnd {c : Cursor} (h : c.current.isEnd = true) (n : Nat) : c.skip n = c := by
  have hadvance : c.advance = c := by
    obtain ⟨passed, ahead, closing, hclosing⟩ := c
    cases ahead with
    | nil => rfl
    | cons t ts =>
      have ht : t.isEnd = true := h
      simp [advance, ht]
  induction n with
  | zero => rfl
  | succ n ih =>
    show c.advance.skip n = c
    rw [hadvance, ih]

/-- Going on to the end of the list means going on to the first end of the input, and takes a token
in each step up to there. -/
theorem skip_to_end (c : Cursor) :
    ∃ n, c.Takes n ∧ (c.skip n).current.isEnd = true ∧ c.skip c.ahead.length = c.skip n := by
  obtain ⟨passed, ahead, closing, hclosing⟩ := c
  induction ahead generalizing passed with
  | nil => exact ⟨0, takes_zero _, hclosing, rfl⟩
  | cons t ts ih =>
    cases ht : t.isEnd with
    | true =>
      -- Behind an end there may be more tokens, which are not taken.
      exact ⟨0, takes_zero _, ht, skip_of_isEnd (c := ⟨passed, t :: ts, closing, hclosing⟩) ht _⟩
    | false =>
      obtain ⟨n, htakes, hend, hskip⟩ := ih (t :: passed)
      have hadvance : (⟨passed, t :: ts, closing, hclosing⟩ : Cursor).advance =
          ⟨t :: passed, ts, closing, hclosing⟩ := by simp [advance, ht]
      refine ⟨n + 1, Takes.succ ht (hadvance.symm ▸ htakes), ?_, ?_⟩
      · show (Cursor.skip n (Cursor.advance _)).current.isEnd = true
        rw [hadvance]
        exact hend
      · show Cursor.skip ts.length (Cursor.advance _) = Cursor.skip n (Cursor.advance _)
        rw [hadvance]
        exact hskip

end Cursor

namespace Grammar

open SearchSql.Grammar.Parser

/-- A pattern without quotes is made of tokens that are taken one by one. -/
theorem takes_plainPattern (c : Cursor) : c.Takes (plainPattern none c.ahead).length := by
  have hpieces := plainPattern_prefix none c.ahead
  refine Cursor.takes_of_prefix ?_ hpieces
  suffices htaken : ∀ (stop : Option Nat) (tokens : List Token),
      ∀ t ∈ plainPattern stop tokens, t.isEnd = false from htaken none c.ahead
  intro stop tokens
  induction tokens generalizing stop with
  | nil => exact fun _ h => absurd h List.not_mem_nil
  | cons t ts ih =>
    unfold plainPattern
    split
    · next hpiece =>
      intro u hu
      rcases List.mem_cons.1 hu with rfl | hu
      · refine isEnd_eq_false fun hkind => ?_
        rw [hkind] at hpiece
        cases hpiece
      · exact ih _ u hu
    · exact fun _ h => absurd h List.not_mem_nil

/-- The way to the next boundary takes a token in each step. -/
theorem takes_boundaryDistance (insideParens : Bool) (c : Cursor) :
    c.Takes (boundaryDistance insideParens 0 c.ahead) := by
  suffices hskipped : ∀ (opened : Nat) (tokens : List Token),
      ∀ t ∈ tokens.take (boundaryDistance insideParens opened tokens), t.isEnd = false by
    have htakes := Cursor.takes_of_prefix (hskipped 0 c.ahead) (List.take_prefix _ _)
    rwa [List.length_take, Nat.min_eq_left (boundaryDistance_le_length insideParens 0 _)] at htakes
  intro opened tokens
  induction tokens generalizing opened with
  | nil => exact fun _ h => absurd h List.not_mem_nil
  | cons t ts ih =>
    unfold boundaryDistance
    split
    · exact fun _ h => absurd h List.not_mem_nil
    · next hboundary =>
      intro u hu
      rcases List.mem_cons.1 hu with rfl | hu
      · simp_all
      · exact ih _ u hu

/-! ## Repetitions -/

/-- The steps that the rules over `call` repeat: the operators of each layer with their right
operands, the further items of lists, `WHEN` with its result, options, and the further segments of
names. -/
inductive Repetition (call : Callee) : {α : Type} → (α → Parser (ForInStep α)) → Prop where
  | connectives (least : Nat) : Repetition call (logicalStep call least)
  | tests (least : Nat) : Repetition call (predicateStep call least)
  | operators (least : Nat) : Repetition call (arithmeticStep call least)
  | items {α : Type} (rule : String) (n : Nonterminal α) : Repetition call (commaStep rule (call n))
  | fields (rule : String) : Repetition call (commaStep rule weightedField)
  | branches : Repetition call (caseStep call)
  | highlightOptions : Repetition call highlightStep
  | relevanceOptions : Repetition call (relevanceStep call)
  | segments : Repetition call namePart

/-- A round of a repetition takes a token or is the last one. -/
theorem Repetition.advances {call : Callee} (hcall : ∀ {α : Type} (n : Nonterminal α), Steady (call n))
    {α : Type} {step : α → Parser (ForInStep α)} (h : Repetition call step) (a : α) :
    Advances (step a) := by
  cases h with
  | connectives least => exact advances_logicalStep (fun _ => hcall _) least a
  | tests least =>
    exact Congruence.advances_predicateStep (fun _ => hcall _) (hcall _) least a
  | operators least => exact advances_arithmeticStep (fun _ => hcall _) least a
  | items rule n => exact Congruence.advances_commaStep rule (hcall n) a
  | fields rule =>
    have hsteady : Steady weightedField := (steady_congruence.weightedField (b := 0)).1
    exact Congruence.advances_commaStep rule hsteady a
  | branches => exact Congruence.advances_caseStep (hcall _) a
  | highlightOptions => exact Congruence.advances_highlightStep a
  | relevanceOptions => exact Congruence.advances_relevanceStep (hcall _) a
  | segments => exact Congruence.advances_namePart a

/-! ## Parses -/

/-- Each rule on the way costs one unit of fuel, and rounds of repetitions cost none. With units in
proportion to the limit on the levels of nesting, no run of the grammar is short of fuel, whatever
the tokens are. Each round of a repetition leaves fewer tokens ahead or is the last; and where the
cursor moves over a pattern, to the next boundary or to the end of the input, each step takes a
token. -/
theorem parse_isBounded [Time.Library] :
    (∀ (tokens : List Token) (settings : Settings) (t : State),
        rootRule (derive (fuelPerLevel * (min settings.maxDepth 128 + 1)))
          (State.ofTokens tokens settings) ≠ .error .outOfFuel t) ∧
      (∀ (tokens : List Token) (settings : Settings),
        parseTokens tokens settings =
          outcome (rootRule (derive (fuelPerLevel * (min settings.maxDepth 128 + 1)))
            (State.ofTokens tokens settings))) ∧
      (∀ (fuel : Nat) {α : Type} (step : α → Parser (ForInStep α)),
        Repetition (derive fuel) step → ∀ (a b : α) (s t : State), step a s = .ok (.yield b) t →
          t.cursor.ahead.length < s.cursor.ahead.length) ∧
      (∀ c : Cursor, c.Takes (plainPattern none c.ahead).length) ∧
      (∀ (insideParens : Bool) (c : Cursor), c.Takes (boundaryDistance insideParens 0 c.ahead)) ∧
      ∀ c : Cursor,
        ∃ n, c.Takes n ∧ (c.skip n).current.isEnd = true ∧ c.skip c.ahead.length = c.skip n := by
  refine ⟨runRoot_ne_outOfFuel, fun _ _ => rfl, ?_, takes_plainPattern, takes_boundaryDistance,
    Cursor.skip_to_end⟩
  intro fuel α step hstep a b s t hrun
  exact hstep.advances (steady_derive fuel) a s t b hrun

/-- Reading the segment behind a dot is a round that takes tokens. -/
theorem parse_isBounded_segment :
    ∃ (names : List Ident × Span) (t : State),
      namePart ([.ofValue "a"], default) (State.ofTokens
          [⟨.symbol .dot, ".", ⟨1, 2⟩⟩, ⟨.name "b", "b", ⟨2, 3⟩⟩] Settings.standard) =
        .ok (.yield names) t ∧ t.cursor.ahead.length < 2 := by
  obtain ⟨names, t, hrun⟩ : ∃ (names : List Ident × Span) (t : State),
      namePart ([.ofValue "a"], default) (State.ofTokens
          [⟨.symbol .dot, ".", ⟨1, 2⟩⟩, ⟨.name "b", "b", ⟨2, 3⟩⟩] Settings.standard) =
        .ok (.yield names) t := ⟨_, _, rfl⟩
  exact ⟨names, t, hrun, parse_isBounded.2.2.1 0 namePart .segments _ _ _ _ hrun⟩

end Grammar

end SearchSql
