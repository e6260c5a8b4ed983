import SearchSql.Proofs.LeafLikeness
import SearchSql.Proofs.Replaying
import SearchSql.Proofs.RuleEnclosure

/-!
# Deciding and reading the same tokens again

What is decided by a few tokens ahead comes out the same in front of both sides of a seam; only a test
may begin at the seam, with the word `IN`. So the parsers that read no expression repeat their runs.
-/

set_option autoImplicit false

namespace SearchSql.Grammar

open SearchSql.Grammar.Parser

variable {α β γ : Type}

/-! ## Deciding in front of a seam -/

/-- A function of the kinds of three tokens for which a border counts as the end of the input. The
third counts only behind an opening parenthesis. -/
structure Nearsighted (g : TokenKind → TokenKind → TokenKind → γ) : Prop where
  first {k : TokenKind} (l m : TokenKind) : k.isBorder = true →
    g k l m = g .endOfInput .endOfInput .endOfInput
  second (k : TokenKind) {l : TokenKind} (m : TokenKind) : l.isBorder = true →
    g k l m = g k .endOfInput .endOfInput
  third (k : TokenKind) {l : TokenKind} (m : TokenKind) : l ≠ .symbol .leftParen →
    g k l m = g k l .endOfInput

/-- Whether a constant starts here is decided in front of the seam. -/
theorem nearsighted_startsConstant : Nearsighted startsConstant where
  first l m hk := by
    rename_i k
    -- No token at a border starts a constant, so what stands behind it does not matter.
    cases k with
    | symbol sign => cases sign <;> first | rfl | cases hk
    | keyword word => cases word <;> first | rfl | cases hk
    | endOfInput => rfl
    | _ => cases hk
  second k l m hl := by
    have hparen : (l != .symbol .leftParen) = true := bne_iff_ne.2 (TokenKind.ne_of_isBorder hl rfl)
    cases k with
    | symbol sign =>
      cases sign with
      | plus | minus => exact TokenKind.not_isNumber_of_isBorder hl
      | _ => rfl
    | keyword word =>
      cases word with
      | DATE | TIME | TIMESTAMP => exact TokenKind.not_isString_of_isBorder hl
      | _ => rfl
    | name value =>
      show startsDatetimeConstant (.name value) l m = _
      unfold startsDatetimeConstant
      rw [hparen, Bool.true_or]
      rfl
    | _ => rfl
  third k l m hl := by
    have hparen : (l != .symbol .leftParen) = true := bne_iff_ne.2 hl
    cases k with
    | name value =>
      show startsDatetimeConstant (.name value) l m = startsDatetimeConstant (.name value) l _
      unfold startsDatetimeConstant
      rw [hparen, Bool.true_or, Bool.true_or]
    | symbol sign => cases sign <;> rfl
    | keyword word => cases word <;> rfl
    | _ => rfl

/-- So is the form of an operand. -/
theorem nearsighted_operandForm? : Nearsighted operandForm? where
  first l m hk := by
    rename_i k
    unfold operandForm?
    rw [nearsighted_startsConstant.first l m hk]
    cases k with
    | symbol sign => cases sign <;> first | rfl | cases hk
    | keyword word => cases word <;> first | rfl | cases hk
    | endOfInput => rfl
    | _ => cases hk
  second k l m hl := by
    unfold operandForm?
    have hparen : (l == .symbol .leftParen) = false :=
      beq_eq_false_iff_ne.2 (TokenKind.ne_of_isBorder hl rfl)
    rw [nearsighted_startsConstant.second k m hl, hparen, TokenKind.not_isBareName_of_isBorder hl]
    rfl
  third k l m hl := by
    unfold operandForm?
    rw [nearsighted_startsConstant.third k m hl]

/-- No parentheses are among the segments of a name. -/
theorem afterSegments_eq_append (tokens : List Token) :
    ∃ v, tokens = v ++ afterSegments tokens ∧ parensOf v = [] := by
  fun_induction afterSegments tokens with
  | case1 dot segment rest hcond ih =>
    obtain ⟨v, hv, hparens⟩ := ih
    obtain ⟨hdot, hsegment⟩ := Bool.and_eq_true_iff.1 hcond
    refine ⟨dot :: segment :: v, ?_, ?_⟩
    · rw [List.cons_append, List.cons_append, ← hv]
    · have hplain := TokenKind.isPlain_of_isNameLike hsegment
      rw [parensOf, List.filter_cons_of_neg (by simp [eq_of_beq hdot]), List.filter_cons_of_neg]
      · exact hparens
      · simp only [Bool.or_eq_true, beq_iff_eq, not_or]
        exact ⟨fun h => by simp [h, TokenKind.isPlain] at hplain,
          fun h => by simp [h, TokenKind.isPlain] at hplain⟩
  | case2 => exact ⟨[], rfl, rfl⟩
  | case3 => exact ⟨[], rfl, rfl⟩

/-- A name holds no parentheses. -/
theorem afterName?_eq_append {tokens rest : List Token} (h : afterName? tokens = some rest) :
    ∃ v, tokens = v ++ rest ∧ parensOf v = [] := by
  have hname {t : Token} (ht : t.kind.isNameLike = true) (v : List Token) :
      parensOf (t :: v) = parensOf v := by
    have hplain := TokenKind.isPlain_of_isNameLike ht
    rw [parensOf, List.filter_cons_of_neg]
    · rfl
    · simp only [Bool.or_eq_true, beq_iff_eq, not_or]
      exact ⟨fun h => by simp [h, TokenKind.isPlain] at hplain,
        fun h => by simp [h, TokenKind.isPlain] at hplain⟩
  -- A name starts with a bare or quoted word, or with a dot and a bare one; no part of it is a
  -- parenthesis.
  obtain ⟨middle, hmiddle, rfl⟩ := Option.map_eq_some_iff.1 h
  obtain ⟨v, hv, hparens⟩ := afterSegments_eq_append middle
  fun_cases afterIdent? tokens with
  | case1 => simp [afterIdent?] at hmiddle
  | case2 first rest hfirst =>
    simp only [afterIdent?, hfirst, if_true, Option.some.injEq] at hmiddle
    subst hmiddle
    exact ⟨first :: v, by rw [List.cons_append, ← hv], by rw [hname hfirst, hparens]⟩
  | case3 first hfirst => simp [afterIdent?, hfirst] at hmiddle
  | case4 first hfirst second rest hsecond =>
    simp only [afterIdent?, hfirst, hsecond, if_true, Bool.false_eq_true, if_false,
      Option.some.injEq] at hmiddle
    subst hmiddle
    obtain ⟨hdot, hbare⟩ := Bool.and_eq_true_iff.1 hsecond
    refine ⟨first :: second :: v, by rw [List.cons_append, List.cons_append, ← hv], ?_⟩
    have hlike : second.kind.isNameLike = true := by
      cases hkind : second.kind with
      | name value => rfl
      | _ =>
        rw [hkind] at hbare
        cases hbare
    rw [parensOf, List.filter_cons_of_neg (by simp [eq_of_beq hdot])]
    exact (hname hlike v).trans hparens
  | case5 first hfirst second rest hsecond => simp [afterIdent?, hfirst, hsecond] at hmiddle

/-- In front of a border, a path that is not closed cannot become one of all fields: a parenthesis
would be left open in front of the seam. -/
theorem startsNestedAll_append_cons {a b t : Token} {tokens rest : List Token}
    (hsealed : Sealed (a :: b :: tokens)) (hrest : Border (t :: rest)) :
    startsNestedAll (a :: b :: tokens ++ t :: rest) = startsNestedAll (a :: b :: tokens) := by
  rw [List.cons_append, List.cons_append]
  simp only [startsNestedAll]
  rw [hrest.afterName?_append]
  cases hopen : b.kind == .symbol .leftParen with
  | false => rfl
  | true =>
    cases hname : afterName? tokens with
    | none => rfl
    | some found =>
      -- Up to two tokens are wanted behind the name, a dot and a star, and none of them stands at
      -- a border.
      rcases found with _ | ⟨c, _ | ⟨d, _ | ⟨e, found⟩⟩⟩
      · rcases rest with _ | ⟨u, _ | ⟨v, rest⟩⟩
        · rfl
        · rfl
        · have hdot : (t.kind == .symbol .dot) = false := hrest.ne_symbol rfl
          simp [hdot]
      · cases rest with
        | nil => rfl
        | cons u rest =>
          have hstar : (t.kind == .symbol .star) = false := hrest.ne_symbol rfl
          simp [hstar]
      · obtain ⟨v, rfl, hparens⟩ := afterName?_eq_append hname
        cases hdot : c.kind == .symbol .dot with
        | false => simp [hdot]
        | true =>
          cases hstar : d.kind == .symbol .star with
          | false => simp [hstar]
          | true =>
            -- A path with its star would leave a parenthesis open at the seam.
            have hlevel : levels? 0 (parensOf (b :: (v ++ [c, d]))) = some 1 := by
              rw [parensOf, List.filter_cons_of_pos (by simp [eq_of_beq hopen]), levels?_cons,
                eq_of_beq hopen]
              show levels? 1 (parensOf (v ++ [c, d])) = some 1
              rw [parensOf_append, hparens, parensOf,
                List.filter_cons_of_neg (by simp [eq_of_beq hdot]),
                List.filter_cons_of_neg (by simp [eq_of_beq hstar])]
              rfl
            exact absurd (hsealed _ (List.suffix_cons a _) 1 hlevel) (by decide)
      · rfl

/-- In front of a seam, all fields of a path are asked for in sight of the closing parenthesis. -/
theorem startsNestedAll_append_of_sealed {tokens rest : List Token} (hsealed : Sealed tokens)
    (hne : tokens ≠ []) (hrest : Border rest) :
    startsNestedAll (tokens ++ rest) = startsNestedAll tokens := by
  by_cases hclose : kindAt rest 0 = .symbol .rightParen
  swap
  · exact Border.startsNestedAll_append hrest hclose hne
  cases rest with
  | nil => simp at hclose
  | cons t rest =>
    cases tokens with
    | nil => exact absurd rfl hne
    | cons a tokens =>
      cases tokens with
      | nil =>
        have hopen : (t.kind == .symbol .leftParen) = false := hrest.ne_symbol rfl
        simp [startsNestedAll, hopen]
      | cons b tokens => exact startsNestedAll_append_cons hsealed hrest

namespace Seam

variable {B : Seam} {front : Bool} {ending : Ending} {s s' t : State}

/-- A relevance function behind its field is found in both states or in neither. -/
theorem Shared.startsFieldEquals (h : B.Shared s s') :
    Grammar.startsFieldEquals s'.cursor.ahead = Grammar.startsFieldEquals s.cursor.ahead := by
  obtain ⟨tokens, hs, hs', hfits⟩ := h.tokens
  rw [hs, hs', hfits.left.startsFieldEquals_append, hfits.right.startsFieldEquals_append]

/-- Where it is found, there are tokens in front of the seam. -/
theorem Shared.front_of_startsFieldEquals (h : B.Shared s s')
    (hstarts : Grammar.startsFieldEquals s.cursor.ahead = true) :
    B.left.length < s.cursor.ahead.length := by
  obtain ⟨tokens, hs, -, hfits⟩ := h.tokens
  cases tokens with
  | nil =>
    rw [hs, hfits.left.startsFieldEquals_append] at hstarts
    cases hstarts
  | cons u tokens =>
    rw [hs, List.length_append, List.length_cons]
    omega

/-- A nested field with a star is found in both states or in neither. -/
theorem Shared.startsNestedAll (h : B.Shared s s')
    (hfront : B.left.length < s.cursor.ahead.length) :
    Grammar.startsNestedAll s'.cursor.ahead = Grammar.startsNestedAll s.cursor.ahead := by
  obtain ⟨tokens, hs, hs', hfits⟩ := h.tokens
  have hne : tokens ≠ [] := by
    rintro rfl
    rw [hs] at hfront
    exact absurd hfront (Nat.lt_irrefl _)
  rw [hs, hs']
  obtain hsealed | ⟨hleft, hright⟩ := hfits.closed
  · rw [startsNestedAll_append_of_sealed hsealed hne hfits.left,
      startsNestedAll_append_of_sealed hsealed hne hfits.right]
  · rw [hleft, hright]

/-- What is decided in front of a seam is decided alike. -/
theorem Shared.nearsighted (h : B.Shared s s') {g : TokenKind → TokenKind → TokenKind → γ}
    (hg : Nearsighted g) :
    g (s'.cursor.peek 0).kind (s'.cursor.peek 1).kind (s'.cursor.peek 2).kind =
      g (s.cursor.peek 0).kind (s.cursor.peek 1).kind (s.cursor.peek 2).kind := by
  simp only [← kindAt_ahead]
  obtain ⟨tokens, hs, hs', hleft, hright, hclosed⟩ := h.tokens
  rw [hs, hs']
  match tokens with
  | [] => exact (hg.first _ _ hright).trans (hg.first _ _ hleft).symm
  | [a] => exact (hg.second a.kind _ hright).trans (hg.second a.kind _ hleft).symm
  | [a, b] =>
    obtain hsealed | ⟨rfl', rfl''⟩ := hclosed
    · have hb : b.kind ≠ .symbol .leftParen := Sealed.last_ne (show Sealed ([a] ++ [b]) from hsealed)
      exact (hg.third a.kind _ hb).trans (hg.third a.kind _ hb).symm
    · rw [rfl', rfl'']
  | a :: b :: c :: tokens => rfl

/-- What is decided otherwise than for the end of the input is decided in front of the seam. -/
theorem Shared.front_of_nearsighted (h : B.Shared s s')
    {g : TokenKind → TokenKind → TokenKind → γ} (hg : Nearsighted g)
    (hne : g (s.cursor.peek 0).kind (s.cursor.peek 1).kind (s.cursor.peek 2).kind ≠
      g .endOfInput .endOfInput .endOfInput) : B.left.length < s.cursor.ahead.length := by
  obtain ⟨hfront, -⟩ | ⟨-, -, hborder, -⟩ := h.current
  · exact hfront
  · rw [Cursor.peek_zero] at hne
    exact absurd (hg.first _ _ hborder) hne

/-! ### Tests -/

/-- No test but that of membership begins with what may stand behind a rule. -/
theorem Test.ofKinds?_of_border {k : TokenKind} (hk : k.isBorder = true) (l m : TokenKind) :
    Test.ofKinds? k l m = none ∨
      k = .keyword .IN ∧ Test.ofKinds? k l m = some (.within false, 1) := by
  cases k with
  | symbol sign => cases sign <;> first | exact .inl rfl | cases hk
  | keyword word =>
    cases word with
    | IN =>
      cases l with
      | symbol sign => cases sign <;> first | exact .inl rfl | exact .inr ⟨rfl, rfl⟩
      | _ => exact .inl rfl
    | FROM | WHERE | GROUP | HAVING | ORDER | LIMIT => exact .inl rfl
    | _ => cases hk
  | endOfInput => exact .inl rfl
  | _ => cases hk

/-- No other test has such a token behind `NOT`. -/
theorem Test.ofKinds?_not_of_border {k l : TokenKind} (hk : k = .keyword .NOT)
    (hl : l.isBorder = true) (m : TokenKind) : Test.ofKinds? k l m = none ∨
      l = .keyword .IN ∧ Test.ofKinds? k l m = some (.within true, 2) := by
  subst hk
  cases l with
  | symbol sign => exact .inl rfl
  | keyword word =>
    cases word with
    | IN =>
      cases m with
      | symbol sign => cases sign <;> first | exact .inl rfl | exact .inr ⟨rfl, rfl⟩
      | _ => exact .inl rfl
    | FROM | WHERE | GROUP | HAVING | ORDER | LIMIT => exact .inl rfl
    | _ => cases hl
  | endOfInput => exact .inl rfl
  | _ => cases hl

/-- Without `NOT`, such a token in the second place counts as the end. -/
theorem Test.ofKinds?_second {k l : TokenKind} (hk : k ≠ .keyword .NOT) (hl : l.isBorder = true)
    (m : TokenKind) : Test.ofKinds? k l m = Test.ofKinds? k .endOfInput .endOfInput := by
  cases k with
  | symbol sign =>
    cases sign with
    | lt | gt =>
      cases l with
      | symbol next => cases next <;> first | rfl | cases hl
      | _ => rfl
    | _ => rfl
  | keyword word =>
    cases word with
    | NOT => exact absurd rfl hk
    | IS | IN =>
      cases l with
      | symbol next => cases next <;> first | rfl | cases hl
      | keyword next => cases next <;> first | rfl | cases hl
      | _ => rfl
    | _ => rfl
  | _ => rfl

/-- In the third place, it always does. -/
theorem Test.ofKinds?_third (k l : TokenKind) {m : TokenKind} (hm : m.isBorder = true) :
    Test.ofKinds? k l m = Test.ofKinds? k l .endOfInput := by
  cases k with
  | keyword word =>
    cases word with
    | NOT =>
      cases l with
      | keyword next =>
        cases next with
        | IN =>
          cases m with
          | symbol sign => cases sign <;> first | rfl | cases hm
          | _ => rfl
        | _ => rfl
      | _ => rfl
    | IS =>
      cases l with
      | keyword next => cases next <;> rfl
      | _ => rfl
    | _ => cases l <;> rfl
  | symbol sign => cases sign <;> cases l <;> rfl
  | _ => rfl

/-- The tests in front of two shared states are the same, apart from those that begin with the word
`IN` at the seam. -/
theorem Shared.test (h : B.Shared s s') :
    Test.at? s'.cursor = Test.at? s.cursor ∨
      ¬B.Away s ∧
        (∀ test width, Test.at? s.cursor = some (test, width) → ∃ negated, test = .within negated ∧
          s.cursor.ahead.length < B.left.length + width) ∧
        ∀ test width, Test.at? s'.cursor = some (test, width) → ∃ negated, test = .within negated ∧
          kindAt B.right 0 = .keyword .IN := by
  unfold Test.at?
  simp only [← kindAt_ahead]
  -- A test shows up to three tokens, so only with at most two in front of the seam may the cursors
  -- differ.
  obtain ⟨tokens, hs, hs', hleft, hright, hclosed⟩ := h.tokens
  rw [hs, hs']
  match tokens with
  | [] =>
    refine .inr ⟨fun haway => absurd haway.1 (by simp [hs]), ?_, ?_⟩
    · intro test width htest
      obtain hnone | ⟨-, hsome⟩ := Test.ofKinds?_of_border hleft (kindAt B.left 1) (kindAt B.left 2)
      · exact absurd (hnone.symm.trans htest) nofun
      · obtain ⟨rfl, rfl⟩ := Prod.mk.inj (Option.some.inj (hsome.symm.trans htest))
        exact ⟨false, rfl, Nat.lt_succ_self _⟩
    · intro test width htest
      obtain hnone | ⟨hin, hsome⟩ :=
        Test.ofKinds?_of_border hright (kindAt B.right 1) (kindAt B.right 2)
      · exact absurd (hnone.symm.trans htest) nofun
      · obtain ⟨rfl, rfl⟩ := Prod.mk.inj (Option.some.inj (hsome.symm.trans htest))
        exact ⟨false, rfl, hin⟩
  | [a] =>
    -- The word `NOT` alone in front of the seam needs a look beyond it.
    by_cases ha : a.kind = .keyword .NOT
    · refine .inr ⟨fun haway => haway.2 ?_ ?_, ?_, ?_⟩
      · rw [hs, List.length_append, List.length_singleton, Nat.add_comm]
      · rw [← kindAt_zero, hs]
        exact ha
      · intro test width htest
        obtain hnone | ⟨-, hsome⟩ := Test.ofKinds?_not_of_border ha hleft (kindAt B.left 1)
        · exact absurd (hnone.symm.trans htest) nofun
        · obtain ⟨rfl, rfl⟩ := Prod.mk.inj (Option.some.inj (hsome.symm.trans htest))
          refine ⟨true, rfl, ?_⟩
          rw [List.length_append, List.length_singleton]
          omega
      · intro test width htest
        obtain hnone | ⟨hin, hsome⟩ := Test.ofKinds?_not_of_border ha hright (kindAt B.right 1)
        · exact absurd (hnone.symm.trans htest) nofun
        · obtain ⟨rfl, rfl⟩ := Prod.mk.inj (Option.some.inj (hsome.symm.trans htest))
          exact ⟨true, rfl, hin⟩
    · exact .inl ((Test.ofKinds?_second ha hright _).trans (Test.ofKinds?_second ha hleft _).symm)
  | [a, b] =>
    exact .inl ((Test.ofKinds?_third a.kind b.kind hright).trans
      (Test.ofKinds?_third a.kind b.kind hleft).symm)
  | a :: b :: c :: tokens => exact .inl rfl

/-! ### The token behind the next -/

/-- The token behind the next is of the same kind, unless it is at the seam. -/
theorem Shared.peek_one (h : B.Shared s s') (hfront : B.left.length < s.cursor.ahead.length) :
    (s'.cursor.peek 1).kind = (s.cursor.peek 1).kind ∨
      (s.cursor.peek 1).kind.isBorder = true ∧ (s'.cursor.peek 1).kind.isBorder = true := by
  simp only [← kindAt_ahead]
  obtain ⟨tokens, hs, hs', hleft, hright, -⟩ := h.tokens
  match tokens with
  | [] =>
    rw [hs] at hfront
    exact absurd hfront (Nat.lt_irrefl _)
  | [a] =>
    rw [hs, hs']
    exact .inr ⟨hleft, hright⟩
  | a :: b :: tokens =>
    rw [hs, hs']
    exact .inl rfl

/-- A question that no token at the seam answers otherwise than the end is answered alike. -/
theorem Shared.asks_next (h : B.Shared s s') (hfront : B.left.length < s.cursor.ahead.length)
    {test : TokenKind → γ} {r : γ} (htest : ∀ k : TokenKind, k.isBorder = true → test k = r) :
    test (s'.cursor.peek 1).kind = test (s.cursor.peek 1).kind := by
  obtain heq | ⟨hborder, hborder'⟩ := h.peek_one hfront
  · rw [heq]
  · rw [htest _ hborder, htest _ hborder']

/-! ### Names, numbers and words -/

theorem steady_dotName : Steady Likeness.dotName := by
  intro s
  unfold Likeness.dotName
  rw [peek_bind_apply]
  cases (s.cursor.peek 1).kind with
  | name value =>
    have hsteady : Steady take := (steady_congruence.take (b := 0)).1
    exact (hsteady.bind fun _ => hsteady.bind fun _ => steady_pure _) s
  | _ => exact State.Leads.refl s

theorem replays_dotName : B.Replays true ending Likeness.dotName := by
  refine ⟨steady_dotName, fun {s s' t a} hs hfront hrun _ _ => ?_⟩
  have hcurrent := hs.current_eq (hfront rfl)
  have hnext := hs.peek_one (hfront rfl)
  unfold Likeness.dotName at hrun ⊢
  rw [peek_bind_apply] at hrun ⊢
  cases hkind : (s.cursor.peek 1).kind with
  | name value =>
    rw [hkind] at hrun hnext
    obtain heq | ⟨hborder, -⟩ := hnext
    swap
    · cases hborder
    rw [heq]
    dsimp only at hrun ⊢
    rw [take_bind_apply, take_bind_apply] at hrun ⊢
    obtain ⟨rfl, rfl⟩ := pure_eq_ok_iff.1 hrun
    have hshared := hs.skip_one (hfront rfl)
    -- The second token is the name, unless the first ends the input and none is passed.
    have hfront' : B.left.length < (s.skip 1).cursor.ahead.length := by
      cases hend : s.cursor.current.isEnd with
      | true =>
        rw [State.skip_cursor, show s.cursor.skip 1 = s.cursor from Cursor.advance_of_isEnd hend]
        exact hfront rfl
      | false =>
        refine hshared.front_of_kind ?_
        rw [State.skip_cursor, Cursor.current_skip_one hend, hkind]
        rfl
    refine .inr ⟨(s'.skip 1).skip 1, ?_, hshared.skip_one hfront'⟩
    rw [hcurrent, hshared.current_eq hfront']
    rfl
  | _ =>
    rw [hkind] at hrun
    exact absurd hrun rejectCurrent_ne_ok

theorem replays_ident : B.Replays front ending ident := by
  refine Replays.current_bind_of_eq (fun t => ?_) (Replays.rejectCurrent "identifier") ?_
  · obtain ⟨kind, text, span⟩ := t
    cases kind with
    | name value | quotedName value => exact Replays.take.bind fun _ => Replays.pure _
    | keyword word =>
      dsimp only
      split
      · exact Replays.take.bind fun _ => Replays.pure _
      · exact Replays.rejectCurrent _
    | symbol sign =>
      cases sign with
      | dot => exact replays_dotName
      | _ => exact Replays.rejectCurrent _
    | _ => exact Replays.rejectCurrent _
  · rintro ⟨kind, text, span⟩ hborder
    cases kind with
    | keyword word =>
      have hlike : word.isNameLike = false := TokenKind.not_isNameLike_of_isBorder hborder
      simp [hlike]
    | symbol sign => cases sign <;> first | rfl | cases hborder
    | endOfInput => rfl
    | _ => cases hborder

theorem replays_namePart (names : List Ident × Span) :
    B.Replays false ending (namePart names) := by
  have hpart : B.Replays false ending (do
      let part ← ident
      return .yield (part :: names.1, names.2.merge part.span) :
        Parser (ForInStep (List Ident × Span))) :=
    replays_ident.bind fun _ => Replays.pure _
  have hdone : B.Replays false ending
      (pure (.done names) : Parser (ForInStep (List Ident × Span))) := Replays.pure _
  refine ⟨(steady_congruence.namePart (b := 0) names).1, fun {s s' t a} hs _ hrun hle hclear => ?_⟩
  unfold namePart at hrun ⊢
  rw [atSymbol_bind_apply, peek_bind_apply] at hrun ⊢
  rw [hs.beq_kind rfl]
  cases hdot : s.cursor.current.kind == .symbol .dot with
  | false =>
    rw [hdot] at hrun
    exact hdone.replay hs nofun hrun hle hclear
  | true =>
    rw [hdot] at hrun
    have hfront := hs.front_of_kind (eq_of_beq hdot ▸ rfl)
    rw [hs.asks_next hfront fun _ => TokenKind.not_isNameLike_of_isBorder]
    cases hlike : (s.cursor.peek 1).kind.isNameLike with
    | false =>
      rw [hlike] at hrun
      exact hdone.replay hs nofun hrun hle hclear
    | true =>
      rw [hlike] at hrun
      exact hpart.replay (hs.skip_one hfront) nofun hrun hle hclear

/-- A name goes on with a dot, which stands in front of no seam. -/
theorem replays_qualifiedName : B.Replays front ending qualifiedName := by
  rw [qualifiedName_eq]
  exact replays_ident.bind fun first =>
    (Replays.loop replays_namePart Congruence.advances_namePart _).bind fun _ => Replays.pure _

/-- A parser that takes one of two ways by what is under the cursor. -/
theorem replays_asks {test : TokenKind → Bool}
    (htest : ∀ k : TokenKind, k.isBorder = true → test k = false) {p q : Parser α}
    (hp : B.Replays true ending p) (hq : B.Replays false ending q) :
    B.Replays front ending (current >>= fun t => if test t.kind then p else q) := by
  refine Replays.current_bind_of_eq (fun t => ?_) hq fun t ht => by rw [htest _ ht]; rfl
  split
  · exact hp
  · exact hq.weaken

/-- A parser that requires a certain kind of token. -/
theorem replays_require {test : TokenKind → Bool}
    (htest : ∀ k : TokenKind, k.isBorder = true → test k = false) (expected : String)
    {f : Token → Parser α} (hf : ∀ t, B.Replays true ending (f t)) :
    B.Replays front ending (current >>= fun t =>
      if !test t.kind then rejectCurrent expected >>= fun _ : Unit => f t else f t) := by
  -- What is behind a refusal is not run.
  have hreject (g : Unit → Parser α) : (rejectCurrent expected >>= g) = rejectCurrent expected := rfl
  refine Replays.current_bind_of_eq (fun t => ?_) (Replays.rejectCurrent expected) fun t ht => ?_
  · rw [hreject]
    split
    · exact Replays.rejectCurrent _
    · exact hf t
  · rw [hreject, htest _ ht]
    rfl

theorem replays_optionalAlias : B.Replays front ending optionalAlias :=
  Replays.takeKeyword_bind rfl (replays_ident.bind fun _ => Replays.pure _)
    (replays_asks (fun _ => TokenKind.not_isNameLike_of_isBorder)
      (replays_ident.bind fun _ => Replays.pure _) (Replays.pure none)).weaken

theorem replays_count : B.Replays front ending count := by
  have htest (k : TokenKind) (hk : k.isBorder = true) : (k == .integer) = false :=
    beq_eq_false_iff_ne.2 (TokenKind.ne_of_isBorder hk rfl)
  refine replays_require htest "integer" fun t => Replays.skip_one.bind fun _ => ?_
  cases Number.readUnsigned t.text with
  | ok n => exact Replays.pure n
  | error fault => exact Replays.reject _

theorem replays_weight : B.Replays front ending weight := by
  refine replays_require (fun _ => TokenKind.not_isNumber_of_isBorder) "number" fun t =>
    Replays.skip_one.bind fun _ => ?_
  cases Number.readReal t.text with
  | ok x => exact Replays.pure x
  | error _ => exact Replays.reject _

theorem replays_datetimeUnit : B.Replays front ending datetimeUnit := by
  refine Replays.current_bind_of_eq (fun t => ?_) (Replays.rejectCurrent "date/time unit")
    fun t ht => by rw [TokenKind.bareWord?_of_isBorder ht]; rfl
  cases t.kind.bareWord?.bind DatetimeUnit.ofText? with
  | some unit => exact Replays.skip_one.bind fun _ => Replays.pure unit
  | none => exact Replays.rejectCurrent _

theorem replays_string : B.Replays front ending Parser.string := by
  refine Replays.current_bind_of_eq (fun t => ?_) (Replays.rejectCurrent "string literal") ?_
  · obtain ⟨kind, text, span⟩ := t
    cases kind with
    | string value => exact Replays.skip_one.bind fun _ => Replays.pure value
    | _ => exact Replays.rejectCurrent _
  · rintro ⟨kind, text, span⟩ hborder
    cases kind with
    | string value => cases hborder
    | _ => rfl

theorem replays_direction : B.Replays front ending direction :=
  Replays.takeKeyword_bind rfl (Replays.pure _)
    (Replays.takeKeyword_bind rfl (Replays.pure _) (Replays.pure _))

theorem replays_nullOrder : B.Replays front ending nullOrder :=
  Replays.takeKeyword_bind rfl
    (Replays.takeKeyword_bind rfl (Replays.pure _) (Replays.takeKeyword_bind rfl (Replays.pure _)
      ((Replays.rejectCurrent _).bind fun _ => Replays.pure _)))
    (Replays.pure _)

theorem replays_quantifier : B.Replays front ending quantifier :=
  Replays.takeKeyword_bind rfl (Replays.pure _)
    (Replays.takeKeyword_bind rfl (Replays.pure _) (Replays.pure _))

theorem replays_limit : B.Replays front .list limit :=
  (Replays.keyword .LIMIT).bind fun start => replays_count.bind fun _ =>
    Replays.takeComma_bind
      (replays_count.bind fun _ => (Replays.spanFrom start).bind fun _ => Replays.pure _)
      (Replays.takeKeyword_bind rfl
        (replays_count.bind fun _ => (Replays.spanFrom start).bind fun _ => Replays.pure _)
        ((Replays.spanFrom start).bind fun _ => Replays.pure _))

/-! ### Fields -/

theorem replays_field : B.Replays front ending field := by
  have hname {front : Bool} : B.Replays front ending (Field.name <$> qualifiedName) :=
    replays_qualifiedName.map _
  refine Replays.current_bind_of_eq (fun t => ?_) hname ?_
  · obtain ⟨kind, text, span⟩ := t
    cases kind with
    | string value => exact Replays.take.map _
    | _ => exact hname
  · rintro ⟨kind, text, span⟩ hborder
    cases kind with
    | string value => cases hborder
    | _ => rfl

theorem replays_weightedField : B.Replays front ending weightedField :=
  replays_field.bind fun _ => Replays.takeSymbol_bind rfl (replays_weight.map _)
    (replays_asks (fun _ => TokenKind.not_isNumber_of_isBorder) (replays_weight.map _)
      (Replays.pure _))

theorem replays_fieldList : B.Replays front ending fieldList :=
  (Replays.symbol .leftBracket).bind fun _ =>
    (replays_weightedField.commaSeparated _).bind_symbol fun _ _ => Replays.pure _

/-! ### Constants -/

/-- A literal without a value is refused. -/
theorem replays_malformedLiteral (kind : LiteralKind) (text : String) (fault : LiteralFault)
    (span : Span) : B.Replays front ending (malformedLiteral kind text fault span) := by
  refine ⟨steady_malformedLiteral kind text fault span, fun hs _ hrun => ?_⟩
  rw [malformedLiteral_of_strict hs.strict] at hrun
  cases hrun

theorem replays_numberLiteral (kind : TokenKind) (text : String) (span : Span) :
    B.Replays front ending (numberLiteral kind text span) := by
  unfold numberLiteral
  split
  · split
    · exact Replays.pure _
    · exact replays_malformedLiteral _ _ _ _
  · split
    · exact Replays.pure _
    · exact replays_malformedLiteral _ _ _ _

theorem replays_numberBehind (start : Span) (negative : Bool) :
    B.Replays front ending (Likeness.numberBehind start negative) :=
  replays_require (fun _ => TokenKind.not_isNumber_of_isBorder) "number" fun _ =>
    Replays.skip_one.bind fun _ => (Replays.spanFrom start).bind fun _ =>
      (replays_numberLiteral _ _ _).bind fun _ => Replays.pure _

theorem replays_numberFrom (start : Span) :
    B.Replays front ending (Likeness.numberFrom start) :=
  Replays.takeSymbol_bind rfl (replays_numberBehind start true)
    (Replays.takeSymbol_bind rfl (replays_numberBehind start false)
      (replays_numberBehind start false))

/-- No number starts with a border. -/
theorem numberFrom_ne_ok (start : Span) {a : Constant}
    (h : s.cursor.current.kind.isBorder = true) : Likeness.numberFrom start s ≠ .ok a t := by
  have hne {sign : Symbol} (hsign : (TokenKind.symbol sign).isBorder = false) :
      s.cursor.current.kind ≠ .symbol sign := TokenKind.ne_of_isBorder h hsign
  unfold Likeness.numberFrom
  rw [takeSymbol_bind_apply, if_neg (hne rfl)]
  show (takeSymbol .plus >>= fun _ => Likeness.numberBehind start false) s ≠ _
  rw [takeSymbol_bind_apply, if_neg (hne rfl)]
  unfold Likeness.numberBehind
  rw [current_bind_apply, TokenKind.not_isNumber_of_isBorder h]
  nofun

/-- A parser that fails in front of every border. -/
theorem replays_of_ne_ok {f : Token → Parser α} (hin : ∀ t, B.Replays true ending (f t))
    (hout : ∀ s t a, s.cursor.current.kind.isBorder = true → f s.cursor.current s ≠ .ok a t) :
    B.Replays front ending (current >>= f) := by
  refine ⟨steady_current_bind fun t => (hin t).steady, fun {s s' t a} hs _ hrun hle hclear => ?_⟩
  rw [current_bind_apply] at hrun ⊢
  obtain ⟨hfront, heq⟩ | ⟨-, -, hborder, -⟩ := hs.current
  · rw [heq]
    exact (hin _).replay hs (fun _ => hfront) hrun hle hclear
  · exact absurd hrun (hout s t a hborder)

/-- A number is the token in front, with a sign or without. -/
theorem replays_number : B.Replays front ending number := by
  rw [Likeness.number_eq]
  exact replays_of_ne_ok (fun t => replays_numberFrom t.span) fun s t a h => numberFrom_ne_ok _ h

/-- The library reads the same text on both sides. -/
theorem replays_temporalLiteral (kind : TemporalKind) (text : String) (span : Span) :
    B.Replays front ending (temporalLiteral kind text span) := by
  refine ⟨steady_get_bind fun s => ?_, fun {s s' t a} hs hfront hrun hle hclear => ?_⟩
  · split
    · exact steady_pure _
    · exact steady_malformedLiteral _ _ _ _
  · unfold temporalLiteral at hrun ⊢
    rw [get_bind_apply] at hrun ⊢
    -- Both runs ask the same library.
    rw [← hs.frame.library]
    cases hread : kind.read s.library text with
    | ok value =>
      rw [hread] at hrun
      exact (Replays.pure value).replay hs hfront hrun hle hclear
    | error fault =>
      rw [hread] at hrun
      exact (replays_malformedLiteral _ _ _ _).replay hs hfront hrun hle hclear

theorem replays_wordLiteral (kind : TemporalKind) : B.Replays true ending (wordLiteral kind) :=
  Replays.take.bind fun start => replays_string.bind fun _ => (Replays.spanFrom start).bind fun _ =>
    replays_temporalLiteral _ _ _

theorem replays_bracedLiteral : B.Replays front ending bracedLiteral := by
  refine (Replays.symbol .leftBrace).bind fun start => ?_
  refine Replays.current_bind_of_eq (fun t => ?_) (Replays.rejectCurrent "d, t or ts") ?_
  · cases TemporalKind.ofKind? t.kind with
    | none => exact Replays.rejectCurrent _
    | some kind =>
      exact Replays.skip_one.bind fun _ => replays_string.bind fun _ =>
        (Replays.symbol .rightBrace).bind fun _ => (Replays.spanFrom start).bind fun _ =>
          replays_temporalLiteral _ _ _
  · rintro ⟨kind, text, span⟩ hborder
    cases kind with
    | name value => cases hborder
    | keyword word => cases word <;> first | rfl | cases hborder
    | _ => rfl

theorem replays_datetimeConstant (name : DatetimeConstant) :
    B.Replays true ending (datetimeConstant name) :=
  Replays.skip_one.bind fun _ => Replays.takeSymbol_bind rfl
    ((Replays.symbol .rightParen).bind fun _ => Replays.pure _) (Replays.pure _)

theorem replays_simpleLiteral (value : Literal) : B.Replays true ending (simpleLiteral value) :=
  Replays.skip_one.bind fun _ => Replays.pure value

/-! ### Parts of calls -/

/-- The name of a call is followed by its parenthesis. -/
theorem replays_callName : B.Replays true ending callName :=
  Replays.current_bind fun t => Replays.skip_one.bind fun _ =>
    (Replays.symbol .leftParen).bind fun _ => Replays.pure t.text

theorem replays_nestedAll : B.Replays true ending nestedAll :=
  replays_callName.bind fun _ => replays_qualifiedName.bind fun _ =>
    (Replays.symbol .dot).bind fun _ => (Replays.symbol .star).bind fun _ =>
      (Replays.symbol .rightParen).bind fun _ => Replays.pure _

theorem replays_optionName (names : List String) (expected : String) :
    B.Replays front ending (optionName names expected) := by
  refine Replays.current_bind_of_eq (fun t => ?_) (Replays.rejectCurrent expected) ?_
  · obtain ⟨kind, text, span⟩ := t
    cases kind with
    | name name =>
      dsimp only
      split
      · exact Replays.skip_one.bind fun _ => Replays.pure name
      · exact Replays.rejectCurrent _
    | _ => exact Replays.rejectCurrent _
  · rintro ⟨kind, text, span⟩ hborder
    cases kind with
    | name name => cases hborder
    | _ => rfl

/-- An option is read behind a comma, so no comma is at the seam. -/
theorem replays_highlightOptions : B.Replays front .list highlightOptions := by
  rw [highlightOptions_eq]
  refine (Replays.loop (fun options => ?_) Congruence.advances_highlightStep []).bind fun _ =>
    Replays.pure _
  exact Replays.takeComma_bind
    ((replays_optionName _ _).bind fun _ => (Replays.symbol .eq).bind fun _ =>
      replays_string.bind fun _ => Replays.pure _)
    (Replays.pure _)

theorem replays_highlight : B.Replays true ending highlight :=
  replays_callName.bind fun _ => replays_field.bind fun _ =>
    replays_highlightOptions.bind_symbol fun _ _ => Replays.pure _

theorem replays_dataType : B.Replays front ending dataType := by
  refine Replays.of_front (Replays.current_bind fun t => ?_) fun s t target hrun => ?_
  · show B.Replays true ending (Likeness.takeType (Likeness.typeNamed? t))
    cases Likeness.typeNamed? t with
    | some target => exact Replays.skip_one.bind fun _ => Replays.pure target
    | none => exact Replays.rejectCurrent _
  · have htake : Likeness.takeType (Likeness.typeNamed? s.cursor.current) s = .ok target t := hrun
    cases htype : Likeness.typeNamed? s.cursor.current with
    | none =>
      rw [htype] at htake
      exact absurd htake rejectCurrent_ne_ok
    | some found =>
      rw [htype] at htake
      obtain ⟨-, rfl⟩ := pure_eq_ok_iff.1 htake
      refine ahead_skip_lt (isEnd_eq_false fun hkind => ?_) 0
      unfold Likeness.typeNamed? at htype
      rw [hkind] at htype
      cases htype

theorem replays_formatTarget : B.Replays front ending formatTarget := by
  refine Replays.current_bind_of_eq (fun t => ?_)
    (Replays.rejectCurrent "DATE, DATETIME, TIME or TIMESTAMP") ?_
  · obtain ⟨kind, text, span⟩ := t
    cases kind with
    | keyword word =>
      cases word with
      | DATE | DATETIME | TIME | TIMESTAMP => exact Replays.skip_one.bind fun _ => Replays.pure _
      | _ => exact Replays.rejectCurrent _
    | _ => exact Replays.rejectCurrent _
  · rintro ⟨kind, text, span⟩ hborder
    cases kind with
    | keyword word => cases word <;> first | rfl | cases hborder
    | _ => rfl

theorem replays_singleUnit : B.Replays front ending singleUnit := by
  refine replays_of_ne_ok (fun t => replays_datetimeUnit.bind fun unit => ?_) fun s t a h hrun => ?_
  · dsimp only
    split
    · exact (Replays.reject _).bind fun _ => Replays.pure _
    · exact Replays.pure _
  · obtain ⟨unit, u, hunit, -⟩ := bind_eq_ok_iff.1 hrun
    unfold datetimeUnit at hunit
    rw [current_bind_apply, TokenKind.bareWord?_of_isBorder h] at hunit
    cases hunit

end Seam

end SearchSql.Grammar
