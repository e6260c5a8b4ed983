import SearchSql.Proofs.Reaching
import SearchSql.Time.Reading

/-!
# The word between the operands of `POSITION`

Where the first operand of `POSITION` is a predicate that tests no membership outside of parentheses
and calls, the word `IN` behind it separates the operands: the predicate is read as it is read alone,
although `IN` would be a test there (`predicate_separating`). So what makes a column on its own makes
the first operand (`parseStrict_position`).

This does not reach the operands of `NOT`, `AND` and `OR`. They are nested more deeply than the mark
that tells where `IN` separates, and there it is a test (`parseStrict_position_not`).
-/

set_option autoImplicit false

namespace SearchSql

/-- Whether a predicate tests membership outside of parentheses and calls. -/
def Predicate.testsMembership : Predicate → Bool
  | .comparison _ left right | .like left _ right | .regexp left _ right =>
      left.testsMembership || right.testsMembership
  | .isNull target _ _ => target.testsMembership
  | .between target _ low high =>
      target.testsMembership || low.testsMembership || high.testsMembership
  | .within _ _ _ _ => true
  | .atom _ => false

/-- Whether an expression tests membership outside of parentheses and calls. -/
def Expr.testsMembership : Expr → Bool
  | .not operand _ => operand.testsMembership
  | .and left right | .or left right => left.testsMembership || right.testsMembership
  | .predicate p => p.testsMembership

/-- The predicate that an expression consists of, if it is nothing more. -/
def Expr.predicate? : Expr → Option Predicate
  | .predicate p => some p
  | _ => none

/-- An expression that consists of a predicate is that predicate. -/
theorem Expr.eq_predicate {e : Expr} {p : Predicate} (h : e.predicate? = some p) :
    e = .predicate p := by
  cases e with
  | predicate q => exact congrArg Expr.predicate (Option.some.inj h)
  | _ => cases h

namespace Grammar

open SearchSql.Grammar.Parser

variable {library : Time.Library} {s s' t : State} {least : Nat} {p left : Predicate}

/-! ## Predicates without tests of membership -/

/-- The second state may be one in which `IN` separates. In the first it is a test. -/
structure State.Untested (s s' : State) : Prop where
  linked : (levels s.library true).Linked s s'
  tests : s.separatorDepth ≠ some s.depth

/-- States that differ in whether `IN` separates still do behind the same tokens. -/
theorem State.Untested.leads {t' : State} (h : s.Untested s') (ht : s.Leads t) (ht' : s'.Leads t')
    (hcursor : t'.cursor = t.cursor) : t.Untested t' where
  linked := ⟨hcursor.symm, ht.library ▸ h.linked.frame.leads ht ht', trivial⟩
  tests := by
    rw [ht.separatorDepth, ht.depth]
    exact h.tests

/-- In the first of the two states no test is a separator. -/
theorem State.Untested.isSeparator (h : s.Untested s') (test : Test) :
    s.isSeparator test = false := by
  cases test with
  | within negated => exact beq_false_of_ne h.tests
  | _ => rfl

/-- What is made of a predicate tests membership if the predicate does, or if the test is that. -/
theorem testsMembership_of_testRule {test : Test} (h : testRule read left test s = .ok p t)
    (hp : p.testsMembership = false) :
    left.testsMembership = false ∧ ∀ negated, test ≠ .within negated := by
  cases test with
  | comparison | like | regexp =>
    obtain ⟨right, u, -, hrest⟩ := bind_eq_ok_iff.1 h
    obtain ⟨rfl, -⟩ := pure_eq_ok_iff.1 hrest
    simp only [Predicate.testsMembership, Bool.or_eq_false_iff] at hp
    exact ⟨hp.1, nofun⟩
  | isNull =>
    obtain ⟨stop, u, -, hrest⟩ := bind_eq_ok_iff.1 h
    obtain ⟨rfl, -⟩ := pure_eq_ok_iff.1 hrest
    exact ⟨hp, nofun⟩
  | between =>
    obtain ⟨low, u, -, hrest⟩ := bind_eq_ok_iff.1 h
    obtain ⟨_, v, -, hrest⟩ := bind_eq_ok_iff.1 hrest
    obtain ⟨high, w, -, hrest⟩ := bind_eq_ok_iff.1 hrest
    obtain ⟨rfl, -⟩ := pure_eq_ok_iff.1 hrest
    simp only [Predicate.testsMembership, Bool.or_eq_false_iff] at hp
    exact ⟨hp.1.1, nofun⟩
  | within =>
    obtain ⟨_, u, -, hrest⟩ := bind_eq_ok_iff.1 h
    obtain ⟨items, v, -, hrest⟩ := bind_eq_ok_iff.1 hrest
    obtain ⟨_, w, -, hrest⟩ := bind_eq_ok_iff.1 hrest
    rw [spanFrom_bind_apply] at hrest
    obtain ⟨rfl, -⟩ := pure_eq_ok_iff.1 hrest
    cases hp

/-- Predicates with fewer than `n` tokens ahead of them are read alike in both states. -/
def AlikeBelow (n : Nat) : Prop :=
  ∀ {least : Nat} {s s' t : State} {p : Predicate}, s.Untested s' → s.cursor.ahead.length < n →
    read (.predicate least) s = .ok p t → ¬t.AtOrder → p.testsMembership = false →
      ∃ t', read (.predicate least) s' = .ok p t' ∧ t'.cursor = t.cursor

/-- The operands behind a test are read alike in both states, if this is known of predicates. -/
theorem testRule_untested {test : Test} (hpredicate : AlikeBelow (s.cursor.ahead.length + 1))
    (hs : s.Untested s') (h : testRule read left test s = .ok p t) (horder : ¬t.AtOrder)
    (hp : p.testsMembership = false) :
    ∃ t', testRule read left test s' = .ok p t' ∧ t'.cursor = t.cursor := by
  have hsingle {least : Nat} {join : Predicate → Predicate}
      (hjoin : ∀ q, (join q).testsMembership = false → q.testsMembership = false)
      (h : (do return join (← read (.predicate least))) s = .ok p t) :
      ∃ t', (do return join (← read (.predicate least)) : Parser Predicate) s' = .ok p t' ∧
        t'.cursor = t.cursor := by
    obtain ⟨q, u, hq, hrest⟩ := bind_eq_ok_iff.1 h
    obtain ⟨rfl, rfl⟩ := pure_eq_ok_iff.1 hrest
    obtain ⟨t', hq', hcursor⟩ := hpredicate hs (Nat.lt_succ_self _) hq horder (hjoin q hp)
    exact ⟨t', bind_of_ok hq', hcursor⟩
  cases test with
  | comparison op =>
    refine hsingle (fun q hq => ?_) h
    simp only [Predicate.testsMembership, Bool.or_eq_false_iff] at hq
    exact hq.2
  | like negated =>
    refine hsingle (fun q hq => ?_) h
    simp only [Predicate.testsMembership, Bool.or_eq_false_iff] at hq
    exact hq.2
  | regexp negated =>
    refine hsingle (fun q hq => ?_) h
    simp only [Predicate.testsMembership, Bool.or_eq_false_iff] at hq
    exact hq.2
  | isNull negated =>
    obtain ⟨stop, u, hnull, hrest⟩ := bind_eq_ok_iff.1 h
    obtain ⟨hkind, rfl, rfl⟩ := keyword_eq_ok_iff.1 hnull
    obtain ⟨rfl, rfl⟩ := pure_eq_ok_iff.1 hrest
    have hkind' : s'.cursor.current.kind = .keyword .NULL := by rw [← hs.linked.cursor, hkind]
    refine ⟨s'.skip 1, ?_, congrArg (Cursor.skip 1) hs.linked.cursor.symm⟩
    show (keyword .NULL >>= _) s' = _
    rw [bind_of_ok (keyword_eq_ok_iff.2 ⟨hkind', rfl, rfl⟩), hs.linked.cursor]
    rfl
  | between negated =>
    obtain ⟨low, u, hlow, hrest⟩ := bind_eq_ok_iff.1 h
    obtain ⟨_, v, hand, hrest⟩ := bind_eq_ok_iff.1 hrest
    obtain ⟨hkind, rfl, rfl⟩ := keyword_eq_ok_iff.1 hand
    obtain ⟨high, w, hhigh, hrest⟩ := bind_eq_ok_iff.1 hrest
    obtain ⟨rfl, rfl⟩ := pure_eq_ok_iff.1 hrest
    simp only [Predicate.testsMembership, Bool.or_eq_false_iff] at hp
    -- Behind the lower bound stands the word `AND`.
    have horder' : ¬u.AtOrder := by
      intro hat
      rw [show u.cursor.current.kind = _ from hat] at hkind
      cases hkind
    obtain ⟨u', hlow', hcursor⟩ := hpredicate hs (Nat.lt_succ_self _) hlow horder' hp.1.2
    have hkind' : u'.cursor.current.kind = .keyword .AND := by rw [hcursor, hkind]
    have hu : u.Untested u' :=
      hs.leads ((steady_read _).leads hlow) ((steady_read _).leads hlow') hcursor
    have hskip : (u.skip 1).Untested (u'.skip 1) :=
      hu.leads (u.leads_skip 1) (u'.leads_skip 1) (congrArg (Cursor.skip 1) hcursor)
    have hleads : s.Leads (u.skip 1) := ((steady_read _).leads hlow).trans (u.leads_skip 1)
    obtain ⟨t', hhigh', hcursor'⟩ :=
      hpredicate hskip (Nat.lt_succ_of_le hleads.ahead.length_le) hhigh horder hp.2
    refine ⟨t', ?_, hcursor'⟩
    show (read (.predicate _) >>= _) s' = _
    rw [bind_of_ok hlow', bind_of_ok (keyword_eq_ok_iff.2 ⟨hkind', rfl, rfl⟩), bind_of_ok hhigh']
    rfl
  | within negated => exact absurd rfl ((testsMembership_of_testRule h hp).2 negated)

/-- Rounds of tests move the cursor away from an order only to another. -/
theorem atOrder_of_rounds (h : Rounds (predicateStep read least) left s p t) (hs : s.AtOrder) :
    t.AtOrder := by
  cases h with
  | last hstep =>
    obtain ⟨-, rfl, -⟩ := predicateStep_eq_done hstep
    exact hs
  | more hstep _ =>
    obtain ⟨test, width, hat, -⟩ := predicateStep_eq_yield hstep
    rw [Test.at?_eq_none hs] at hat
    cases hat

/-- A predicate without a test of membership was climbed from one without. -/
theorem testsMembership_of_rounds (h : Rounds (predicateStep read least) left s p t)
    (hp : p.testsMembership = false) : left.testsMembership = false := by
  induction h with
  | last hstep =>
    obtain ⟨rfl, -, -⟩ := predicateStep_eq_done hstep
    exact hp
  | more hstep _ ih =>
    obtain ⟨test, width, -, -, -, htest⟩ := predicateStep_eq_yield hstep
    exact (testsMembership_of_testRule htest (ih hp)).1

/-- The rounds of a predicate are made alike in both states, if this is known of its operands. -/
theorem rounds_untested {n : Nat} (hpredicate : AlikeBelow n) (hs : s.Untested s')
    (hn : s.cursor.ahead.length ≤ n) (h : Rounds (predicateStep read least) left s p t)
    (horder : ¬t.AtOrder) (hp : p.testsMembership = false) :
    ∃ t', Rounds (predicateStep read least) left s' p t' ∧ t'.cursor = t.cursor := by
  induction h generalizing s' with
  | last hstep =>
    obtain ⟨rfl, rfl, hstops⟩ := predicateStep_eq_done hstep
    have hstops' : s'.Stops least := by
      apply stops_iff.2
      intro test width hat
      rw [← hs.linked.cursor] at hat
      refine .inl ((stops_iff.1 hstops test width hat).resolve_right ?_)
      rw [hs.isSeparator test]
      nofun
    exact ⟨s', .last (predicateStep_of_stops hstops'), hs.linked.cursor.symm⟩
  | @more left left' _ s u t hstep hmore ih =>
    obtain ⟨test, width, hat, hleast, -, htest⟩ := predicateStep_eq_yield hstep
    have hleft' := testsMembership_of_rounds hmore hp
    have hseparator : s'.isSeparator test = false := by
      cases test with
      | within negated => exact absurd rfl ((testsMembership_of_testRule htest hleft').2 negated)
      | _ => rfl
    -- The words of the test are passed, so there are fewer tokens ahead of its operands.
    have hlt : (s.skip width).cursor.ahead.length < s.cursor.ahead.length := by
      obtain ⟨hend, k, rfl⟩ := Test.at?_eq_some hat
      exact ahead_skip_lt hend k
    have hskip : (s.skip width).Untested (s'.skip width) :=
      hs.leads (s.leads_skip width) (s'.leads_skip width)
        (congrArg (Cursor.skip width) hs.linked.cursor.symm)
    obtain ⟨u', htest', hcursor⟩ := testRule_untested
      (fun hu hle => hpredicate hu (by omega)) hskip htest
        (fun hat => horder (atOrder_of_rounds hmore hat)) hleft'
    have hstep' : predicateStep read least left s' = .ok (.yield left') u' :=
      predicateStep_of_testRule (hs.linked.cursor ▸ hat) hleast hseparator htest'
    have hsteady := steady_predicateStep least left
    have hu : u.Untested u' := hs.leads (hsteady.leads hstep) (hsteady.leads hstep') hcursor
    have hle : u.cursor.ahead.length ≤ n :=
      Nat.le_trans (hsteady.leads hstep).ahead.length_le hn
    obtain ⟨t', hrounds, ht⟩ := ih hu hle horder hp
    exact ⟨t', .more hstep' hrounds, ht⟩

/-- A predicate that tests no membership is read alike where `IN` separates. The induction is on the
tokens ahead, as the operands of a test are predicates as well. -/
theorem alikeBelow (n : Nat) : AlikeBelow n := by
  induction n with
  | zero => exact fun _ hn => absurd hn (Nat.not_lt_zero _)
  | succ n ih =>
    intro least s s' t p hs hn h horder hp
    rw [read_eq_rule] at h
    obtain ⟨a, u, ha, hloop⟩ := bind_eq_ok_iff.1 h
    have hrounds := (loop_eq_ok_iff (advances_read_predicateStep least)).1 hloop
    have horder' : ¬u.AtOrder := fun hat => horder (atOrder_of_rounds hrounds hat)
    obtain ⟨u', ha', hcursor⟩ := levels_ok (fun b => levels_related b (.arithmetic 0)) hs.linked ha
      (.inr horder')
    have hu : u.Untested u' := hs.leads ((steady_read _).leads ha) ((steady_read _).leads ha') hcursor
    have hle : u.cursor.ahead.length ≤ n :=
      Nat.le_trans ((steady_read _).leads ha).ahead.length_le (Nat.le_of_lt_succ hn)
    obtain ⟨t', hrounds', ht⟩ := rounds_untested ih hu hle hrounds horder hp
    refine ⟨t', ?_, ht⟩
    rw [read_eq_rule]
    show predicateRule read least s' = _
    unfold predicateRule
    rw [bind_of_ok ha']
    exact (loop_eq_ok_iff (advances_read_predicateStep least)).2 hrounds'

/-! ## The operands of `POSITION` -/

variable {alone : State} {rest tokens : List Token}

/-- A predicate is read as an expression if that is all there is of the expression. -/
theorem predicate_of_wholeExpr (h : read .wholeExpr s = .ok (.predicate p) t) :
    s.cursor.current.kind ≠ .keyword .NOT ∧
      ∃ u, read (.predicate 0) (s.deeper 1) = .ok p u ∧ u.cursor = t.cursor := by
  rw [read_eq_rule] at h
  obtain ⟨-, u, hbody, rfl⟩ := nest_eq_ok_iff.1 h
  have hbody : exprBody read 0 (s.deeper 1) = .ok (.predicate p) u := hbody
  rw [← connectiveLadder_climb] at hbody
  obtain ⟨first, v, hoperand, hrounds⟩ := (Ladder.climb_eq_ok_iff connectiveLadder_climbs).1 hbody
  -- Each round joins expressions.
  have hdone {left e : Expr} {v u : State} (hrounds : Rounds (connectiveLadder.step
      (fun least => read (.expr least)) 0) left v e u) (he : e = .predicate p) : left = e ∧ v = u := by
    induction hrounds with
    | last hstep =>
      obtain ⟨-, rfl, rfl⟩ := Ladder.step_eq_done_iff.1 hstep
      exact ⟨rfl, rfl⟩
    | more hstep _ ih =>
      obtain ⟨op, right, -, -, -, hjoin⟩ := Ladder.step_eq_yield_iff.1 hstep
      obtain ⟨rfl, -⟩ := ih he
      subst he
      cases op <;> cases hjoin
  obtain ⟨rfl, rfl⟩ := hdone hrounds rfl
  obtain ⟨hnot, q, hq, heq⟩ | ⟨-, -, operand, w, -, -, heq⟩ := logicalOperand_eq_ok_iff.1 hoperand
  · obtain rfl := Expr.predicate.inj heq
    exact ⟨hnot, _, hq, rfl⟩
  · cases heq

/-- Where `IN` separates, a predicate that tests no membership is read in front of it. -/
theorem reaches_substring {es : List Token} {v : State} (hlevels : Shallower library v alone)
    (halone : alone.Faces es) (h : read .wholeExpr alone = .ok (.predicate p) t)
    (hend : t.cursor.ahead = []) (hp : p.testsMembership = false) (hv : v.Faces (es ++ rest))
    (hin : kindAt rest 0 = .keyword .IN) (hrest : Unfiltered rest) :
    Reaches (fun e u => e.view .placeless = (Expr.predicate p).view .placeless ∧ u.Faces rest)
      (atSeparator (read .wholeExpr) v) := by
  have hlevel := balanced_of_read rfl halone h hend
  obtain ⟨hnot, u, hpredicate, hu⟩ := predicate_of_wholeExpr h
  -- Alone, it is read where `IN` separates as well.
  let inner := (alone.deeper 1).separatingHere
  have huntested : (alone.deeper 1).Untested inner := by
    have hdeepening : Deepening alone.library true (alone.deeper 1) inner :=
      ⟨rfl, rfl, hlevels.strict', fun _ => hlevels.strict', hlevels.settled'.deeper 1,
        State.settled_separatingHere _, fun _ => id, Iff.rfl⟩
    exact ⟨⟨rfl, hdeepening, trivial⟩, hlevels.settled'.deeper_ne Nat.one_pos⟩
  have horder : ¬u.AtOrder := by
    intro hat
    have hkind : u.cursor.current.kind = .endOfInput := by
      rw [← kindAt_zero, hu, hend]
      rfl
    exact absurd (hkind.symm.trans hat) nofun
  obtain ⟨w, hw, hcursor⟩ := alikeBelow _ huntested (Nat.lt_succ_self _) hpredicate horder hp
  have hdeeper : (v.deeper 1).Within (alone.deeper 1) := hlevels.within.deeper 1
  have hshallower : Shallower library (v.deeper 1).separatingHere inner :=
    ⟨hlevels.withLibrary, hlevels.withLibrary', hlevels.strict', hdeeper, hlevels.enclosed,
      State.settled_separatingHere _, State.settled_separatingHere _⟩
  have hborder : Border rest := by
    unfold Border
    rw [hin]
    rfl
  have hinner : inner.Faces es := halone
  have hfaces : (v.deeper 1).separatingHere.Faces (es ++ rest) := hv
  have hclear : (Seam.mk [] rest).Clear w .operand := by
    intro _
    have hleads := (steady_read _).leads hw
    rw [hleads.separatorDepth, hleads.depth]
    exact .inl rfl
  have hagain : Reaches (fun q u => q.view .placeless = p.view .placeless ∧ u.Faces rest)
      (read (.predicate 0) (v.deeper 1).separatingHere) :=
    read_again (n := .predicate 0) rfl rfl hinner hfaces hshallower (fun _ => iff_of_true rfl rfl) hrest
      hborder (Balanced.of_levels hlevel).sealed hclear hw (by rw [hcursor, hu, hend])
  have hfirst : (v.deeper 1).separatingHere.cursor.current.kind ≠ .keyword .NOT := by
    rw [hfaces.current]
    cases es with
    | nil => exact hin ▸ nofun
    | cons first es => exact halone.current ▸ hnot
  have hbody := hagain.exprBody hfirst fun q u hq => by
    rw [hq.2.current, hin]
    rfl
  rw [read_eq_rule]
  show Reaches _ (atSeparator (Parser.nest 1 (exprBody read 0)) v)
  rw [atSeparator_nest]
  have hexpr : Reaches (fun e u => e.view .placeless = (Expr.predicate p).view .placeless ∧ u.Faces rest)
      (exprBody read 0 (v.deeper 1).separatingHere) := by
    obtain ⟨e, u, hok, q, rfl, hq, hu⟩ | hlimit := hbody
    · exact .inl ⟨_, u, hok, congrArg Expr.predicate hq, hu⟩
    · exact .inr hlimit
  exact (hexpr.separateHere fun _ _ h => h).nest fun _ _ h => h

/-- Behind the word `IN`, parentheses around balanced tokens keep filters away from what stands in front
of the word. -/
theorem unfiltered_within {word : Token} {ns : List Token} (hword : word.kind = .keyword .IN)
    (hns : levels? 0 ns = some 0) (closing : List Token)
    (hclosing : kindAt closing 0 = .symbol .rightParen) :
    Unfiltered (word :: .ofSymbol .leftParen :: (ns ++ .ofSymbol .rightParen :: closing)) where
  order := by
    show word.kind ≠ _
    rw [hword]
    nofun
  filter v w hsplit hv hlevel := by
    have hopened {u : List Token} (hu : u <+: ns) : ∃ k, levels? 1 u = some (k + 1) := by
      obtain ⟨behind, rfl⟩ := hu
      rw [levels?_append] at hns
      obtain ⟨k, hk, -⟩ := Option.bind_eq_some_iff.1 hns
      exact ⟨k, levels?_add 1 hk⟩
    obtain ⟨u, v, rfl⟩ := List.exists_cons_of_ne_nil hv
    obtain ⟨rfl, hbehind⟩ := List.cons.inj (show _ = u :: (v ++ w) from hsplit)
    cases v with
    | nil =>
      obtain rfl : _ = w := hbehind
      exact nofun
    | cons x v =>
      obtain ⟨rfl, hinside⟩ := List.cons.inj (show _ = x :: (v ++ w) from hbehind)
      have hlevel : levels? 1 v = some 0 := by
        rw [levels?_cons, hword] at hlevel
        exact hlevel
      rcases List.append_eq_append_iff.1 hinside with ⟨c, rfl, hc⟩ | ⟨c, rfl, -⟩
      · have hinner : levels? 1 ns = some 1 := levels?_add 1 hns
        rw [levels?_append, hinner] at hlevel
        cases c with
        | nil => cases hlevel
        | cons y c =>
          obtain ⟨rfl, hrest⟩ := List.cons.inj (show _ = y :: (c ++ w) from hc)
          cases c with
          | nil =>
            obtain rfl : closing = w := hrest
            exact hclosing ▸ nofun
          | cons z c =>
            have hz : z.kind = .symbol .rightParen := by
              rw [hrest] at hclosing
              exact hclosing
            have hnone : levels? 0 (z :: c) = some 0 := hlevel
            rw [levels?_cons, hz] at hnone
            cases hnone
      -- Within the parentheses, one is open.
      · obtain ⟨k, hk⟩ := hopened (List.prefix_append v c)
        cases hk.symm.trans hlevel

/-- An expression in parentheses is read as an operand. -/
theorem reaches_parenthesized {ns : List Token} {n : Expr} {v : State}
    (hlevels : Shallower library v alone)
    (halone : alone.Faces ns) (h : read .wholeExpr alone = .ok n t) (hend : t.cursor.ahead = [])
    (hv : v.Faces (.ofSymbol .leftParen :: (ns ++ .ofSymbol .rightParen :: rest))) :
    Reaches (fun a u => a.view .placeless = (Atom.parenthesized n default).view .placeless ∧ u.Faces rest)
      (read .operand v) := by
  have hlevel := balanced_of_read rfl halone h hend
  have hopen : v.cursor.current.kind = .symbol .leftParen := hv.current
  have hoperand : read .operand v = read .parenthesized v := by
    have hfield : afterField? v.cursor.ahead = none := by
      have hkind : kindAt v.cursor.ahead 0 = .symbol .leftParen := kindAt_zero v.cursor ▸ hopen
      exact afterField?_eq_none (hkind ▸ rfl) (hkind ▸ rfl) (hkind ▸ nofun)
    have hstarts : startsFieldEquals v.cursor.ahead = false := by
      refine startsFieldEquals_eq_false fun behind hbehind => ?_
      exact absurd (hfield.symm.trans hbehind) nofun
    have hform : v.cursor.operandForm? = some .parenthesized := by
      show Grammar.operandForm? (v.cursor.peek 0).kind _ _ = _
      rw [Cursor.peek_zero, hopen]
      rfl
    rw [read_eq_rule]
    show operandRule read v = _
    rw [operandRule_eq, get_bind_apply]
    unfold operandAt
    rw [hstarts, hform]
    rfl
  -- The expression inside is read as it was alone, since its parentheses are balanced.
  rw [hoperand, read_eq_rule]
  show Reaches _ (parenthesizedRule read v)
  obtain ⟨hparen, hskip⟩ := symbol_of_faces hv
  unfold parenthesizedRule
  rw [bind_of_ok hparen]
  have hinner : Reaches (fun e u => e.view .placeless = n.view .placeless ∧
      u.Faces (.ofSymbol .rightParen :: rest)) (read .wholeExpr (v.skip 1)) :=
    read_again (n := .wholeExpr) rfl rfl halone hskip
      (hlevels.leads (v.leads_skip 1) (State.Leads.refl _)) nofun
      (Seam.unfiltered_of_levelAfter? rfl) rfl (Balanced.of_levels hlevel).sealed
      (Seam.clear_of_ne nofun nofun) h hend
  refine hinner.bind (fun e => (steady_symbol _).bind fun _ => (steady_spanFrom _).bind fun _ =>
    steady_pure _) fun e u _ he => ?_
  obtain ⟨hview, hu⟩ := he
  obtain ⟨hclose, hrest⟩ := symbol_of_faces hu
  rw [bind_of_ok hclose, spanFrom_bind_apply]
  exact reaches_of_ok rfl ⟨congrArg₂ Atom.parenthesized hview rfl, hrest⟩

/-- The operands of `POSITION` are read on both sides of the word `IN`. -/
theorem reaches_position {es ns : List Token} {word : Token} {m : String} {n : Expr}
    {alone' t' v : State} (hword : word.placeless.kind = .keyword .IN)
    (hlevels : Shallower library v alone)
    (halone : alone.Faces es) (h : read .wholeExpr alone = .ok (.predicate p) t)
    (hend : t.cursor.ahead = []) (hp : p.testsMembership = false)
    (hlevels' : Shallower library v alone')
    (halone' : alone'.Faces ns) (hn : read .wholeExpr alone' = .ok n t') (hend' : t'.cursor.ahead = [])
    (hv : v.Faces (.ofName m :: .ofSymbol .leftParen :: (es ++ word.placeless :: .ofSymbol .leftParen ::
      (ns ++ .ofSymbol .rightParen :: .ofSymbol .rightParen :: rest)))) :
    Reaches (fun shape u => shape.view .placeless = (CallShape.position (.predicate p)
        (.predicate (.atom (.parenthesized n default)))).view .placeless ∧ u.Faces rest)
      (positionRule read v) := by
  obtain ⟨hname, hinside⟩ := callName_of_faces rfl hv
  have hclosing := balanced_of_read rfl halone' hn hend'
  have hleads := steady_callName.leads hname
  -- The substring is read up to `IN`, which is the separator there, and the string behind it.
  have hsubstring := reaches_substring (hlevels.leads hleads (State.Leads.refl _)) halone h hend hp hinside
    hword (unfiltered_within hword hclosing _ rfl)
  unfold positionRule
  rw [bind_of_ok hname]
  refine hsubstring.bind (fun e => (steady_keyword _).bind fun _ => (steady_read _).bind fun _ =>
    (steady_symbol _).bind fun _ => steady_pure _) fun e u hrun he => ?_
  obtain ⟨hsub, hu⟩ := he
  have hin : keyword .IN u = .ok _ (u.skip 1) := keyword_eq_ok_iff.2 ⟨hu.current.trans hword, rfl, rfl⟩
  have hskip := hu.skip (isEnd_of_keyword hword)
  rw [bind_of_ok hin]
  have hleads' : v.Leads (u.skip 1) :=
    (hleads.trans ((steady_read _).atSeparator.leads hrun)).trans (u.leads_skip 1)
  have hbelow : Shallower library ((u.skip 1).deeper 1) alone' :=
    (hlevels'.leads hleads' (State.Leads.refl _)).below 1
  have hstring := (reaches_parenthesized hbelow halone' hn hend' hskip).wholeExpr
    (by rw [hskip.current]; nofun) (fun a w ha => .inr (ha.2.current)) (fun a w ha => ha)
  refine hstring.bind (fun e => (steady_symbol _).bind fun _ => steady_pure _) fun e' w _ he' => ?_
  obtain ⟨a, rfl, ha, hw⟩ := he'
  obtain ⟨hclose, hrest⟩ := symbol_of_faces hw
  rw [bind_of_ok hclose]
  have hstring : (Expr.predicate (.atom a)).view .placeless = _ :=
    congrArg (fun a => Expr.predicate (.atom a)) ha
  exact reaches_of_ok rfl ⟨congrArg₂ CallShape.position hsub hstring, hrest⟩

/-- A call of `POSITION` is read as an operand. -/
theorem reaches_operand_of_position {es ns : List Token} {word : Token} {m : String} {n : Expr}
    {alone' t' v : State} (hname : Text.upper m = "POSITION")
    (hword : word.placeless.kind = .keyword .IN) (hlevels : Shallower library v alone)
    (halone : alone.Faces es) (h : read .wholeExpr alone = .ok (.predicate p) t)
    (hend : t.cursor.ahead = []) (hp : p.testsMembership = false)
    (hlevels' : Shallower library v alone')
    (halone' : alone'.Faces ns) (hn : read .wholeExpr alone' = .ok n t') (hend' : t'.cursor.ahead = [])
    (hv : v.Faces (.ofName m :: .ofSymbol .leftParen :: (es ++ word.placeless :: .ofSymbol .leftParen ::
      (ns ++ .ofSymbol .rightParen :: .ofSymbol .rightParen :: rest)))) :
    Reaches (fun a u => a.view .placeless = (Atom.call ⟨.position (.predicate p)
        (.predicate (.atom (.parenthesized n default))), default⟩).view .placeless ∧ u.Faces rest)
      (read .operand v) := by
  -- The name is that of the function and of no constant, so the operand is a call by its rule.
  have hfamily : FunctionFamily.ofUpper? "POSITION" = some .position ∧
      DatetimeConstant.ofText? "POSITION" = none := by decide
  have hinside : (v.deeper 1).Faces _ := hv
  have hrule : callShape read (v.deeper 1) = positionRule read (v.deeper 1) := by
    rw [callShape_of_family (hname ▸ hfamily.1) hinside]
    show read .position (v.deeper 1) = _
    rw [read_eq_rule]
    rfl
  have hshape := reaches_position hword (hlevels.below 1) halone h hend hp (hlevels'.below 1) halone'
    hn hend' hv
  have hcall : Reaches (fun c u => c.view .placeless = (Call.mk (.position (.predicate p)
      (.predicate (.atom (.parenthesized n default)))) default).view .placeless ∧ u.Faces rest)
      (callBody read (v.deeper 1)) := by
    unfold callBody
    rw [current_bind_apply]
    rw [← hrule] at hshape
    refine hshape.bind (fun shape => (steady_spanFrom _).bind fun _ => steady_pure _)
      fun shape u _ hu => ?_
    rw [spanFrom_bind_apply]
    exact reaches_of_ok rfl ⟨congrArg₂ Call.mk hu.1 rfl, hu.2⟩
  rw [operand_of_name (hname ▸ hfamily.2) hv]
  exact (hcall.nest fun _ _ hu => hu).map fun c u hu => ⟨congrArg Atom.call hu.1, hu.2⟩

end Grammar

open Grammar in
/-- A predicate that tests no membership outside of parentheses and calls, selected alone, is the first
operand of `POSITION` in front of the word `IN`, and what stands in parentheses behind the word is the
second. -/
theorem parseTokensStrict_position [Time.Library] {input inner call es ns : List Token}
    {select word : Token}
    {m : String} {settings : Settings} {p : Predicate} {n : Expr} {span span' : Span}
    (hselect : select.kind = .keyword .SELECT) (hword : word.kind = .keyword .IN)
    (hname : Text.upper m = "POSITION")
    (hes : ∀ t ∈ es, t.isEnd = false ∧ t.kind ≠ .symbol .semicolon)
    (hns : ∀ t ∈ ns, t.isEnd = false ∧ t.kind ≠ .symbol .semicolon)
    (hinput : ConsistsOf input (select :: es))
    (hparse : parseTokensStrict input settings = .ok (.ofColumn (.predicate p) span))
    (hp : p.testsMembership = false) (hinner : ConsistsOf inner (select :: ns))
    (hparse' : parseTokensStrict inner settings = .ok (.ofColumn n span'))
    (hcall : ConsistsOf call (select :: .ofName m :: .ofSymbol .leftParen :: (es ++ word ::
      .ofSymbol .leftParen :: (ns ++ [.ofSymbol .rightParen, .ofSymbol .rightParen]))))
    (hlimit : (parseTokens call { settings with recover := false }).meetsLimit = false) :
    ∃ s, parseTokensStrict call settings = .ok s ∧ s.view .placeless =
      (Statement.ofColumn (.predicate (.atom (.call ⟨.position (.predicate p)
        (.predicate (.atom (.parenthesized n default))), default⟩))) default).view .placeless := by
  -- Both operands are read alone first, then again inside of the call.
  obtain ⟨t, hrun, hend⟩ := wholeExpr_of_ofColumn hinput hselect hes hparse
  obtain ⟨t', hrun', hend'⟩ := wholeExpr_of_ofColumn hinner hselect hns hparse'
  let first := State.ofTokens input { settings with recover := false }
  let second := State.ofTokens inner { settings with recover := false }
  let s := State.ofTokens call { settings with recover := false }
  have hselected : select.placeless.isEnd = false := isEnd_of_keyword hselect
  have hfirst : first.Faces (select.placeless :: es.map Token.placeless) := hinput
  have hsecond : second.Faces (select.placeless :: ns.map Token.placeless) := hinner
  have hs : s.Faces (select.placeless :: .ofName m :: .ofSymbol .leftParen ::
      (es.map Token.placeless ++ word.placeless :: .ofSymbol .leftParen ::
        (ns.map Token.placeless ++ [.ofSymbol .rightParen, .ofSymbol .rightParen]))) := by
    unfold ConsistsOf at hcall
    simp only [List.map_cons, List.map_append, List.map_nil] at hcall
    exact hcall
  have hskip := hs.skip hselected
  have hlevels : Shallower s.library (s.skip 1) (first.skip 1) :=
    ⟨rfl, rfl, rfl, fun _ => id, Iff.rfl, nofun, nofun⟩
  have hlevels' : Shallower s.library (s.skip 1) (second.skip 1) :=
    ⟨rfl, rfl, rfl, fun _ => id, Iff.rfl, nofun, nofun⟩
  -- The call reaches its end, and with it the expression and the statement it consists of.
  have hoperand := reaches_operand_of_position hname hword (hlevels.below 1) (hfirst.skip hselected) hrun
    hend hp (hlevels'.below 1) (hsecond.skip hselected) hrun' hend' hskip
  have hstarts := startsOperand_ofName hskip
  have hexpr := hoperand.wholeExpr hstarts.not (fun a u hu => .inl hu.2.current) fun a u hu => hu
  have hroot := hexpr.root (hs.current.trans hselect) hstarts
    (fun e u hu => by
      obtain ⟨a, -, -, hu⟩ := hu
      exact List.map_eq_nil_iff.1 hu)
    (fun hnil => by
      have hlength := hskip.length
      rw [hnil] at hlength
      cases hlength)
  rw [← runRoot_eq] at hroot
  unfold parseTokensStrict
  generalize hr : runRoot call { settings with recover := false } = r at hroot
  obtain ⟨found, u, hok, e, v, span, rfl, a, rfl, ha, -⟩ | hmet := hroot
  · subst hok
    exact ⟨_, rfl, congrArg (fun a => Statement.ofColumn (.predicate (.atom a)) default) ha⟩
  · cases hlimit.symm.trans (meetsLimit_of_metLimit (hr ▸ hmet))

/-- A comparison with a pattern is an operand of `POSITION`. -/
theorem parseTokensStrict_position_like :
    ∃ p n span span' s, p.testsMembership = false ∧
      parseTokensStrict (Token.tokenize "SELECT a LIKE 'x'") Settings.standard =
        .ok (.ofColumn (.predicate p) span) ∧
      parseTokensStrict (Token.tokenize "SELECT b") Settings.standard = .ok (.ofColumn n span') ∧
      parseTokensStrict (Token.tokenize "SELECT Position(a LIKE 'x' IN (b))") Settings.standard = .ok s ∧
      s.view .placeless = (Statement.ofColumn (.predicate (.atom (.call ⟨.position (.predicate p)
        (.predicate (.atom (.parenthesized n default))), default⟩))) default).view .placeless := by
  -- The parses of the parts are evaluated, and the theorem puts the call together from them.
  have hlike : ((parseTokensStrict (Token.tokenize "SELECT a LIKE 'x'") Settings.standard).toOption.bind
      Statement.column?).any (fun e => e.predicate?.any (!·.testsMembership)) = true := by
    decide +kernel
  obtain ⟨e, span, hparse, he⟩ := exists_ofColumn hlike
  obtain ⟨p, hpredicate, htests⟩ := (Option.any_eq_true _ _).1 he
  obtain rfl := Expr.eq_predicate hpredicate
  have hp : p.testsMembership = false := Bool.not_eq_true' _ |>.mp htests
  have hcolumn : ((parseTokensStrict (Token.tokenize "SELECT b") Settings.standard).toOption.bind
      Statement.column?).any (fun _ => true) = true := by
    decide +kernel
  obtain ⟨n, span', hparse', -⟩ := exists_ofColumn hcolumn
  let es : List Token := [.ofName "a", .ofKeyword .LIKE, .ofString "x"]
  let ns : List Token := [.ofName "b"]
  have hes : ∀ t ∈ es, t.isEnd = false ∧ t.kind ≠ .symbol .semicolon := by decide
  have hns : ∀ t ∈ ns, t.isEnd = false ∧ t.kind ≠ .symbol .semicolon := by decide
  have hinput : ConsistsOf (Token.tokenize "SELECT a LIKE 'x'") (.ofKeyword .SELECT :: es) := by
    decide +kernel
  have hinner : ConsistsOf (Token.tokenize "SELECT b") (.ofKeyword .SELECT :: ns) := by decide +kernel
  have hcall : ConsistsOf (Token.tokenize "SELECT Position(a LIKE 'x' IN (b))")
      (.ofKeyword .SELECT :: .ofName "Position" :: .ofSymbol .leftParen :: (es ++ .ofKeyword .IN ::
        .ofSymbol .leftParen :: (ns ++ [.ofSymbol .rightParen, .ofSymbol .rightParen]))) := by
    decide +kernel
  have hlimit : (parseTokens (Token.tokenize "SELECT Position(a LIKE 'x' IN (b))")
      { Settings.standard with recover := false }).meetsLimit = false := by
    decide +kernel
  obtain ⟨s, hs, hview⟩ := parseTokensStrict_position rfl rfl (by decide +kernel) hes hns hinput hparse hp
    hinner hparse' hcall hlimit
  exact ⟨p, n, span, span', s, hp, hparse, hparse', hs, hview⟩

/-- The operand of a negation is nested more deeply than the operand of `POSITION`, and the word `IN`
behind it is a test. So a negation that tests no membership is no operand of `POSITION`. -/
theorem parseTokensStrict_position_not :
    (∃ e span, parseTokensStrict (Token.tokenize "SELECT NOT a") Settings.standard =
        .ok (.ofColumn e span) ∧ e.testsMembership = false) ∧
      (∃ n span, parseTokensStrict (Token.tokenize "SELECT b") Settings.standard =
        .ok (.ofColumn n span)) ∧
      (parse "SELECT POSITION(NOT a IN (b))" { Settings.standard with recover := false }).meetsLimit =
        false ∧
      ∃ d, parseTokensStrict (Token.tokenize "SELECT POSITION(NOT a IN (b))") Settings.standard =
        .error d := by
  have hnot : ((parseTokensStrict (Token.tokenize "SELECT NOT a") Settings.standard).toOption.bind
      Statement.column?).any (!·.testsMembership) = true := by
    decide +kernel
  have hcolumn : ((parseTokensStrict (Token.tokenize "SELECT b") Settings.standard).toOption.bind
      Statement.column?).any (fun _ => true) = true := by
    decide +kernel
  obtain ⟨e, span, hparse, he⟩ := exists_ofColumn hnot
  obtain ⟨n, span', hparse', -⟩ := exists_ofColumn hcolumn
  refine ⟨⟨e, span, hparse, Bool.not_eq_true' _ |>.mp he⟩, ⟨n, span', hparse'⟩, by decide +kernel, ?_⟩
  have herror : (parseTokensStrict (Token.tokenize "SELECT POSITION(NOT a IN (b))")
      Settings.standard).toBool = false := by
    decide +kernel
  generalize parseTokensStrict (Token.tokenize "SELECT POSITION(NOT a IN (b))") Settings.standard = r at herror ⊢
  cases r with
  | error d => exact ⟨d, rfl⟩
  | ok s => cases herror

end SearchSql
