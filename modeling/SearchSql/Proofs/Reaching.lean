import SearchSql.Proofs.Chains
import SearchSql.Proofs.PredicateLadder
import SearchSql.Proofs.RelevanceSpellings

/-!
# Queries of one expression

What is read where nothing stands behind it is read again at other places, in front of tokens that a
rule may end in front of, and with fewer levels of nesting left (`read_again`): the run gives the same,
or meets the limit (`Reaches`). A text that selects one expression is read by the rule of expressions
(`wholeExpr_of_ofColumn`), and what that rule reads up to the end of the input is a query
(`Reaches.root`).
-/

set_option autoImplicit false

namespace SearchSql

/-- The statement that selects one expression. -/
def Statement.ofColumn (e : Expr) (span : Span) : Statement :=
  .select ⟨none, [.expr e none], none, none, none, none, none, none, span⟩

/-- The expression that a statement selects, if that is all it does. -/
def Statement.column? : Statement → Option Expr
  | .select ⟨none, [.expr e none], none, none, none, none, none, none, _⟩ => some e
  | _ => none

/-- A statement with a single column is the selection of that expression. -/
theorem Statement.eq_ofColumn {statement : Statement} {e : Expr} (h : statement.column? = some e) :
    ∃ span, statement = .ofColumn e span := by
  unfold Statement.column? at h
  split at h
  · obtain rfl := Option.some.inj h
    exact ⟨_, rfl⟩
  · cases h

/-- A parse that gives one expression, of which `f` holds. -/
theorem exists_ofColumn {r : Except Grammar.Failure Statement} {f : Expr → Bool}
    (h : (r.toOption.bind Statement.column?).any f = true) :
    ∃ e span, r = .ok (.ofColumn e span) ∧ f e = true := by
  obtain ⟨e, he, hf⟩ := (Option.any_eq_true _ _).1 h
  obtain ⟨statement, hstatement, hcolumn⟩ := Option.bind_eq_some_iff.1 he
  obtain ⟨span, rfl⟩ := Statement.eq_ofColumn hcolumn
  cases r with
  | error d => cases hstatement
  | ok s =>
    obtain rfl := Option.some.inj hstatement
    exact ⟨e, span, rfl, hf⟩

namespace Grammar

open SearchSql.Grammar.Parser

variable {α β : Type} {library : Time.Library} {s t alone : State} {rest tokens : List Token}

/-! ## In front of other tokens -/

/-- What is read on one level where nothing stands behind it is balanced. -/
theorem balanced_of_read {n : Nonterminal α} {a : α} (hway : n.way = .level)
    (hs : s.Faces tokens) (h : read n s = .ok a t) (hend : t.cursor.ahead = []) :
    levels? 0 tokens = some 0 := by
  have hends : EndsWalk true 0 0 s (read n s) := walking_read.level hway s trivial
  rw [h] at hends
  obtain ⟨passed, hpassed, hlevel, -⟩ := hends
  rw [hend, List.append_nil] at hpassed
  rw [← show _ = tokens from hs, hpassed, levels?_placeless, hlevel]

/-- A state stays shallower than another under the same further levels. -/
theorem Shallower.below {v : State} (h : Shallower library v alone) (levels : Nat) :
    Shallower library (v.deeper levels) alone where
  withLibrary := h.withLibrary
  withLibrary' := h.withLibrary'
  strict' := h.strict'
  within cost hroom := by
    have hroom' : v.depth + levels + cost ≤ v.settings.nestingLimit := hroom
    have hle := h.within (levels + cost) (by omega)
    omega
  enclosed := h.enclosed
  settled := h.settled.deeper levels
  settled' := h.settled'

/-- What is read where nothing stands behind it is read at other places in front of `rest`, with fewer
levels left, unless the limit is met. -/
theorem read_again {n : Nonterminal α} {a : α} (hfront : n.front = false) (hquery : n.isQuery = false)
    (halone : alone.Faces tokens) (hs : s.Faces (tokens ++ rest))
    (hlevels : Shallower library s alone)
    (haligned : n.isPredicate = true → s.Aligned alone) (hrest : Unfiltered rest)
    (hborder : Border rest) (hsealed : Sealed tokens) (hclear : (Seam.mk [] rest).Clear t n.ending)
    (h : read n alone = .ok a t) (hend : t.cursor.ahead = []) :
    (∃ b u, read n s = .ok b u ∧ n.view .placeless b = n.view .placeless a ∧ u.Faces rest) ∨
      MetLimit (read n s) := by
  -- In front of the rest, with the levels that are left where nothing stands behind.
  let deep : State := { alone with cursor := s.cursor }
  have hframe : alone.SameFrame deep := ⟨rfl, rfl, rfl, rfl, rfl, rfl⟩
  have hlike := like_read_of_front hfront
  have hcalm : (Seam.mk [] rest).Calm := ⟨Seam.unfiltered_nil, hrest⟩
  have hreplays := replays_seen hcalm (fun h => absurd (hquery.symm.trans h) nofun) hfront
  obtain ⟨b, v, ahead, hrun, hb, ht, hv⟩ := Seam.retell (B := ⟨[], rest⟩) hlike (steady_read n) hlike
    (steady_read n) hreplays hframe hlevels.strict'
    ((List.append_nil tokens).symm ▸ halone) hs ⟨rfl, hborder, .inl hsealed⟩ h (Nat.zero_le _)
    hclear (complete_read n deep)
  obtain rfl : ahead = [] := by
    unfold State.Faces at ht
    rw [hend] at ht
    exact (List.append_eq_nil_iff.1 ht.symm).1
  have horder : ¬v.AtOrder := by
    intro hat
    exact hrest.order (hv.current.symm.trans hat)
  have hshallower : Shallower library s deep :=
    ⟨hlevels.withLibrary, hlevels.withLibrary', hlevels.strict', hlevels.within, hlevels.enclosed,
      hlevels.settled, hlevels.settled'⟩
  obtain ⟨u, hu, hcursor⟩ | hlimit := limits_ok (fun _ b => limits_related b n)
    (show s.cursor = deep.cursor from rfl) hshallower haligned hrun (.inr horder)
  · refine .inl ⟨b, u, hu, hb, ?_⟩
    unfold State.Faces
    rw [hcursor]
    exact hv
  · exact .inr hlimit

/-! ## Runs that reach their end -/

/-- The run gives a value and ends in a state of which `Q` is known, or meets the limit of nesting. -/
def Reaches (Q : α → State → Prop) (r : Run α) : Prop :=
  (∃ a t, r = .ok a t ∧ Q a t) ∨ MetLimit r

variable {Q : α → State → Prop} {R : β → State → Prop} {q : Parser α} {f : α → Parser β}

/-- A run that succeeds reaches its end. -/
theorem reaches_of_ok {a : α} (h : q s = .ok a t) (hQ : Q a t) : Reaches Q (q s) :=
  .inl ⟨a, t, h, hQ⟩

/-- Two steady parsers in a row reach the end if each does. -/
theorem Reaches.bind (h : Reaches Q (q s)) (hf : ∀ a, Steady (f a))
    (hnext : ∀ a t, q s = .ok a t → Q a t → Reaches R (f a t)) : Reaches R ((q >>= f) s) := by
  obtain ⟨a, t, hok, hQ⟩ | hlimit := h
  · rw [bind_of_ok hok]
    exact hnext a t hok hQ
  · rw [bind_apply_andThen]
    exact .inr (hlimit.andThen hf)

/-- To change the result changes nothing about the end. -/
theorem Reaches.map (h : Reaches Q (q s)) {g : α → β} (hg : ∀ a t, Q a t → R (g a) t) :
    Reaches R ((g <$> q) s) := by
  obtain ⟨a, t, hok, hQ⟩ | hlimit := h
  · exact .inl ⟨g a, t, map_eq_ok_iff.2 ⟨a, hok, rfl⟩, hg a t hQ⟩
  · exact .inr (hlimit.map g)

/-- What is read on a level is read there unless there is no such level. -/
theorem Reaches.nest {cost : Nat} (h : Reaches Q (q (s.deeper cost)))
    (hQ : ∀ a t, Q a t → Q a (t.shallower cost)) : Reaches Q (Parser.nest cost q s) := by
  rw [nest_apply]
  by_cases hroom : s.settings.nestingLimit < s.depth + cost
  · rw [if_pos hroom]
    exact .inr (.inl ⟨_, s, rfl, rfl⟩)
  · rw [if_neg hroom]
    obtain ⟨a, t, hok, ha⟩ | hlimit := h
    · exact .inl ⟨a, t.shallower cost, mapState_eq_ok_iff.2 ⟨t, hok, rfl⟩, hQ a t ha⟩
    · exact .inr (hlimit.mapState fun _ => rfl)

/-- A run that succeeds reaches its end where errors are recovered from. -/
theorem Reaches.recover (h : Reaches Q (q s)) :
    Reaches (fun found t => ∃ a, found = some a ∧ Q a t) (Parser.recover q s) := by
  obtain ⟨a, t, hok, hQ⟩ | hlimit := h
  · refine .inl ⟨some a, t, ?_, a, rfl, hQ⟩
    unfold Parser.recover
    rw [hok]
  · exact .inr hlimit.recover

/-- A run reaches its end where `IN` separates as it does elsewhere. -/
theorem Reaches.separateHere (h : Reaches Q (q s.separatingHere))
    (hQ : ∀ a t, Q a t → Q a { t with separatorDepth := s.separatorDepth }) :
    Reaches Q (Parser.separateHere q s) := by
  unfold Parser.separateHere
  obtain ⟨a, t, hok, ha⟩ | hlimit := h
  · exact .inl ⟨a, _, mapState_eq_ok_iff.2 ⟨t, hok, rfl⟩, hQ a t ha⟩
  · exact .inr (hlimit.mapState fun _ => rfl)

/-- The states whose cursor is where an expression ends for certain. -/
def State.Ended (s : State) : Prop :=
  s.cursor.current.kind = .endOfInput ∨ s.cursor.current.kind = .symbol .rightParen

/-- At the end of the input there is no test. -/
theorem State.Ended.test (h : s.Ended) : Test.at? s.cursor = none := by
  unfold Test.at?
  rw [Cursor.peek_zero]
  obtain h | h := h <;> rw [h] <;> rfl

/-- A predicate behind which no connective stands is an expression. -/
theorem Reaches.exprBody {Q : Predicate → State → Prop} (h : Reaches Q (read (.predicate 0) s))
    (hnot : s.cursor.current.kind ≠ .keyword .NOT)
    (hend : ∀ p t, Q p t → Connective.ofKind? t.cursor.current.kind = none) :
    Reaches (fun e t => ∃ p, e = .predicate p ∧ Q p t) (Grammar.exprBody read 0 s) := by
  have hoperand : Reaches (fun e t => ∃ p, e = .predicate p ∧ Q p t) (logicalOperand read s) := by
    unfold logicalOperand
    rw [atKeyword_bind_apply, beq_false_of_ne hnot]
    exact h.map fun p t hp => ⟨p, rfl, hp⟩
  refine hoperand.bind (fun _ => steady_loop (steady_logicalStep 0) _) fun e t _ he => ?_
  obtain ⟨p, rfl, hp⟩ := he
  refine reaches_of_ok (loop_of_done (advances_logicalStep (fun _ => steady_read _) 0) ?_) ⟨p, rfl, hp⟩
  unfold logicalStep
  rw [current_bind_apply, hend p t hp]
  rfl

/-- An operand behind which an expression ends is an expression. -/
theorem Reaches.wholeExpr {Q : Atom → State → Prop} (h : Reaches Q (read .operand (s.deeper 1)))
    (hnot : s.cursor.current.kind ≠ .keyword .NOT) (hend : ∀ a t, Q a t → t.Ended)
    (hQ : ∀ a t, Q a t → Q a (t.shallower 1)) :
    Reaches (fun e t => ∃ a, e = .predicate (.atom a) ∧ Q a t) (read .wholeExpr s) := by
  -- Behind the operand no operator, test or connective follows, so each ladder ends after its
  -- first rung.
  have harithmetic : Reaches Q (read (.arithmetic 0) (s.deeper 1)) := by
    rw [read_eq_rule]
    refine h.bind (fun a => steady_loop (steady_arithmeticStep 0) a) fun a t _ ha => ?_
    refine reaches_of_ok (loop_of_done (advances_arithmeticStep (fun _ => steady_read _) 0) ?_) ha
    unfold arithmeticStep
    rw [current_bind_apply]
    obtain hkind | hkind := hend a t ha <;> rw [hkind] <;> rfl
  have hpredicate : Reaches (fun p t => ∃ a, p = .atom a ∧ Q a t)
      (read (.predicate 0) (s.deeper 1)) := by
    rw [read_eq_rule]
    refine harithmetic.bind (fun a => steady_loop (steady_predicateStep 0) _) fun a t _ ha => ?_
    refine reaches_of_ok (loop_of_done (advances_read_predicateStep 0) ?_) ⟨a, rfl, ha⟩
    refine predicateStep_of_stops (stops_iff.2 fun test width hat => ?_)
    rw [(hend a t ha).test] at hat
    cases hat
  have hbody : Reaches (fun e t => ∃ a, e = .predicate (.atom a) ∧ Q a t)
      (Grammar.exprBody read 0 (s.deeper 1)) := by
    obtain ⟨e, t, hok, _, rfl, a, rfl, ha⟩ | hlimit := hpredicate.exprBody hnot fun p t hp => by
      obtain ⟨a, rfl, ha⟩ := hp
      obtain hkind | hkind := hend a t ha <;> rw [hkind] <;> rfl
    · exact .inl ⟨_, t, hok, a, rfl, ha⟩
    · exact .inr hlimit
  rw [read_eq_rule]
  refine hbody.nest fun e t he => ?_
  obtain ⟨a, rfl, ha⟩ := he
  exact ⟨a, rfl, hQ a t ha⟩

/-- An item behind which no comma stands is all there is in a list. -/
theorem Reaches.commaList (rule : String) {first next : Parser α} (h : Reaches Q (first s))
    (hfirst : Steady first) (hnext : Steady next)
    (htaken : ∀ a t, Q a t → t.cursor.ahead.length < s.cursor.ahead.length)
    (hcomma : ∀ a t, Q a t → t.cursor.current.kind ≠ .symbol .comma) :
    Reaches (fun items t => ∃ a, items = [a] ∧ Q a t) (Parser.commaList rule first next s) := by
  obtain ⟨a, t, hok, ha⟩ | hlimit := h
  · refine .inl ⟨[a], t, ?_, a, rfl, ha⟩
    exact commaList_of_single hfirst hnext hok (htaken a t ha) (hcomma a t ha)
  · have htaking : MetLimit (taking rule first s) := by
      rw [taking_eq, get_bind_apply, bind_apply_andThen]
      exact hlimit.andThen fun _ => steady_progress _ _ _
    rw [commaList_eq, bind_apply_andThen]
    exact .inr (htaking.andThen fun _ =>
      (steady_loop (steady_commaStep rule hnext) []).bind fun _ => steady_pure _)

/-! ## A query of a single column -/

/-- An expression that nothing stands behind is all there is in a list of selected items. -/
theorem Reaches.selectItems {Q : Expr → State → Prop} (h : Reaches Q (read .wholeExpr s))
    (hstar : s.cursor.current.kind ≠ .symbol .star)
    (hend : ∀ e t, Q e t → t.cursor.current.kind = .endOfInput)
    (htaken : ∀ e t, Q e t → t.cursor.ahead.length < s.cursor.ahead.length) :
    Reaches (fun items t => ∃ e, items = [.expr e none] ∧ Q e t) (read .selectItems s) := by
  have hitem : Reaches (fun item t => ∃ e, item = .expr e none ∧ Q e t)
      (read (.selectItem true) s) := by
    rw [read_eq_rule]
    show Reaches _ (selectItemRule read true s)
    unfold selectItemRule
    rw [atSymbol_bind_apply, beq_false_of_ne hstar]
    refine h.bind (fun e => steady_optionalAlias.bind fun _ => steady_pure _) fun e t _ he => ?_
    rw [bind_of_ok (optionalAlias_of_end (hend e t he))]
    exact reaches_of_ok rfl ⟨e, rfl, he⟩
  have hitems := hitem.commaList "select element" (steady_read _)
    (steady_read (.selectItem false))
    (fun item t hitem => by obtain ⟨e, -, he⟩ := hitem; exact htaken e t he)
    (fun item t hitem => by obtain ⟨e, -, he⟩ := hitem; simp [hend e t he])
  obtain ⟨_, t, hok, _, rfl, e, rfl, he⟩ | hlimit := hitems
  · rw [read_eq_rule]
    exact .inl ⟨_, t, hok, e, rfl, he⟩
  · rw [read_eq_rule]
    exact .inr hlimit

/-- A word and an expression that nothing stands behind are all there is in the input. -/
theorem Reaches.root {Q : Expr → State → Prop} (h : Reaches Q (read .wholeExpr (s.skip 1)))
    (hselect : s.cursor.current.kind = .keyword .SELECT)
    (hstarts : StartsOperand (s.skip 1).cursor.current.kind)
    (hend : ∀ e t, Q e t → t.cursor.ahead = [])
    (htokens : (s.skip 1).cursor.ahead ≠ []) :
    Reaches (fun found _ => ∃ e t span, found = some (.ofColumn e span) ∧ Q e t)
      (rootRule read s) := by
  have hkind {e : Expr} {t : State} (he : Q e t) : t.cursor.current.kind = .endOfInput := by
    rw [← kindAt_zero, hend e t he]
    rfl
  -- Select list, query and statement around the expression end where it does.
  have hitems := h.selectItems hstarts.star (fun e t he => hkind he) fun e t he => by
    rw [hend e t he]
    exact List.length_pos_iff.2 htokens
  have hquery : Reaches (fun q t => ∃ e span, q = ⟨none, [.expr e none], none, none, none, none, none,
      none, span⟩ ∧ Q e t) (read .query s) := by
    rw [read_eq_rule]
    show Reaches _ (queryRule read s)
    rw [queryRule_eq, bind_of_ok (keyword_eq_ok_iff.2 ⟨hselect, rfl, rfl⟩),
      bind_of_ok (quantifier_of_ne hstarts.all hstarts.distinct)]
    refine hitems.recover.bind (fun items => steady_fromRelation _ none (items.getD []))
      fun found t _ hfound => ?_
    obtain ⟨_, rfl, e, rfl, he⟩ := hfound
    exact reaches_of_ok (fromRelation_of_end _ _ (hkind he)) ⟨e, _, rfl, he⟩
  have hstatement : Reaches (fun found t => ∃ e span, found = some (.ofColumn e span) ∧ Q e t)
      (optionalStatement read s) := by
    have hrule : Reaches (fun statement t => ∃ e span, statement = .ofColumn e span ∧ Q e t)
        (statementRule read s) := by
      unfold statementRule
      rw [current_bind_apply, hselect]
      refine hquery.map fun q t hq => ?_
      obtain ⟨e, span, rfl, he⟩ := hq
      exact ⟨e, span, rfl, he⟩
    unfold optionalStatement
    rw [current_bind_apply, hselect]
    obtain ⟨found, t, hok, _, rfl, e, span, rfl, he⟩ | hlimit := hrule.recover
    · exact .inl ⟨_, t, hok, e, span, rfl, he⟩
    · exact .inr hlimit
  refine hstatement.bind steady_statementEnd fun found t _ hfound => ?_
  obtain ⟨e, span, rfl, he⟩ := hfound
  rw [takeSymbol_bind_apply, if_neg (by simp [hkind he]),
    bind_of_ok (inputEnd_of_isEnd (beq_iff_eq.2 (hkind he)))]
  exact reaches_of_ok rfl ⟨e, t, span, rfl, he⟩

/-! ## Texts that select one expression -/

/-- A query without a relation and a limit is read up to the end of its select list. -/
theorem fromRelation_eq_ok_of_none {start : Span} {quantifier : Option Quantifier}
    {items : List SelectItem} {q : Query} (hs : s.settings.recover = false)
    (h : fromRelation read start (Query.mk quantifier items) s = .ok q t) (hrelation : q.relation = none)
    (hlimit : q.limit = none) : q.quantifier = quantifier ∧ q.items = items ∧ t = s := by
  obtain ⟨_, u, hend, h⟩ := bind_eq_ok_iff.1 h
  obtain ⟨-, rfl⟩ := (clauseEnd_eq_ok_iff (notRecovering_of_strict hs)).1 hend
  rw [atKeyword_bind_apply] at h
  obtain ⟨relation, u, hclause, h⟩ := bind_eq_ok_iff.1 h
  obtain ⟨⟨hquantifier, hitems, hsame⟩, v, w, x, y, hcondition, hgroupBy, hhaving, horderBy, hcount⟩ :=
    fromWhere_eq_ok h
  obtain rfl : relation = none := hsame.symm.trans hrelation
  refine ⟨hquantifier, hitems, ?_⟩
  have habsent : (s.cursor.current.kind == .keyword .FROM) = false := by
    by_contra hfrom
    rw [Bool.not_eq_false] at hfrom
    rw [hfrom] at hclause
    obtain ⟨v, hrecover, -⟩ := clause_eq_ok (beq_iff_eq.1 hfrom) hclause
    have hstrict := notRecovering_of_strict hs
    obtain ⟨r, -, hr⟩ := (recover_eq_ok_iff (steady_read .relation) hstrict).1 hrecover
    cases hr
  rw [habsent] at hclause hcondition hgroupBy hhaving horderBy
  -- Without a relation there are no clauses.
  have hstays {α : Type} {word : Keyword} {p : Parser α} {found : Option α} {u v : State}
      (h : clause false word p u = .ok found v) : u = v := (EStateM.Result.ok.inj h).2
  obtain rfl := hstays hclause
  obtain rfl := hstays hcondition
  obtain rfl := hstays hgroupBy
  obtain rfl := hstays hhaving
  obtain rfl := hstays horderBy
  exact limitClause_eq_none hs (hlimit ▸ hcount)

/-- An alias that is missing takes nothing. -/
theorem optionalAlias_eq_none (h : optionalAlias s = .ok none t) : t = s := by
  unfold optionalAlias at h
  rw [takeKeyword_bind_apply] at h
  split at h
  · obtain ⟨_, _, -, hname⟩ := bind_eq_ok_iff.1 h
    cases (pure_eq_ok_iff.1 hname).1
  · rw [if_neg Bool.false_ne_true, current_bind_apply] at h
    split at h
    · obtain ⟨_, _, -, hname⟩ := bind_eq_ok_iff.1 h
      cases (pure_eq_ok_iff.1 hname).1
    · exact (pure_eq_ok_iff.1 h).2.symm

/-- A quantifier that is missing takes nothing. -/
theorem quantifier_eq_none (h : quantifier s = .ok none t) : t = s := by
  unfold quantifier at h
  rw [takeKeyword_bind_apply] at h
  split at h
  · cases (pure_eq_ok_iff.1 h).1
  · rw [if_neg Bool.false_ne_true, takeKeyword_bind_apply] at h
    split at h
    · cases (pure_eq_ok_iff.1 h).1
    · exact (pure_eq_ok_iff.1 h).2.symm

/-- A selected expression without a name is read up to its end. -/
theorem wholeExpr_of_selectItem {star : Bool} {e : Expr}
    (h : read (.selectItem star) s = .ok (.expr e none) t) : read .wholeExpr s = .ok e t := by
  have hexpr (h : (do return SelectItem.expr (← read .wholeExpr) (← optionalAlias)) s =
      .ok (.expr e none) t) :
      read .wholeExpr s = .ok e t := by
    obtain ⟨e', u, he, h⟩ := bind_eq_ok_iff.1 h
    obtain ⟨aliasName, v, halias, h⟩ := bind_eq_ok_iff.1 h
    obtain ⟨heq, rfl⟩ := pure_eq_ok_iff.1 h
    obtain ⟨rfl, rfl⟩ := SelectItem.expr.inj heq
    obtain rfl := optionalAlias_eq_none halias
    exact he
  rw [read_eq_rule] at h
  change selectItemRule read star s = _ at h
  unfold selectItemRule at h
  cases star with
  | false => exact hexpr h
  | true =>
    change (atSymbol .star >>= _) s = _ at h
    rw [atSymbol_bind_apply] at h
    split at h
    · obtain ⟨_, _, -, h⟩ := bind_eq_ok_iff.1 h
      cases (pure_eq_ok_iff.1 h).1
    · exact hexpr h

/-- A query of one expression without a name and nothing else is read up to the end of that. -/
theorem wholeExpr_of_query {e : Expr} {span : Span} (hs : s.settings.recover = false)
    (h : read .query s = .ok ⟨none, [.expr e none], none, none, none, none, none, none, span⟩ t) :
    read .wholeExpr (s.skip 1) = .ok e t := by
  have hskip : (s.skip 1).isRecovering = false := notRecovering_of_strict hs
  rw [read_eq_rule] at h
  change queryRule read s = _ at h
  rw [queryRule_eq_items] at h
  obtain ⟨start, u, hword, h⟩ := bind_eq_ok_iff.1 h
  obtain ⟨-, -, rfl⟩ := keyword_eq_ok_iff.1 hword
  obtain ⟨⟨found, items⟩, u, hfound, h⟩ := bind_eq_ok_iff.1 h
  have hu : u.settings.recover = false := (steady_queryItems.leads hfound).settings ▸ hs
  obtain ⟨hquantifier, hitems, rfl⟩ := fromRelation_eq_ok_of_none hu h rfl rfl
  obtain ⟨q, v, hq, hfound⟩ := bind_eq_ok_iff.1 hfound
  obtain ⟨list, w, hlist, hfound⟩ := bind_eq_ok_iff.1 hfound
  obtain ⟨heq, rfl⟩ := pure_eq_ok_iff.1 hfound
  obtain ⟨rfl, rfl⟩ := Prod.mk.inj heq
  obtain rfl : none = q := hquantifier
  obtain rfl := quantifier_eq_none hq
  obtain ⟨list', hread, rfl⟩ := (recover_eq_ok_iff (steady_read .selectItems) hskip).1 hlist
  obtain rfl : [.expr e none] = list' := hitems
  rw [read_eq_rule] at hread
  exact wholeExpr_of_selectItem (commaList_eq_single (steady_read (.selectItem false)) hread)

/-- A text that selects one expression is read by the rule of expressions. -/
theorem wholeExpr_of_ofColumn [Time.Library] {input es : List Token} {select : Token}
    {settings : Settings} {e : Expr}
    {span : Span} (hinput : ConsistsOf input (select :: es)) (hselect : select.kind = .keyword .SELECT)
    (hes : ∀ u ∈ es, u.isEnd = false ∧ u.kind ≠ .symbol .semicolon)
    (h : parseTokensStrict input settings = .ok (.ofColumn e span)) :
    ∃ t, read .wholeExpr ((State.ofTokens input { settings with recover := false }).skip 1) =
      .ok e t ∧ t.cursor.ahead = [] := by
  generalize hstart : State.ofTokens input { settings with recover := false } = s
  have hrecover : s.settings.recover = false := hstart ▸ rfl
  have hfaces : s.Faces (select.placeless :: es.map Token.placeless) := hstart ▸ hinput
  obtain ⟨t, hrun⟩ := parseTokensStrict_eq_ok.1 h
  rw [runRoot_eq, hstart] at hrun
  obtain ⟨u, hstatement, rfl, hend⟩ :=
    (rootRule_eq_ok_iff (steady_read .query) (notRecovering_of_strict hrecover)).1 hrun
  obtain ⟨-, hrule⟩ := statementRule_of_optionalStatement (steady_read .query)
    (notRecovering_of_strict hrecover) hstatement
  have hquery := query_of_statementRule hrule
  have hleads := (steady_read .query).leads hquery
  -- There is nothing but the word and the expression, so the run has come to the end.
  have htokens : ∀ v ∈ s.cursor.ahead, v.isEnd = false ∧ v.kind ≠ .symbol .semicolon := by
    intro v hv
    have hplace : v.placeless ∈ select.placeless :: es.map Token.placeless :=
      hfaces ▸ List.mem_map_of_mem hv
    rcases List.mem_cons.1 hplace with heq | hmem
    · have hkind : v.kind = .keyword .SELECT := (congrArg Token.kind heq).trans hselect
      exact ⟨isEnd_of_keyword hkind, by rw [hkind]; nofun⟩
    · obtain ⟨x, hx, heq⟩ := List.mem_map.1 hmem
      have hkind : x.kind = v.kind := show x.placeless.kind = v.placeless.kind from heq ▸ rfl
      have hx := hes x hx
      unfold Token.isEnd at hx ⊢
      rwa [hkind] at hx
  have hkind := isEnd_of_behindSemicolon hleads (fun v hv => (htokens v hv).2) hend
  exact ⟨u, wholeExpr_of_query hrecover hquery, ahead_eq_nil (p := Token.isEnd)
    (fun v hv => (htokens v (hleads.ahead.subset hv)).1) (beq_iff_eq.2 hkind)⟩

end Grammar

end SearchSql
