import SearchSql.Proofs.QueryReplaying

/-!
# Balanced clauses

A run that fails at its first error takes as many closing parentheses as opening ones, in every clause
and query (`balances_read_query`). So a query in parentheses ends in front of the parenthesis that closes
it, and a relation is read again in front of any seam, even where other words stand on its two sides
(`Seam.replays_relation`).
-/

set_option autoImplicit false

namespace SearchSql.Grammar

open SearchSql.Grammar.Parser

variable {α β : Type}

/-- A parser whose runs that fail at their first error pass balanced tokens, if they succeed. -/
structure Balances (p : Parser α) : Prop where
  steady : Steady p
  balanced {s t : State} {a : α} : s.settings.recover = false → p s = .ok a t →
    ∃ tokens, s.cursor.ahead = tokens ++ t.cursor.ahead ∧ Balanced tokens

/-! ## Combining parsers -/

/-- Passing nothing passes balanced tokens. -/
theorem balances_pure (a : α) : Balances (pure a) := by
  refine ⟨steady_pure a, fun _ hrun => ?_⟩
  obtain ⟨-, rfl⟩ := pure_eq_ok_iff.1 hrun
  exact ⟨[], rfl, balanced_nil⟩

/-- Balanced tokens behind balanced tokens are balanced. -/
theorem Balances.bind {p : Parser α} {f : α → Parser β} (hp : Balances p)
    (hf : ∀ a, Balances (f a)) : Balances (p >>= f) := by
  refine ⟨hp.steady.bind fun a => (hf a).steady, fun hs hrun => ?_⟩
  obtain ⟨a, u, hpu, hfu⟩ := bind_eq_ok_iff.1 hrun
  obtain ⟨v, hv, hbalanced⟩ := hp.balanced hs hpu
  have hu := (hp.steady.leads hpu).settings
  obtain ⟨w, hw, hbalanced'⟩ := (hf a).balanced (hu ▸ hs) hfu
  refine ⟨v ++ w, ?_, hbalanced.append hbalanced'⟩
  rw [hv, hw, List.append_assoc]

/-- What walks on one level passes balanced tokens. -/
theorem Balances.of_walks {p : Parser α} (h : Walks true 0 0 p) (hsteady : Steady p) :
    Balances p := by
  refine ⟨hsteady, fun {s t a} _ hrun => ?_⟩
  have hends := h s trivial
  rw [hrun] at hends
  obtain ⟨tokens, hahead, hlevel, -⟩ := hends
  exact ⟨tokens, hahead, .of_levels hlevel⟩

/-- Measuring a span passes nothing. -/
theorem balances_spanFrom (start : Span) : Balances (spanFrom start) :=
  .of_walks (walks_spanFrom start) (steady_spanFrom start)

/-- A reserved word is no parenthesis. -/
theorem balances_keyword (word : Keyword) : Balances (keyword word) := by
  refine ⟨steady_keyword word, fun {s t span} _ hrun => ?_⟩
  obtain ⟨hkind, -, rfl⟩ := keyword_eq_ok_iff.1 hrun
  exact ⟨[s.cursor.current], ahead_eq_cons (isEnd_of_keyword hkind),
    balanced_singleton (hkind ▸ nofun) (hkind ▸ nofun)⟩

/-- Looking for a word passes nothing. -/
theorem balances_atKeyword_bind (word : Keyword) {f : Bool → Parser α} (h : ∀ b, Balances (f b)) :
    Balances (atKeyword word >>= f) :=
  ⟨fun s => (h _).steady s, (h _).balanced⟩

/-- Where errors are not passed over, `recover` changes nothing. -/
theorem Balances.recover {p : Parser α} (h : Balances p) : Balances (recover p) := by
  refine ⟨h.steady.recover, fun hs hrun => ?_⟩
  obtain ⟨a, ha, -⟩ := (recover_eq_ok_iff h.steady (notRecovering_of_strict hs)).1 hrun
  exact h.balanced hs ha

/-- At a boundary, nothing is passed. -/
theorem balances_clauseEnd : Balances clauseEnd := by
  refine ⟨steady_clauseEnd, fun hs hrun => ?_⟩
  obtain ⟨-, rfl⟩ := (clauseEnd_eq_ok_iff (notRecovering_of_strict hs)).1 hrun
  exact ⟨[], rfl, balanced_nil⟩

/-- A word that starts a clause is passed in front of what belongs to the clause. -/
theorem Balances.clause {p : Parser α} (h : Balances p) (allowed : Bool) (word : Keyword) :
    Balances (clause allowed word p) := by
  cases allowed with
  | false => exact balances_pure none
  | true =>
    refine balances_atKeyword_bind word fun here => ?_
    cases here with
    | false => exact balances_pure none
    | true => exact h.recover.bind fun found => balances_clauseEnd.bind fun _ => balances_pure found

/-- Levels of nesting do not count. -/
theorem Balances.nest {p : Parser α} (h : Balances p) (cost : Nat) : Balances (nest cost p) := by
  refine ⟨h.steady.nest, fun {s t a} hs hrun => ?_⟩
  obtain ⟨-, u, hu, rfl⟩ := nest_eq_ok_iff.1 hrun
  exact h.balanced (s := s.deeper cost) (t := u) hs hu

/-- Nor does it count that a subquery is open. -/
theorem Balances.subquery {p : Parser α} (h : Balances p) : Balances (subquery p) := by
  refine ⟨h.steady.subquery, fun {s t a} hs hrun => ?_⟩
  rw [subquery_apply] at hrun
  obtain ⟨u, hu, rfl⟩ := mapState_eq_ok_iff.1 hrun
  exact h.balanced (s := s.enclosed) (t := u) hs hu

/-- What is read between a pair of parentheses is balanced together with them. -/
theorem balances_parentheses {p : Parser α} {f : Span → α → Parser β} {q : Parser β}
    (hp : Balances p) (hf : ∀ start a, Balances (f start a)) (hq : Balances q) :
    Balances (atSymbol .leftParen >>= fun here =>
      if here then take >>= fun start => p >>= fun a => symbol .rightParen >>= fun _ => f start a
      else q) := by
  refine ⟨fun s => ?_, fun {s t b} hs hrun => ?_⟩
  · rw [atSymbol_bind_apply]
    split
    · exact (steady_take.bind fun _ => hp.steady.bind fun _ =>
        (steady_symbol _).bind fun _ => (hf _ _).steady) s
    · exact hq.steady s
  · rw [atSymbol_bind_apply] at hrun
    split at hrun
    · next hopen =>
      have hleft : s.cursor.current.kind = .symbol .leftParen := beq_iff_eq.1 hopen
      rw [take_bind_apply] at hrun
      obtain ⟨a, u, hpu, hrun⟩ := bind_eq_ok_iff.1 hrun
      obtain ⟨v, hv, hbalanced⟩ := hp.balanced (s := s.skip 1) hs hpu
      obtain ⟨_, _, hclose, hfu⟩ := bind_eq_ok_iff.1 hrun
      obtain ⟨hright, -, rfl⟩ := symbol_eq_ok_iff.1 hclose
      have hu := (hp.steady.leads hpu).settings
      obtain ⟨w, hw, hbalanced'⟩ := (hf _ a).balanced (s := u.skip 1) (hu ▸ hs) hfu
      refine ⟨s.cursor.current :: v ++ [u.cursor.current] ++ w, ?_,
        (hbalanced.parenthesized hleft hright).append hbalanced'⟩
      rw [ahead_eq_cons (isEnd_of_symbol hleft), show (s.cursor.skip 1).ahead = _ from hv,
        ahead_eq_cons (isEnd_of_symbol hright), show (u.cursor.skip 1).ahead = _ from hw]
      simp
    · exact hq.balanced hs hrun

/-! ## Clauses and queries -/

/-- What a query selects from, behind the word `FROM`. -/
def relationSource (call : Callee) : Parser Relation := do
  if ← atSymbol .leftParen then
    let start ← take
    let query ← nest 2 (subquery (call .query))
    let _ ← symbol .rightParen
    let _ ← takeKeyword .AS
    let name ← ident
    return .subquery query name (← spanFrom start)
  let name ← qualifiedName
  return .table name (← optionalAlias)

/-- An identifier is no parenthesis. -/
theorem balances_ident : Balances ident := .of_walks walks_ident (steady_congruence.ident (b := 0)).1

/-- A number of rows is no parenthesis. -/
theorem balances_count : Balances count := by
  refine .of_walks (walks_current_bind fun t => ?_) (steady_congruence.count (b := 0)).1
  dsimp only
  split
  · exact walks_rejectCurrent_bind _ _
  · next hinteger =>
    have hkind : t.kind = .integer := by simpa using hinteger
    refine (walks_skip fun u (hu : u = t) => by rw [hu, hkind]; rfl).bind fun _ => ?_
    cases Number.readUnsigned t.text with
    | ok n => exact walks_pure n
    | error fault => exact walks_reject _

/-- A symbol that is no parenthesis is balanced. -/
theorem balances_takeSymbol {sign : Symbol} (hplain : (TokenKind.symbol sign).isPlain = true) :
    Balances (takeSymbol sign) := .of_walks (walks_takeSymbol hplain) (steady_takeSymbol sign)

/-- A reserved word that may be missing is no parenthesis. -/
theorem balances_takeKeyword {word : Keyword} (hplain : (TokenKind.keyword word).isPlain = true) :
    Balances (takeKeyword word) := by
  refine .of_walks ?_ (steady_takeKeyword word)
  have h : Walks true 0 0 (takeKeyword word >>= pure) :=
    walks_takeKeyword_bind hplain (walks_pure true) (walks_pure false)
  rwa [bind_pure] at h

/-- A limit has no parentheses. -/
theorem balances_limit : Balances limit := by
  have hend (make : Span → Limit) (start : Span) :
      Balances (spanFrom start >>= fun span => pure (make span)) :=
    (balances_spanFrom start).bind fun _ => balances_pure _
  refine (balances_keyword .LIMIT).bind fun start => balances_count.bind fun first => ?_
  refine (balances_takeSymbol rfl).bind fun comma => ?_
  cases comma with
  | true => exact balances_count.bind fun rows => hend _ start
  | false =>
    refine (balances_takeKeyword rfl).bind fun word => ?_
    cases word with
    | true => exact balances_count.bind fun offset => hend _ start
    | false => exact hend _ start

/-- The clause of a limit has no parentheses. -/
theorem balances_limitClause : Balances limitClause := by
  refine balances_atKeyword_bind .LIMIT fun here => ?_
  cases here with
  | false => exact balances_pure none
  | true => exact balances_limit.recover

/-- A quantifier has no parentheses. -/
theorem balances_quantifier : Balances quantifier := .of_walks walks_quantifier steady_quantifier

section

variable {c : Callee} (hc : Walking c) (hsteady : ∀ {α : Type} (n : Nonterminal α), Steady (c n))

include hc hsteady

/-- A condition passes balanced tokens, since an expression does. -/
theorem balances_conditionRule (word : Keyword) : Balances (conditionRule c word) :=
  (balances_keyword word).bind fun start => (Balances.of_walks (hc.level rfl) (hsteady _)).bind fun _ =>
    (balances_spanFrom start).bind fun _ => balances_pure _

/-- So does a list of expressions. -/
theorem balances_groupByRule : Balances (groupByRule c) := by
  have hexprs : Balances (Parser.commaSeparated "GROUP BY item" (c .wholeExpr)) :=
    .of_walks (hc.wholeExprs _) (steady_commaSeparated _ (hsteady _))
  exact (balances_keyword .GROUP).bind fun start => (balances_keyword .BY).bind fun _ =>
    hexprs.bind fun _ => (balances_spanFrom start).bind fun _ => balances_pure _

omit hc hsteady in
/-- So does what is selected from, a query in parentheses if need be. -/
theorem balances_relationSource (hquery : Balances (c .query)) : Balances (relationSource c) := by
  refine balances_parentheses (hquery.subquery.nest 2) (fun start query => ?_) ?_
  · exact (balances_takeKeyword rfl).bind fun _ => balances_ident.bind fun _ =>
      (balances_spanFrom start).bind fun _ => balances_pure _
  · have hname : Balances qualifiedName :=
      .of_walks walks_qualifiedName (steady_congruence.qualifiedName (b := 0)).1
    have halias : Balances optionalAlias :=
      .of_walks walks_optionalAlias (steady_congruence.optionalAlias (b := 0)).1
    exact hname.bind fun _ => halias.bind fun _ => balances_pure _

omit hc hsteady in
/-- So does the relation with its name. -/
theorem balances_relationRule (hquery : Balances (c .query)) : Balances (relationRule c) :=
  (balances_keyword .FROM).bind fun _ => balances_relationSource hquery

/-- A query is balanced if its relation and its clauses are. -/
theorem balances_queryRule (hclause : ∀ {α : Type} (n : Nonterminal α), n.way = .clause →
    Balances (c n)) : Balances (queryRule c) := by
  have hitems : Balances (c .selectItems) := .of_walks (hc.level rfl) (hsteady _)
  have horder : Balances (c .orderBy) := .of_walks (hc.ordering rfl) (hsteady _)
  refine (balances_keyword .SELECT).bind fun start => balances_quantifier.bind fun _ =>
    hitems.recover.bind fun _ => balances_clauseEnd.bind fun _ =>
      balances_atKeyword_bind .FROM fun allowed => ?_
  exact (Balances.clause (hclause .relation rfl) allowed _).bind fun _ =>
    (Balances.clause (hclause (.condition .WHERE) rfl) allowed _).bind fun _ =>
    (Balances.clause (hclause .groupBy rfl) allowed _).bind fun _ =>
    (Balances.clause (hclause (.condition .HAVING) rfl) allowed _).bind fun _ =>
    (Balances.clause horder allowed _).bind fun _ => balances_limitClause.bind fun _ =>
      (balances_spanFrom start).bind fun _ => balances_pure _

end

/-- Clauses and queries are balanced, by induction on the rules that follow one another. -/
theorem balances_derive (fuel : Nat) (n : Nonterminal α) (hn : n.way = .clause) :
    Balances (derive fuel n) := by
  induction fuel generalizing α with
  | zero => exact ⟨State.Leads.refl, fun _ hrun => nomatch hrun⟩
  | succ fuel ih =>
    cases n with
    | relation => exact balances_relationRule (ih .query rfl)
    | condition word => exact balances_conditionRule (walking_derive fuel) (steady_derive fuel) word
    | groupBy => exact balances_groupByRule (walking_derive fuel) (steady_derive fuel)
    | query => exact balances_queryRule (walking_derive fuel) (steady_derive fuel) ih
    | _ => cases hn

/-- Each rule that may pass clauses passes balanced tokens. -/
theorem balances_read (n : Nonterminal α) (hn : n.way = .clause) : Balances (read n) :=
  ⟨steady_read n, fun {s _ _} hs hrun => (balances_derive (n.fuel s.budget) n hn).balanced hs hrun⟩

/-! ## Relations in front of any seam -/

namespace Seam

/-- A relation takes at least one token. -/
theorem takes_relation : Takes (read .relation) := by
  rw [read_eq_rule]
  have hword : Takes (keyword .FROM) := takes_keyword (by decide)
  exact hword.bind fun _ =>
    (balances_relationSource (balances_read .query rfl)).steady

variable {B : Seam} {front : Bool} {ending : Ending}

/-- No walk on the outermost level goes beyond tokens that begin with one that it does not pass. -/
theorem unfiltered_of_levelAfter? {tokens : List Token}
    (h : levelAfter? 0 (kindAt tokens 0) = none) : Unfiltered tokens := by
  refine ⟨fun horder => ?_, fun v w hsplit hv hlevel => ?_⟩
  · rw [horder] at h
    cases h
  · obtain ⟨t, v, rfl⟩ := List.exists_cons_of_ne_nil hv
    rw [hsplit] at h
    rw [levels?_cons, show levelAfter? 0 t.kind = none from h] at hlevel
    cases hlevel

/-- What ends in front of a closing parenthesis is repeated as far as that, whatever stands behind it. -/
theorem Replays.bind_rightParen {p : Parser α} {f : α → Parser β} (hbalances : Balances p)
    (hp : ∀ {B : Seam}, B.Calm → B.Even → B.Replays false .list p)
    (hf : ∀ a, B.Replays false ending (f a)) :
    B.Replays front ending (p >>= fun a => Parser.symbol .rightParen >>= fun _ => f a) := by
  have hrest (a : α) : B.Replays false ending (Parser.symbol .rightParen >>= fun _ => f a) :=
    (Replays.symbol _).bind fun _ => hf a
  refine ⟨hbalances.steady.bind fun a => (hrest a).steady, fun {s s' t b} hs _ hrun hle hclear => ?_⟩
  obtain ⟨a, u, hpu, hfu⟩ := bind_eq_ok_iff.1 hrun
  obtain ⟨_, _, hclose, hbehind⟩ := bind_eq_ok_iff.1 hfu
  obtain ⟨hkind, -, rfl⟩ := symbol_eq_ok_iff.1 hclose
  obtain ⟨v, hv, hbalanced⟩ := hbalances.balanced hs.strict hpu
  -- The parenthesis is in front of the seam.
  obtain ⟨tokens, hahead, hahead', hfits⟩ := hs.tokens
  have hlt : B.left.length < u.cursor.ahead.length := by
    have hskip := ahead_skip_lt (isEnd_of_symbol hkind) 0
    have hleads := ((hf a).steady.leads hbehind).ahead.length_le
    exact Nat.lt_of_le_of_lt (Nat.le_trans hle hleads) hskip
  obtain ⟨w, rfl, hw⟩ : ∃ w, tokens = v ++ w ∧ u.cursor.ahead = w ++ B.left := by
    rw [hahead] at hv
    obtain ⟨w, hleft, hright⟩ | ⟨w, hleft, hright⟩ := List.append_eq_append_iff.1 hv
    · rw [hright, List.length_append] at hlt
      omega
    · exact ⟨w, hleft, hright⟩
  have hhead {rest : List Token} : kindAt (w ++ rest) 0 = .symbol .rightParen := by
    cases w with
    | nil =>
      rw [hw] at hlt
      exact absurd hlt (Nat.lt_irrefl _)
    | cons x w =>
      rw [← kindAt_zero, hw] at hkind
      exact hkind
  -- There the tokens are the same on both sides.
  have hinner : (Seam.mk (w ++ B.left) (w ++ B.right)).Shared s s' := by
    refine ⟨hs.frame, hs.strict, hs.previous, v, ?_, ?_, ?_, ?_, .inl hbalanced.sealed⟩
    · rw [hahead, List.append_assoc]
    · rw [hahead', List.append_assoc]
    · show (kindAt (w ++ B.left) 0).isBorder = true
      rw [hhead]
      rfl
    · show (kindAt (w ++ B.right) 0).isBorder = true
      rw [hhead]
      rfl
  have hcalm : (Seam.mk (w ++ B.left) (w ++ B.right)).Calm :=
    ⟨unfiltered_of_levelAfter? (hhead ▸ rfl), unfiltered_of_levelAfter? (hhead ▸ rfl)⟩
  have heven : (Seam.mk (w ++ B.left) (w ++ B.right)).Even := hhead.trans hhead.symm
  have hlist : (Seam.mk (w ++ B.left) (w ++ B.right)).Clear u .list := by
    refine clear_of_ne ?_ fun _ => ?_
    all_goals
      rw [show kindAt (w ++ B.right) 0 = _ from hhead]
      nofun
  have hrepeats := (hp hcalm heven).replay hinner nofun hpu (Nat.le_of_eq (by rw [hw])) hlist
  rw [bind_apply_andThen]
  obtain ⟨x, hx⟩ | ⟨u', hu', hshared⟩ := hrepeats
  · exact .inl ⟨x, by rw [hx]; rfl⟩
  · rw [hu']
    refine (hrest a).replay ⟨hshared.frame, hshared.strict, hshared.previous, w, hw, ?_, ?_⟩ nofun hfu
      hle hclear
    · obtain ⟨r, hr, hr', -⟩ := hshared.tokens
      rw [hw] at hr
      obtain rfl : r = [] := List.append_left_eq_self.1 hr.symm
      exact hr'
    · exact ⟨hfits.left, hfits.right,
        hfits.closed.imp_left fun hsealed => hsealed.suffix (List.suffix_append v w)⟩

/-- A relation is repeated in front of any seam. -/
theorem replays_relation : B.Replays front .closed (read .relation) := by
  have hquery : Balances (nest 2 (subquery (read .query))) := (balances_read .query rfl).subquery.nest 2
  rw [read_eq_rule]
  refine (Replays.keyword .FROM).bind fun _ => Replays.atSymbol_bind rfl ?_ ?_
  · refine Replays.take.bind fun start => Replays.bind_rightParen hquery (fun hB hE => ?_) fun query => ?_
    · exact (replays_read hB .query fun _ => hE).subquery.nest (by decide) 2
    · exact Replays.takeKeyword_bind rfl
        (replays_ident.bind fun _ => (Replays.spanFrom start).bind fun _ => Replays.pure _)
        (replays_ident.bind fun _ => (Replays.spanFrom start).bind fun _ => Replays.pure _)
  · exact replays_qualifiedName.bind fun _ => replays_optionalAlias.map _

end Seam

end SearchSql.Grammar
