import SearchSql.Proofs.Landing
import SearchSql.Proofs.RuleEnclosure
import SearchSql.Proofs.Rounds
import SearchSql.Time.Reading

/-!
# Recovery inside a query in parentheses

A broken select list inside parentheses is left out up to a closing parenthesis. Recovery counts
parentheses from where the broken rule stopped: if that was inside of further parentheses, the first
of their closing ones is taken for that of the query, and the relation is lost. Wherever the rule
stopped, the clauses behind the relation are read; and the relation is, if as many parentheses were
opened as closed where the select list stopped (`parseTokens_around`).
-/

set_option autoImplicit false

namespace SearchSql

open Grammar

/-! ## Recovery among balanced parentheses -/

/-- None of the tokens ends the input or a statement, or starts a clause. -/
def NoBoundary (tokens : List Token) : Prop := ∀ t ∈ tokens, isBoundary false t.kind = false

instance (tokens : List Token) : Decidable (NoBoundary tokens) :=
  inferInstanceAs (Decidable (∀ t ∈ tokens, isBoundary false t.kind = false))

/-- The last of some tokens have no boundary if all have none. -/
theorem NoBoundary.suffix {v w : List Token} (h : NoBoundary (v ++ w)) : NoBoundary w :=
  fun t ht => h t (List.mem_append_right v ht)

theorem NoBoundary.isEnd {t : Token} {ts : List Token} (h : NoBoundary (t :: ts)) :
    t.isEnd = false := by
  refine isEnd_eq_false fun hkind => ?_
  have ht := h t List.mem_cons_self
  rw [hkind] at ht
  cases ht

/-- Recovery counts no more parentheses than are open, and all of them if it has seen them all. -/
theorem openAfter_le {kind : TokenKind} (hkind : isBoundary false kind = false) {o k l : Nat}
    (ho : o ≤ k) (hlevel : levelAfter? k kind = some l) :
    openAfter o kind ≤ l ∧ (o = k → openAfter o kind = l) := by
  cases kind with
  | symbol sign =>
    cases sign with
    | leftParen =>
      obtain rfl := Option.some.inj hlevel
      exact ⟨Nat.succ_le_succ ho, congrArg (· + 1)⟩
    | rightParen =>
      simp only [levelAfter?] at hlevel
      split at hlevel
      · cases hlevel
      · obtain rfl := Option.some.inj hlevel
        exact ⟨Nat.sub_le_sub_right ho 1, congrArg (· - 1)⟩
    | _ =>
      obtain rfl := Option.some.inj hlevel
      exact ⟨ho, id⟩
  | keyword word =>
    have hword : word.startsClause = false := hkind
    simp only [levelAfter?, hword, Bool.false_and, Bool.false_eq_true, if_false] at hlevel
    obtain rfl := Option.some.inj hlevel
    exact ⟨ho, id⟩
  | _ =>
    obtain rfl := Option.some.inj hlevel
    exact ⟨ho, id⟩

/-- Among tokens that hold no boundary, recovery stops at a closing parenthesis of which it has not
seen the opening one, or goes on behind them. -/
theorem fromBoundary_append (inside : Bool) {r w : List Token} (hr : NoBoundary r) {o k l : Nat}
    (ho : o ≤ k) (hlevel : levels? k r = some l) :
    (o < k ∧ inside = true ∧ ∃ v p r', r = v ++ p :: r' ∧ p.kind = .symbol .rightParen ∧
        fromBoundary inside o (r ++ w) = p :: r' ++ w) ∨
      ∃ o' ≤ l, (o = k → o' = l) ∧ fromBoundary inside o (r ++ w) = fromBoundary inside o' w := by
  -- By induction on the tokens: `o` parentheses are counted as open, of which `k` are.
  induction r generalizing o k with
  | nil =>
    obtain rfl := Option.some.inj hlevel
    exact .inr ⟨o, ho, id, rfl⟩
  | cons t ts ih =>
    rw [levels?_cons] at hlevel
    obtain ⟨m, ht, hts⟩ := Option.bind_eq_some_iff.1 hlevel
    have hkind := hr t List.mem_cons_self
    cases hstop : t.isEnd || (o == 0 && isBoundary inside t.kind) with
    | true =>
      rw [hr.isEnd, Bool.false_or, Bool.and_eq_true, beq_iff_eq] at hstop
      obtain ⟨rfl, hboundary⟩ := hstop
      have hparen : t.kind = .symbol .rightParen ∧ inside = true := by
        unfold isBoundary at hkind hboundary
        split at hboundary <;> simp_all
      refine .inl ⟨?_, hparen.2, [], t, ts, rfl, hparen.1, ?_⟩
      · refine Nat.pos_of_ne_zero fun hk => ?_
        rw [hk, hparen.1] at ht
        cases ht
      · refine fromBoundary_of_stop ?_
        rw [hboundary]
        simp
    | false =>
      obtain ⟨hle, heq⟩ := openAfter_le hkind ho ht
      have hpass : fromBoundary inside o (t :: ts ++ w) =
          fromBoundary inside (openAfter o t.kind) (ts ++ w) := fromBoundary_of_pass hstop
      rw [hpass]
      obtain ⟨hlt, hinside, v, p, r', rfl, hp, hfrom⟩ | ⟨o', ho', heq', hfrom⟩ :=
        ih (NoBoundary.suffix (v := [t]) hr) hle hts
      · refine .inl ⟨?_, hinside, t :: v, p, r', rfl, hp, hfrom⟩
        exact Nat.lt_of_le_of_ne ho fun hok => absurd (heq hok) (Nat.ne_of_lt hlt)
      · exact .inr ⟨o', ho', fun hok => heq' (heq hok), hfrom⟩

/-- What walks off from balanced parentheses does not get past the parenthesis behind them. -/
theorem exists_append_of_levels {v x r w : List Token} {p : Token} {k m : Nat}
    (hp : p.kind = .symbol .rightParen) (hr : levels? k r = some 0) (hv : levels? k v = some m)
    (h : r ++ p :: w = v ++ x) : ∃ r', r = v ++ r' ∧ x = r' ++ p :: w := by
  obtain ⟨a, rfl, ha⟩ | ⟨r', rfl, rfl⟩ := List.append_eq_append_iff.1 h
  · cases a with
    | nil => exact ⟨[], by simp, ha.symm⟩
    | cons t ts =>
      obtain ⟨rfl, -⟩ := List.cons.inj ha
      rw [levels?_append, hr, Option.bind_some, levels?_cons, hp] at hv
      cases hv
  · exact ⟨r', rfl, rfl⟩

/-! ## The query and what is around it -/

/-- The tokens of `SELECT * FROM (SELECT ...) name LIMIT rows` around the select list of the query in
parentheses. -/
structure SubqueryFrame (name : String) (rows : Nat) where
  select : Token
  star : Token
  source : Token
  opening : Token
  inner : Token
  closing : Token
  aliasName : Token
  limit : Token
  count : Token
  ending : Token
  select_kind : select.kind = .keyword .SELECT
  star_kind : star.kind = .symbol .star
  source_kind : source.kind = .keyword .FROM
  opening_kind : opening.kind = .symbol .leftParen
  inner_kind : inner.kind = .keyword .SELECT
  closing_kind : closing.kind = .symbol .rightParen
  aliasName_kind : aliasName.kind = .name name
  limit_kind : limit.kind = .keyword .LIMIT
  count_kind : count.kind = .integer
  count_value : Number.readUnsigned count.text = .ok rows
  ending_isEnd : ending.isEnd = true

namespace SubqueryFrame

variable {name : String} {rows : Nat} (f : SubqueryFrame name rows) {body : List Token}

/-- The tokens behind the closing parenthesis. -/
def back : List Token := [f.aliasName, f.limit, f.count]

/-- The tokens with `body` as the select list in parentheses. -/
def around (body : List Token) : List Token :=
  f.select :: f.star :: f.source :: f.opening :: f.inner :: (body ++ f.closing :: f.back) ++ [f.ending]

/-- The state behind the word `SELECT` of the query in parentheses. -/
def inside [Time.Library] (settings : Settings) (body : List Token) : Grammar.State :=
  (((State.ofTokens (f.around body) settings).skip 5).deeper 2).enclosed

/-- The tokens of `body` that the select list passes. -/
def passed [Time.Library] (settings : Settings) (body : List Token) : List Token :=
  let list : Parser (List SelectItem) := Parser.quantifier >>= fun _ => read .selectItems
  let s := f.inside settings body
  s.cursor.ahead.take (s.cursor.ahead.length - (lastState (list s)).cursor.ahead.length)

end SubqueryFrame

namespace Grammar

open SearchSql.Grammar.Parser

variable {s t : State}

/-- The current token is the first of those ahead. -/
theorem current_of_ahead {u : Token} {rest : List Token} (h : s.cursor.ahead = u :: rest) :
    s.cursor.current = u := by
  unfold Cursor.current
  rw [h]
  rfl

theorem ahead_skip_of_ahead {u : Token} {rest : List Token} (h : s.cursor.ahead = u :: rest)
    (hend : u.isEnd = false) : (s.skip 1).cursor.ahead = rest := by
  have hcurrent := current_of_ahead h
  have hcons := ahead_eq_cons (c := s.cursor) (hcurrent ▸ hend)
  rw [h] at hcons
  exact (List.cons.inj hcons).2.symm

/-- A run leaves the cursor inside the same subqueries. -/
theorem State.Leads.inside (h : s.Leads t) : t.inside = s.inside := by
  unfold State.inside
  rw [h.subqueries]

/-- Behind a select list that a closing parenthesis ends, there is no further clause. -/
theorem fromRelation_eq_ok {start : Span} {call : Callee}
    {finish : Option Relation → Option Condition → Option GroupBy → Option Condition →
      Option OrderBy → Option Limit → Span → Query} {q : Query}
    (h : fromRelation call start finish s = .ok q t) :
    ∃ u, clauseEnd s = .ok () u ∧ (u.cursor.current.kind = .symbol .rightParen → t = u) := by
  obtain ⟨_, u, hend, hrest⟩ := bind_eq_ok_iff.1 h
  refine ⟨u, hend, fun hkind => ?_⟩
  have hne (word : Keyword) : u.cursor.current.kind ≠ .keyword word := by
    rw [hkind]
    nofun
  rw [atKeyword_bind_apply] at hrest
  unfold fromWhere fromGroup fromHaving fromOrder at hrest
  rw [bind_of_ok (clause_of_ne _ (hne .FROM)), bind_of_ok (clause_of_ne _ (hne .WHERE)),
    bind_of_ok (clause_of_ne _ (hne .GROUP)), bind_of_ok (clause_of_ne _ (hne .HAVING)),
    bind_of_ok (clause_of_ne _ (hne .ORDER)), bind_of_ok (limitClause_of_ne (hne .LIMIT))] at hrest
  exact (EStateM.Result.ok.inj hrest).2.symm

/-- Where the select list of a query in parentheses stops, and where recovery goes on from there. -/
theorem stops_selectItems {start : Span} {q : Query} (hinside : s.inside = true)
    (h : (quantifier >>= fun quantifier => recover (read .selectItems) >>= fun items =>
      fromRelation read start (Query.mk quantifier (items.getD []))) s = .ok q t) :
    ∃ m, let u := lastState ((quantifier >>= fun _ => read .selectItems) s)
      s.Passes true 0 m u ∧ ∃ y, y.cursor.ahead = fromBoundary true 0 u.cursor.ahead ∧
        (y.cursor.current.kind = .symbol .rightParen → t = y) := by
  obtain ⟨_, u, hquantifier, hrest⟩ := bind_eq_ok_iff.1 h
  obtain ⟨_, x, hrecover, hrest⟩ := bind_eq_ok_iff.1 hrest
  obtain ⟨y, hend, hlast⟩ := fromRelation_eq_ok hrest
  have hwalk : Walks true 0 0 (quantifier >>= fun _ => read .selectItems) :=
    walks_quantifier.bind fun _ => walking_read.level rfl
  have hends := hwalk s trivial
  have hlist : (quantifier >>= fun _ => read .selectItems) s = read .selectItems u :=
    bind_of_ok hquantifier
  have hsteady : Steady quantifier := (steady_congruence.quantifier (b := 0)).1
  have hu : u.inside = true := (hsteady.leads hquantifier).inside.trans hinside
  have hx : x.inside = true := ((steady_read _).recover.leads hrecover).inside.trans hu
  have hy := clauseEnd_eq_ok hend
  rw [hx] at hy
  rw [hlist] at hends ⊢
  -- The list is read, or given up inside of as many parentheses as it had opened.
  obtain ⟨items, hitems, -⟩ | ⟨d, v, hfails, hpass, -⟩ := recover_eq_ok hrecover
  · rw [hitems] at hends ⊢
    exact ⟨0, hends, y, hy, hlast⟩
  · have hv : v.inside = true := by
      have hleads := steady_read .selectItems u
      rw [hfails] at hleads
      exact State.Leads.inside hleads |>.trans hu
    have hxv := (passOver_eq_ok hpass).2
    rw [hv] at hxv
    rw [hxv, fromBoundary_idem] at hy
    rw [hfails] at hends ⊢
    obtain ⟨m, hm⟩ := hends
    exact ⟨m, hm, y, hy, hlast⟩

/-- A select list between parentheses is passed up to one of the closing parentheses in it or to the
one behind it, which it is for sure if the list stops outside of all parentheses in it. -/
theorem ends_innerQuery {body back : List Token} {p : Token} {start : Span} {q : Query}
    (hinside : s.inside = true) (hahead : s.cursor.ahead = body ++ p :: back)
    (hp : p.kind = .symbol .rightParen) (hbalanced : levels? 0 body = some 0)
    (hbody : NoBoundary body)
    (h : (quantifier >>= fun quantifier => recover (read .selectItems) >>= fun items =>
      fromRelation read start (Query.mk quantifier (items.getD []))) s = .ok q t) :
    t.cursor.ahead = p :: back ∨
      (∃ v c r k, body = v ++ c :: r ∧ levels? 0 v = some (k + 1) ∧ c.kind = .symbol .rightParen ∧
        t.cursor.ahead = c :: r ++ p :: back) ∧
      ∃ w m, s.cursor.ahead =
          w ++ (lastState ((quantifier >>= fun _ => read .selectItems) s)).cursor.ahead ∧
        levels? 0 w = some (m + 1) := by
  -- The select list stops among the tokens of the body, from where skipping goes to a boundary.
  obtain ⟨m, ⟨w, hw, hlevel, -⟩, y, hy, hlast⟩ := stops_selectItems hinside h
  obtain ⟨r, rfl, hr⟩ := exists_append_of_levels hp hbalanced hlevel (hahead.symm.trans hw)
  rw [levels?_append, hlevel] at hbalanced
  rw [hr] at hy
  have hstop : fromBoundary true 0 (p :: back) = p :: back :=
    fromBoundary_of_stop (by rw [hp]; simp [isBoundary])
  obtain ⟨hlt, -, v, c, r', rfl, hc, hfrom⟩ | ⟨o, ho, -, hfrom⟩ :=
    fromBoundary_append true (w := p :: back) hbody.suffix (Nat.zero_le m) hbalanced
  -- A parenthesis of the body was taken for the closing one: the list had stopped inside of it.
  · rw [hfrom] at hy
    obtain rfl := hlast (by rw [current_of_ahead hy]; exact hc)
    obtain ⟨n, rfl⟩ : ∃ n, m = n + 1 := ⟨m - 1, by omega⟩
    have hclosed : (levels? (n + 1) v).bind (levels? · (c :: r')) = some 0 := by
      rw [← levels?_append]
      exact hbalanced
    obtain ⟨k, hk, hclose⟩ := Option.bind_eq_some_iff.1 hclosed
    cases k with
    | zero =>
      rw [levels?_cons, hc] at hclose
      cases hclose
    | succ k =>
      refine .inr ⟨⟨w ++ v, c, r', k, (List.append_assoc _ _ _).symm, ?_, hc, hy⟩, w, n, hw, hlevel⟩
      rw [levels?_append, hlevel]
      exact hk
  -- Otherwise the body is passed, up to the parenthesis that closes the subquery.
  · obtain rfl := Nat.le_zero.1 ho
    rw [hfrom, hstop] at hy
    obtain rfl := hlast (by rw [current_of_ahead hy]; exact hp)
    exact .inl hy

/-! ## The relation -/

/-- What stands behind a query in parentheses. -/
def relationEnd (start : Span) (query : Query) : Parser Relation := do
  let _ ← symbol .rightParen
  let _ ← takeKeyword .AS
  let name ← ident
  return .subquery query name (← spanFrom start)

/-- Behind `FROM` and a parenthesis the relation is a subquery and its name. -/
theorem relationRule_of_leftParen (hfrom : s.cursor.current.kind = .keyword .FROM)
    (hopen : (s.skip 1).cursor.current.kind = .symbol .leftParen) :
    relationRule read s = (nest 2 (subquery (read .query)) >>=
      relationEnd (s.skip 1).cursor.current.span) (s.skip 2) := by
  unfold relationRule
  rw [bind_of_ok (keyword_eq_ok_iff.2 ⟨hfrom, rfl, rfl⟩), atSymbol_bind_apply, hopen, beq_self_eq_true]
  rfl

/-- In front of its word, a query in parentheses fails only for good. -/
theorem isFatal_of_subquery {d : Diagnostic} (hs : s.isRecovering = true)
    (hselect : s.cursor.current.kind = .keyword .SELECT)
    (h : nest 2 (subquery (read .query)) s = .error (.rejected d) t) : d.isFatal = true := by
  rw [nest_apply] at h
  split at h
  · cases h
    rfl
  · obtain ⟨u, hu, -⟩ := mapState_eq_error_iff.1 h
    rw [subquery_apply] at hu
    obtain ⟨v, hv, -⟩ := mapState_eq_error_iff.1 hu
    rw [read_eq_rule] at hv
    exact isFatal_of_queryRule (s := (s.deeper 2).enclosed) steady_read hs hselect hv

/-- A query in parentheses that succeeds does so behind its word. -/
theorem subquery_eq_ok {q : Query} (hselect : s.cursor.current.kind = .keyword .SELECT)
    (h : nest 2 (subquery (read .query)) s = .ok q t) :
    ∃ start u, t.cursor = u.cursor ∧
      (quantifier >>= fun quantifier => recover (read .selectItems) >>= fun items =>
        fromRelation read start (Query.mk quantifier (items.getD [])))
          (((s.skip 1).deeper 2).enclosed) = .ok q u := by
  obtain ⟨-, v, hv, rfl⟩ := nest_eq_ok_iff.1 h
  rw [subquery_apply] at hv
  obtain ⟨u, hu, rfl⟩ := mapState_eq_ok_iff.1 hv
  rw [read_eq_rule] at hu
  have hquery : queryRule read (s.deeper 2).enclosed = .ok q u := hu
  rw [queryRule_eq, bind_of_ok (s := (s.deeper 2).enclosed)
    (keyword_eq_ok_iff.2 ⟨hselect, rfl, rfl⟩)] at hquery
  exact ⟨_, u, rfl, hquery⟩

/-- Behind a closing parenthesis a name is the alias of the subquery. -/
theorem relationEnd_of_name {p u : Token} {name : String} {rest : List Token} (start : Span)
    (q : Query) (hahead : s.cursor.ahead = p :: u :: rest) (hp : p.kind = .symbol .rightParen)
    (hu : u.kind = .name name) :
    ∃ t span, relationEnd start q s = .ok (.subquery q ⟨name, false, u.span⟩ span) t ∧
      t.cursor.ahead = rest := by
  have hcurrent := current_of_ahead hahead
  have hbehind := ahead_skip_of_ahead hahead (isEnd_of_symbol hp)
  have hcurrent' := current_of_ahead hbehind
  have hskip := ahead_skip_of_ahead hbehind (isEnd_eq_false (hu ▸ nofun))
  refine ⟨(s.skip 1).skip 1, start.merge ((s.skip 1).skip 1).cursor.previousSpan, ?_, hskip⟩
  have hident : ident (s.skip 1) = .ok ⟨name, false, u.span⟩ ((s.skip 1).skip 1) := by
    unfold ident
    rw [current_bind_apply, hcurrent', hu]
    show (take >>= fun span => pure (Ident.mk name false span)) (s.skip 1) = _
    rw [take_bind_apply, hcurrent']
    rfl
  unfold relationEnd
  rw [bind_of_ok (symbol_eq_ok_iff.2 ⟨hcurrent ▸ hp, rfl, rfl⟩), takeKeyword_bind_apply, hcurrent', hu,
    if_neg nofun, bind_of_ok hident]
  rfl

/-- Behind a closing parenthesis of the query's select list, the relation does not get out of the
parentheses. -/
theorem ends_relationEnd {p c : Token} {r back : List Token} {k : Nat} (start : Span) (q : Query)
    (hahead : s.cursor.ahead = c :: r ++ p :: back) (hp : p.kind = .symbol .rightParen)
    (hc : c.kind = .symbol .rightParen) (hr : levels? k r = some 0) :
    ∃ v r' l, r = v ++ r' ∧ (lastState (relationEnd start q s)).cursor.ahead = r' ++ p :: back ∧
      levels? l r' = some 0 := by
  have hcurrent := current_of_ahead hahead
  have hbehind := ahead_skip_of_ahead hahead (isEnd_of_symbol hc)
  have hrest : Walks true k k (takeKeyword .AS >>= fun _ => ident >>= fun name =>
      spanFrom start >>= fun span => pure (Relation.subquery q name span)) :=
    walks_takeKeyword_bind rfl
      (walks_ident.bind fun _ => (walks_spanFrom _).bind fun _ => walks_pure _)
      (walks_ident.bind fun _ => (walks_spanFrom _).bind fun _ => walks_pure _)
  obtain ⟨l, v, hv, hlevel, -⟩ := (hrest (s.skip 1) trivial).exists_passes
  unfold relationEnd
  rw [bind_of_ok (symbol_eq_ok_iff.2 ⟨hcurrent ▸ hc, rfl, rfl⟩)]
  obtain ⟨r', rfl, hr'⟩ := exists_append_of_levels hp hr hlevel (hbehind.symm.trans hv)
  rw [levels?_append, hlevel] at hr
  exact ⟨v, r', l, rfl, hr', hr⟩

/-- How a relation that is a query in parentheses is recovered from: the query is read in any case, and
what stands behind it is the relation, or is left out. -/
theorem recover_relation {found : Option Relation} (hrecovering : s.isRecovering = true)
    (hinside : s.inside = false) (hfrom : s.cursor.current.kind = .keyword .FROM)
    (hopen : (s.skip 1).cursor.current.kind = .symbol .leftParen)
    (hselect : (s.skip 2).cursor.current.kind = .keyword .SELECT)
    (h : recover (read .relation) s = .ok found t) :
    ∃ q u start, nest 2 (subquery (read .query)) (s.skip 2) = .ok q u ∧
      fromBoundary false 0 t.cursor.ahead =
        fromBoundary false 0 (lastState (relationEnd start q u)).cursor.ahead ∧
      ∀ relation v, relationEnd start q u = .ok relation v → found = some relation := by
  have hrule : read .relation s = (nest 2 (subquery (read .query)) >>=
      relationEnd (s.skip 1).cursor.current.span) (s.skip 2) := by
    rw [read_eq_rule]
    exact relationRule_of_leftParen hfrom hopen
  -- The relation is read, or it fails inside the subquery or behind it, from where the same skip
  -- starts.
  obtain ⟨relation, hok, rfl⟩ | ⟨d, v, hfails, hpass, rfl⟩ := recover_eq_ok h
  · rw [hrule] at hok
    obtain ⟨q, u, hquery, hend⟩ := bind_eq_ok_iff.1 hok
    refine ⟨q, u, _, hquery, by rw [hend, lastState_ok], fun relation' v hrelation => ?_⟩
    rw [hend] at hrelation
    cases hrelation
    rfl
  · obtain ⟨hfatal, hahead⟩ := passOver_eq_ok hpass
    have hv : v.inside = false := by
      have hleads := steady_read .relation s
      rw [hfails] at hleads
      exact (State.Leads.inside hleads).trans hinside
    rw [hv] at hahead
    rw [hrule] at hfails
    cases hquery : nest 2 (subquery (read .query)) (s.skip 2) with
    | error e u =>
      rw [bind_of_error hquery] at hfails
      cases hfails
      -- A subquery that recovers fails only for good.
      cases hfatal.symm.trans (isFatal_of_subquery (s := s.skip 2) hrecovering hselect hquery)
    | ok q u =>
      rw [bind_of_ok hquery] at hfails
      refine ⟨q, u, (s.skip 1).cursor.current.span, rfl, ?_, fun relation' w hrelation => ?_⟩
      · rw [hahead, fromBoundary_idem, hfails, lastState_error]
      · cases hfails.symm.trans hrelation

/-- Outside of parentheses, recovery goes on at the limit behind a relation. -/
theorem fromBoundary_back {name : String} {rows : Nat} (f : SubqueryFrame name rows)
    {r : List Token} {k : Nat} (hr : levels? k r = some 0) (hbody : NoBoundary r) :
    fromBoundary false 0 (r ++ f.closing :: f.back) = [f.limit, f.count] := by
  obtain ⟨-, hfalse, -⟩ | ⟨o, ho, -, hfrom⟩ :=
    fromBoundary_append false (w := f.closing :: f.back) hbody (Nat.zero_le k) hr
  · cases hfalse
  · obtain rfl := Nat.le_zero.1 ho
    have hname : f.aliasName.isEnd = false := isEnd_eq_false (f.aliasName_kind ▸ nofun)
    rw [hfrom, fromBoundary_of_pass (by simp [isEnd_of_symbol f.closing_kind, f.closing_kind, isBoundary]),
      f.closing_kind, SubqueryFrame.back, fromBoundary_of_pass (by simp [hname, f.aliasName_kind, isBoundary]),
      f.aliasName_kind]
    exact fromBoundary_of_stop (by simp [f.limit_kind, isBoundary, Keyword.startsClause, openAfter])

/-- However the select list in parentheses is broken, reading goes on at the limit. If it stops outside
of the parentheses in it, the relation is read. -/
theorem ends_relation {name : String} {rows : Nat} (f : SubqueryFrame name rows) {body : List Token}
    {found : Option Relation} (hrecovering : s.isRecovering = true) (hinside : s.inside = false)
    (hahead : s.cursor.ahead = f.source :: f.opening :: f.inner :: (body ++ f.closing :: f.back))
    (hbalanced : levels? 0 body = some 0) (hbody : NoBoundary body)
    (h : clause true .FROM (read .relation) s = .ok found t) :
    t.cursor.ahead = [f.limit, f.count] ∧
      ((∃ q x y, found = some (.subquery q ⟨name, false, x⟩ y)) ∨
        (∃ c ∈ body, c.kind = .symbol .rightParen) ∧ ∃ w m, (((s.skip 3).deeper 2).enclosed).cursor.ahead =
          w ++ (lastState ((quantifier >>= fun _ => read .selectItems)
            (((s.skip 3).deeper 2).enclosed))).cursor.ahead ∧ levels? 0 w = some (m + 1)) := by
  have hfrom := current_of_ahead hahead
  have hahead1 := ahead_skip_of_ahead hahead (isEnd_of_keyword f.source_kind)
  have hopen := current_of_ahead hahead1
  have hahead2 := ahead_skip_of_ahead hahead1 (isEnd_of_symbol f.opening_kind)
  have hselect := current_of_ahead hahead2
  have hahead3 := ahead_skip_of_ahead hahead2 (isEnd_of_keyword f.inner_kind)
  -- The relation is recovered from: skipping ends at the limit, wherever the query was closed.
  obtain ⟨u, hrecover, hend⟩ := clause_eq_ok (hfrom ▸ f.source_kind) h
  obtain ⟨q, v, start, hquery, hland, hfound⟩ := recover_relation hrecovering hinside
    (hfrom ▸ f.source_kind) (hopen ▸ f.opening_kind) (hselect ▸ f.inner_kind) hrecover
  have hu : u.inside = false := ((steady_read _).recover.leads hrecover).inside.trans hinside
  have ht := clauseEnd_eq_ok hend
  rw [hu, hland] at ht
  obtain ⟨start', x, hcursor, hinner⟩ := subquery_eq_ok (hselect ▸ f.inner_kind) hquery
  obtain hclose | ⟨⟨w, c, r, k, rfl, hlevel, hc, hclose⟩, hstop⟩ :=
    ends_innerQuery (s := (((s.skip 3).deeper 2).enclosed)) (by simp [State.inside, State.enclosed])
      hahead3 f.closing_kind hbalanced hbody hinner
  · -- The query is closed by its own parenthesis.
    rw [← hcursor] at hclose
    obtain ⟨z, span, hz, hzahead⟩ := relationEnd_of_name start q hclose f.closing_kind f.aliasName_kind
    rw [hz, lastState_ok, hzahead] at ht
    have hlimit : fromBoundary false 0 [f.limit, f.count] = [f.limit, f.count] :=
      fromBoundary_of_stop (by simp [f.limit_kind, isBoundary, Keyword.startsClause])
    exact ⟨ht.trans hlimit, .inl ⟨q, _, span, hfound _ _ hz⟩⟩
  · -- It is closed by a parenthesis of the select list, of which a part is left.
    rw [← hcursor] at hclose
    have hr : levels? k r = some 0 := by
      rw [levels?_append, hlevel, Option.bind_some, levels?_cons, hc] at hbalanced
      exact hbalanced
    obtain ⟨y, r', l, rfl, hz, hr'⟩ := ends_relationEnd start q hclose f.closing_kind hc hr
    rw [hz] at ht
    refine ⟨ht.trans (fromBoundary_back f hr' ?_), .inr ⟨⟨c, by simp, hc⟩, hstop⟩⟩
    exact NoBoundary.suffix (v := w ++ c :: y) (by simpa using hbody)

/-! ## The outer query -/

/-- A star with no comma behind it is the whole select list. -/
theorem read_star (hstar : s.cursor.current.kind = .symbol .star)
    (hnext : (s.skip 1).cursor.current.kind ≠ .symbol .comma) :
    read .selectItems s = .ok [.star s.cursor.current.span] (s.skip 1) := by
  have hitem : read (.selectItem true) s = .ok (.star s.cursor.current.span) (s.skip 1) := by
    rw [read_eq_rule]
    show selectItemRule read true s = _
    unfold selectItemRule
    rw [atSymbol_bind_apply, hstar, beq_self_eq_true]
    rfl
  rw [read_eq_rule]
  exact commaList_of_single (steady_read _) (steady_read _) hitem
    (ahead_skip_lt (isEnd_of_symbol hstar) 0) hnext

/-- A number of rows at the end of the input is a limit of its own. -/
theorem limitClause_of_count {u v : Token} {rows : Nat} (hahead : s.cursor.ahead = [u, v])
    (hu : u.kind = .keyword .LIMIT) (hv : v.kind = .integer)
    (hrows : Number.readUnsigned v.text = .ok rows) :
    ∃ span t, limitClause s = .ok (some ⟨rows, none, span⟩) t := by
  have hlimit := current_of_ahead hahead
  have hahead1 := ahead_skip_of_ahead hahead (isEnd_of_keyword hu)
  have hcount := current_of_ahead hahead1
  have hahead2 := ahead_skip_of_ahead hahead1 (isEnd_eq_false (hv ▸ nofun))
  have hend : ((s.skip 1).skip 1).cursor.current.kind = .endOfInput := by
    unfold Cursor.current
    rw [hahead2]
    exact beq_iff_eq.1 ((s.skip 1).skip 1).cursor.closing_isEnd
  have hrun : count (s.skip 1) = .ok rows ((s.skip 1).skip 1) := by
    unfold count
    rw [current_bind_apply, hcount, hv, hrows]
    rfl
  have hrule : ∃ span, limit s = .ok ⟨rows, none, span⟩ ((s.skip 1).skip 1) := by
    refine ⟨u.span.merge ((s.skip 1).skip 1).cursor.previousSpan, ?_⟩
    unfold limit
    rw [bind_of_ok (keyword_eq_ok_iff.2 ⟨hlimit ▸ hu, rfl, rfl⟩), bind_of_ok hrun,
      takeSymbol_bind_apply, hend, if_neg nofun]
    show (takeKeyword .OFFSET >>= _) _ = _
    rw [takeKeyword_bind_apply, hend, if_neg nofun, hlimit]
    rfl
  obtain ⟨span, hok⟩ := hrule
  refine ⟨span, (s.skip 1).skip 1, ?_⟩
  unfold limitClause
  rw [atKeyword_bind_apply, hlimit, hu, beq_self_eq_true]
  show recover limit s = _
  unfold recover
  rw [hok]

/-- Where neither `ALL` nor `DISTINCT` stands there is no quantifier. -/
theorem quantifier_of_ne (hall : s.cursor.current.kind ≠ .keyword .ALL)
    (hdistinct : s.cursor.current.kind ≠ .keyword .DISTINCT) : quantifier s = .ok none s := by
  unfold quantifier
  rw [takeKeyword_bind_apply, if_neg hall]
  show (takeKeyword .DISTINCT >>= _) _ = _
  rw [takeKeyword_bind_apply, if_neg hdistinct]
  rfl

/-- At a boundary a clause ends. -/
theorem clauseEnd_of_atBoundary (h : s.atBoundary = true) : clauseEnd s = .ok () s := by
  unfold clauseEnd
  rw [get_bind_apply, h]
  rfl

/-- In front of a limit, the clauses between a relation and the limit are absent. -/
theorem fromWhere_of_limit {call : Callee} {start : Span} {allowed : Bool}
    {finish : Option Condition → Option GroupBy → Option Condition → Option OrderBy →
      Option Limit → Span → Query} (hlimit : s.cursor.current.kind = .keyword .LIMIT) :
    fromWhere call allowed start finish s =
      (limitClause >>= fun limit => spanFrom start >>= fun span =>
        pure (finish none none none none limit span)) s := by
  have hne {word : Keyword} (hword : Keyword.LIMIT ≠ word) :
      s.cursor.current.kind ≠ .keyword word :=
    hlimit ▸ fun h => hword (TokenKind.keyword.inj h)
  unfold fromWhere fromGroup fromHaving fromOrder
  rw [bind_of_ok (clause_of_ne _ (hne (by decide))), bind_of_ok (clause_of_ne _ (hne (by decide))),
    bind_of_ok (clause_of_ne _ (hne (by decide))), bind_of_ok (clause_of_ne _ (hne (by decide)))]

/-- A query whose relation is a query in parentheses, from its own word on. -/
theorem query_around {name : String} {rows : Nat} (f : SubqueryFrame name rows)
    {body : List Token} {q : Query} (hrecovering : s.isRecovering = true) (hinside : s.inside = false)
    (hahead : s.cursor.ahead = f.select :: f.star :: f.source :: f.opening :: f.inner ::
      (body ++ f.closing :: f.back))
    (hbalanced : levels? 0 body = some 0) (hbody : NoBoundary body)
    (h : read .query s = .ok q t) :
    (∃ span, q.limit = some ⟨rows, none, span⟩) ∧
      ((∃ inner x y, q.relation = some (.subquery inner ⟨name, false, x⟩ y)) ∨
        (∃ c ∈ body, c.kind = .symbol .rightParen) ∧ ∃ w m, (((s.skip 5).deeper 2).enclosed).cursor.ahead =
          w ++ (lastState ((quantifier >>= fun _ => read .selectItems)
            (((s.skip 5).deeper 2).enclosed))).cursor.ahead ∧ levels? 0 w = some (m + 1)) := by
  -- The frame gives the tokens up to the subquery; the outer query reads them and then its
  -- relation.
  have hselect := current_of_ahead hahead
  have hahead1 := ahead_skip_of_ahead hahead (isEnd_of_keyword f.select_kind)
  have hstar := current_of_ahead hahead1
  have hahead2 := ahead_skip_of_ahead hahead1 (isEnd_of_symbol f.star_kind)
  have hfrom := current_of_ahead hahead2
  have hquery : queryRule read s = .ok q t := by
    rw [← h, read_eq_rule]
    rfl
  have hquantifier : quantifier (s.skip 1) = .ok none (s.skip 1) :=
    quantifier_of_ne (by rw [hstar, f.star_kind]; nofun) (by rw [hstar, f.star_kind]; nofun)
  have hitems : recover (read .selectItems) (s.skip 1) =
      .ok (some [.star (s.skip 1).cursor.current.span]) ((s.skip 1).skip 1) := by
    unfold recover
    rw [read_star (hstar ▸ f.star_kind) (by rw [hfrom, f.source_kind]; nofun)]
  have hboundary : ((s.skip 1).skip 1).atBoundary = true := by
    unfold State.atBoundary
    rw [hfrom, f.source_kind]
    rfl
  rw [queryRule_eq, bind_of_ok (keyword_eq_ok_iff.2 ⟨hselect ▸ f.select_kind, rfl, rfl⟩),
    bind_of_ok hquantifier, bind_of_ok hitems] at hquery
  unfold fromRelation at hquery
  rw [bind_of_ok (clauseEnd_of_atBoundary hboundary), atKeyword_bind_apply, hfrom, f.source_kind,
    beq_self_eq_true] at hquery
  obtain ⟨found, u, hclause, hrest⟩ := bind_eq_ok_iff.1 hquery
  obtain ⟨hlimit, hrelation⟩ :=
    ends_relation (s := (s.skip 1).skip 1) f hrecovering hinside hahead2 hbalanced hbody hclause
  rw [fromWhere_of_limit (by rw [current_of_ahead hlimit]; exact f.limit_kind)] at hrest
  obtain ⟨span, v, hv⟩ := limitClause_of_count hlimit f.limit_kind f.count_kind f.count_value
  rw [bind_of_ok hv] at hrest
  obtain ⟨rfl, -⟩ := EStateM.Result.ok.inj hrest
  exact ⟨⟨span, rfl⟩, hrelation⟩

end Grammar

/-- However broken the select list of a query in parentheses is, as long as its parentheses are
balanced, a parse that recovers reads the clauses behind the relation. It reads the relation as well,
with its name, if the select list stops where as many parentheses are closed as were opened, as it
does if there are none. -/
theorem parseTokens_around [Time.Library] {name : String} {rows : Nat} (f : SubqueryFrame name rows)
    (body : List Token) (settings : Settings) (hbalanced : levels? 0 body = some 0)
    (hbody : NoBoundary body) (hrecover : settings.recover = true)
    (hdone : (parseTokens (f.around body) settings).aborted = false) :
    ∃ q, (parseTokens (f.around body) settings).statement = some (.select q) ∧
      (∃ span, q.limit = some ⟨rows, none, span⟩) ∧
      ((∀ t ∈ body, t.kind ≠ .symbol .rightParen) ∨ levels? 0 (f.passed settings body) = some 0 →
        ∃ inner x y, q.relation = some (.subquery inner ⟨name, false, x⟩ y)) := by
  unfold parseTokens at hdone ⊢
  cases hrun : runRoot (f.around body) settings with
  | error e t => cases e <;> (rw [hrun] at hdone; cases hdone)
  | ok statement t =>
    rw [hrun] at hdone
    obtain ⟨q, u, hquery, rfl⟩ := query_of_runRoot f.select_kind hrecover hrun
    have hrecovering : (State.ofTokens (f.around body) settings).isRecovering = true := by
      unfold State.isRecovering State.ofTokens
      rw [hrecover]
      rfl
    have hahead : (State.ofTokens (f.around body) settings).cursor.ahead = f.select :: f.star ::
        f.source :: f.opening :: f.inner :: (body ++ f.closing :: f.back) := by
      unfold State.ofTokens SubqueryFrame.around
      rw [Cursor.ofTokens_append _ f.ending_isEnd]
    obtain ⟨hlimit, hrelation⟩ :=
      query_around f hrecovering rfl hahead hbalanced hbody hquery
    refine ⟨q, rfl, hlimit, fun hpassed => ?_⟩
    obtain hrelation | ⟨⟨c, hmem, hc⟩, w, m, hw, hlevel⟩ := hrelation
    · exact hrelation
    -- If the relation was lost, the list stopped inside of parentheses.
    · obtain hnone | hpassed := hpassed
      · exact absurd hc (hnone c hmem)
      have hpasses : f.passed settings body = w := by
        unfold SubqueryFrame.passed SubqueryFrame.inside
        dsimp only
        rw [hw]
        simp
      rw [hpasses, hlevel] at hpassed
      cases hpassed

/-- The tokens of `SELECT * FROM (SELECT ...) x LIMIT 1` around a select list of `length`
characters. -/
def SubqueryFrame.plain (length : Nat) : SubqueryFrame "x" 1 where
  select := ⟨.keyword .SELECT, "SELECT", ⟨0, 6⟩⟩
  star := ⟨.symbol .star, "*", ⟨7, 8⟩⟩
  source := ⟨.keyword .FROM, "FROM", ⟨9, 13⟩⟩
  opening := ⟨.symbol .leftParen, "(", ⟨14, 15⟩⟩
  inner := ⟨.keyword .SELECT, "SELECT", ⟨15, 21⟩⟩
  closing := ⟨.symbol .rightParen, ")", ⟨22 + length, 23 + length⟩⟩
  aliasName := ⟨.name "x", "x", ⟨24 + length, 25 + length⟩⟩
  limit := ⟨.keyword .LIMIT, "LIMIT", ⟨26 + length, 31 + length⟩⟩
  count := ⟨.integer, "1", ⟨32 + length, 33 + length⟩⟩
  ending := Token.endOfInput (33 + length)
  select_kind := rfl
  star_kind := rfl
  source_kind := rfl
  opening_kind := rfl
  inner_kind := rfl
  closing_kind := rfl
  aliasName_kind := rfl
  limit_kind := rfl
  count_kind := rfl
  count_value := show Number.readUnsigned "1" = .ok 1 by decide
  ending_isEnd := rfl

/-- A select list without a comma stops behind its alias, between the parentheses of one call and those
of another. -/
theorem parseTokens_around_list :
    let body : List Token :=
      [⟨.name "abs", "abs", ⟨22, 25⟩⟩, ⟨.symbol .leftParen, "(", ⟨25, 26⟩⟩, ⟨.integer, "1", ⟨26, 27⟩⟩,
        ⟨.symbol .rightParen, ")", ⟨27, 28⟩⟩, ⟨.name "b", "b", ⟨29, 30⟩⟩, ⟨.name "c", "c", ⟨31, 32⟩⟩,
        ⟨.symbol .leftParen, "(", ⟨32, 33⟩⟩, ⟨.name "d", "d", ⟨33, 34⟩⟩,
        ⟨.symbol .rightParen, ")", ⟨34, 35⟩⟩]
    let tokens := (SubqueryFrame.plain 13).around body
    tokens = Token.tokenize "SELECT * FROM (SELECT abs(1) b c(d)) x LIMIT 1" ∧
      (parseTokens tokens Settings.standard).diagnostics.length = 1 ∧
      ∃ q, (parseTokens tokens Settings.standard).statement = some (.select q) ∧
        (∃ span, q.limit = some ⟨1, none, span⟩) ∧
        ∃ inner x y, q.relation = some (.subquery inner ⟨"x", false, x⟩ y) := by
  intro body tokens
  have hpassed : levels? 0 ((SubqueryFrame.plain 13).passed Settings.standard body) = some 0 := by
    decide +kernel
  obtain ⟨q, hq, hlimit, hrelation⟩ := parseTokens_around (SubqueryFrame.plain 13) body
    Settings.standard (by decide) (by decide) rfl (by decide +kernel)
  exact ⟨by decide +kernel, by decide +kernel, q, hq, hlimit, hrelation (.inr hpassed)⟩

/-- A select list that stops inside of the parentheses of a call: the parenthesis of the call is taken
for that of the query, and the relation is lost. -/
theorem parse_call_loses_relation :
    let o := parse "SELECT * FROM (SELECT abs(1 2)) x LIMIT 1" Settings.standard
    (match o.statement with
      | some (.select q) => q.relation.isNone && q.limit.isSome
      | _ => false) = true ∧ o.aborted = false := by
  decide +kernel

end SearchSql
