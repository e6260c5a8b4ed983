import SearchSql.Proofs.Balance
import SearchSql.Proofs.Modes
import SearchSql.Proofs.Retelling
import SearchSql.Proofs.Slices
import SearchSql.Proofs.SubqueryRecovery
import SearchSql.Time.Reading

/-!
# A broken condition

Whatever stands between the word `WHERE` and the next clause is read as a condition or left out, and
reading goes on at that clause. In front of the word, the select list and the relation are read as they
are where the query ends with them (`exists_head`); behind it, the clauses are read as they are without
the condition. So a condition, however broken it is, changes nothing in the rest of the query
(`parseTokens_where`).
-/

set_option autoImplicit false

namespace SearchSql

open Grammar

/-- A query of a select list and a relation. -/
structure Query.EndsWithRelation (q : Query) : Prop where
  relation : q.relation.isSome = true
  condition : q.condition = none
  groupBy : q.groupBy = none
  having : q.having = none
  orderBy : q.orderBy = none
  limit : q.limit = none

/-! ## Tokens at other places -/

/-- Where tokens stand does not matter for the parentheses among them. -/
theorem levels?_placeless (k : Nat) (tokens : List Token) :
    levels? k (tokens.map Token.placeless) = levels? k tokens := by
  induction tokens generalizing k with
  | nil => rfl
  | cons t ts ih =>
    have hts (n : Nat) : levels? n (ts.map Token.placeless) = levels? n ts := ih n
    rw [List.map_cons, levels?_cons, levels?_cons, funext hts]
    rfl

namespace Grammar

open SearchSql.Grammar.Parser

variable {s t : State}

/-- Balanced tokens are balanced wherever they stand. -/
theorem Balanced.placeless {tokens : List Token} (h : Balanced tokens) :
    Balanced (tokens.map Token.placeless) := by
  have hparens : parensOf (tokens.map Token.placeless) = (parensOf tokens).map Token.placeless := by
    unfold parensOf
    rw [List.filter_map]
    rfl
  unfold Balanced at h ⊢
  rw [hparens, levels?_placeless, h]

/-- Where a clause may end, a rule may end in front of what follows. -/
theorem isBorder_of_isBoundary {inside : Bool} {kind : TokenKind}
    (h : isBoundary inside kind = true) : kind.isBorder = true := by
  unfold isBoundary at h
  split at h
  · rfl
  · rfl
  · rfl
  · exact Bool.or_eq_true_iff.2 (.inl h)
  · cases h

/-! ## The pieces of a query -/

/-- A query is the word `SELECT`, its items and the clauses behind them. -/
theorem queryRule_eq_items (call : Callee) :
    queryRule call = (keyword .SELECT >>= fun start => queryItems call >>= fun found =>
      fromRelation call start (Query.mk found.1 (found.2.getD []))) := by
  rw [queryRule_eq]
  simp only [queryItems, bind_assoc, pure_bind]

/-- A clause that fails at its first error stands here and is read, or is absent. -/
theorem clause_of_strict {α : Type} {p : Parser α} (hp : Steady p) {word : Keyword}
    {found : Option α} (hs : s.settings.recover = false) (h : clause true word p s = .ok found t) :
    (found = none ∧ t = s) ∨
      ∃ a, found = some a ∧ s.cursor.current.kind = .keyword word ∧ p s = .ok a t ∧
        t.atBoundary = true := by
  by_cases hword : s.cursor.current.kind = .keyword word
  · obtain ⟨u, hrecover, hend⟩ := clause_eq_ok hword h
    obtain ⟨a, ha, hfound⟩ := (recover_eq_ok_iff hp (notRecovering_of_strict hs)).1 hrecover
    have hu : u.isRecovering = false :=
      (hp.leads ha).isRecovering.trans (notRecovering_of_strict hs)
    obtain ⟨hboundary, rfl⟩ := (clauseEnd_eq_ok_iff hu).1 hend
    exact .inr ⟨a, hfound, hword, ha, hboundary⟩
  · rw [clause_of_ne true hword] at h
    obtain ⟨rfl, rfl⟩ := EStateM.Result.ok.inj h
    exact .inl ⟨rfl, rfl⟩

/-- The items of a query never ask for more than the tokens ahead. -/
theorem complete_queryItems : Complete (queryItems read) :=
  complete_of_identity fun b =>
    (Simulation.query_congruence identity_lawful identity_queryLawful).queryItems
      (identity_read b .selectItems)

/-- The clauses from the grouping on never ask for more than the tokens ahead. -/
theorem complete_fromGroup (allowed : Bool) (start : Span)
    (finish : Option GroupBy → Option Condition → Option OrderBy → Option Limit → Span → Query) :
    Complete (fromGroup read allowed start finish) :=
  complete_of_identity fun b =>
    (Simulation.query_congruence identity_lawful identity_queryLawful).fromGroup
      (fun word => identity_read b (.condition word)) (identity_read b .groupBy)
      (identity_read b .orderBy) (fun _ _ _ _ hs => hs.1.elim) (fun _ _ _ _ hs => hs.1.elim) allowed start finish

/-- The items of a query are read alike in front of every seam. -/
theorem Seam.replays_queryItems {B : Seam} (hB : B.Calm) (heven : B.Even) :
    B.Replays false .list (queryItems read) :=
  replays_quantifier.bind fun _ =>
    ((replays_read hB .selectItems fun _ => heven).recover).map _

/-! ## The select list and the relation -/

/-- The items of a query are steady. -/
theorem steady_queryItems : Steady (queryItems read) :=
  steady_quantifier.bind fun _ => (steady_read .selectItems).recover.bind fun _ => steady_pure _

theorem map_getD_nil {α β : Type} {f : α → β} {o o' : Option (List α)}
    (h : o.map (List.map f) = o'.map (List.map f)) :
    (o.getD []).map f = (o'.getD []).map f := by
  cases o <;> cases o' <;> simp_all

/-- The items of a query pass balanced tokens. -/
theorem balances_queryItems : Balances (queryItems read) :=
  balances_quantifier.bind fun _ =>
    ((Balances.of_walks (walking_read.level rfl) (steady_read .selectItems)).recover).bind
      fun _ => balances_pure _

/-- A select list in front of `FROM` is read again in front of that word. -/
theorem queryItems_again {u s' : State} {items : Option Quantifier × Option (List SelectItem)}
    {passed rest : List Token} (hitems : queryItems read s = .ok items u)
    (hpassed : s.cursor.ahead = passed ++ u.cursor.ahead) (hbalanced : Balanced passed)
    (hword : u.cursor.current.kind = .keyword .FROM) (hframe : s.SameFrame s'.strict)
    (hsettled : s'.Settled) (hfaces : s'.Faces (passed.map Token.placeless ++ rest))
    (hrest : kindAt rest 0 = .keyword .FROM) :
    ∃ items' u', queryItems read s' = .ok items' u' ∧ u'.Faces rest ∧ items'.1 = items.1 ∧
      items'.2.map (List.map (SelectItem.view .placeless)) =
        items.2.map (List.map (SelectItem.view .placeless)) := by
  -- The seam is between the items and `FROM`, which stands on both sides.
  let B : Seam := ⟨u.cursor.ahead.map Token.placeless, rest⟩
  have hleft : kindAt B.left 0 = .keyword .FROM := by
    rw [kindAt_placeless, kindAt_zero, hword]
  have hcalm : B.Calm :=
    ⟨Seam.unfiltered_of_levelAfter? (hleft ▸ rfl), Seam.unfiltered_of_levelAfter? (hrest ▸ rfl)⟩
  have heven : B.Even := hleft.trans hrest.symm
  have hfits : B.Fits (passed.map Token.placeless) := by
    refine ⟨?_, ?_, .inl hbalanced.placeless.sealed⟩
    · show (kindAt B.left 0).isBorder = true
      rw [hleft]
      rfl
    · show (kindAt rest 0).isBorder = true
      rw [hrest]
      rfl
  have hat : ¬u.AtOrder := fun horder => nomatch hword.symm.trans horder
  have hs : s.Faces (passed.map Token.placeless ++ B.left) := by
    unfold State.Faces
    rw [hpassed, List.map_append]
  obtain ⟨items', u', beyond, hitems', heq, hbeyond, hu'⟩ := Seam.retell_recovering
    (Likeness.like_queryItems likeCallees_read Likeness.queryLawful_placeless)
    steady_queryItems
    (Likeness.like_queryItems likeCallees_read Likeness.queryLawful_placeless) complete_queryItems
    levels_queryItems (Seam.replays_queryItems hcalm heven) hframe hsettled hs hfaces hfits hitems
    (Nat.le_of_eq (List.length_map _))
    (Seam.clear_of_ne (by rw [hrest]; nofun) fun _ => by rw [hrest]; nofun) (.inr ⟨heven, hat⟩)
  obtain rfl : beyond = [] := List.append_left_eq_self.1 (Eq.symm hbeyond)
  obtain ⟨hquantifier, hlist⟩ := Prod.mk.inj heq
  exact ⟨items', u', hitems', hu', hquantifier, hlist⟩

/-- A relation is read again in front of anything that a rule may end in front of. -/
theorem relation_again {u u' : State} {relation : Relation} {passed rest : List Token}
    (hrelation : read .relation u = .ok relation t)
    (hpassed : u.cursor.ahead = passed ++ t.cursor.ahead) (hbalanced : Balanced passed)
    (hborder : Border t.cursor.ahead) (hframe : u.SameFrame u'.strict) (hsettled : u'.Settled)
    (hfaces : u'.Faces (passed.map Token.placeless ++ rest)) (hrest : Border rest) :
    ∃ relation' t', read .relation u' = .ok relation' t' ∧ t'.Faces rest ∧
      relation'.view .placeless = relation.view .placeless := by
  have hu : u.Faces (passed.map Token.placeless ++ t.cursor.ahead.map Token.placeless) := by
    unfold State.Faces
    rw [← List.map_append, hpassed]
  obtain ⟨relation', t', beyond, hrelation', heq, hbeyond, ht'⟩ := Seam.retell_recovering
    (B := ⟨t.cursor.ahead.map Token.placeless, rest⟩)
    (like_read .relation) (steady_read .relation) (like_read .relation)
    (complete_read .relation) (fun b => levels_related b .relation)
    Seam.replays_relation hframe hsettled hu hfaces
    ⟨show (kindAt _ 0).isBorder = true by rw [kindAt_placeless]; exact hborder, hrest,
      .inl hbalanced.placeless.sealed⟩
    hrelation (Nat.le_of_eq (List.length_map _)) Seam.Clear.closed (.inl rfl)
  obtain rfl : beyond = [] := List.append_left_eq_self.1 (Eq.symm hbeyond)
  exact ⟨relation', t', hrelation', ht', heq⟩

/-- What a query reads up to its relation is read again in front of other words, at other places. -/
theorem exists_head {u : State} {items : Option Quantifier × Option (List SelectItem)}
    {relation : Relation} (hs : s.settings.recover = false) (hitems : queryItems read s = .ok items u)
    (hword : u.cursor.current.kind = .keyword .FROM) (hrelation : read .relation u = .ok relation t)
    (hborder : Border t.cursor.ahead) :
    ∃ tokens, s.Faces (tokens ++ t.cursor.ahead.map Token.placeless) ∧
      ∀ (s' : State) (rest : List Token), s.SameFrame s'.strict → s'.Settled → Border rest →
        s'.Faces (tokens ++ rest) →
        ∃ items' relation' u' t', queryItems read s' = .ok items' u' ∧
          u'.cursor.current.kind = .keyword .FROM ∧ read .relation u' = .ok relation' t' ∧
          t'.Faces rest ∧ items'.1 = items.1 ∧
          items'.2.map (List.map (SelectItem.view .placeless)) =
            items.2.map (List.map (SelectItem.view .placeless)) ∧
          relation'.view .placeless = relation.view .placeless := by
  have hu := (steady_queryItems.leads hitems).settings
  obtain ⟨v, hv, hbalanced⟩ := balances_queryItems.balanced hs hitems
  obtain ⟨w, hw, hbalanced'⟩ := (balances_read .relation rfl).balanced (hu ▸ hs) hrelation
  -- The relation takes its word.
  have hlt := (Seam.takes_relation u t relation hrelation).2
  obtain ⟨x, w, rfl⟩ : ∃ x w', w = x :: w' := by
    cases w with
    | nil => exact absurd (hw ▸ hlt) (Nat.lt_irrefl _)
    | cons x w => exact ⟨x, w, rfl⟩
  have hx : x.kind = .keyword .FROM := by rw [← hword, current_of_ahead hw]
  refine ⟨(v ++ x :: w).map Token.placeless, ?_, fun s' rest hframe hsettled hrest hfaces => ?_⟩
  · unfold State.Faces
    rw [← List.map_append, List.append_assoc, ← hw, ← hv]
  rw [List.map_append, List.append_assoc] at hfaces
  obtain ⟨items', u', hitems', hu', hquantifier, hlist⟩ :=
    queryItems_again hitems hv hbalanced hword hframe hsettled hfaces hx
  have hleads := steady_queryItems.leads hitems'
  obtain ⟨relation', t', hrelation', ht', hview⟩ := relation_again hrelation hw hbalanced' hborder
    (hframe.leads_strict (steady_queryItems.leads hitems) hleads) (hsettled.leads hleads) hu' hrest
  exact ⟨items', relation', u', t', hitems', hu'.current.trans hx, hrelation', ht', hquantifier,
    hlist, hview⟩

/-- Behind a select list and a relation, a query goes on with its condition. -/
theorem fromWhere_of_head {u v : State} {items : Option Quantifier × Option (List SelectItem)}
    {relation : Relation} {q : Query} (hselect : s.cursor.current.kind = .keyword .SELECT)
    (hitems : queryItems read (s.skip 1) = .ok items u)
    (hword : u.cursor.current.kind = .keyword .FROM) (hrelation : read .relation u = .ok relation v)
    (hboundary : v.atBoundary = true) (h : read .query s = .ok q t) :
    fromWhere read true s.cursor.current.span
      (Query.mk items.1 (items.2.getD []) (some relation)) v = .ok q t := by
  rw [read_eq_rule] at h
  have hquery : queryRule read s = .ok q t := h
  have hend : u.atBoundary = true := by
    unfold State.atBoundary
    rw [hword]
    rfl
  have hfound : recover (read .relation) u = .ok (some relation) v := by
    unfold recover
    rw [hrelation]
  have hclause : clause true .FROM (read .relation) u = .ok (some relation) v := by
    unfold clause
    rw [atKeyword_bind_apply, hword]
    show (recover (read .relation) >>= _) u = _
    rw [bind_of_ok hfound, bind_of_ok (clauseEnd_of_atBoundary hboundary)]
    rfl
  rw [queryRule_eq_items, bind_of_ok (keyword_eq_ok_iff.2 ⟨hselect, rfl, rfl⟩), bind_of_ok hitems]
    at hquery
  unfold fromRelation at hquery
  rwa [bind_of_ok (clauseEnd_of_atBoundary hend), atKeyword_bind_apply, hword, beq_self_eq_true,
    bind_of_ok hclause] at hquery

/-- The clauses behind a relation are read one after the other. -/
theorem fromWhere_eq_ok {call : Callee} {allowed : Bool} {start : Span}
    {quantifier : Option Quantifier} {items : List SelectItem} {relation : Option Relation} {q : Query}
    (h : fromWhere call allowed start (Query.mk quantifier items relation) s = .ok q t) :
    (q.quantifier = quantifier ∧ q.items = items ∧ q.relation = relation) ∧ ∃ v w x y,
      clause allowed .WHERE (call (.condition .WHERE)) s = .ok q.condition v ∧
      clause allowed .GROUP (call .groupBy) v = .ok q.groupBy w ∧
      clause allowed .HAVING (call (.condition .HAVING)) w = .ok q.having x ∧
      clause allowed .ORDER (call .orderBy) x = .ok q.orderBy y ∧ limitClause y = .ok q.limit t := by
  obtain ⟨condition, v, hcondition, h⟩ := bind_eq_ok_iff.1 h
  obtain ⟨groupBy, w, hgroupBy, h⟩ := bind_eq_ok_iff.1 h
  obtain ⟨having, x, hhaving, h⟩ := bind_eq_ok_iff.1 h
  obtain ⟨orderBy, y, horderBy, h⟩ := bind_eq_ok_iff.1 h
  obtain ⟨limit, z, hlimit, h⟩ := bind_eq_ok_iff.1 h
  obtain ⟨span, z, hspan, h⟩ := bind_eq_ok_iff.1 h
  obtain ⟨-, rfl⟩ := EStateM.Result.ok.inj hspan
  obtain ⟨rfl, rfl⟩ := pure_eq_ok_iff.1 h
  exact ⟨⟨rfl, rfl, rfl⟩, v, w, x, y, hcondition, hgroupBy, hhaving, horderBy, hlimit⟩

/-- A clause that is missing takes nothing. -/
theorem clause_eq_none {α : Type} {p : Parser α} (hp : Steady p) {word : Keyword}
    (hs : s.settings.recover = false) (h : clause true word p s = .ok none t) : t = s := by
  obtain ⟨-, ht⟩ | ⟨a, ha, -⟩ := clause_of_strict hp hs h
  · exact ht
  · cases ha

/-- A limit that is missing takes nothing. -/
theorem limitClause_eq_none (hs : s.settings.recover = false) (h : limitClause s = .ok none t) :
    t = s := by
  by_cases hword : s.cursor.current.kind = .keyword .LIMIT
  · unfold limitClause at h
    rw [atKeyword_bind_apply, hword, beq_self_eq_true] at h
    obtain ⟨a, -, ha⟩ := (recover_eq_ok_iff steady_limit (notRecovering_of_strict hs)).1 h
    cases ha
  · rw [limitClause_of_ne hword] at h
    exact (EStateM.Result.ok.inj h).2.symm

/-- A query of a select list and a relation is read up to the end of its relation. -/
theorem head_of_endsWithRelation {q : Query} (hs : s.settings.recover = false)
    (h : read .query s = .ok q t) (hq : q.EndsWithRelation) :
    s.cursor.current.kind = .keyword .SELECT ∧ ∃ items u relation,
      queryItems read (s.skip 1) = .ok items u ∧ u.cursor.current.kind = .keyword .FROM ∧
        read .relation u = .ok relation t ∧ t.atBoundary = true := by
  rw [read_eq_rule] at h
  have hquery : queryRule read s = .ok q t := h
  rw [queryRule_eq_items] at hquery
  obtain ⟨start, _, hkeyword, hquery⟩ := bind_eq_ok_iff.1 hquery
  obtain ⟨hselect, -, rfl⟩ := keyword_eq_ok_iff.1 hkeyword
  obtain ⟨items, u, hitems, hquery⟩ := bind_eq_ok_iff.1 hquery
  have hu : u.settings.recover = false := (steady_queryItems.leads hitems).settings ▸ hs
  refine ⟨hselect, items, u, ?_⟩
  obtain ⟨_, _, hend, hquery⟩ := bind_eq_ok_iff.1 hquery
  obtain ⟨-, rfl⟩ := (clauseEnd_eq_ok_iff (notRecovering_of_strict hu)).1 hend
  rw [atKeyword_bind_apply] at hquery
  obtain ⟨found, v, hclause, hrest⟩ := bind_eq_ok_iff.1 hquery
  obtain ⟨⟨-, -, hfound⟩, -⟩ := fromWhere_eq_ok hrest
  cases hword : u.cursor.current.kind == .keyword .FROM with
  | false =>
    rw [hword] at hclause
    obtain ⟨rfl, -⟩ := pure_eq_ok_iff.1 hclause
    have hnone := hq.relation
    rw [hfound] at hnone
    cases hnone
  | true =>
    rw [hword] at hclause hrest
    obtain ⟨rfl, -⟩ | ⟨relation, -, hfrom, hrelation, hboundary⟩ :=
      clause_of_strict (steady_read .relation) hu hclause
    · have hnone := hq.relation
      rw [hfound] at hnone
      cases hnone
    obtain ⟨-, w, x, y, z, hcondition, hgroupBy, hhaving, horderBy, hlimit⟩ := fromWhere_eq_ok hrest
    -- Each of the clauses behind the relation is absent.
    have hv : v.settings.recover = false := ((steady_read .relation).leads hrelation).settings ▸ hu
    rw [hq.condition] at hcondition
    obtain rfl := clause_eq_none (steady_read _) hv hcondition
    rw [hq.groupBy] at hgroupBy
    obtain rfl := clause_eq_none (steady_read _) hv hgroupBy
    rw [hq.having] at hhaving
    obtain rfl := clause_eq_none (steady_read _) hv hhaving
    rw [hq.orderBy] at horderBy
    obtain rfl := clause_eq_none (steady_read _) hv horderBy
    rw [hq.limit] at hlimit
    obtain rfl := limitClause_eq_none hv hlimit
    exact ⟨relation, hitems, hfrom, hrelation, hboundary⟩

/-! ## The condition -/

/-- Tokens that end no clause and open and close no parenthesis. -/
def Inert (tokens : List Token) : Prop :=
  ∀ t ∈ tokens, isBoundary true t.kind = false ∧ t.kind ≠ .symbol .leftParen

instance (tokens : List Token) : Decidable (Inert tokens) :=
  inferInstanceAs (Decidable (∀ t ∈ tokens, _ ∧ _))

/-- The last of some inert tokens are inert. -/
theorem Inert.suffix {v w : List Token} (h : Inert (v ++ w)) : Inert w :=
  fun t ht => h t (List.mem_append_right v ht)

/-- An inert token is no parenthesis. -/
theorem isPlain_of_inert {kind : TokenKind} (h : isBoundary true kind = false)
    (h' : kind ≠ .symbol .leftParen) : kind.isPlain = true := by
  cases kind with
  | symbol sign => cases sign <;> first | rfl | exact absurd rfl h' | cases h
  | keyword word =>
    have hword : word.startsClause = false := h
    simp [TokenKind.isPlain, hword]
  | _ => rfl

/-- Inert tokens open and close no parenthesis. -/
theorem Inert.levels {tokens : List Token} (h : Inert tokens) (k : Nat) :
    levels? k tokens = some k := by
  induction tokens with
  | nil => rfl
  | cons t ts ih =>
    obtain ⟨hboundary, hparen⟩ := h t List.mem_cons_self
    rw [levels?_cons, levelAfter?_of_isPlain (isPlain_of_inert hboundary hparen)]
    exact ih (Inert.suffix (v := [t]) h)

/-- No clause ends among inert tokens. -/
theorem Inert.noBoundary {tokens : List Token} (h : Inert tokens) : NoBoundary tokens := by
  intro t ht
  obtain ⟨hboundary, -⟩ := h t ht
  unfold isBoundary at hboundary ⊢
  split at hboundary <;> simp_all

/-- The tokens begin with a word that starts a clause, if there are any. -/
def AtClause (tokens : List Token) : Prop :=
  tokens = [] ∨ ∃ word : Keyword, kindAt tokens 0 = .keyword word ∧ word.startsClause = true

/-- What walks off from inert tokens does not get past the word that starts the next clause. -/
theorem Inert.exists_rest {body rest v w : List Token} {k : Nat} (hbody : Inert body)
    (hrest : AtClause rest) (hlevel : levels? 0 v = some k) (hunordered : Unordered v)
    (h : body ++ rest = v ++ w) : ∃ body', body = v ++ body' ∧ w = body' ++ rest := by
  obtain ⟨beyond, rfl, hbeyond⟩ | ⟨body', rfl, hw⟩ := List.append_eq_append_iff.1 h
  · cases beyond with
    | nil => exact ⟨[], by simp, hbeyond.symm⟩
    | cons t ts =>
      exfalso
      obtain rfl | ⟨word, hword, hstarts⟩ := hrest
      · cases hbeyond
      have ht : t.kind = .keyword word := by
        rw [← hword, hbeyond]
        rfl
      by_cases horder : word = .ORDER
      · obtain ⟨p, hp, hparen⟩ := hunordered body t ts rfl (horder ▸ ht)
        exact (hbody p hp).2 hparen
      · rw [levels?_append, hbody.levels, Option.bind_some, levels?_cons, ht] at hlevel
        simp [levelAfter?, hstarts, horder] at hlevel
  · exact ⟨body', rfl, hw⟩

/-- The next boundary is behind the inert tokens. -/
theorem Inert.fromBoundary {body rest : List Token} (hbody : Inert body) (hrest : AtClause rest) :
    fromBoundary false 0 (body ++ rest) = rest := by
  obtain ⟨-, hinside, -⟩ | ⟨o, ho, -, hfrom⟩ :=
    fromBoundary_append false (w := rest) hbody.noBoundary (Nat.le_refl 0) (hbody.levels 0)
  · cases hinside
  obtain rfl := Nat.le_zero.1 ho
  rw [hfrom]
  obtain rfl | ⟨word, hword, hstarts⟩ := hrest
  · rfl
  · cases rest with
    | nil => cases hword
    | cons t ts =>
      refine fromBoundary_of_stop ?_
      rw [show t.kind = .keyword word from hword]
      simp [isBoundary, hstarts]

/-- However a condition is broken, reading goes on at the next clause. -/
theorem ahead_of_where {found : Option Condition} {body rest : List Token} (hinside : s.inside = false)
    (hword : s.cursor.current.kind = .keyword .WHERE) (hahead : (s.skip 1).cursor.ahead = body ++ rest)
    (hbody : Inert body) (hrest : AtClause rest)
    (h : clause true .WHERE (read (.condition .WHERE)) s = .ok found t) : t.cursor.ahead = rest := by
  obtain ⟨u, hrecover, hend⟩ := clause_eq_ok hword h
  have hu : u.inside = false := ((steady_read _).recover.leads hrecover).inside.trans hinside
  have ht := clauseEnd_eq_ok hend
  rw [hu] at ht
  -- Where the condition stops, a part of its tokens is left.
  have hrule : read (.condition .WHERE) s = (read .wholeExpr >>= fun expr =>
      spanFrom s.cursor.current.span >>= fun span => pure (Condition.mk expr span)) (s.skip 1) := by
    rw [read_eq_rule]
    show conditionRule read .WHERE s = _
    unfold conditionRule
    rw [bind_of_ok (keyword_eq_ok_iff.2 ⟨hword, rfl, rfl⟩)]
  have hwalk : Walks false 0 0 (read .wholeExpr >>= fun expr =>
      spanFrom s.cursor.current.span >>= fun span => pure (Condition.mk expr span)) :=
    (walking_read.level rfl).bind fun _ => (walks_spanFrom _).bind fun _ => walks_pure _
  obtain ⟨k, v, hv, hlevel, hunordered⟩ := (hwalk (s.skip 1) trivial).exists_passes
  rw [← hrule, hahead] at hv
  obtain ⟨body', rfl, hstop⟩ := hbody.exists_rest hrest hlevel (hunordered rfl) hv
  have hland := (Inert.suffix hbody).fromBoundary hrest
  obtain ⟨a, ha, -⟩ | ⟨d, x, hfails, hpass, -⟩ := recover_eq_ok hrecover
  · rw [ha, lastState_ok] at hstop
    rw [ht, hstop, hland]
  · have hx : x.inside = false := by
      have hleads := steady_read (.condition .WHERE) s
      rw [hfails] at hleads
      exact (State.Leads.inside hleads).trans hinside
    have hux := (passOver_eq_ok hpass).2
    rw [hfails, lastState_error] at hstop
    rw [hx, hstop, hland] at hux
    rw [ht, hux]
    have hagain : fromBoundary false 0 (fromBoundary false 0 (body' ++ rest)) =
      fromBoundary false 0 (body' ++ rest) := fromBoundary_idem _
    rwa [hland] at hagain

/-! ## Behind the relation -/

/-- What a query reads that ends with its relation is read again in front of a boundary, at other
places. -/
theorem exists_front {q : Query} (hs : s.settings.recover = false) (h : read .query s = .ok q t)
    (hq : q.EndsWithRelation) (hborder : Border t.cursor.ahead) :
    ∃ (tokens : List Token) (quantifier : Option Quantifier) (items : List SelectItem)
      (relation : Relation), s.Faces (tokens ++ t.cursor.ahead.map Token.placeless) ∧
      ∀ (s' : State) (rest : List Token), s.SameFrame s'.strict → s'.Settled →
        (∀ inside, isBoundary inside (kindAt rest 0) = true) → s'.Faces (tokens ++ rest) →
        ∃ items' relation' start v, s'.Leads v ∧ v.Faces rest ∧
          items'.map (SelectItem.view .placeless) = items.map (SelectItem.view .placeless) ∧
          relation'.view .placeless = relation.view .placeless ∧
          ∀ q' t', read .query s' = .ok q' t' →
            fromWhere read true start (Query.mk quantifier items' (some relation')) v = .ok q' t' := by
  obtain ⟨hselect, items, u, relation, hitems, hfrom, hrelation, -⟩ := head_of_endsWithRelation hs h hq
  -- The head of the query is read again in front of any clause, and then its rest.
  obtain ⟨tokens, hhead, hretell⟩ := exists_head (s := s.skip 1) hs hitems hfrom hrelation hborder
  have hend : s.cursor.current.isEnd = false := isEnd_of_keyword hselect
  refine ⟨s.cursor.current.placeless :: tokens, items.1, items.2.getD [], relation, ?_,
    fun s' rest hframe hsettled hboundary hfaces => ?_⟩
  · unfold State.Faces
    rw [ahead_eq_cons hend, List.map_cons]
    exact congrArg _ hhead
  · have hselect' : s'.cursor.current.kind = .keyword .SELECT := (State.Faces.current hfaces).trans hselect
    have hframe' : (s.skip 1).SameFrame (s'.skip 1).strict :=
      hframe.leads_strict (s.leads_skip 1) (s'.leads_skip 1)
    obtain ⟨items', relation', u', v, hitems', hfrom', hrelation', hv, hquantifier, hlist, hview⟩ :=
      hretell (s'.skip 1) rest hframe' hsettled (isBorder_of_isBoundary (hboundary true))
        (State.Faces.skip hfaces hend)
    have hleads := (s'.leads_skip 1).trans ((steady_queryItems.leads hitems').trans
      ((steady_read .relation).leads hrelation'))
    refine ⟨items'.2.getD [], relation', s'.cursor.current.span, v, hleads, hv, map_getD_nil hlist,
      hview, fun q' t' hquery => ?_⟩
    have hv' : v.atBoundary = true := by
      unfold State.atBoundary
      rw [hv.current]
      exact hboundary _
    rw [← hquantifier]
    exact fromWhere_of_head hselect' hitems' hfrom' hrelation' hv' hquery

/-- At the end of the input, no clause follows. -/
theorem fromWhere_of_isEnd {call : Callee} {start : Span} {allowed : Bool}
    {finish : Option Condition → Option GroupBy → Option Condition → Option OrderBy →
      Option Limit → Span → Query} (hend : s.cursor.current.kind = .endOfInput) :
    fromWhere call allowed start finish s =
      (spanFrom start >>= fun span => pure (finish none none none none none span)) s := by
  have hne (word : Keyword) : s.cursor.current.kind ≠ .keyword word := hend ▸ nofun
  unfold fromWhere fromGroup fromHaving fromOrder
  rw [bind_of_ok (clause_of_ne _ (hne .WHERE)), bind_of_ok (clause_of_ne _ (hne .GROUP)),
    bind_of_ok (clause_of_ne _ (hne .HAVING)), bind_of_ok (clause_of_ne _ (hne .ORDER)),
    bind_of_ok (limitClause_of_ne (hne .LIMIT))]

/-- The end of the input, or the next clause, is a boundary. -/
theorem AtClause.isBoundary_append {ending rest : List Token} (hend : kindAt ending 0 = .endOfInput)
    (hrest : AtClause rest) (inside : Bool) :
    isBoundary inside (kindAt (ending ++ rest) 0) = true := by
  cases ending with
  | cons t ts =>
    rw [show kindAt (t :: ts ++ rest) 0 = .endOfInput from hend]
    rfl
  | nil =>
    obtain rfl | ⟨word, hword, hstarts⟩ := hrest
    · rfl
    · rw [List.nil_append, hword]
      exact hstarts

/-- What is read behind a condition is what is read where there is none, apart from its places. -/
theorem fromGroup_retold {s' t' : State} {start start' : Span} {quantifier : Option Quantifier}
    {items items' : List SelectItem} {relation relation' : Relation} {condition : Option Condition}
    {rest : List Token} {q q' : Query}
    (hitems : items'.map (SelectItem.view .placeless) = items.map (SelectItem.view .placeless))
    (hrelation : relation'.view .placeless = relation.view .placeless)
    (hframe : s.SameFrame s'.strict) (hsettled : s'.Settled) (hs : s.Faces rest) (hs' : s'.Faces rest)
    (h : fromGroup read true start (Query.mk quantifier items (some relation) none) s = .ok q t)
    (horder : ¬t.AtOrder)
    (h' : fromGroup read true start' (Query.mk quantifier items' (some relation') condition) s' =
      .ok q' t') :
    { q'.view .placeless with condition := none } = q.view .placeless := by
  -- Both queries are seen as the rest of one that has neither places nor a condition.
  let seen := fromGroup read true default fun groupBy having orderBy limit span =>
    ⟨quantifier, items.map (SelectItem.view .placeless), some (relation.view .placeless), none,
      groupBy, having, orderBy, limit, span⟩
  have hlike : Likeness.placeless.Like false (Query.view .placeless)
      (fromGroup read true start (Query.mk quantifier items (some relation) none)) seen :=
    Likeness.like_fromGroup likeCallees_read Likeness.queryLawful_placeless true start
      fun _ _ _ _ _ => by
        rw [Query.view, viewFrom]
        rfl
  have hlike' : Likeness.placeless.Like false
      (fun q => { q.view .placeless with condition := none })
      (fromGroup read true start' (Query.mk quantifier items' (some relation') condition)) seen :=
    Likeness.like_fromGroup likeCallees_read Likeness.queryLawful_placeless true start'
      fun _ _ _ _ _ => by
        rw [Query.view, viewFrom, hitems, hrelation]
        rfl
  have hreplays : (Seam.mk [] []).Replays false .list seen :=
    Seam.replays_fromGroup (Seam.replayCallees_read Seam.calm_nil) rfl _ _ _
  have hs₁ : s.Faces (rest ++ []) := by rwa [List.append_nil]
  have hs₁' : s'.Faces (rest ++ []) := by rwa [List.append_nil]
  have hrelated : (levels s.library true).Rel false 0 false
      (fromGroup read true start (Query.mk quantifier items (some relation) none)) _ :=
    levels_fromGroup 0 _ _ _
  obtain ⟨q'', t'', -, hq'', heq, -⟩ := Seam.retell_recovering hlike hrelated.steadyLeft hlike'
    (complete_fromGroup _ _ _) (fun b => levels_fromGroup b _ _ _) hreplays hframe hsettled hs₁ hs₁'
    ⟨rfl, rfl, .inr ⟨rfl, rfl⟩⟩ h (Nat.zero_le _) (Seam.clear_of_ne nofun fun _ => nofun)
    (.inr ⟨rfl, horder⟩)
  obtain ⟨rfl, -⟩ := EStateM.Result.ok.inj (h'.symm.trans hq'')
  exact heq

/-- Where tokens stand does not matter for their being inert. -/
theorem inert_placeless {tokens : List Token} :
    Inert (tokens.map Token.placeless) ↔ Inert tokens := by
  unfold Inert
  rw [List.forall_mem_map]
  rfl

/-- Where tokens stand does not matter for a clause to start with them. -/
theorem atClause_placeless {tokens : List Token} :
    AtClause (tokens.map Token.placeless) ↔ AtClause tokens := by
  unfold AtClause
  rw [List.map_eq_nil_iff, kindAt_placeless]

/-- A query with a broken condition is read as the query without a condition is, if a query that ends
in front of it is read as well. -/
theorem query_where {s₀ s₁ s₂ t₀ t₁ t₂ : State} {q₀ q₁ q₂ : Query} {front body rest : List Token}
    {word : Token} (hstrict : s₀.settings.recover = false) (hframe₁ : s₀.SameFrame s₁.strict)
    (hframe₂ : s₀.SameFrame s₂.strict) (hsettled₁ : s₁.Settled) (hsettled₂ : s₂.Settled)
    (hs₁ : s₁.settings.recover = false) (hinside : s₂.inside = false)
    (h₀ : read .query s₀ = .ok q₀ t₀) (hq₀ : q₀.EndsWithRelation)
    (hend : t₀.cursor.current.kind = .endOfInput) (h₁ : read .query s₁ = .ok q₁ t₁)
    (horder : ¬t₁.AtOrder) (h₂ : read .query s₂ = .ok q₂ t₂) (hfaces₀ : s₀.Faces front)
    (hfaces₁ : s₁.Faces (front ++ rest)) (hfaces₂ : s₂.Faces (front ++ word :: (body ++ rest)))
    (hword : word.kind = .keyword .WHERE) (hbody : Inert body) (hrest : AtClause rest)
    (hwhere : kindAt rest 0 ≠ .keyword .WHERE) :
    { q₂.view .placeless with condition := none } = q₁.view .placeless := by
  obtain ⟨tokens, quantifier, items, relation, hfront, hretell⟩ :=
    exists_front hstrict h₀ hq₀ (by unfold Border; rw [kindAt_zero, hend]; rfl)
  -- Behind the relation there is the end, perhaps with more tokens behind it.
  generalize hending : t₀.cursor.ahead.map Token.placeless = ending at hfront
  have hend' : kindAt ending 0 = .endOfInput := by
    rw [← hending, kindAt_placeless, kindAt_zero, hend]
  obtain rfl : tokens ++ ending = front := hfront.symm.trans hfaces₀
  rw [List.append_assoc] at hfaces₁ hfaces₂
  obtain ⟨items₁, relation₁, start₁, v₁, hleads₁, hv₁, hitems₁, hrelation₁, hrun₁⟩ :=
    hretell s₁ _ hframe₁ hsettled₁ (hrest.isBoundary_append hend') hfaces₁
  have hclause : AtClause (word :: (body ++ rest)) := .inr ⟨.WHERE, hword, rfl⟩
  obtain ⟨items₂, relation₂, start₂, v₂, hleads₂, hv₂, hitems₂, hrelation₂, hrun₂⟩ :=
    hretell s₂ _ hframe₂ hsettled₂ (hclause.isBoundary_append hend') hfaces₂
  specialize hrun₁ q₁ t₁ h₁
  specialize hrun₂ q₂ t₂ h₂
  cases ending with
  | cons x ending =>
    -- All three end there.
    rw [fromWhere_of_isEnd (hv₁.current.trans hend')] at hrun₁
    rw [fromWhere_of_isEnd (hv₂.current.trans hend')] at hrun₂
    obtain ⟨rfl, -⟩ := EStateM.Result.ok.inj hrun₁
    obtain ⟨rfl, -⟩ := EStateM.Result.ok.inj hrun₂
    simp only [Query.view, viewFrom, hitems₁, hitems₂, hrelation₁, hrelation₂]
    rfl
  | nil =>
    rw [List.nil_append] at hv₁ hv₂
    -- Without a condition, the next clause is read where the relation ends; with one, behind it.
    unfold fromWhere at hrun₁ hrun₂
    rw [bind_of_ok (clause_of_ne true (hv₁.current ▸ hwhere))] at hrun₁
    obtain ⟨condition, w, hcondition, hrun₂⟩ := bind_eq_ok_iff.1 hrun₂
    have hskip : (v₂.skip 1).Faces (body ++ rest) :=
      hv₂.skip (isEnd_eq_false (hword ▸ nofun))
    obtain ⟨body, rest, hahead, rfl, rfl⟩ := List.map_eq_append_iff.1 hskip
    have hw : w.Faces (rest.map Token.placeless) :=
      congrArg (List.map Token.placeless) <| ahead_of_where
        ((State.Leads.inside hleads₂).trans hinside) (hv₂.current.trans hword) hahead
        (inert_placeless.1 hbody) (atClause_placeless.1 hrest) hcondition
    have hsteady : Steady (clause true .WHERE (read (.condition .WHERE))) :=
      steady_clause (steady_read _) true .WHERE
    have hleads := hleads₂.trans (hsteady.leads hcondition)
    have hframe : v₁.SameFrame w.strict := by
      have hframe := State.SameFrame.trans hframe₁.symm hframe₂
      rw [State.strict_eq hs₁] at hframe
      exact hframe.leads_strict hleads₁ hleads
    exact fromGroup_retold (hitems₂.trans hitems₁.symm) (hrelation₂.trans hrelation₁.symm) hframe
      (hsettled₂.leads hleads) hv₁ hw hrun₁ horder hrun₂

/-! ## The whole input -/

/-- A statement that selects is read by the rule of queries. -/
theorem query_of_statementRule {q : Query} (h : statementRule read s = .ok (.select q) t) :
    read .query s = .ok q t := by
  unfold statementRule at h
  rw [current_bind_apply] at h
  generalize s.cursor.current = token at h
  obtain ⟨kind, text, span⟩ := token
  cases kind with
  | keyword word =>
    cases word with
    | SELECT =>
      obtain ⟨q', hq', hq⟩ := map_eq_ok_iff.1 h
      obtain rfl := Statement.select.inj hq
      exact hq'
    | SHOW =>
      obtain ⟨_, _, -, h⟩ := bind_eq_ok_iff.1 h
      obtain ⟨_, _, -, h⟩ := bind_eq_ok_iff.1 h
      obtain ⟨_, _, -, h⟩ := bind_eq_ok_iff.1 h
      obtain ⟨_, _, -, h⟩ := bind_eq_ok_iff.1 h
      cases h
    | DESCRIBE =>
      obtain ⟨_, _, -, h⟩ := bind_eq_ok_iff.1 h
      obtain ⟨_, _, -, h⟩ := bind_eq_ok_iff.1 h
      obtain ⟨_, _, -, h⟩ := bind_eq_ok_iff.1 h
      obtain ⟨_, _, -, h⟩ := bind_eq_ok_iff.1 h
      obtain ⟨_, _, -, h⟩ := bind_eq_ok_iff.1 h
      cases h
    | _ => cases h
  | _ => cases h

/-- At its start a parse has settled every attempt. -/
theorem settled_ofTokens [Time.Library] (tokens : List Token) (settings : Settings) :
    (State.ofTokens tokens settings).Settled := nofun

/-- A query that is read without a diagnostic ends at the end of the input or at a semicolon. -/
theorem query_of_isClean [Time.Library] {tokens : List Token} {settings : Settings} {q : Query}
    (hrecover : settings.recover = true) (hclean : (parseTokens tokens settings).isClean = true)
    (hq : (parseTokens tokens settings).statement = some (.select q)) :
    ∃ t, read .query (State.ofTokens tokens { settings with recover := false }) = .ok q t ∧
      t.behindSemicolon.cursor.current.isEnd = true := by
  obtain ⟨u, hrun⟩ := (isClean_iff tokens hrecover _).1 ⟨hclean, hq⟩
  have hstrict : (State.ofTokens tokens { settings with recover := false }).isRecovering = false :=
    notRecovering_of_strict rfl
  rw [runRoot_eq] at hrun
  obtain ⟨t, hstatement, rfl, hend⟩ := (rootRule_eq_ok_iff (steady_read .query) hstrict).1 hrun
  obtain ⟨-, hrule⟩ := statementRule_of_optionalStatement (steady_read .query) hstrict hstatement
  exact ⟨t, query_of_statementRule hrule, hend⟩

/-- A run that ends in front of the last semicolon, or the end of the input, does so in front of the
end if there is no semicolon. -/
theorem isEnd_of_behindSemicolon (hleads : s.Leads t)
    (hnone : ∀ u ∈ s.cursor.ahead, u.kind ≠ .symbol .semicolon)
    (hend : t.behindSemicolon.cursor.current.isEnd = true) :
    t.cursor.current.kind = .endOfInput := by
  unfold State.behindSemicolon at hend
  split at hend
  · next hkind =>
    refine absurd hkind (hnone _ (hleads.ahead.subset ?_))
    rw [ahead_eq_cons (isEnd_of_symbol hkind)]
    exact List.mem_cons_self
  · exact eq_of_beq hend

/-- There is no order at the end of the input. -/
theorem not_atOrder_of_behindSemicolon (hend : t.behindSemicolon.cursor.current.isEnd = true) :
    ¬t.AtOrder := by
  intro horder
  have hne : t.cursor.current.kind ≠ .symbol .semicolon := by
    rw [show t.cursor.current.kind = _ from horder]
    nofun
  unfold State.behindSemicolon at hend
  rw [if_neg hne, isEnd_of_keyword horder] at hend
  cases hend

end Grammar

/-- The input is `body` and its end, wherever its tokens stand. -/
def ConsistsOf (input body : List Token) : Prop :=
  (Cursor.ofTokens input).ahead.map Token.placeless = body.map Token.placeless

instance (input body : List Token) : Decidable (ConsistsOf input body) :=
  inferInstanceAs (Decidable (_ = _))

/-- The input is read as the query, without a diagnostic. -/
def ReadsCleanly [Time.Library] (settings : Settings) (input : List Token) (q : Query) : Prop :=
  (parseTokens input settings).isClean = true ∧
    (parseTokens input settings).statement = some (.select q)

/-- A condition, however broken it is, changes nothing in the rest of a query: a parse that recovers
reads what it reads where there is no condition, at other places. -/
theorem parseTokens_where [Time.Library] {alone short long front body rest : List Token}
    {word : Token} {settings : Settings} {q q' : Query} (hrecover : settings.recover = true)
    (halone : ConsistsOf alone front) (hq : ReadsCleanly settings alone q)
    (hends : q.EndsWithRelation) (hsemicolon : ∀ t ∈ front, t.kind ≠ .symbol .semicolon)
    (hshort : ConsistsOf short (front ++ rest)) (hq' : ReadsCleanly settings short q')
    (hrest : rest = [] ∨
      ∃ clause ∈ [Keyword.GROUP, .HAVING, .ORDER, .LIMIT], kindAt rest 0 = .keyword clause)
    (hlong : ConsistsOf long (front ++ word :: (body ++ rest))) (hword : word.kind = .keyword .WHERE)
    (hbody : Inert body) (hdone : (parseTokens long settings).aborted = false) :
    ∃ q'', (parseTokens long settings).statement = some (.select q'') ∧
      { q''.view .placeless with condition := none } = q'.view .placeless := by
  obtain ⟨t₀, h₀, hend₀⟩ := query_of_isClean hrecover hq.1 hq.2
  obtain ⟨t₁, h₁, hend₁⟩ := query_of_isClean hrecover hq'.1 hq'.2
  have hselect := (head_of_endsWithRelation rfl h₀ hends).1
  have hend : t₀.cursor.current.kind = .endOfInput := by
    refine isEnd_of_behindSemicolon ((steady_read .query).leads h₀) (fun u hu hkind => ?_) hend₀
    obtain ⟨x, hx, hplace⟩ := List.mem_map.1 (halone ▸ List.mem_map_of_mem hu)
    exact hsemicolon x hx ((congrArg Token.kind hplace).trans hkind)
  have hclause : AtClause rest ∧ kindAt rest 0 ≠ .keyword .WHERE := by
    obtain rfl | ⟨clause, hmem, hkind⟩ := hrest
    · exact ⟨.inl rfl, nofun⟩
    · rw [hkind]
      simp only [List.mem_cons, List.not_mem_nil, or_false] at hmem
      obtain rfl | rfl | rfl | rfl := hmem <;> exact ⟨.inr ⟨_, hkind, rfl⟩, nofun⟩
  simp only [ConsistsOf, List.map_append, List.map_cons] at hshort hlong
  -- The third starts with the word of the first.
  have hstart : (State.ofTokens long settings).cursor.current.kind = .keyword .SELECT := by
    rw [State.Faces.current (s := State.ofTokens long settings) hlong]
    have hfront := (State.Faces.current (s := State.ofTokens alone settings) halone).symm.trans hselect
    cases front with
    | nil => cases hfront
    | cons x front => exact hfront
  unfold parseTokens at hdone ⊢
  cases hrun : runRoot long settings with
  | error e t => cases e <;> (rw [hrun] at hdone; cases hdone)
  | ok statement t =>
    cases long with
    | nil => cases hstart
    | cons select behind =>
    have hkind : select.kind = .keyword .SELECT :=
      (congrArg Token.kind (current_ofTokens select behind)).symm.trans hstart
    obtain ⟨q'', t₂, h₂, rfl⟩ := query_of_runRoot hkind hrecover hrun
    refine ⟨q'', rfl, ?_⟩
    have hframe : (State.ofTokens alone { settings with recover := false }).SameFrame
        (State.ofTokens short { settings with recover := false }).strict :=
          ⟨rfl, rfl, rfl, rfl, rfl, rfl⟩
    have hframe' : (State.ofTokens alone { settings with recover := false }).SameFrame
        (State.ofTokens (select :: behind) settings).strict := ⟨rfl, rfl, rfl, rfl, rfl, rfl⟩
    have hword' : word.placeless.kind = .keyword .WHERE := hword
    have hwhere : kindAt (rest.map Token.placeless) 0 ≠ .keyword .WHERE := by
      rw [kindAt_placeless]
      exact hclause.2
    exact query_where rfl hframe hframe' (settled_ofTokens _ _) (settled_ofTokens _ _) rfl rfl h₀ hends
      hend h₁ (not_atOrder_of_behindSemicolon hend₁) h₂ halone hshort hlong hword'
      (inert_placeless.2 hbody) (atClause_placeless.2 hclause.1) hwhere

/-- A condition of two equals signs is left out, and the groups behind it are read. -/
theorem parseTokens_where_equals :
    let front : List Token :=
      [⟨.keyword .SELECT, "SELECT", ⟨0, 6⟩⟩, ⟨.symbol .star, "*", ⟨7, 8⟩⟩,
        ⟨.keyword .FROM, "FROM", ⟨9, 13⟩⟩, ⟨.name "t", "t", ⟨14, 15⟩⟩]
    let groups : List Token :=
      [⟨.keyword .GROUP, "GROUP", ⟨16, 21⟩⟩, ⟨.keyword .BY, "BY", ⟨22, 24⟩⟩, ⟨.name "a", "a", ⟨25, 26⟩⟩]
    let q' : Query := ⟨none, [.star ⟨7, 8⟩], some (.table ⟨[⟨"t", false, ⟨14, 15⟩⟩], ⟨14, 15⟩⟩ none), none,
      some ⟨[.predicate (.atom (.column ⟨[⟨"a", false, ⟨25, 26⟩⟩], ⟨25, 26⟩⟩))], ⟨16, 26⟩⟩, none, none,
      none, ⟨0, 26⟩⟩
    let long := Token.tokenize "SELECT * FROM t WHERE = = GROUP BY a"
    ReadsCleanly Settings.standard (front ++ groups) q' ∧
      (parseTokens long Settings.standard).diagnostics.length = 1 ∧
      ∃ q'', (parseTokens long Settings.standard).statement = some (.select q'') ∧
        { q''.view .placeless with condition := none } = q'.view .placeless := by
  intro front groups q' long
  let q : Query := ⟨none, [.star ⟨7, 8⟩], some (.table ⟨[⟨"t", false, ⟨14, 15⟩⟩], ⟨14, 15⟩⟩ none), none,
    none, none, none, none, ⟨0, 15⟩⟩
  have hq : ReadsCleanly Settings.standard front q := ⟨by decide +kernel, rfl⟩
  have hq' : ReadsCleanly Settings.standard (front ++ groups) q' := ⟨by decide +kernel, rfl⟩
  have hlong : ConsistsOf long (front ++ ⟨.keyword .WHERE, "WHERE", ⟨0, 5⟩⟩ ::
      ([⟨.symbol .eq, "=", ⟨0, 1⟩⟩, ⟨.symbol .eq, "=", ⟨0, 1⟩⟩] ++ groups)) := by decide +kernel
  refine ⟨hq', by decide +kernel, ?_⟩
  exact parseTokens_where rfl (by decide +kernel) hq ⟨rfl, rfl, rfl, rfl, rfl, rfl⟩ (by decide)
    (by decide +kernel) hq' (.inr ⟨.GROUP, by decide, rfl⟩) hlong rfl (by decide) (by decide +kernel)

end SearchSql
