import SearchSql.Proofs.Agreement
import SearchSql.Proofs.QueryReplaying

/-!
# Orders that nothing but an aggregate takes

An attempt to read `ORDER BY` as a part of an aggregate is given up where no filter follows, and the
order is left to others. Within an expression these can only be windows, and a window closes its
parenthesis behind the order. So an order is left for good where no parenthesis is closed any more
(`isExposed`), and then the run fails.

A filter that stands behind a seam may keep such an attempt from being given up, which is why a seam
has to be calm for what is in front of it to be repeated. But where the expression is read to its end,
no such attempt was given up: the run is that of a grammar in which none may be (`eagerDerive`), and
this grammar takes no notice of filters behind the seam (`Seam.replays_firm`).
-/

set_option autoImplicit false

namespace SearchSql.Grammar

open SearchSql.Grammar.Parser

variable {α β : Type}

/-! ## Exposed orders -/

/-- The tokens ahead but the last `n`. -/
def frontOf (n : Nat) (c : Cursor) : List Token := c.ahead.take (c.ahead.length - n)

/-- Whether the cursor is at an order in front of the last `n` tokens, and no parenthesis that is open
is closed between the two. -/
def isExposed (n : Nat) (c : Cursor) : Bool :=
  c.current.kind == .keyword .ORDER && decide (n < c.ahead.length) &&
    (levels? 0 (parensOf (frontOf n c))).isSome

/-- An order is exposed where no parenthesis is closed between it and the last tokens. -/
theorem isExposed_iff {n : Nat} {c : Cursor} : isExposed n c = true ↔
    c.current.kind = .keyword .ORDER ∧ n < c.ahead.length ∧
      ∃ l, levels? 0 (parensOf (frontOf n c)) = some l := by
  simp only [isExposed, Bool.and_eq_true, beq_iff_eq, decide_eq_true_eq, Option.isSome_iff_exists,
    and_assoc]

/-- The tokens ahead but the last ones are those in front of them. -/
theorem frontOf_append {c : Cursor} {tokens rest : List Token} (h : c.ahead = tokens ++ rest) :
    frontOf rest.length c = tokens := by
  unfold frontOf
  rw [h, List.length_append, Nat.add_sub_cancel, List.take_left]

/-- In front of the last tokens stand those passed and those still ahead. -/
theorem frontOf_behind {n : Nat} {c c' : Cursor} {passed : List Token}
    (h : c.ahead = passed ++ c'.ahead) (hle : n ≤ c'.ahead.length) :
    frontOf n c = passed ++ frontOf n c' := by
  unfold frontOf
  rw [h, List.length_append, Nat.add_sub_assoc hle, List.take_length_add_append]

/-- A cursor further on has fewer tokens in front of the last ones. -/
theorem frontOf_suffix {n : Nat} {c c' : Cursor} (h : c'.ahead <:+ c.ahead) :
    frontOf n c' <:+ frontOf n c := by
  obtain ⟨passed, hpassed⟩ := h
  by_cases hle : n ≤ c'.ahead.length
  · exact ⟨passed, (frontOf_behind hpassed.symm hle).symm⟩
  · have hnil : frontOf n c' = [] := by
      unfold frontOf
      rw [Nat.sub_eq_zero_of_le (Nat.le_of_not_le hle), List.take_zero]
    exact hnil ▸ List.nil_suffix

/-! ## The grammar that gives up no order that is exposed -/

/-- An attempt at a filter behind an order that must not be given up where the order is exposed. -/
def eagerFilter (n : Nat) (call : Callee) : Parser (Option (OrderBy × Filter)) := do
  let here ← get
  let found ← attempt "ordered aggregate filter" (orderedFilter call)
  if found.isNone && isExposed n here.cursor then rejectCurrent "filter"
  return found

/-- Runs the rule of a nonterminal where no order that is exposed is given up. -/
def eagerDerive (n : Nat) : Nat → {α : Type} → Nonterminal α → Parser α
  | 0, _, _ => throw .outOfFuel
  | fuel + 1, _, m =>
      ruleWith (fun aggregate =>
        tailAround (eagerDerive n fuel) aggregate (eagerFilter n (eagerDerive n fuel)))
        (eagerDerive n fuel) m

variable {n fuel : Nat}

/-- A filter that must not be given up starts behind a token of its own. -/
theorem waits_eagerDerive_filter (n fuel : Nat) : Waits true (eagerDerive n fuel .filter) := by
  cases fuel with
  | zero => exact fun _ _ _ _ h => nomatch h
  | succ fuel => exact (waits_keyword (by decide)).bind_firm

/-- An attempt that must not be given up is as steady as the filter. -/
theorem steady_eagerFilter {c : Callee} (h : Steady (orderedFilter c)) : Steady (eagerFilter n c) := by
  refine steady_get_bind fun _ => h.attempt.bind fun found => ?_
  split
  · exact (steady_current_bind fun _ => steady_reject _).bind fun _ => steady_pure _
  · exact steady_pure _

/-- What follows an aggregate is steady if its parts are. -/
theorem steady_tailAround {c : Callee} {ordered : Parser (Option (OrderBy × Filter))}
    (hwindow : Steady (c .window)) (hfilter : Steady (c .filter)) (hordered : Steady ordered)
    (aggregate : Aggregate) : Steady (tailAround c aggregate ordered) :=
  (steady_congruence.tailAround (b := 0) ⟨hwindow, hwindow⟩ ⟨hfilter, hfilter⟩ ⟨hordered, hordered⟩
    aggregate).1

/-- The rules that give up no exposed order are steady. -/
theorem steady_eagerDerive (n fuel : Nat) (m : Nonterminal α) : Steady (eagerDerive n fuel m) := by
  induction fuel generalizing α with
  | zero => exact State.Leads.refl
  | succ fuel ih =>
    have horder : Steady (orderedFilter (eagerDerive n fuel)) :=
      (ih .orderBy).bind fun _ => (ih .filter).bind fun _ => steady_pure _
    exact ruleWith_of_rule (P := fun _ p => Steady p)
      (steady_tailAround (ih .window) (ih .filter) (steady_eagerFilter horder))
      (steady_rule ih (waits_eagerDerive_filter n fuel)) m

/-- The rules that give up no exposed order pass balanced tokens. -/
theorem walking_eagerDerive (n fuel : Nat) : Walking (eagerDerive n fuel) := by
  induction fuel with
  | zero => exact fun m => m.way.of_throw
  | succ fuel ih =>
    refine ruleWith_of_rule (P := fun m p => m.way.Of p) (fun aggregate k => ?_) ih.rule
    refine walks_tailAround ih (walks_get_bind fun _ =>
      ((walks_orderedFilter ih).attempt _).bind fun found => ?_) aggregate
    split
    · exact walks_rejectCurrent_bind _ _
    · exact walks_pure _

/-! ## Comparing the two grammars -/

/-- A run has failed, and not for want of fuel. -/
def Rejected (r : Run α) : Prop := ∃ d t, r = .error (.rejected d) t

/-- A run that has failed does not go on. -/
theorem Rejected.andThen {r : Run α} (h : Rejected r) (f : α → Parser β) :
    Rejected (Run.andThen r f) := by
  obtain ⟨d, t, rfl⟩ := h
  exact ⟨d, t, rfl⟩

/-- A failure stays one in a changed state. -/
theorem Rejected.mapState {r : Run α} (h : Rejected r) (f : State → State) :
    Rejected (mapState f r) := by
  obtain ⟨d, t, rfl⟩ := h
  exact ⟨d, f t, rfl⟩

/-- The runs of the rules and those that give up no order that is exposed, in front of the last `n`
tokens, are compared for being the same. The first may leave an order for which the second fails. -/
def eager (n : Nat) : Simulation where
  frame s s' := s.SameFrame s' ∧ s.settings.recover = false ∧ Sealed (frontOf n s.cursor)
  log _ _ := True
  left _ c := isExposed n c = true
  right _ _ := False
  parted r r' := Failed r ∧ Rejected r'
  astray _ r r' := (∃ a t, r = .ok a t ∧ isExposed n t.cursor = true) ∧ Rejected r'

/-- The comparison of the two grammars is kept by every combination of rules. -/
theorem eager_lawful : (eager n).Lawful where
  frame_library h := h.1.library
  frame_leads h ht ht' :=
    ⟨h.1.leads ht ht', ht.settings ▸ h.2.1, h.2.2.suffix (frontOf_suffix ht.ahead)⟩
  frame_deeper h hcost hin hin' :=
    have hdeeper := identity_lawful.frame_deeper h.1 hcost hin hin'
    ⟨⟨hdeeper.1, h.2⟩, hdeeper.2⟩
  frame_separatingHere h := ⟨identity_lawful.frame_separatingHere h.1, h.2⟩
  log_same _ _ _ := trivial
  left_atOrder h := (isExposed_iff.1 h).1
  right_atOrder := False.elim
  parted_andThen h _ _ := ⟨h.1.andThen _, h.2.andThen _⟩
  parted_mapState h _ _ := ⟨h.1.mapState _, h.2.mapState _⟩
  parted_reject {α s s'} d _ := ⟨failed_reject d s, d, s', rfl⟩
  parted_nest {α s s' cost p q} h hparted := by
    obtain ⟨hsettings, -, hdepth, -⟩ := h.frame.1
    rw [← hsettings, ← hdepth, or_self] at hparted
    refine ⟨failed_nest hparted, ?_⟩
    rw [hsettings, hdepth] at hparted
    rw [nest_apply, if_pos hparted]
    exact ⟨_, s', rfl⟩
  astray_andThen {α β γ b firm r r' f g} h hframe _ hb _ _ _ hf _ := by
    -- The first run has given up a filter at an exposed order and can go no further, as the second
    -- is refused.
    obtain ⟨⟨a, t, rfl, hexposed⟩, hrejected⟩ := h
    show (eager n).Agree b firm (f a t) (Run.andThen r' g)
    cases hrun : f a t with
    | error e u => exact .parted ⟨⟨e, u, rfl⟩, hrejected.andThen g⟩
    | ok x u =>
      obtain ⟨hfirm, hu⟩ := hf a t u x ⟨hexposed, hframe, hb⟩ hrun
      exact .astray hfirm ⟨⟨x, u, rfl, hu.1⟩, hrejected.andThen g⟩
  astray_mapState {α β b b' r r' f g} h _ hf _ := by
    obtain ⟨⟨a, t, rfl, hexposed⟩, hrejected⟩ := h
    refine ⟨⟨a, f t, rfl, ?_⟩, hrejected.mapState g⟩
    rw [(hf t).2]
    exact hexposed
  malformedLiteral {b s s'} kind text fault span h := by
    have hstrict' : s'.settings.recover = false := h.frame.1.settings ▸ h.frame.2.1
    rw [malformedLiteral_of_strict h.frame.2.1, malformedLiteral_of_strict hstrict']
    exact .parted ⟨⟨_, _, rfl⟩, _, _, rfl⟩

/-- Attempts come to the same in both grammars. -/
theorem eager_attempt {b : Nat} {d : Callee}
    (h : (eager n).Rel false b true (orderedFilter read) (orderedFilter d)) :
    (eager n).Rel false b false (attempt "ordered aggregate filter" (orderedFilter read))
      (attempt "ordered aggregate filter" (orderedFilter d)) := by
  refine ⟨h.steadyLeft.attempt, h.steadyRight.attempt, fun {s s'} hs hb hb' _ => ?_⟩
  have hagree := h.agree (s := s.trying) (u := s'.trying) ⟨hs.cursor, ⟨hs.frame.1.trying, hs.frame.2⟩,
    trivial⟩ hb hb' nofun
  rw [attempt_apply (p := orderedFilter d)]
  obtain ⟨x, t, hrun, heq⟩ | ⟨e, t, hrun, heq⟩ := attempt_orderedFilter s
  · rw [heq]
    rw [hrun] at hagree
    generalize orderedFilter d s'.trying = r at hagree
    cases hagree with
    | ok _ hcursor _ => exact .ok (some x) hcursor trivial
    | parted hparted =>
      obtain ⟨⟨_, _, heq⟩, -⟩ := hparted
      cases heq
    | astray hfirm _ => cases hfirm
  · rw [heq]
    rw [hrun] at hagree
    generalize orderedFilter d s'.trying = r at hagree
    cases hagree with
    | parted hparted =>
      obtain ⟨-, d', u, rfl⟩ := hparted
      exact .ok none hs.cursor trivial
    | astray hfirm _ => cases hfirm

/-- An order that is exposed is given up in the first grammar only. -/
theorem eager_filter {b : Nat} {d : Callee}
    (h : (eager n).Rel false b true (orderedFilter read) (orderedFilter d)) :
    (eager n).Rel false b false (attempt "ordered aggregate filter" (orderedFilter read))
      (eagerFilter n d) := by
  refine ⟨h.steadyLeft.attempt, steady_eagerFilter h.steadyRight, fun {s s'} hs hb hb' _ => ?_⟩
  have hagree := (eager_attempt h).agree hs hb hb' nofun
  -- An attempt that is given up leaves the cursor where it was.
  have hstays (t : State) (hrun : attempt "ordered aggregate filter" (orderedFilter read) s =
      .ok none t) : t.cursor = s.cursor := by
    obtain ⟨x, u, -, heq⟩ | ⟨d, u, -, heq⟩ := attempt_orderedFilter s
    · cases heq.symm.trans hrun
    · obtain ⟨-, rfl⟩ := EStateM.Result.ok.inj (heq.symm.trans hrun)
      rfl
  unfold eagerFilter
  rw [get_bind_apply, bind_apply_andThen, ← hs.cursor]
  generalize attempt "ordered aggregate filter" (orderedFilter read) s = r at hagree hstays
  generalize attempt "ordered aggregate filter" (orderedFilter d) s' = r' at hagree
  cases hagree with
  | @ok found t t' hcursor hlog =>
    cases found with
    | some x => exact .ok (some x) hcursor hlog
    | none =>
      cases hexposed : isExposed n s.cursor with
      | false => exact .ok none hcursor hlog
      | true =>
        rw [← hstays t rfl] at hexposed
        exact .astray rfl ⟨⟨none, t, rfl, hexposed⟩, _, t', rfl⟩
  | parted hparted => exact .parted ⟨hparted.1, hparted.2.andThen _⟩
  | astray hfirm hastray => exact .astray hfirm ⟨hastray.1, hastray.2.andThen _⟩

/-- Between parentheses that are closed, no order is exposed. -/
theorem not_exposed_of_open {s t : State} {passed : List Token} (hsealed : Sealed (frontOf n s.cursor))
    (hopen : s.cursor.current.kind = .symbol .leftParen)
    (hpassed : (s.skip 1).cursor.ahead = passed ++ t.cursor.ahead) (hlevel : levels? 0 passed = some 0) :
    isExposed n t.cursor = false := by
  refine Bool.eq_false_iff.2 fun hexposed => ?_
  obtain ⟨-, hlt, l, hl⟩ := isExposed_iff.1 hexposed
  have hahead : s.cursor.ahead = (s.cursor.current :: passed) ++ t.cursor.ahead := by
    rw [List.cons_append, ← hpassed]
    exact ahead_eq_cons (isEnd_of_symbol hopen)
  have hlevels : levels? 0 (s.cursor.current :: passed) = some 1 := by
    rw [levels?_cons, hopen]
    exact levels?_add 1 hlevel
  have hone : levels? 0 (parensOf (frontOf n s.cursor)) = some (l + 1) := by
    rw [frontOf_behind hahead (Nat.le_of_lt hlt), parensOf_append, levels?_append,
      levels?_parensOf hlevels]
    exact Nat.zero_add 1 ▸ levels?_add 1 hl
  exact absurd (hsealed _ (List.suffix_refl _) _ hone) (Nat.succ_ne_zero l)

/-- A window closes its parenthesis, so that no order is exposed between the two. -/
theorem eager_window {b : Nat} {d : Callee}
    (hexpr : (eager n).Rel false b false (read .wholeExpr) (d .wholeExpr))
    (horder : (eager n).Rel false b false (read .orderBy) (d .orderBy)) :
    (eager n).Rel false b true (windowRule read) (windowRule d) := by
  have hR := (Simulation.family (eager_lawful (n := n))).congruence false
  have hpartition := hR.partitionBy hexpr
  have hend (start : Span) (partition : Option PartitionBy) := hR.windowEnd horder start partition
  have hbehind {c : Callee} (hp : Steady (partitionBy c)) (start : Span)
      (hw : ∀ partition, Steady (windowEnd c start partition)) :
      Steady (symbol .leftParen >>= fun _ => partitionBy c >>= windowEnd c start) :=
    (steady_symbol _).bind fun _ => hp.bind hw
  have hsteady := fun start => hbehind hpartition.steadyLeft start fun p => (hend start p).steadyLeft
  have hsteady' := fun start =>
    hbehind hpartition.steadyRight start fun p => (hend start p).steadyRight
  refine ⟨(steady_keyword _).bind hsteady, (steady_keyword _).bind hsteady', fun hs hb hb' _ => ?_⟩
  refine (hR.keyword .OVER).andThen eager_lawful hs hb hb' nofun hsteady hsteady'
    (fun start s s' _ _ hs hb hb' _ => ?_) nofun nofun
  refine (hR.symbol .leftParen).andThen eager_lawful hs hb hb' nofun
    (fun _ => hpartition.steadyLeft.bind fun p => (hend start p).steadyLeft)
    (fun _ => hpartition.steadyRight.bind fun p => (hend start p).steadyRight)
    (fun _ t t' hparen _ ht hbt hbt' _ => ?_) nofun nofun
  obtain ⟨hopen, -, rfl⟩ := symbol_eq_ok_iff.1 hparen
  rw [bind_apply_andThen, bind_apply_andThen]
  have hleads := hpartition.steadyLeft (s.skip 1)
  have hleads' := hpartition.steadyRight t'
  -- The partition ends between the parentheses.
  have hagree : (eager n).Agree b true (partitionBy read (s.skip 1)) (partitionBy d t') := by
    have hwalk : Walks true 0 0 (partitionBy read) := walks_partitionBy walking_read
    have hends := hwalk (s.skip 1) trivial
    have hagree := hpartition.agree ht hbt hbt' nofun
    generalize partitionBy read (s.skip 1) = r at hends hagree
    generalize partitionBy d t' = r' at hagree
    cases hagree with
    | ok partition hcursor hlog => exact .ok partition hcursor hlog
    | parted hparted => exact .parted hparted
    | astray _ hastray =>
      obtain ⟨⟨partition, u, rfl, hexposed⟩, -⟩ := hastray
      obtain ⟨passed, hpassed, hlevel, -⟩ := hends
      rw [not_exposed_of_open hs.frame.2.2 hopen hpassed hlevel] at hexposed
      cases hexposed
  exact hagree.andThen eager_lawful (eager_lawful.frame_leads ht.frame hleads hleads')
    (hleads.budget_le hbt) (hleads'.budget_le hbt') (fun p => (hend start p).steadyLeft)
    (fun p => (hend start p).steadyRight)
    (fun partition u u' hu hu' hlinked => by
      rw [hu] at hleads
      rw [hu'] at hleads'
      exact (hend start partition).agree hlinked (hleads.budget_le hbt) (hleads'.budget_le hbt') nofun)
    nofun nofun

/-- Both grammars read the same, unless an order that is exposed is left. -/
theorem eager_related {b : Nat} (m : Nonterminal α) (hm : m.isQuery = false) (h : m.fuel b ≤ fuel) :
    (eager n).Rel m.isPredicate b m.firm (read m) (eagerDerive n fuel m) := by
  refine Nonterminal.fuel_induction
    (P := fun b fuel _ m => m.isQuery = false →
      (eager n).Rel m.isPredicate b m.firm (read m) (eagerDerive n fuel m))
    (fun {b fuel α} m hflat hdeep hm => ?_) m h hm
  have hfamily := Simulation.family (eager_lawful (n := n))
  have hcallees : Callees (eager n).Left (eager n).Right
      (fun aligned b firm _ p q => (eager n).Rel aligned b firm p q) b read (eagerDerive n fuel) :=
    { steadyLeft := steady_read
      steadyRight := steady_eagerDerive n fuel
      separating := fun hexpr _ =>
        hexpr.atSeparator eager_lawful fun hs => ⟨hs.1.separating, hs.2⟩
      attempt := eager_attempt
      waitsLeft := waits_read_filter
      waitsRight := waits_eagerDerive_filter n fuel
      window := eager_window }
  have hrule := hfamily.exprRule hcallees m hm (fun k hk hlt => hflat k hlt hk)
    fun b' hb _ k hk => hdeep b' hb k hk
  rw [read_eq_rule]
  cases m with
  | aggregateTail aggregate =>
    have hR := hfamily.congruence false
    have hfilter := hflat .filter rfl rfl
    exact hR.tailAround (hflat .window rfl rfl) hfilter
      (eager_filter (hR.orderedFilter (hflat .orderBy rfl rfl) hfilter waits_read_filter
        (waits_eagerDerive_filter n fuel))) aggregate
  | _ => exact hrule

/-! ## Repeating what the grammar without exposed orders reads -/

/-- Behind an order that was read no order is exposed. -/
theorem order_of_eagerDerive {s t : State} {orderBy : OrderBy}
    (h : eagerDerive n fuel .orderBy s = .ok orderBy t) : s.AtOrder := by
  cases fuel with
  | zero => cases h
  | succ fuel =>
    obtain ⟨span, u, hspan, -⟩ := bind_eq_ok_iff.1 h
    exact (keyword_eq_ok_iff.1 hspan).1

namespace Seam

variable {B : Seam} {s s' : State}

/-- A filter that must not be given up takes a token. -/
theorem takes_eagerDerive_filter (n fuel : Nat) : Takes (eagerDerive n fuel .filter) := by
  cases fuel with
  | zero => exact fun _ _ _ hrun => nomatch hrun
  | succ fuel => exact takes_filterRule (walking_eagerDerive n fuel)

/-- An order in front of the seam is exposed on both sides or on none. -/
theorem Shared.isExposed_eq (h : B.Shared s s') (hleft : B.left.length = n)
    (hright : B.right.length = n) (hfront : n < s.cursor.ahead.length) :
    isExposed n s'.cursor = isExposed n s.cursor := by
  obtain ⟨tokens, hs, hs', -⟩ := h.tokens
  have hlength : s'.cursor.ahead.length = s.cursor.ahead.length := by
    rw [hs, hs', List.length_append, List.length_append, hleft, hright]
  unfold isExposed
  rw [h.current_eq (hleft ▸ hfront), hlength, show n = _ from hleft.symm, frontOf_append hs, hleft,
    show n = _ from hright.symm, frontOf_append hs']

/-- Where an order is not exposed, no filter behind the seam belongs to it. -/
theorem replays_eagerFilter (hleft : B.left.length = n) (hright : B.right.length = n)
    (h : B.Replays true .closed (orderedFilter (eagerDerive n fuel)))
    (hswap : B.swap.Replays true .closed (orderedFilter (eagerDerive n fuel))) :
    B.Replays true .closed (eagerFilter n (eagerDerive n fuel)) := by
  refine ⟨steady_eagerFilter h.steady, fun {s s' t found} hs hfront hrun hle _ => ?_⟩
  have hlt : n < s.cursor.ahead.length := hleft ▸ hfront rfl
  unfold eagerFilter at hrun ⊢
  rw [get_bind_apply] at hrun ⊢
  -- An attempt given up at an exposed order is refused, so only the others are to be repeated.
  obtain ⟨found', u, hattempt, hrest⟩ := bind_eq_ok_iff.1 hrun
  by_cases hgiven : (found'.isNone && isExposed n s.cursor) = true
  · rw [if_pos hgiven] at hrest
    obtain ⟨_, _, hreject, -⟩ := bind_eq_ok_iff.1 hrest
    exact absurd hreject rejectCurrent_ne_ok
  rw [if_neg hgiven] at hrest
  obtain ⟨rfl, rfl⟩ := pure_eq_ok_iff.1 hrest
  rw [bind_apply_andThen, hs.isExposed_eq hleft hright hlt]
  refine (repeats_attempt h hswap hs (hfront rfl) (fun hnone x u hfilter => ?_) hattempt hle).andThen
    fun t' ht' => ?_
  · -- From an order that is not exposed, the seam is not reached on one level.
    by_contra hbehind
    obtain ⟨orderBy, _, horder, -⟩ := bind_eq_ok_iff.1 hfilter
    have hat : s.cursor.current.kind = .keyword .ORDER := by
      rw [← hs.current_eq (hfront rfl)]
      exact order_of_eagerDerive (s := s'.trying) horder
    have hwalk : Walks true 0 0 (orderedFilter (eagerDerive n fuel)) :=
      walks_orderedFilter (walking_eagerDerive n fuel)
    have hends := hwalk s'.trying trivial
    rw [hfilter] at hends
    obtain ⟨passed, hpassed, hlevel, -⟩ := hends
    obtain ⟨tokens, hahead, hahead', -⟩ := hs.tokens
    rw [show s'.trying.cursor.ahead = _ from hahead'] at hpassed
    obtain ⟨more, rfl, -⟩ | ⟨more, -, hmore⟩ := List.append_eq_append_iff.1 hpassed
    · rw [levels?_append] at hlevel
      obtain ⟨l, hl, -⟩ := Option.bind_eq_some_iff.1 hlevel
      refine hgiven ?_
      rw [hnone]
      refine isExposed_iff.2 ⟨hat, hlt, l, ?_⟩
      rw [← hleft, frontOf_append hahead]
      exact levels?_parensOf hl
    · refine hbehind ?_
      rw [hmore, List.length_append]
      exact Nat.le_add_left _ _
  · rw [if_neg hgiven]
    exact .inr ⟨t', rfl, ht'⟩

/-- The rules that give up no order that is exposed are repeated in front of a seam of the same length
on both sides. -/
theorem replays_eagerDerive (hB : B.Orderless) (hleft : B.left.length = n)
    (hright : B.right.length = n) (fuel : Nat) (m : Nonterminal α)
    (hquery : m.isQuery = true → B.Even) : B.Replays m.front m.ending (eagerDerive n fuel m) := by
  induction fuel generalizing α B with
  | zero => exact ⟨State.Leads.refl, fun _ _ hrun => nomatch hrun⟩
  | succ fuel ih =>
    have hcallees {B : Seam} (hB : B.Orderless) (hleft : B.left.length = n)
        (hright : B.right.length = n) : ReplayCallees B (eagerDerive n fuel) :=
      ⟨steady_eagerDerive n fuel, waits_eagerDerive_filter n fuel, takes_eagerDerive_filter n fuel,
        fun m => ih hB hleft hright m⟩
    have h := hcallees hB hleft hright
    have hswap := hcallees (B := B.swap) ⟨hB.right, hB.left⟩ hright hleft
    exact h.ruleWith hB (replays_tailAround h hB
      (replays_eagerFilter hleft hright (replays_orderedFilter h) (replays_orderedFilter hswap))) m
      hquery

/-- What ends behind a token of its own is read again in front of any tokens of the same number, if
neither side begins with an order. -/
theorem replays_firm (hB : B.Orderless) (hne : B.right ≠ []) (hlength : B.left.length = B.right.length)
    (m : Nonterminal α) (hm : m.isQuery = false) (hfirm : m.firm = true) :
    B.Replays m.front m.ending (read m) := by
  refine ⟨steady_read m, fun {s s' t a} hs hfront hrun hle hclear => ?_⟩
  obtain ⟨tokens, hahead, hahead', hfits⟩ := hs.tokens
  have hsealed : Sealed tokens := hfits.closed.resolve_right fun h => hne h.2
  -- Both runs are those of the other grammar.
  have hagree {u : State} {rest : List Token} (hu : u.cursor.ahead = tokens ++ rest)
      (hrest : rest.length = B.right.length) (hstrict : u.settings.recover = false)
      (hbudget : u.budget = s.budget) :
      (eager B.right.length).Agree s.budget m.firm (read m u)
        (eagerDerive B.right.length (m.fuel s.budget) m u) := by
    have hfront : frontOf B.right.length u.cursor = tokens := hrest ▸ frontOf_append hu
    exact (eager_related m hm (Nat.le_refl _)).agree ⟨rfl, ⟨⟨rfl, rfl, rfl, rfl, rfl, rfl⟩, hstrict,
      hfront ▸ hsealed⟩, trivial⟩ (Nat.le_of_eq hbudget) (Nat.le_of_eq hbudget) fun _ => Iff.rfl
  have hleft := hagree hahead hlength hs.strict rfl
  have hright := hagree hahead' rfl (hs.frame.settings ▸ hs.strict) (by
    unfold State.budget
    rw [hs.frame.settings, hs.frame.depth])
  rw [hfirm] at hleft hright
  rw [hrun] at hleft
  generalize heager : eagerDerive B.right.length (m.fuel s.budget) m s = r at hleft
  cases hleft with
  | parted hparted =>
    obtain ⟨⟨_, _, heq⟩, -⟩ := hparted
    cases heq
  | astray hopen _ => cases hopen
  | @ok _ _ t₁ hcursor _ =>
  have hsteady := steady_eagerDerive B.right.length (m.fuel s.budget) m
  have hframe : t.SameFrame t₁ :=
    State.SameFrame.leads ⟨rfl, rfl, rfl, rfl, rfl, rfl⟩ ((steady_read m).leads hrun)
      (hsteady.leads heager)
  have hclear₁ : B.Clear t₁ m.ending := by
    unfold Clear Away at hclear ⊢
    rwa [← hframe.separatorDepth, ← hframe.depth, ← hcursor]
  have hrepeats := (replays_eagerDerive hB hlength rfl (m.fuel s.budget) m (by rw [hm]; nofun)).replay
    hs hfront heager (hcursor ▸ hle) hclear₁
  generalize hrun' : read m s' = r' at hright ⊢
  obtain ⟨u, hu⟩ | ⟨t₂, ht₂, hshared⟩ := hrepeats
  · rw [hu] at hright
    cases hright with
    | parted hparted =>
      obtain ⟨-, _, _, heq⟩ := hparted
      cases heq
    | astray hopen _ => cases hopen
  · rw [ht₂] at hright
    cases hright with
    | @ok _ t' _ hcursor' _ =>
      refine .inr ⟨t', rfl, hs.frame.leads ((steady_read m).leads hrun) ((steady_read m).leads hrun'),
        ((steady_read m).leads hrun).settings ▸ hs.strict, ?_, ?_⟩
      · rw [hcursor, hcursor']
        exact hshared.previous
      · rw [hcursor, hcursor']
        exact hshared.tokens
    | parted hparted =>
      obtain ⟨-, _, _, heq⟩ := hparted
      cases heq
    | astray hopen _ => cases hopen

end Seam

end SearchSql.Grammar
