import SearchSql.Proofs.Agreement

/-!
# More levels of nesting

A run that fails at its first error is compared with one that has more levels of nesting left. What
the first reads, the second reads too (`levels_runRoot`). This is not obvious, since an attempt to
read `ORDER BY` as a part of an aggregate may fail for want of a level and succeed with more of
them: the first run goes another way then. But there it is doomed.
-/

set_option autoImplicit false

namespace SearchSql.Grammar

open SearchSql.Grammar.Parser

variable {α β : Type} {library : Time.Library} {both : Bool}

/-- Whether the second state has room for as many further levels as the first. -/
def State.Within (s s' : State) : Prop :=
  ∀ cost, s.depth + cost ≤ s.settings.nestingLimit → s'.depth + cost ≤ s'.settings.nestingLimit

/-- Room for as many further levels is at least as many levels left. -/
theorem State.Within.budget_le {s s' : State} (h : s.Within s') : s.budget ≤ s'.budget := by
  unfold State.budget
  by_cases hs : s.depth ≤ s.settings.nestingLimit
  · have hs' := h (s.settings.nestingLimit - s.depth) (by omega)
    omega
  · omega

/-- Where both states go deeper, the second still has the room. -/
theorem State.Within.deeper {s s' : State} (h : s.Within s') (cost : Nat) :
    (s.deeper cost).Within (s'.deeper cost) := by
  intro further hroom
  have hs' := h (cost + further) (Nat.add_assoc s.depth cost further ▸ hroom)
  exact Nat.add_assoc s'.depth cost further ▸ hs'

/-- Two states, of which the second has more levels left. The run from the first fails at its first
error, and so does that from the second if `both` do. -/
structure Deepening (library : Time.Library) (both : Bool) (s s' : State) : Prop where
  withLibrary : s.library = library
  withLibrary' : s'.library = library
  strict : s.settings.recover = false
  strict' : both = true → s'.settings.recover = false
  settled : s.Settled
  settled' : s'.Settled
  within : s.Within s'
  enclosed : 0 < s.subqueries ↔ 0 < s'.subqueries

/-- The run from the first state fails fast. -/
theorem Deepening.failsFast {s s' : State} (h : Deepening library both s s') : s.FailsFast :=
  ⟨notRecovering_of_strict h.strict, h.settled⟩

/-- In an attempt, the second state still has more levels left. -/
theorem Deepening.trying {s s' : State} (h : Deepening library both s s') :
    Deepening library both s.trying s'.trying :=
  ⟨h.withLibrary, h.withLibrary', h.strict, h.strict', h.settled, h.settled', h.within, h.enclosed⟩

/-- Runs keep this of their states. -/
theorem Deepening.leads {s s' t t' : State} (h : Deepening library both s s') (ht : s.Leads t)
    (ht' : s'.Leads t') : Deepening library both t t' where
  withLibrary := ht.library.trans h.withLibrary
  withLibrary' := ht'.library.trans h.withLibrary'
  strict := by rw [ht.settings, h.strict]
  strict' hboth := by rw [ht'.settings, h.strict' hboth]
  settled := h.settled.leads ht
  settled' := h.settled'.leads ht'
  within := by
    unfold State.Within
    rw [ht.depth, ht.settings, ht'.depth, ht'.settings]
    exact h.within
  enclosed := by rw [ht.subqueries, ht'.subqueries, h.enclosed]

/-- Runs are compared for what the first reads. -/
def levels (library : Time.Library) (both : Bool) : Simulation where
  frame := Deepening library both
  log _ _ := True
  left _ c := ∃ b, Doomed library b c
  right _ _ := False
  parted r _ := Failed r
  astray _ r _ := ∃ a t, r = .ok a t ∧ ∃ b, Doomed library b t.cursor

/-- Under more levels of nesting, what is read is read again, by each of the laws. -/
theorem levels_lawful : (levels library both).Lawful where
  frame_library h := h.withLibrary.trans h.withLibrary'.symm
  frame_leads h ht ht' := h.leads ht ht'
  frame_deeper h hcost _ _ :=
    ⟨⟨h.withLibrary, h.withLibrary', h.strict, h.strict', h.settled.deeper _, h.settled'.deeper _,
      h.within.deeper _, h.enclosed⟩,
      h.settled.aligned_deeper h.settled' hcost⟩
  frame_separatingHere {s s'} h :=
    ⟨h.withLibrary, h.withLibrary', h.strict, h.strict', s.settled_separatingHere,
      s'.settled_separatingHere, h.within, h.enclosed⟩
  log_same _ _ _ := trivial
  left_atOrder h := h.elim fun _ h => h.atOrder
  right_atOrder := False.elim
  parted_andThen h _ _ := h.andThen _
  parted_mapState h _ _ := h.mapState _
  parted_reject d _ := failed_reject d _
  parted_nest {α s s' cost p q} h hparted := by
    obtain hparted | hparted := hparted
    · exact failed_nest hparted
    · exact failed_nest (Nat.lt_of_not_le fun hroom => Nat.not_le.2 hparted (h.frame.within cost hroom))
  astray_andThen := by
    rintro α β γ b firm r r' f g ⟨a, t, rfl, hdoomed⟩ hframe _ hb _ _ _ hf _
    show (levels library both).Agree b firm (f a t) (Run.andThen r' g)
    -- The first run stands at an order that nothing can pass: it fails next, or stays there.
    cases hrun : f a t with
    | error e u => exact .parted ⟨e, u, rfl⟩
    | ok x u =>
      obtain ⟨hfirm, hu⟩ := hf a t u x ⟨hdoomed, hframe, hb⟩ hrun
      exact .astray hfirm ⟨x, u, rfl, hu.1⟩
  astray_mapState := by
    rintro α β b b' r r' f g ⟨a, t, rfl, hdoomed⟩ _ hf _
    refine ⟨a, f t, rfl, ?_⟩
    rw [(hf t).2]
    exact hdoomed
  malformedLiteral kind text fault span h :=
    .parted ⟨_, _, malformedLiteral_of_strict h.frame.strict kind text fault span⟩

/-- Whether a cursor is at a boundary depends on no more than whether a subquery is open. -/
theorem atBoundary_eq {s s' : State} (hcursor : s.cursor = s'.cursor)
    (h : 0 < s.subqueries ↔ 0 < s'.subqueries) : s.atBoundary = s'.atBoundary := by
  unfold State.atBoundary
  rw [hcursor, decide_eq_decide.2 h]

/-- The laws of queries hold as well. -/
theorem levels_queryLawful : (levels library both).QueryLawful where
  frame_enclosed {s s'} h :=
    ⟨h.withLibrary, h.withLibrary', h.strict, h.strict', h.settled, h.settled', h.within,
      ⟨fun _ => Nat.succ_pos s'.subqueries, fun _ => Nat.succ_pos s.subqueries⟩⟩
  clauseEnd {b s s'} hs := by
    unfold clauseEnd
    rw [get_bind_apply, get_bind_apply, atBoundary_eq hs.cursor hs.frame.enclosed]
    cases s'.atBoundary with
    | true => exact .ok () hs.cursor trivial
    | false =>
      show (levels library both).Agree b true ((current >>= _) s) _
      rw [current_bind_apply, passOver_apply hs.frame.failsFast.notRecovering]
      exact .parted ⟨_, s, rfl⟩
  recover {α b firm p q s s'} hp hq hframe h := by
    have ht := hp s
    generalize hr : p s = r at ht h
    generalize hr' : q s' = r' at h
    cases h with
    | ok a hcursor hlog =>
      unfold recover
      rw [hr, hr']
      exact .ok (some a) hcursor hlog
    | parted h =>
      obtain ⟨e, t, rfl⟩ := h
      exact .parted ⟨e, t, recover_of_error hp hframe.failsFast.notRecovering hr⟩
    | astray hfirm h =>
      obtain ⟨a, t, rfl, hdoomed⟩ := h
      refine .astray hfirm ⟨some a, t, ?_, hdoomed⟩
      unfold recover
      rw [hr]

/-- An attempt that succeeds does so under more levels. One that fails, but succeeds there, has met
a filter. -/
theorem levels_attempt : (levels library both).ComparesAttempts read := by
  intro b h
  refine ⟨h.steadyLeft.attempt, h.steadyRight.attempt, fun {s s'} hs hb hb' _ => ?_⟩
  have hagree := h.agree (s := s.trying) (u := s'.trying) ⟨hs.cursor, hs.frame.trying, trivial⟩
    hb hb' nofun
  obtain ⟨x, t, hrun, heq⟩ | ⟨d, t, hrun, heq⟩ := attempt_orderedFilter s
  all_goals obtain ⟨x', t', hrun', heq'⟩ | ⟨d', t', hrun', heq'⟩ := attempt_orderedFilter s'
  all_goals rw [heq, heq']
  · rw [hrun, hrun'] at hagree
    cases hagree with
    | ok _ hcursor _ => exact .ok (some x) hcursor trivial
    | parted hparted =>
      obtain ⟨e, u, heq⟩ := hparted
      cases heq
    | astray hfirm _ => cases hfirm
  · rw [hrun, hrun'] at hagree
    cases hagree with
    | parted hparted =>
      obtain ⟨e, u, heq⟩ := hparted
      cases heq
    | astray hfirm _ => cases hfirm
  · exact .astray rfl ⟨none, _, rfl, b,
      hs.cursor ▸ doomed_of_trying hs.frame.settled' hs.frame.withLibrary' hb' hrun'⟩
  · exact .ok none hs.cursor trivial

/-- What has gone astray stops at a filter. -/
theorem levels_stops (b : Nat) :
    StopsAtFilter ((levels library both).Left b) read ∧
      StopsAtFilter ((levels library both).Right b) read := by
  constructor
  · exact Simulation.Left.stopsAtFilter levels_lawful (fun _ => Iff.rfl) fun _ _ hs =>
      ⟨hs.failsFast, hs.withLibrary⟩
  · exact fun _ _ _ hs => hs.1.elim

/-- What has gone astray does not recover. -/
theorem levels_fails (b : Nat) (s : State)
    (h : (levels library both).Left b s ∨ (levels library both).Right b s) :
    s.isRecovering = false := by
  obtain ⟨_, ⟨s', hs⟩, _⟩ | ⟨hfalse, _⟩ := h
  · exact hs.failsFast.notRecovering
  · exact hfalse.elim

/-- What a run reads, one with more levels left reads too, unless the first is doomed. -/
theorem levels_related (b : Nat) (n : Nonterminal α) :
    (levels library both).Rel n.isPredicate b n.firm (read n) (read n) :=
  Simulation.related levels_lawful levels_queryLawful closed_read levels_attempt
    (fun b _ => levels_stops b) levels_fails b n

/-- An order with a filter is read under more levels as well. -/
theorem levels_orderedFilter (b : Nat) :
    (levels library both).Rel false b true (orderedFilter read) (orderedFilter read) :=
  ((Simulation.family levels_lawful).congruence false).orderedFilter (levels_related b .orderBy)
    (levels_related b .filter) waits_read_filter waits_read_filter

theorem levels_inputEnd (b : Nat) : (levels library both).Rel false b true inputEnd inputEnd := by
  refine ⟨steady_inputEnd, steady_inputEnd, fun {s s'} hs _ _ _ => ?_⟩
  rw [inputEnd_apply hs.frame.failsFast.notRecovering]
  cases hend : s.cursor.current.isEnd with
  | true =>
    have hend' : s'.cursor.current.isEnd = true := hs.cursor ▸ hend
    rw [inputEnd_of_isEnd hend']
    exact .ok () hs.cursor trivial
  | false => exact .parted ⟨_, s, rfl⟩

/-- So is a whole input. -/
theorem levels_rootRule (b : Nat) :
    (levels library both).Rel false b true (rootRule read) (rootRule read) :=
  (Simulation.query_congruence levels_lawful levels_queryLawful).rootRule
    (levels_related b .query) (levels_inputEnd b)
    (stays_inputEnd (Simulation.Left.atOrder levels_lawful) fun s hs => levels_fails b s (.inl hs))
    (stays_inputEnd (Simulation.Right.atOrder levels_lawful) fun s hs => levels_fails b s (.inr hs))

/-- So is the beginning of a query, up to its elements. -/
theorem levels_queryItems (b : Nat) :
    (levels library both).Rel false b false (queryItems read) (queryItems read) :=
  (Simulation.query_congruence levels_lawful levels_queryLawful).queryItems
    (levels_related b .selectItems)

/-- So is the end of a query, from `GROUP BY` on. -/
theorem levels_fromGroup (b : Nat) (allowed : Bool) (start : Span)
    (finish : Option GroupBy → Option Condition → Option OrderBy → Option Limit → Span → Query) :
    (levels library both).Rel false b false (fromGroup read allowed start finish)
      (fromGroup read allowed start finish) :=
  (Simulation.query_congruence levels_lawful levels_queryLawful).fromGroup
    (fun word => levels_related b (.condition word)) (levels_related b .groupBy)
    (levels_related b .orderBy)
    ((levels_stops b).1.clause (Simulation.Left.atOrder levels_lawful) (steady_read _)
      fun s hs => levels_fails b s (.inl hs))
    ((levels_stops b).2.clause (Simulation.Right.atOrder levels_lawful) (steady_read _)
      fun s hs => levels_fails b s (.inr hs))
    allowed start finish

/-- What is read with fewer levels is read with more, unless it is open and ends at an order. -/
theorem levels_ok {p : Parser α} {firm : Bool} (h : ∀ b, (levels library both).Rel false b firm p p)
    {s s' t : State} {a : α} (hs : (levels library both).Linked s s') (hrun : p s = .ok a t)
    (horder : firm = true ∨ ¬t.AtOrder) : ∃ t', p s' = .ok a t' ∧ t'.cursor = t.cursor := by
  have hagree := (h s'.budget).agree hs hs.frame.within.budget_le (Nat.le_refl _) nofun
  rw [hrun] at hagree
  generalize hr : p s' = r at hagree
  cases hagree with
  | ok _ hcursor _ => exact ⟨_, rfl, hcursor.symm⟩
  | parted hparted =>
    obtain ⟨e, u, heq⟩ := hparted
    cases heq
  | astray hopen hastray =>
    obtain ⟨_, u, heq, _, hdoomed⟩ := hastray
    obtain ⟨-, rfl⟩ := EStateM.Result.ok.inj heq
    obtain hfirm | horder := horder
    · cases hopen.symm.trans hfirm
    · exact absurd hdoomed.atOrder horder

/-- More levels of nesting change nothing in a parse that reads a statement without recovery. -/
theorem levels_runRoot [library : Time.Library] {tokens : List Token}
    {settings settings' : Settings} (h : settings.recover = false) (h' : settings'.recover = false)
    (hlimit : settings.nestingLimit ≤ settings'.nestingLimit) {statement : Option Statement}
    {t : State} (hrun : runRoot tokens settings = .ok statement t) :
    ∃ t', runRoot tokens settings' = .ok statement t' := by
  have hlinked : (levels library true).Linked (State.ofTokens tokens settings)
      (State.ofTokens tokens settings') :=
    ⟨rfl, ⟨rfl, rfl, h, fun _ => h', nofun, nofun, fun cost hcost => Nat.le_trans hcost hlimit,
      Iff.rfl⟩, trivial⟩
  have hagree := (levels_rootRule settings'.nestingLimit).agree hlinked hlimit (Nat.le_refl _) nofun
  rw [← runRoot_eq, ← runRoot_eq, hrun] at hagree
  generalize hr : runRoot tokens settings' = r at hagree
  cases hagree with
  | ok _ _ _ => exact ⟨_, rfl⟩
  | parted hparted =>
    obtain ⟨e, u, heq⟩ := hparted
    cases heq
  | astray hfirm _ => cases hfirm

end SearchSql.Grammar
