import SearchSql.Proofs.Fuel

/-!
# Runs that fail fast

A run that fails at its first error may still depend on the levels of nesting that are left, and on
whether malformed literals are kept: by these, an attempt to read `ORDER BY` as a part of an
aggregate succeeds or fails. Two runs that both succeed come to the same result, unless they part at
such an `ORDER` (`agreement`). The one that has left the order to others is `Doomed`: whoever reads
the order then comes to the filter behind it, which nothing but the aggregate could take
(`stopsAtFilter_read`).
-/

set_option autoImplicit false

namespace SearchSql.Grammar

open SearchSql.Grammar.Parser

variable {α β : Type} {library : Time.Library}

/-- `IN` separates nothing at greater depth. -/
def State.Settled (s : State) : Prop := ∀ k, s.separatorDepth ≠ some (s.depth + k + 1)

/-- The state of a run that fails at its first error, outside of parts of `POSITION` yet to come. -/
structure State.FailsFast (s : State) : Prop where
  notRecovering : s.isRecovering = false
  settled : s.Settled

/-- The cursor is at an order with a filter behind it, as some run that fails fast has found. -/
def Doomed (library : Time.Library) (b : Nat) (c : Cursor) : Prop :=
  ∃ s : State, s.FailsFast ∧ s.library = library ∧ s.budget ≤ b ∧ s.cursor = c ∧
    ∃ x t, orderedFilter read s = .ok x t

/-- Runs leave a state settled. -/
theorem State.Settled.leads {s t : State} (h : s.Settled) (ht : s.Leads t) : t.Settled := by
  unfold State.Settled
  rw [ht.separatorDepth, ht.depth]
  exact h

/-- What fails fast goes on to fail fast. -/
theorem State.FailsFast.leads {s t : State} (h : s.FailsFast) (ht : s.Leads t) : t.FailsFast :=
  ⟨ht.isRecovering.trans h.notRecovering, h.settled.leads ht⟩

/-- A settled state is settled at greater depth. -/
theorem State.Settled.deeper {s : State} (h : s.Settled) (cost : Nat) :
    (s.deeper cost).Settled := by
  intro k hk
  refine h (cost + k) (hk.trans ?_)
  show some (s.depth + cost + k + 1) = _
  rw [Nat.add_assoc s.depth]

/-- Under further levels, `IN` is a test. -/
theorem State.Settled.deeper_ne {s : State} (h : s.Settled) {cost : Nat} (hcost : 0 < cost) :
    (s.deeper cost).separatorDepth ≠ some (s.deeper cost).depth := by
  intro heq
  refine h (cost - 1) (heq.trans ?_)
  show some (s.depth + cost) = _
  rw [Nat.add_assoc, Nat.sub_add_cancel hcost]

/-- A state in which `IN` separates at the present depth is settled. -/
theorem State.settled_separatingHere (s : State) : s.separatingHere.Settled := by
  intro k hk
  have h : s.depth = s.depth + k + 1 := Option.some.inj hk
  omega

/-- At greater depth, settled states agree on whether `IN` separates: it does not. -/
theorem State.Settled.aligned_deeper {s s' : State} (h : s.Settled) (h' : s'.Settled) {cost : Nat}
    (hcost : 0 < cost) : (s.deeper cost).Aligned (s'.deeper cost) :=
  ⟨fun heq => absurd heq (h.deeper_ne hcost), fun heq => absurd heq (h'.deeper_ne hcost)⟩

/-- In an attempt, a settled state fails fast. -/
theorem State.Settled.failsFast_trying {s : State} (h : s.Settled) : s.trying.FailsFast :=
  ⟨Bool.and_eq_false_iff.2 (.inr rfl), h⟩

/-- In front of a filter that is behind an order stands the word `FILTER`. -/
theorem filter_of_read {s t : State} {f : Filter} (h : read .filter s = .ok f t) :
    s.cursor.current.kind = .keyword .FILTER := by
  rw [read_eq_rule] at h
  obtain ⟨span, u, hspan, _⟩ := bind_eq_ok_iff.1 h
  exact (keyword_eq_ok_iff.1 hspan).1

/-- An order starts with its word. -/
theorem order_of_read {s t : State} {o : OrderBy} (h : read .orderBy s = .ok o t) :
    s.cursor.current.kind = .keyword .ORDER := by
  rw [read_eq_rule] at h
  obtain ⟨span, u, hspan, _⟩ := bind_eq_ok_iff.1 h
  exact (keyword_eq_ok_iff.1 hspan).1

/-- What is attempted behind an aggregate is an order and then a filter. -/
theorem orderedFilter_eq_ok {s t : State} {x : OrderBy × Filter}
    (h : orderedFilter read s = .ok x t) :
    ∃ u, read .orderBy s = .ok x.1 u ∧ read .filter u = .ok x.2 t := by
  obtain ⟨o, u, ho, hrest⟩ := bind_eq_ok_iff.1 h
  obtain ⟨f, hf, rfl⟩ := map_eq_ok_iff.1 hrest
  exact ⟨u, ho, hf⟩

/-- What is doomed is in front of `ORDER`. -/
theorem Doomed.atOrder {b : Nat} {c : Cursor} (h : Doomed library b c) :
    c.current.kind = .keyword .ORDER := by
  obtain ⟨s, _, _, _, rfl, x, t, hrun⟩ := h
  obtain ⟨u, ho, _⟩ := orderedFilter_eq_ok hrun
  exact order_of_read ho

/-- With more levels to spare, it is doomed all the more. -/
theorem Doomed.mono {b b' : Nat} {c : Cursor} (h : Doomed library b c) (hb : b ≤ b') :
    Doomed library b' c := by
  obtain ⟨s, hs, hlibrary, hbudget, hrest⟩ := h
  exact ⟨s, hs, hlibrary, Nat.le_trans hbudget hb, hrest⟩

/-- The attempt does not run out of steps. -/
theorem complete_orderedFilter : Complete (orderedFilter read) :=
  (complete_read _).bind fun _ => (complete_read _).bind fun _ => complete_pure _

/-- A run has failed. -/
def Failed (r : Run α) : Prop := ∃ e t, r = .error e t

/-- Nothing follows a run that has failed. -/
theorem Failed.andThen {r : Run α} (h : Failed r) (f : α → Parser β) : Failed (Run.andThen r f) := by
  obtain ⟨e, t, rfl⟩ := h
  exact ⟨e, t, rfl⟩

theorem Failed.mapState {r : Run α} (h : Failed r) (f : State → State) : Failed (mapState f r) := by
  obtain ⟨e, t, rfl⟩ := h
  exact ⟨e, f t, rfl⟩

theorem failed_reject (d : Diagnostic) (s : State) : Failed (reject d s : Run α) := ⟨_, s, rfl⟩

/-- Behind more levels of nesting than are left, a run fails. -/
theorem failed_nest {cost : Nat} {p : Parser α} {s : State}
    (h : s.settings.nestingLimit < s.depth + cost) : Failed (nest cost p s) := by
  rw [nest_apply, if_pos h]
  exact ⟨_, s, rfl⟩

/-- Runs that fail fast are compared for having the same result. -/
def fastRuns (library : Time.Library) : Simulation where
  frame s s' := (s.FailsFast ∧ s'.FailsFast) ∧ s.library = library ∧ s'.library = library
  log _ _ := True
  left := Doomed library
  right := Doomed library
  parted r r' := Failed r ∨ Failed r'
  astray b r r' :=
    ∃ a t a' t', r = .ok a t ∧ r' = .ok a' t' ∧
      (Doomed library b t.cursor ∨ Doomed library b t'.cursor)

/-- To fail fast with the same result is respected by all that rules are written with. -/
theorem fastRuns_lawful : (fastRuns library).Lawful where
  frame_library h := h.2.1.trans h.2.2.symm
  frame_leads h ht ht' :=
    ⟨⟨h.1.1.leads ht, h.1.2.leads ht'⟩, ht.library.trans h.2.1, ht'.library.trans h.2.2⟩
  frame_deeper {s s' cost} h hcost _ _ :=
    have hfast : (s.deeper cost).FailsFast := ⟨h.1.1.notRecovering, h.1.1.settled.deeper cost⟩
    have hfast' : (s'.deeper cost).FailsFast := ⟨h.1.2.notRecovering, h.1.2.settled.deeper cost⟩
    ⟨⟨⟨hfast, hfast'⟩, h.2⟩, h.1.1.settled.aligned_deeper h.1.2.settled hcost⟩
  frame_separatingHere {s s'} h :=
    ⟨⟨⟨h.1.1.notRecovering, s.settled_separatingHere⟩,
      ⟨h.1.2.notRecovering, s'.settled_separatingHere⟩⟩, h.2⟩
  log_same _ _ _ := trivial
  left_atOrder h := h.atOrder
  right_atOrder h := h.atOrder
  parted_andThen {α β γ δ r r' f g} h _ _ := h.imp (fun h => h.andThen f) fun h => h.andThen g
  parted_mapState {α β r r' f g} h _ _ := h.imp (fun h => h.mapState f) fun h => h.mapState g
  parted_reject d _ := .inl (failed_reject d _)
  parted_nest _ h := h.imp failed_nest failed_nest
  astray_andThen := by
    rintro α β γ b firm _ _ f g ⟨a, t, a', t', rfl, rfl, h⟩ hframe hframe' hb hb' _ _ hf hg
    show (fastRuns library).Agree b firm (f a t) (g a' t')
    -- One of the two stands at an order that nothing can pass, so it fails next or stays there.
    cases hrun : f a t with
    | error e u => exact .parted (.inl ⟨e, u, rfl⟩)
    | ok x u =>
      cases hrun' : g a' t' with
      | error e u' => exact .parted (.inr ⟨e, u', rfl⟩)
      | ok x' u' =>
        obtain hdoomed | hdoomed := h
        · obtain ⟨hfirm, hu⟩ := hf a t u x ⟨hdoomed, hframe, hb⟩ hrun
          exact .astray hfirm ⟨x, u, x', u', rfl, rfl, .inl hu.1⟩
        · obtain ⟨hfirm, hu⟩ := hg a' t' u' x' ⟨hdoomed, hframe', hb'⟩ hrun'
          exact .astray hfirm ⟨x, u, x', u', rfl, rfl, .inr hu.1⟩
  astray_mapState := by
    rintro α β b b' _ _ f g ⟨a, t, a', t', rfl, rfl, h⟩ hb hf hg
    refine ⟨a, f t, a', g t', rfl, rfl, ?_⟩
    rw [(hf t).2, (hg t').2]
    exact h.imp (fun h => h.mono hb) fun h => h.mono hb
  malformedLiteral {b s s'} kind text fault span h := by
    cases hrun : malformedLiteral kind text fault span s with
    | error e t => exact .parted (.inl ⟨e, t, rfl⟩)
    | ok value t =>
      cases hrun' : malformedLiteral kind text fault span s' with
      | error e t' => exact .parted (.inr ⟨e, t', rfl⟩)
      | ok value' t' =>
        -- A malformed literal is read only by a parse that recovers, and takes the same tokens in
        -- both.
        obtain ⟨_, rfl, ht⟩ := malformedLiteral_eq_ok hrun
        obtain ⟨_, rfl, ht'⟩ := malformedLiteral_eq_ok hrun'
        exact .ok _ (ht.trans (h.cursor.trans ht'.symm)) trivial

/-- An attempt at a filter behind an order, by its run. -/
theorem attempt_orderedFilter (s : State) :
    (∃ x t, orderedFilter read s.trying = .ok x t ∧
        attempt "ordered aggregate filter" (orderedFilter read) s = .ok (some x) t.tried) ∨
      ∃ d t, orderedFilter read s.trying = .error (.rejected d) t ∧
        attempt "ordered aggregate filter" (orderedFilter read) s =
          .ok none (s.undone "ordered aggregate filter" d t) := by
  rw [attempt_apply]
  cases h : orderedFilter read s.trying with
  | ok x t => exact .inl ⟨x, t, rfl, rfl⟩
  | error e t =>
    cases e with
    | rejected d => exact .inr ⟨d, t, rfl, rfl⟩
    | outOfFuel => exact absurd h (complete_orderedFilter s.trying t)

/-- Where an attempt succeeds, those that gave it up are doomed. -/
theorem doomed_of_trying {b : Nat} {s t : State} {x : OrderBy × Filter} (hs : s.Settled)
    (hlibrary : s.library = library) (hb : s.budget ≤ b)
    (h : orderedFilter read s.trying = .ok x t) : Doomed library b s.cursor :=
  ⟨s.trying, hs.failsFast_trying, hlibrary, hb, rfl, x, t, h⟩

/-- Two attempts that fail fast agree, as one of them has found the filter or neither has. -/
theorem fastRuns_attempt : (fastRuns library).ComparesAttempts read := by
  intro b h
  refine ⟨h.steadyLeft.attempt, h.steadyRight.attempt, fun {s s'} hs hb hb' _ => ?_⟩
  have hagree := h.agree (s := s.trying) (u := s'.trying)
    ⟨hs.cursor, ⟨⟨hs.frame.1.1.settled.failsFast_trying, hs.frame.1.2.settled.failsFast_trying⟩,
      hs.frame.2⟩, trivial⟩ hb hb' nofun
  obtain ⟨x, t, hrun, heq⟩ | ⟨d, t, hrun, heq⟩ := attempt_orderedFilter s
  all_goals obtain ⟨x', t', hrun', heq'⟩ | ⟨d', t', hrun', heq'⟩ := attempt_orderedFilter s'
  all_goals rw [heq, heq']
  · rw [hrun, hrun'] at hagree
    cases hagree with
    | ok _ hcursor hlog => exact .ok (some x) hcursor trivial
    | parted hparted => obtain ⟨e, u, heq⟩ | ⟨e, u, heq⟩ := hparted <;> cases heq
    | astray hfirm _ => cases hfirm
  · exact .astray rfl ⟨_, _, _, _, rfl, rfl,
      .inr (hs.cursor ▸ doomed_of_trying hs.frame.1.1.settled hs.frame.2.1 hb hrun)⟩
  · exact .astray rfl ⟨_, _, _, _, rfl, rfl,
      .inl (hs.cursor ▸ doomed_of_trying hs.frame.1.2.settled hs.frame.2.2 hb' hrun')⟩
  · exact .ok none hs.cursor trivial

/-- Who reads an order that others have left comes to the filter behind it. -/
theorem stopsAtFilter_of_rel {b : Nat}
    (h : (fastRuns library).Rel false b false (read .orderBy) (read .orderBy)) {s t : State}
    {o : OrderBy} (hs : s.FailsFast) (hlibrary : s.library = library) (hb : s.budget ≤ b)
    (hdoomed : Doomed library b s.cursor) (ho : read .orderBy s = .ok o t) :
    t.cursor.current.kind = .keyword .FILTER ∨ Doomed library b t.cursor := by
  obtain ⟨w, hw, hlibrary', hbw, hcursor, x, v, hrun⟩ := hdoomed
  obtain ⟨u, ho', hf⟩ := orderedFilter_eq_ok hrun
  have hagree := h.agree (s := s) (u := w)
    ⟨hcursor.symm, ⟨⟨hs, hw⟩, hlibrary, hlibrary'⟩, trivial⟩ hb hbw nofun
  rw [ho, ho'] at hagree
  cases hagree with
  | ok _ hcursor' _ =>
    left
    rw [hcursor']
    exact filter_of_read hf
  | parted hparted => obtain ⟨e, z, heq⟩ | ⟨e, z, heq⟩ := hparted <;> cases heq
  | astray _ hastray =>
    obtain ⟨a, z, a', z', heq, heq', hdoomed⟩ := hastray
    cases heq
    cases heq'
    obtain hdoomed | hdoomed := hdoomed
    · exact .inr hdoomed
    · have horder := hdoomed.atOrder
      rw [filter_of_read hf] at horder
      cases horder

/-- Runs of the rules of expressions that fail fast come to the same result, if they come to any,
unless they part in front of an order. -/
theorem agreement (library : Time.Library) (b : Nat) (n : Nonterminal α) (hn : n.isQuery = false) :
    (fastRuns library).Rel n.isPredicate b n.firm (read n) (read n) := by
  refine Simulation.related_expr fastRuns_lawful closed_read fastRuns_attempt (fun b h => ?_) b n hn
  constructor
  · rintro s t o ⟨hdoomed, ⟨s', ⟨hs, _⟩, hlibrary, _⟩, hb⟩ ho
    refine (stopsAtFilter_of_rel h hs hlibrary hb hdoomed ho).imp_right fun ht => ?_
    have hlead := (steady_read .orderBy).leads ho
    have hlibrary' := hlead.library.trans hlibrary
    exact ⟨ht, ⟨t, ⟨hs.leads hlead, hs.leads hlead⟩, hlibrary', hlibrary'⟩, hlead.budget_le hb⟩
  · rintro s t o ⟨hdoomed, ⟨s', ⟨_, hs⟩, _, hlibrary⟩, hb⟩ ho
    refine (stopsAtFilter_of_rel h hs hlibrary hb hdoomed ho).imp_right fun ht => ?_
    have hlead := (steady_read .orderBy).leads ho
    have hlibrary' := hlead.library.trans hlibrary
    exact ⟨ht, ⟨t, ⟨hs.leads hlead, hs.leads hlead⟩, hlibrary', hlibrary'⟩, hlead.budget_le hb⟩

/-- Who reads an order that others have left comes to the filter behind it. -/
theorem stopsAtFilter_read {b : Nat} {s t : State} {o : OrderBy} (hs : s.FailsFast)
    (hlibrary : s.library = library) (hdoomed : Doomed library b s.cursor)
    (ho : read .orderBy s = .ok o t) :
    t.cursor.current.kind = .keyword .FILTER ∨ ∃ b', Doomed library b' t.cursor := by
  have hrel := agreement library (max b s.budget) .orderBy rfl
  exact (stopsAtFilter_of_rel hrel hs hlibrary (Nat.le_max_right _ _)
    (hdoomed.mono (Nat.le_max_left _ _)) ho).imp_right fun h => ⟨_, h⟩

namespace Simulation

variable {S : Simulation} {b : Nat}

/-- First runs that go astray by leaving an order to others. -/
theorem Left.stopsAtFilter (hS : S.Lawful) (hleft : ∀ c, S.left b c ↔ ∃ b', Doomed library b' c)
    (hfast : ∀ s s', S.frame s s' → s.FailsFast ∧ s.library = library) :
    StopsAtFilter (S.Left b) read := by
  rintro s t o ⟨hastray, ⟨s', hs⟩, hb⟩ ho
  obtain ⟨_, hdoomed⟩ := (hleft s.cursor).1 hastray
  have hleads := (steady_read .orderBy).leads ho
  obtain ⟨hfails, hlibrary⟩ := hfast s s' hs
  refine (stopsAtFilter_read hfails hlibrary hdoomed ho).imp_right fun ht => ?_
  exact ⟨(hleft _).2 ht, ⟨s', hS.frame_leads hs hleads (State.Leads.refl s')⟩, hleads.budget_le hb⟩

/-- Second runs that go astray by leaving an order to others. -/
theorem Right.stopsAtFilter (hS : S.Lawful) (hright : ∀ c, S.right b c ↔ ∃ b', Doomed library b' c)
    (hfast : ∀ s s', S.frame s s' → s'.FailsFast ∧ s'.library = library) :
    StopsAtFilter (S.Right b) read := by
  rintro s t o ⟨hastray, ⟨s', hs⟩, hb⟩ ho
  obtain ⟨_, hdoomed⟩ := (hright s.cursor).1 hastray
  have hleads := (steady_read .orderBy).leads ho
  obtain ⟨hfails, hlibrary⟩ := hfast s' s hs
  refine (stopsAtFilter_read hfails hlibrary hdoomed ho).imp_right fun ht => ?_
  exact ⟨(hright _).2 ht, ⟨s', hS.frame_leads hs (State.Leads.refl s') hleads⟩, hleads.budget_le hb⟩

end Simulation

end SearchSql.Grammar
