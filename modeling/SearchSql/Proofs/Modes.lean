import SearchSql.Proofs.Agreement
import SearchSql.Time.Reading

/-!
# Recovering and stopping at the first error

The run that stops at the first error is compared with the run that recovers, from the same state.
Up to the first fault they do the same. At the first fault one stops and the other records it, except
in an attempt: there a malformed literal makes one run give the attempt up, while the other keeps the
literal and may succeed. The run that gave up is doomed then.

So both accept the same inputs (`parseTokensStrict_eq_ok_iff`), and an input that is not accepted
fails with the first diagnostic of the other run, unless that run met it in an attempt that the
strict run has given up (`parseStrict_eq_error`).
-/

set_option autoImplicit false

namespace SearchSql.Grammar

open SearchSql.Grammar.Parser

variable {α β : Type}

/-- The first diagnostic of a run that has recorded any. -/
def FirstFault (d : Diagnostic) (t : State) : Prop := t.diagnostics.getLast? = some d

/-- An attempt was given up because of `d`. -/
def GaveUp (d : Diagnostic) (t : State) : Prop := ∃ rule, Event.attemptUndone rule d ∈ t.events

/-- The first diagnostic stays the first. -/
theorem FirstFault.leads {d : Diagnostic} {s t : State} (h : FirstFault d s) (ht : s.Leads t) :
    FirstFault d t := by
  obtain ⟨newer, hnewer⟩ := ht.diagnostics
  unfold FirstFault at h ⊢
  rw [← hnewer, List.getLast?_append, h]
  rfl

/-- What was given up is not forgotten. -/
theorem GaveUp.leads {d : Diagnostic} {s t : State} (h : GaveUp d s) (ht : s.Leads t) :
    GaveUp d t := by
  obtain ⟨rule, hrule⟩ := h
  exact ⟨rule, ht.events.subset hrule⟩

/-- The first report in a run is its first diagnostic. -/
theorem firstFault_report {s : State} (hs : s.diagnostics = []) (hlast : s.lastReported = none)
    (d : Diagnostic) : FirstFault d (lastState (report d s)) := by
  unfold report
  rw [get_bind_apply, hlast, if_neg nofun]
  show FirstFault d (lastState ((do
    let s ← get
    if s.settings.maxDiagnostics ≤ s.diagnostics.length then
      reject ⟨.tooMany s.settings.maxDiagnostics, s.cursor.current.span⟩ : Parser Unit)
    { s with lastReported := some d.span.start, diagnostics := d :: s.diagnostics }))
  rw [get_bind_apply, hs]
  split <;> rfl

/-- The second state is the first, but recovers. Inside an attempt, neither does. -/
structure Modes (library : Time.Library) (attempting : Bool) (s s' : State) : Prop where
  withLibrary : s.library = library
  withLibrary' : s'.library = library
  strict : s.settings.recover = false
  settings : s'.settings = { s.settings with recover := true }
  depth : s'.depth = s.depth
  attempts : s'.attempts = s.attempts
  subqueries : s'.subqueries = s.subqueries
  separatorDepth : s'.separatorDepth = s.separatorDepth
  settled : s.Settled
  attempting : attempting = true → 0 < s.attempts

/-- Runs are compared for doing the same up to the first fault. -/
def modes (library : Time.Library) (attempting : Bool) : Simulation where
  frame := Modes library attempting
  log _ s' := s'.diagnostics = [] ∧ s'.lastReported = none
  left _ c := ∃ b, Doomed library b c
  right _ _ := False
  parted r r' :=
    (∃ d t t', r = .error (.rejected d) t ∧ r' = .error (.rejected d) t' ∧
        t'.diagnostics = [] ∧ t'.lastReported = none) ∨
      ∃ d e t, r = .error e t ∧ FirstFault d (lastState r') ∧
        (attempting = true → d.kind = .malformedLiteral) ∧
          (e = .rejected d ∨ d.kind = .malformedLiteral ∧ GaveUp d t)
  astray _ r r' :=
    ∃ d a t, r = .ok a t ∧ FirstFault d (lastState r') ∧ (∃ b, Doomed library b t.cursor) ∧
      d.kind = .malformedLiteral ∧ GaveUp d t

variable {library : Time.Library} {attempting : Bool}

/-- The first state does not recover. -/
theorem Modes.notRecovering {s s' : State} (h : Modes library attempting s s') :
    s.isRecovering = false := by
  unfold State.isRecovering
  rw [h.strict]
  rfl

/-- Its run fails fast. -/
theorem Modes.failsFast {s s' : State} (h : Modes library attempting s s') : s.FailsFast :=
  ⟨h.notRecovering, h.settled⟩

/-- The second state is settled as the first is. -/
theorem Modes.settled' {s s' : State} (h : Modes library attempting s s') : s'.Settled := by
  unfold State.Settled
  rw [h.separatorDepth, h.depth]
  exact h.settled

/-- Both states have the same limit of nesting. -/
theorem Modes.nestingLimit {s s' : State} (h : Modes library attempting s s') :
    s'.settings.nestingLimit = s.settings.nestingLimit := by
  rw [h.settings]
  rfl

/-- Runs keep this of their states. -/
theorem Modes.leads {s s' t t' : State} (h : Modes library attempting s s') (ht : s.Leads t)
    (ht' : s'.Leads t') : Modes library attempting t t' where
  withLibrary := ht.library.trans h.withLibrary
  withLibrary' := ht'.library.trans h.withLibrary'
  strict := by rw [ht.settings, h.strict]
  settings := by rw [ht.settings, ht'.settings, h.settings]
  depth := by rw [ht.depth, ht'.depth, h.depth]
  attempts := by rw [ht.attempts, ht'.attempts, h.attempts]
  subqueries := by rw [ht.subqueries, ht'.subqueries, h.subqueries]
  separatorDepth := by rw [ht.separatorDepth, ht'.separatorDepth, h.separatorDepth]
  settled := h.settled.leads ht
  attempting := by rw [ht.attempts]; exact h.attempting

/-- In an attempt, neither state recovers. -/
theorem Modes.trying {s s' : State} (h : Modes library attempting s s') :
    Modes library true s.trying s'.trying :=
  ⟨h.withLibrary, h.withLibrary', h.strict, h.settings, h.depth, congrArg (· + 1) h.attempts,
    h.subqueries, h.separatorDepth, h.settled, fun _ => Nat.succ_pos _⟩

/-- A literal without a value stops one run and is recorded by the other. -/
theorem modes_malformedLiteral {b : Nat} {s s' : State} (kind : LiteralKind) (text : String)
    (fault : LiteralFault) (span : Span) (hs : (modes library attempting).Linked s s') :
    (modes library attempting).Agree b true (malformedLiteral kind text fault span s)
      (malformedLiteral kind text fault span s') := by
  have hstrict : malformedLiteral kind text fault span s =
      .error (.rejected (.malformed kind.text fault.message span)) s := by
    refine bind_of_error ?_
    unfold reportLiteral
    rw [get_bind_apply, hs.frame.strict]
    rfl
  have hfirst : FirstFault (.malformed kind.text fault.message span)
      (lastState (malformedLiteral kind text fault span s')) := by
    have hreport : reportLiteral (.malformed kind.text fault.message span) s' =
        report (.malformed kind.text fault.message span) s' := by
      unfold reportLiteral
      rw [get_bind_apply, hs.frame.settings]
      rfl
    have hleads := leads_andThen (r := report (.malformed kind.text fault.message span) s')
      (f := fun _ => (pure (.malformed kind text fault) : Parser Literal)) fun _ => steady_pure _
    unfold malformedLiteral
    rw [bind_apply_andThen, hreport]
    exact (firstFault_report hs.log.1 hs.log.2 _).leads hleads
  exact .parted (.inr ⟨_, _, s, hstrict, hfirst, fun _ => rfl, .inl rfl⟩)

/-- Up to the first fault, recovery makes no difference, by each of the laws. -/
theorem modes_lawful (attempting : Bool) : (modes library attempting).Lawful where
  frame_library h := h.withLibrary.trans h.withLibrary'.symm
  frame_leads h ht ht' := h.leads ht ht'
  frame_deeper {s s' cost} h _ _ _ := by
    have hdepth : s'.depth + cost = s.depth + cost := by rw [h.depth]
    refine ⟨⟨h.withLibrary, h.withLibrary', h.strict, h.settings, hdepth, h.attempts, h.subqueries,
      h.separatorDepth, h.settled.deeper cost, h.attempting⟩, ?_⟩
    show s.separatorDepth = some (s.depth + cost) ↔ s'.separatorDepth = some (s'.depth + cost)
    rw [h.separatorDepth, hdepth]
  frame_separatingHere {s s'} h :=
    ⟨h.withLibrary, h.withLibrary', h.strict, h.settings, h.depth, h.attempts, h.subqueries,
      congrArg some h.depth, s.settled_separatingHere, h.attempting⟩
  log_same h _ hs' := ⟨hs'.diagnostics.trans h.1, hs'.lastReported.trans h.2⟩
  left_atOrder h := h.elim fun _ h => h.atOrder
  right_atOrder := False.elim
  -- Runs that have parted stay so: the recovering one keeps the fault it noted first.
  parted_andThen := by
    rintro α β γ δ r r' f g (⟨d, t, t', rfl, rfl, h⟩ | ⟨d, e, t, rfl, hfirst, h⟩) _ hg
    · exact .inl ⟨d, t, t', rfl, rfl, h⟩
    · exact .inr ⟨d, e, t, rfl, hfirst.leads (leads_andThen hg), h⟩
  parted_mapState := by
    rintro α β r r' f g (⟨d, t, t', rfl, rfl, h⟩ | ⟨d, e, t, rfl, hfirst, hmalformed, h⟩) hf hg
    · refine .inl ⟨d, f t, g t', rfl, rfl, ?_⟩
      rw [(hg t').1.diagnostics, (hg t').1.lastReported]
      exact h
    · refine .inr ⟨d, e, f t, rfl, ?_, hmalformed, h.imp_right fun h => ⟨h.1, ?_⟩⟩
      · unfold FirstFault
        rw [lastState_mapState, (hg _).1.diagnostics]
        exact hfirst
      · unfold GaveUp
        rw [(hf t).1.events]
        exact h.2
  parted_reject {α s s'} d h := .inl ⟨d, s, s', rfl, rfl, h.log⟩
  parted_nest := by
    intro α s s' cost p q h hparted
    have hdepth := h.frame.depth
    have hlimit := h.frame.nestingLimit
    rw [hdepth, hlimit, or_self] at hparted
    rw [nest_apply, nest_apply, hdepth, hlimit, ← h.cursor, if_pos hparted, if_pos hparted]
    exact .inl ⟨_, s, s', rfl, rfl, h.log⟩
  -- The strict run gave up an attempt at the fault and stands at an order that nothing can pass:
  -- it fails next, or stays there.
  astray_andThen := by
    rintro α β γ b firm r r' f g ⟨d, a, t, rfl, hfirst, hdoomed, hmalformed, hgave⟩ hframe _ hb _ hsf
      hsg hf _
    have hfirst' := hfirst.leads (leads_andThen (f := g) hsg)
    have hgave' := hgave.leads (hsf a t)
    show (modes library attempting).Agree b firm (f a t) (Run.andThen r' g)
    cases hrun : f a t with
    | error e u =>
      rw [hrun] at hgave'
      exact .parted (.inr ⟨d, e, u, rfl, hfirst', fun _ => hmalformed, .inr ⟨hmalformed, hgave'⟩⟩)
    | ok x u =>
      rw [hrun] at hgave'
      obtain ⟨hfirm, hu⟩ := hf a t u x ⟨hdoomed, hframe, hb⟩ hrun
      exact .astray hfirm ⟨d, x, u, rfl, hfirst', hu.1, hmalformed, hgave'⟩
  astray_mapState := by
    rintro α β b b' r r' f g ⟨d, a, t, rfl, hfirst, hdoomed, hmalformed, hgave⟩ _ hf hg
    refine ⟨d, a, f t, rfl, ?_, ?_, hmalformed, ?_⟩
    · unfold FirstFault
      rw [lastState_mapState, (hg _).1.diagnostics]
      exact hfirst
    · rw [(hf t).2]
      exact hdoomed
    · unfold GaveUp
      rw [(hf t).1.events]
      exact hgave
  malformedLiteral kind text fault span h := modes_malformedLiteral kind text fault span h

/-! ## Passing over errors -/

/-- An error that one run stops at is recorded by the other. -/
theorem modes_passOver {s s' : State} (hs : Modes library attempting s s')
    (hlog : s'.diagnostics = [] ∧ s'.lastReported = none) (d : Diagnostic) :
    (modes library attempting).parted (.error (.rejected d) s : Run α) (passOver d s') := by
  cases hrecovering : s'.isRecovering with
  | false =>
    rw [passOver_apply hrecovering d]
    exact .inl ⟨d, s, s', rfl, rfl, hlog⟩
  | true =>
    have hattempts : s'.attempts = 0 := by
      unfold State.isRecovering at hrecovering
      exact eq_of_beq (Bool.and_eq_true_iff.1 hrecovering).2
    have hnot : ¬attempting = true := by
      intro hattempting
      have hpos := hs.attempting hattempting
      rw [← hs.attempts] at hpos
      omega
    unfold passOver
    rw [get_bind_apply, hrecovering]
    cases d.isFatal with
    | true => exact .inl ⟨d, s, s', rfl, rfl, hlog⟩
    | false =>
      have hfirst : FirstFault d (lastState ((report d >>= fun _ => synchronize) s')) := by
        rw [bind_apply_andThen]
        exact (firstFault_report hlog.1 hlog.2 d).leads (leads_andThen fun _ => steady_synchronize)
      exact .inr ⟨d, _, s, rfl, hfirst, fun h => absurd h hnot, .inl rfl⟩

/-- The laws of queries hold as well. -/
theorem modes_queryLawful (attempting : Bool) : (modes library attempting).QueryLawful where
  frame_enclosed h :=
    ⟨h.withLibrary, h.withLibrary', h.strict, h.settings, h.depth, h.attempts,
      congrArg (· + 1) h.subqueries, h.separatorDepth, h.settled, h.attempting⟩
  clauseEnd {b s s'} hs := by
    have hboundary : s'.atBoundary = s.atBoundary := by
      unfold State.atBoundary
      rw [hs.frame.subqueries, hs.cursor]
    unfold clauseEnd
    rw [get_bind_apply, get_bind_apply, hboundary]
    cases s.atBoundary with
    | true => exact .ok () hs.cursor hs.log
    | false =>
      show (modes library attempting).Agree b true ((current >>= _) s) ((current >>= _) s')
      rw [current_bind_apply, current_bind_apply, passOver_apply hs.frame.notRecovering, hs.cursor]
      exact .parted (modes_passOver hs.frame hs.log _)
  recover {α b firm p q s s'} hp hq hframe h := by
    have ht := hp s
    have ht' := hq s'
    have hrecover := leads_recover q s'
    generalize hr : p s = r at ht h
    generalize hr' : q s' = r' at ht' h hrecover
    cases h with
    | ok a hcursor hlog =>
      unfold recover
      rw [hr, hr']
      exact .ok (some a) hcursor hlog
    | parted h =>
      -- Both have failed alike, and the second one notes the fault as its first.
      obtain ⟨d, t, t', rfl, rfl, hlog⟩ | ⟨d, e, t, rfl, hfirst, hmalformed, h⟩ := h
      · rw [recover_of_error hp hframe.notRecovering hr]
        unfold recover
        rw [hr']
        show (modes library attempting).Agree b firm _
          ((passOver d >>= fun _ => (pure none : Parser (Option α))) t')
        rw [bind_apply_andThen]
        have hparted := modes_passOver (α := Option α) (hframe.leads ht ht') hlog d
        exact .parted ((modes_lawful attempting).parted_andThen (f := pure) hparted steady_pure
          fun _ => steady_pure none)
      · rw [recover_of_error hp hframe.notRecovering hr]
        exact .parted (.inr ⟨d, e, t, rfl, hfirst.leads hrecover, hmalformed, h⟩)
    | astray hfirm h =>
      obtain ⟨d, a, t, rfl, hfirst, hrest⟩ := h
      refine .astray hfirm ⟨d, some a, t, ?_, hfirst.leads hrecover, hrest⟩
      unfold recover
      rw [hr]

/-! ## Attempts -/

/-- An attempt that one run gives up because of a malformed literal, and the other may complete. -/
theorem modes_attempt {b : Nat} (h : (modes library true).Rel false b true (orderedFilter read)
      (orderedFilter read)) :
    (modes library attempting).Rel false b false
      (attempt "ordered aggregate filter" (orderedFilter read))
      (attempt "ordered aggregate filter" (orderedFilter read)) := by
  refine ⟨h.steadyLeft.attempt, h.steadyRight.attempt, fun {s s'} hs hb hb' _ => ?_⟩
  have hagree := h.agree (s := s.trying) (u := s'.trying) ⟨hs.cursor, hs.frame.trying, hs.log⟩
    hb hb' nofun
  -- Both attempts are made or given up. Only a malformed literal parts them: the strict one gives
  -- up there.
  obtain ⟨x, t, hrun, heq⟩ | ⟨d, t, hrun, heq⟩ := attempt_orderedFilter s
  all_goals obtain ⟨x', t', hrun', heq'⟩ | ⟨d', t', hrun', heq'⟩ := attempt_orderedFilter s'
  all_goals rw [heq, heq']
  all_goals rw [hrun, hrun'] at hagree
  · cases hagree with
    | ok _ hcursor hlog => exact .ok (some x) hcursor hlog
    | parted hparted =>
      obtain ⟨d, u, u', hu, _⟩ | ⟨d, e, u, hu, _⟩ := hparted <;> cases hu
    | astray hfirm _ => cases hfirm
  · cases hagree with
    | parted hparted =>
      obtain ⟨d, u, u', hu, _⟩ | ⟨d, e, u, hu, _⟩ := hparted <;> cases hu
    | astray hfirm _ => cases hfirm
  · cases hagree with
    | parted hparted =>
      obtain ⟨_, u, u', _, hu', _⟩ | ⟨fault, e, u, hu, hfirst, hmalformed, hgave⟩ := hparted
      · cases hu'
      · cases hu
        have hgave' : GaveUp fault (s.undone "ordered aggregate filter" d t) := by
          obtain hd | ⟨_, rule, hrule⟩ := hgave
          · cases hd
            exact ⟨_, List.mem_cons_self⟩
          · exact ⟨rule, List.mem_cons_of_mem _ hrule⟩
        exact .astray rfl ⟨fault, none, _, rfl, hfirst,
          ⟨b, hs.cursor ▸ doomed_of_trying hs.frame.settled' hs.frame.withLibrary' hb' hrun'⟩,
            hmalformed rfl, hgave'⟩
    | astray hfirm _ => cases hfirm
  · exact .ok none hs.cursor hs.log

/-- What has gone astray stops at a filter. -/
theorem modes_stops (b : Nat) :
    StopsAtFilter ((modes library attempting).Left b) read ∧
      StopsAtFilter ((modes library attempting).Right b) read := by
  constructor
  · exact Simulation.Left.stopsAtFilter (modes_lawful _) (fun _ => Iff.rfl) fun _ _ hs =>
      ⟨hs.failsFast, hs.withLibrary⟩
  · exact fun _ _ _ hs => hs.1.elim

/-- What has gone astray does not recover. -/
theorem modes_fails (b : Nat) (s : State)
    (h : (modes library attempting).Left b s ∨ (modes library attempting).Right b s) :
    s.isRecovering = false := by
  obtain ⟨_, ⟨s', hs⟩, _⟩ | ⟨hfalse, _⟩ := h
  · exact hs.notRecovering
  · exact hfalse.elim

/-- Runs that stop at the first error and runs that recover do the same up to the first fault. -/
theorem modes_related (attempting : Bool) (b : Nat) (n : Nonterminal α) :
    (modes library attempting).Rel n.isPredicate b n.firm (read n) (read n) := by
  have hinner (b : Nat) {β : Type} (m : Nonterminal β) :
      (modes library true).Rel m.isPredicate b m.firm (read m) (read m) :=
    Simulation.related (modes_lawful true) (modes_queryLawful true) closed_read
      (fun _ h => modes_attempt h) (fun b _ => modes_stops b) modes_fails b m
  have hordered (b : Nat) : (modes library true).Rel false b true (orderedFilter read)
      (orderedFilter read) :=
    ((Simulation.family (modes_lawful true)).congruence false).orderedFilter (hinner b .orderBy)
      (hinner b .filter) waits_read_filter waits_read_filter
  exact Simulation.related (modes_lawful attempting) (modes_queryLawful attempting) closed_read
    (fun b _ => modes_attempt (hordered b)) (fun b _ => modes_stops b) modes_fails b n

/-! ## The whole input -/

theorem modes_inputEnd (b : Nat) : (modes library false).Rel false b true inputEnd inputEnd := by
  refine ⟨steady_inputEnd, steady_inputEnd, fun {s s'} hs _ _ _ => ?_⟩
  rw [inputEnd_apply hs.frame.notRecovering, hs.cursor]
  cases hend : s'.cursor.current.isEnd with
  | true =>
    have hrun : inputEnd s' = .ok () s' := by
      unfold inputEnd
      rw [current_bind_apply, hend]
      rfl
    rw [hrun]
    exact .ok () hs.cursor hs.log
  | false =>
    cases hrecovering : s'.isRecovering with
    | false =>
      rw [inputEnd_apply hrecovering, hend]
      exact .parted (.inl ⟨_, s, s', rfl, rfl, hs.log⟩)
    | true =>
      refine .parted (.inr ⟨_, _, s, rfl, ?_, nofun, .inl rfl⟩)
      have hrun : inputEnd s' = (report (.unexpected "end of input" s'.cursor.current) >>=
          fun _ => get >>= fun s => Parser.skip s.cursor.ahead.length >>= fun _ =>
            note .trailingSkipped) s' := by
        unfold inputEnd
        rw [current_bind_apply, hend]
        simp only [Bool.not_false, if_true]
        rw [get_bind_apply, hrecovering]
        rfl
      rw [hrun, bind_apply_andThen]
      exact (firstFault_report hs.log.1 hs.log.2 _).leads (leads_andThen fun _ =>
        steady_get_bind fun _ => (steady_skip _).bind fun _ => steady_note _)

/-- Up to the first fault, the whole input is read in one mode as in the other. -/
theorem modes_rootRule (b : Nat) :
    (modes library false).Rel false b true (rootRule read) (rootRule read) :=
  (Simulation.query_congruence (modes_lawful false) (modes_queryLawful false)).rootRule
    (modes_related false b .query) (modes_inputEnd b)
    (stays_inputEnd (Simulation.Left.atOrder (modes_lawful false))
      fun s hs => modes_fails b s (.inl hs))
    (stays_inputEnd (Simulation.Right.atOrder (modes_lawful false))
      fun s hs => modes_fails b s (.inr hs))

/-- A parse starts alike in both modes. -/
theorem modes_ofTokens [library : Time.Library] (tokens : List Token) {settings : Settings}
    (h : settings.recover = true) :
    (modes library false).Linked (State.ofTokens tokens { settings with recover := false })
      (State.ofTokens tokens settings) where
  cursor := rfl
  frame := ⟨rfl, rfl, rfl, by cases settings; cases h; rfl, rfl, rfl, rfl, rfl, nofun, nofun⟩
  log := ⟨rfl, rfl⟩

/-- How the two parses of a token list end. -/
theorem modes_runRoot [library : Time.Library] (tokens : List Token) {settings : Settings}
    (h : settings.recover = true) :
    (modes library false).Agree settings.nestingLimit true
      (runRoot tokens { settings with recover := false }) (runRoot tokens settings) := by
  rw [runRoot_eq, runRoot_eq]
  exact (modes_rootRule settings.nestingLimit).agree (modes_ofTokens tokens h) (Nat.le_refl _)
    (Nat.le_refl _) nofun

end SearchSql.Grammar

namespace SearchSql

open SearchSql.Grammar

/-- The first fault of a run is the first diagnostic of its outcome. -/
theorem head?_diagnostics {d : Diagnostic} {r : Run (Option Statement)}
    (h : FirstFault d (lastState r)) : (outcome r).diagnostics.head? = some d := by
  unfold FirstFault at h
  cases r with
  | ok statement t =>
    show t.diagnostics.reverse.head? = some d
    rw [List.head?_reverse]
    exact h
  | error e t =>
    cases e with
    | rejected d' =>
      show (d' :: t.diagnostics).reverse.head? = some d
      rw [List.head?_reverse, List.getLast?_cons, show t.diagnostics.getLast? = some d from h]
      rfl
    | outOfFuel =>
      show t.diagnostics.reverse.head? = some d
      rw [List.head?_reverse]
      exact h

/-- A parse that recovers has no fault exactly if the parse that stops at the first error gets to the
end, with the same statement. -/
theorem isClean_iff [library : Time.Library] (tokens : List Token) {settings : Settings}
    (h : settings.recover = true) (statement : Option Statement) :
    (parseTokens tokens settings).isClean = true ∧
        (parseTokens tokens settings).statement = statement ↔
      ∃ t, runRoot tokens { settings with recover := false } = .ok statement t := by
  have hagree := modes_runRoot tokens h
  unfold parseTokens
  generalize runRoot tokens { settings with recover := false } = r at hagree ⊢
  generalize runRoot tokens settings = r' at hagree ⊢
  cases hagree with
  | ok statement' _ hlog => simp [outcome, Outcome.isClean, hlog.1]
  | parted h =>
    obtain ⟨d, t, t', rfl, rfl, _⟩ | ⟨d, e, t, rfl, hfirst, _⟩ := h
    · simp [outcome, Outcome.isClean]
    · refine ⟨fun ⟨hclean, _⟩ => ?_, nofun⟩
      have hhead := head?_diagnostics hfirst
      have hnil := List.isEmpty_iff.1 (Bool.and_eq_true_iff.1 hclean).1
      rw [hnil] at hhead
      cases hhead
  | astray hfirm _ => cases hfirm

/-- A token list is a statement for the parse that stops at the first error exactly if it is that
statement, without a diagnostic, for the parse that recovers. -/
theorem parseTokensStrict_eq_ok_iff [Time.Library] (tokens : List Token) (settings : Settings)
    (h : settings.recover = true) (s : Statement) :
    parseTokensStrict tokens settings = .ok s ↔
      (parseTokens tokens settings).statement = some s ∧
        (parseTokens tokens settings).diagnostics = [] ∧
          (parseTokens tokens settings).aborted = false := by
  have hclean := isClean_iff tokens h (some s)
  unfold Outcome.isClean at hclean
  rw [Bool.and_eq_true, List.isEmpty_iff, Bool.not_eq_true'] at hclean
  rw [and_comm, hclean]
  exact parseTokensStrict_eq_ok

/-- The tokens of `SELECT 1` are the same statement to both parses. -/
theorem parseTokensStrict_one :
    Settings.standard.recover = true ∧
      (parseTokens
          [⟨.keyword .SELECT, "SELECT", ⟨0, 6⟩⟩, ⟨.integer, "1", ⟨7, 8⟩⟩, ⟨.endOfInput, "", ⟨8, 8⟩⟩]
          Settings.standard).statement =
        some (.select ⟨none, [.expr (.predicate (.atom (.constant ⟨.integer 1, ⟨7, 8⟩⟩))) none], none,
          none, none, none, none, none, ⟨0, 8⟩⟩) :=
  ⟨rfl, ((parseTokensStrict_eq_ok_iff _ Settings.standard rfl _).1 rfl).1⟩

/-- The parse that stops at the first error fails with the first diagnostic of the parse that
recovers. Only if this is about a malformed literal, and an attempt was given up because of it, may
it fail with another. -/
theorem parseStrict_eq_error [Time.Library] (text : String) (settings : Settings)
    (h : settings.recover = true)
    {d : Diagnostic} (hd : (parse text settings).diagnostics.head? = some d) :
    ∃ e, parseStrict text settings = .error (.rejected e) ∧
      (e = d ∨ d.kind = .malformedLiteral ∧ ∃ rule,
        .attemptUndone rule d ∈ (parse text { settings with recover := false }).events) := by
  have hagree := modes_runRoot (Token.tokenize text) h
  have hfuel := runRoot_ne_outOfFuel (Token.tokenize text) { settings with recover := false }
  unfold parse parseTokens at hd ⊢
  unfold parseStrict parseTokensStrict
  generalize runRoot (Token.tokenize text) { settings with recover := false } = r at hagree hfuel ⊢
  generalize runRoot (Token.tokenize text) settings = r' at hagree hd ⊢
  cases hagree with
  | @ok statement t t' _ hlog =>
    simp [outcome, hlog.1] at hd
  | parted h =>
    -- Both have the same fault, or the strict run gave up an attempt at the first one.
    obtain ⟨fault, t, t', rfl, rfl, hlog⟩ | ⟨fault, e, t, rfl, hfirst, _, hgave⟩ := h
    · simp only [outcome, hlog.1, List.reverse_cons, List.reverse_nil, List.nil_append,
        List.head?_cons, Option.some.injEq] at hd
      exact ⟨fault, rfl, .inl hd⟩
    · obtain rfl : fault = d := Option.some.inj ((head?_diagnostics hfirst).symm.trans hd)
      cases e with
      | outOfFuel => exact absurd rfl (hfuel t)
      | rejected e =>
        refine ⟨e, rfl, hgave.imp (fun he => ?_) fun ⟨hkind, rule, hrule⟩ => ⟨hkind, rule, ?_⟩⟩
        · cases he
          rfl
        · show _ ∈ (Event.aborted e :: t.events).reverse
          exact List.mem_reverse.2 (List.mem_cons_of_mem _ hrule)
  | astray hfirm _ => cases hfirm

/-- A second number behind `SELECT 1` is an error to both parses. -/
theorem parseStrict_second_number :
    Settings.standard.recover = true ∧
      (parse "SELECT 1 2" Settings.standard).diagnostics.head? =
        some ⟨.unexpected "clause keyword or end of statement" .integer, ⟨9, 10⟩⟩ ∧
      ∃ e, parseStrict "SELECT 1 2" Settings.standard = .error (.rejected e) ∧
        e.kind = .unexpectedToken := by
  have hfirst : (parse "SELECT 1 2" Settings.standard).diagnostics.head? =
      some ⟨.unexpected "clause keyword or end of statement" .integer, ⟨9, 10⟩⟩ := by decide +kernel
  obtain ⟨e, he, rfl | ⟨hkind, _⟩⟩ := parseStrict_eq_error _ _ rfl hfirst
  · exact ⟨rfl, hfirst, _, he, rfl⟩
  · cases hkind

/-- The malformed date is the first diagnostic of the parse that recovers. The other parse gives up
the order in which it stands, and fails in front of the word `ORDER`. -/
theorem parseStrict_ne_first_diagnostic :
    (parse "SELECT count(*) ORDER BY DATE '2020-02-31' FILTER (WHERE 1)"
        Settings.standard).diagnostics.head? =
      some (.malformed "date" "input is out of range" ⟨25, 42⟩) ∧
    ∃ e, parseStrict "SELECT count(*) ORDER BY DATE '2020-02-31' FILTER (WHERE 1)"
        Settings.standard = .error (.rejected e) ∧
      e ≠ .malformed "date" "input is out of range" ⟨25, 42⟩ := by
  have hfails : (match parseStrict "SELECT count(*) ORDER BY DATE '2020-02-31' FILTER (WHERE 1)"
      Settings.standard with
    | .error (.rejected e) => e == ⟨.unexpected "end of input" (.keyword .ORDER), ⟨16, 21⟩⟩
    | _ => false) = true := by decide +kernel
  refine ⟨by decide +kernel, ?_⟩
  split at hfails
  · next e he =>
    refine ⟨e, he, ?_⟩
    rw [eq_of_beq hfails]
    decide
  · cases hfails

end SearchSql
