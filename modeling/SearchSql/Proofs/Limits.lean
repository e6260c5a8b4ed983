import SearchSql.Proofs.Levels
import SearchSql.Proofs.Modes
import SearchSql.Time.Reading

/-!
# Too few levels of nesting

The run that recovers, with some limit of nesting, is compared with the run that stops at the first
error and has at least as many levels. As long as the second meets no error, the first does the same,
or stops because it has no level left, or has given up an attempt for want of one. In the last case
the refusal of the attempt is all that tells of the limit: what follows is read as if the input went
on in another way.

So a text that is without a fault under the highest limit comes out the same under a lower one, or is
refused as nested too deeply, or lost an attempt to the limit (`parse_of_isClean`). The third case is
real: there the limit is never reported (`parse_hides_limit`).
-/

set_option autoImplicit false

namespace SearchSql.Grammar

open SearchSql.Grammar.Parser

variable {α β : Type} {library : Time.Library} {before : List Diagnostic}

/-- An attempt was given up because of the limit of nesting. -/
def GaveUpTooDeep (t : State) : Prop :=
  ∃ rule d, d.kind = .recursionLimitExceeded ∧ Event.attemptUndone rule d ∈ t.events

/-- A run stopped at the limit of nesting and has reported nothing else since `before`. -/
def StoppedTooDeep (before : List Diagnostic) (r : Run α) : Prop :=
  ∃ d t, r = .error (.rejected d) t ∧ d.kind = .recursionLimitExceeded ∧ t.diagnostics = before

/-- What was given up is not forgotten. -/
theorem GaveUpTooDeep.leads {s t : State} (h : GaveUpTooDeep s) (ht : s.Leads t) :
    GaveUpTooDeep t := by
  obtain ⟨rule, d, hkind, hmem⟩ := h
  exact ⟨rule, d, hkind, ht.events.subset hmem⟩

/-- A run that has stopped at the limit goes on with nothing. -/
theorem StoppedTooDeep.andThen {r : Run α} (h : StoppedTooDeep before r) (f : α → Parser β) :
    StoppedTooDeep before (Run.andThen r f) := by
  obtain ⟨d, t, rfl, h⟩ := h
  exact ⟨d, t, rfl, h⟩

/-- It has stopped there if its state is changed behind it. -/
theorem StoppedTooDeep.mapState {r : Run α} (h : StoppedTooDeep before r) {f : State → State}
    (hf : ∀ t : State, t.SameLog (f t) ∧ (f t).cursor = t.cursor) :
    StoppedTooDeep before (mapState f r) := by
  obtain ⟨d, t, rfl, hkind, ht⟩ := h
  exact ⟨d, f t, rfl, hkind, (hf t).1.diagnostics.trans ht⟩

/-- The limit of nesting is not recovered from. -/
theorem StoppedTooDeep.recover {p : Parser α} {s : State} (h : StoppedTooDeep before (p s)) :
    StoppedTooDeep before (recover p s) := by
  obtain ⟨d, t, hrun, hkind, ht⟩ := h
  refine ⟨d, t, ?_, hkind, ht⟩
  have hfatal : d.isFatal = true := by
    unfold Diagnostic.isFatal
    rw [hkind]
    rfl
  have hpass : passOver d t = .error (.rejected d) t := by
    unfold passOver
    rw [get_bind_apply, hfatal]
    rfl
  unfold Parser.recover
  rw [hrun]
  exact bind_of_error hpass

/-- The run from the second state fails at its first error, and has as many levels left as the run
from the first or more. -/
structure Shallower (library : Time.Library) (s s' : State) : Prop where
  withLibrary : s.library = library
  withLibrary' : s'.library = library
  strict' : s'.settings.recover = false
  within : s.Within s'
  enclosed : 0 < s.subqueries ↔ 0 < s'.subqueries
  settled : s.Settled
  settled' : s'.Settled

/-- The run from the second state fails fast. -/
theorem Shallower.failsFast {s s' : State} (h : Shallower library s s') : s'.FailsFast :=
  ⟨notRecovering_of_strict h.strict', h.settled'⟩

/-- In an attempt, the first state still has fewer levels left. -/
theorem Shallower.trying {s s' : State} (h : Shallower library s s') :
    Shallower library s.trying s'.trying :=
  ⟨h.withLibrary, h.withLibrary', h.strict', h.within, h.enclosed, h.settled, h.settled'⟩

/-- Runs keep this of their states. -/
theorem Shallower.leads {s s' t t' : State} (h : Shallower library s s') (ht : s.Leads t)
    (ht' : s'.Leads t') : Shallower library t t' where
  withLibrary := ht.library.trans h.withLibrary
  withLibrary' := ht'.library.trans h.withLibrary'
  strict' := by rw [ht'.settings, h.strict']
  within := by
    unfold State.Within
    rw [ht.depth, ht.settings, ht'.depth, ht'.settings]
    exact h.within
  enclosed := by rw [ht.subqueries, ht'.subqueries, h.enclosed]
  settled := h.settled.leads ht
  settled' := h.settled'.leads ht'

/-- Runs are compared for what the second reads. -/
def limits (library : Time.Library) (before : List Diagnostic) : Simulation where
  frame := Shallower library
  log s _ := s.diagnostics = before
  left _ _ := False
  right _ c := ∃ b, Doomed library b c
  parted r r' := GaveUpTooDeep (lastState r) ∨ StoppedTooDeep before r ∨ Failed r'
  astray _ _ r' := ∃ a t, r' = .ok a t ∧ ∃ b, Doomed library b t.cursor

/-- With fewer levels left, what is read is read again or the limit is met, by each of the laws. -/
theorem limits_lawful : (limits library before).Lawful where
  frame_library h := h.withLibrary.trans h.withLibrary'.symm
  frame_leads h ht ht' := h.leads ht ht'
  frame_deeper h hcost _ _ :=
    ⟨⟨h.withLibrary, h.withLibrary', h.strict', h.within.deeper _, h.enclosed, h.settled.deeper _,
      h.settled'.deeper _⟩,
      h.settled.aligned_deeper h.settled' hcost⟩
  frame_separatingHere {s s'} h :=
    ⟨h.withLibrary, h.withLibrary', h.strict', h.within, h.enclosed, s.settled_separatingHere,
      s'.settled_separatingHere⟩
  log_same h hs _ := hs.diagnostics.trans h
  left_atOrder := False.elim
  right_atOrder h := h.elim fun _ h => h.atOrder
  parted_andThen {α β γ δ r r' f g} h hf _ := by
    obtain h | h | h := h
    · exact .inl (h.leads (leads_andThen hf))
    · exact .inr (.inl (h.andThen f))
    · exact .inr (.inr (h.andThen g))
  parted_mapState {α β r r' f g} h hf _ := by
    obtain ⟨rule, d, hkind, hmem⟩ | h | h := h
    · refine .inl ⟨rule, d, hkind, ?_⟩
      rw [lastState_mapState, (hf _).1.events]
      exact hmem
    · exact .inr (.inl (h.mapState hf))
    · exact .inr (.inr (h.mapState g))
  parted_reject d _ := .inr (.inr (failed_reject d _))
  parted_nest {α s s' cost p q} h hparted := by
    obtain hparted | hparted := hparted
    · refine .inr (.inl ⟨⟨.tooDeep s.settings.nestingLimit, s.cursor.current.span⟩, s, ?_, rfl,
        h.log⟩)
      rw [nest_apply, if_pos hparted]
    · exact .inr (.inr (failed_nest hparted))
  astray_andThen := by
    rintro α β γ b firm r r' f g ⟨a, t, rfl, hdoomed⟩ _ hframe _ hb _ _ _ hg
    -- The second run stands at an order that nothing can pass: it fails next, or stays there.
    show (limits library before).Agree b firm (Run.andThen r f) (g a t)
    cases hrun : g a t with
    | error e u => exact .parted (.inr (.inr ⟨e, u, rfl⟩))
    | ok x u =>
      obtain ⟨hfirm, hu⟩ := hg a t u x ⟨hdoomed, hframe, hb⟩ hrun
      exact .astray hfirm ⟨x, u, rfl, hu.1⟩
  astray_mapState := by
    rintro α β b b' r r' f g ⟨a, t, rfl, hdoomed⟩ _ _ hg
    refine ⟨a, g t, rfl, ?_⟩
    rw [(hg t).2]
    exact hdoomed
  malformedLiteral kind text fault span h :=
    .parted (.inr (.inr ⟨_, _, malformedLiteral_of_strict h.frame.strict' kind text fault span⟩))

/-- The laws of queries hold as well. -/
theorem limits_queryLawful : (limits library before).QueryLawful where
  frame_enclosed {s s'} h :=
    ⟨h.withLibrary, h.withLibrary', h.strict', h.within,
      ⟨fun _ => Nat.succ_pos s'.subqueries, fun _ => Nat.succ_pos s.subqueries⟩,
      h.settled, h.settled'⟩
  clauseEnd {b s s'} hs := by
    unfold clauseEnd
    rw [get_bind_apply, get_bind_apply, atBoundary_eq hs.cursor hs.frame.enclosed]
    cases s'.atBoundary with
    | true => exact .ok () hs.cursor hs.log
    | false =>
      show (limits library before).Agree b true _ ((current >>= _) s')
      rw [current_bind_apply, passOver_apply hs.frame.failsFast.notRecovering]
      exact .parted (.inr (.inr ⟨_, s', rfl⟩))
  recover {α b firm p q s s'} hp hq hframe h := by
    have hlead := leads_recover p s
    generalize hr' : q s' = r' at h
    cases hr : p s with
    -- Only the first run may recover, and not from the limit of nesting.
    | ok a t =>
      have hrun : recover p s = .ok (some a) t := by
        unfold recover
        rw [hr]
      rw [hr] at h
      rw [hrun]
      cases h with
      | ok _ hcursor hlog =>
        unfold recover
        rw [hr']
        exact .ok (some a) hcursor hlog
      | parted h =>
        obtain h | ⟨d, u, heq, _⟩ | ⟨e, u, rfl⟩ := h
        · exact .parted (.inl h)
        · cases heq
        · exact .parted (.inr (.inr ⟨e, u, recover_of_error hq hframe.failsFast.notRecovering hr'⟩))
      | astray hfirm h =>
        obtain ⟨a', u, rfl, hdoomed⟩ := h
        refine .astray hfirm ⟨some a', u, ?_, hdoomed⟩
        unfold recover
        rw [hr']
    | error e t =>
      rw [hr] at h hlead
      cases h with
      | parted h =>
        obtain h | h | ⟨e, u, rfl⟩ := h
        · exact .parted (.inl (h.leads hlead))
        · exact .parted (.inr (.inl (StoppedTooDeep.recover (hr ▸ h))))
        · exact .parted (.inr (.inr ⟨e, u, recover_of_error hq hframe.failsFast.notRecovering hr'⟩))
      | astray hfirm h =>
        obtain ⟨a', u, rfl, hdoomed⟩ := h
        refine .astray hfirm ⟨some a', u, ?_, hdoomed⟩
        unfold recover
        rw [hr']

/-- What gives an attempt up for want of a level is kept among the events. -/
theorem limits_attempt : (limits library before).ComparesAttempts read := by
  intro b h
  refine ⟨h.steadyLeft.attempt, h.steadyRight.attempt, fun {s s'} hs hb hb' _ => ?_⟩
  have hagree := h.agree (s := s.trying) (u := s'.trying) ⟨hs.cursor, hs.frame.trying, hs.log⟩
    hb hb' nofun
  obtain ⟨x, t, hrun, heq⟩ | ⟨d, t, hrun, heq⟩ := attempt_orderedFilter s
  all_goals obtain ⟨x', t', hrun', heq'⟩ | ⟨d', t', hrun', heq'⟩ := attempt_orderedFilter s'
  all_goals rw [heq, heq']
  all_goals rw [hrun, hrun'] at hagree
  · cases hagree with
    | ok _ hcursor hlog => exact .ok (some x) hcursor hlog
    | parted hparted =>
      obtain h | ⟨d, u, hu, _⟩ | ⟨e, u, hu⟩ := hparted
      · exact .parted (.inl h)
      · cases hu
      · cases hu
    | astray hfirm _ => cases hfirm
  · exact .astray rfl ⟨none, _, rfl, b,
      hs.cursor ▸ doomed_of_trying hs.frame.settled hs.frame.withLibrary hb hrun⟩
  · cases hagree with
    | parted hparted =>
      obtain ⟨rule, d, hkind, hmem⟩ | ⟨d, u, hu, hkind, _⟩ | ⟨e, u, hu⟩ := hparted
      · exact .parted (.inl ⟨rule, d, hkind, List.mem_cons_of_mem _ hmem⟩)
      · cases hu
        exact .parted (.inl ⟨_, d, hkind, List.mem_cons_self⟩)
      · cases hu
    | astray hfirm _ => cases hfirm
  · exact .ok none hs.cursor hs.log

/-- What has gone astray stops at a filter. -/
theorem limits_stops (b : Nat) :
    StopsAtFilter ((limits library before).Left b) read ∧
      StopsAtFilter ((limits library before).Right b) read := by
  constructor
  · exact fun _ _ _ hs => hs.1.elim
  · exact Simulation.Right.stopsAtFilter limits_lawful (fun _ => Iff.rfl) fun _ _ hs =>
      ⟨hs.failsFast, hs.withLibrary'⟩

/-- What has gone astray does not recover. -/
theorem limits_fails (b : Nat) (s : State)
    (h : (limits library before).Left b s ∨ (limits library before).Right b s) :
    s.isRecovering = false := by
  obtain ⟨hfalse, _⟩ | ⟨_, ⟨s', hs⟩, _⟩ := h
  · exact hfalse.elim
  · exact hs.failsFast.notRecovering

/-- What a run with many levels reads without an error, a run with fewer reads too, unless it is
stopped by the limit or has given up an attempt because of it. -/
theorem limits_related (b : Nat) (n : Nonterminal α) :
    (limits library before).Rel n.isPredicate b n.firm (read n) (read n) :=
  Simulation.related limits_lawful limits_queryLawful closed_read limits_attempt
    (fun b _ => limits_stops b) limits_fails b n

/-- A run met the limit of nesting: it stopped there, or gave an attempt up because of it. -/
def MetLimit (r : Run α) : Prop :=
  (∃ d t, r = .error (.rejected d) t ∧ d.kind = .recursionLimitExceeded) ∨
    GaveUpTooDeep (lastState r)

/-- What is read with many levels is read with fewer, unless the run meets the limit, or what is read
is open and ends at an order. -/
theorem limits_ok {p : Parser α} {aligned firm : Bool}
    (h : ∀ before b, (limits library before).Rel aligned b firm p p) {s s' t' : State} {a : α}
    (hcursor : s.cursor = s'.cursor) (hs : Shallower library s s')
    (haligned : aligned = true → s.Aligned s')
    (hrun : p s' = .ok a t') (horder : firm = true ∨ ¬t'.AtOrder) :
    (∃ t, p s = .ok a t ∧ t.cursor = t'.cursor) ∨ MetLimit (p s) := by
  have hagree := (h s.diagnostics s'.budget).agree ⟨hcursor, hs, rfl⟩ hs.within.budget_le
    (Nat.le_refl _) haligned
  rw [hrun] at hagree
  generalize p s = r at hagree
  cases hagree with
  | ok _ hcursor _ => exact .inl ⟨_, rfl, hcursor⟩
  | parted hparted =>
    obtain h | ⟨d, t, rfl, hkind, -⟩ | ⟨e, u, heq⟩ := hparted
    · exact .inr (.inr h)
    · exact .inr (.inl ⟨d, t, rfl, hkind⟩)
    · cases heq
  | astray hopen hastray =>
    obtain ⟨_, u, heq, _, hdoomed⟩ := hastray
    obtain ⟨-, rfl⟩ := EStateM.Result.ok.inj heq
    obtain hfirm | horder := horder
    · cases hopen.symm.trans hfirm
    · exact absurd hdoomed.atOrder horder

theorem limits_inputEnd (b : Nat) : (limits library before).Rel false b true inputEnd inputEnd := by
  refine ⟨steady_inputEnd, steady_inputEnd, fun {s s'} hs _ _ _ => ?_⟩
  rw [inputEnd_apply hs.frame.failsFast.notRecovering]
  cases hend : s'.cursor.current.isEnd with
  | true =>
    rw [inputEnd_of_isEnd (hs.cursor ▸ hend)]
    exact .ok () hs.cursor hs.log
  | false => exact .parted (.inr (.inr ⟨_, s', rfl⟩))

/-- The whole input is read again with fewer levels left, or the limit is met. -/
theorem limits_rootRule (b : Nat) :
    (limits library before).Rel false b true (rootRule read) (rootRule read) :=
  (Simulation.query_congruence limits_lawful limits_queryLawful).rootRule
    (limits_related b .query) (limits_inputEnd b)
    (stays_inputEnd (Simulation.Left.atOrder limits_lawful) fun s hs => limits_fails b s (.inl hs))
    (stays_inputEnd (Simulation.Right.atOrder limits_lawful) fun s hs => limits_fails b s (.inr hs))

/-- How a parse that recovers ends under a lower limit, where the parse that stops at the first error
gets to the end under a higher one. -/
theorem limits_runRoot [library : Time.Library] {tokens : List Token}
    {settings settings' : Settings}
    (h' : settings'.recover = false) (hlimit : settings.nestingLimit ≤ settings'.nestingLimit)
    {statement : Option Statement} {t' : State} (hrun : runRoot tokens settings' = .ok statement t') :
    (∃ t, runRoot tokens settings = .ok statement t ∧ t.diagnostics = []) ∨
      StoppedTooDeep [] (runRoot tokens settings) ∨
        GaveUpTooDeep (lastState (runRoot tokens settings)) := by
  have hlinked : (limits library []).Linked (State.ofTokens tokens settings)
      (State.ofTokens tokens settings') :=
    ⟨rfl, ⟨rfl, rfl, h', fun cost hcost => Nat.le_trans hcost hlimit, Iff.rfl, nofun, nofun⟩, rfl⟩
  have hagree := (limits_rootRule settings'.nestingLimit).agree hlinked hlimit (Nat.le_refl _) nofun
  rw [← runRoot_eq, ← runRoot_eq, hrun] at hagree
  generalize runRoot tokens settings = r at hagree
  cases hagree with
  | ok _ _ hlog => exact .inl ⟨_, rfl, hlog⟩
  | parted hparted =>
    obtain h | h | ⟨e, u, heq⟩ := hparted
    · exact .inr (.inr h)
    · exact .inr (.inl h)
    · cases heq
  | astray hfirm _ => cases hfirm

end SearchSql.Grammar

namespace SearchSql

open SearchSql.Grammar

/-- The settings with the highest limit of nesting, and the standard ones otherwise. -/
def Settings.deepest : Settings := { standard with maxDepth := depthCeiling }

/-- The events of a run are among those of its outcome. -/
theorem mem_events_outcome {r : Run (Option Statement)} {e : Event}
    (h : e ∈ (lastState r).events) : e ∈ (outcome r).events := by
  cases r with
  | ok statement t => exact List.mem_reverse.2 h
  | error failure t =>
    cases failure with
    | rejected d => exact List.mem_reverse.2 (List.mem_cons_of_mem _ h)
    | outOfFuel => exact List.mem_reverse.2 h

/-- An outcome is clean if nothing was reported and the parse went to its end. -/
theorem Outcome.isClean_iff (o : Outcome) :
    o.isClean = true ↔ o.diagnostics = [] ∧ o.aborted = false := by
  unfold isClean
  rw [Bool.and_eq_true, List.isEmpty_iff, Bool.not_eq_true']

/-- Among the limits under which a text has no fault, none changes the statement. -/
theorem statement_eq_of_isClean [Time.Library] {text : String} {settings settings' : Settings}
    (hrecover : settings.recover = true) (hrecover' : settings'.recover = true)
    (hlimit : settings.nestingLimit ≤ settings'.nestingLimit)
    (h : (parse text settings).isClean = true) (h' : (parse text settings').isClean = true) :
    (parse text settings).statement = (parse text settings').statement := by
  obtain ⟨t, hrun⟩ := (isClean_iff (Token.tokenize text) hrecover _).1 ⟨h, rfl⟩
  obtain ⟨t', hrun'⟩ := (isClean_iff (Token.tokenize text) hrecover' _).1 ⟨h', rfl⟩
  obtain ⟨u, hdeep⟩ := levels_runRoot (show Settings.recover { settings with recover := false } = _
    from rfl) (show Settings.recover { settings' with recover := false } = _ from rfl) hlimit hrun
  exact (EStateM.Result.ok.inj (hdeep.symm.trans hrun')).1

/-- A text without a fault under the highest limit of nesting comes out the same under any other,
with the same statement and no diagnostic, or the parse ends early, the limit being its only
diagnostic. Otherwise the parse has a fault and gave up an attempt because of the limit. -/
theorem parse_of_isClean [Time.Library] (text : String) (maxDepth : Nat)
    (h : (parse text Settings.deepest).isClean = true) :
    let outcome := parse text { Settings.standard with maxDepth := maxDepth }
    (outcome.statement = (parse text Settings.deepest).statement ∧
        outcome.diagnostics = (parse text Settings.deepest).diagnostics ∧
        outcome.aborted = (parse text Settings.deepest).aborted) ∨
      (outcome.statement = none ∧ outcome.aborted = true ∧
        ∃ d, outcome.diagnostics = [d] ∧ d.kind = .recursionLimitExceeded) ∨
      (outcome.isClean = false ∧
        ∃ rule d, .attemptUndone rule d ∈ outcome.events ∧ d.kind = .recursionLimitExceeded) := by
  intro o
  have hlimit : Settings.nestingLimit { Settings.standard with maxDepth := maxDepth } ≤
      Settings.nestingLimit { Settings.deepest with recover := false } := Nat.min_le_right _ _
  obtain ⟨t', hrun⟩ := (isClean_iff (Token.tokenize text) (show Settings.deepest.recover = true
    from rfl) _).1 ⟨h, rfl⟩
  obtain ⟨hdiagnostics, haborted⟩ := (Outcome.isClean_iff _).1 h
  -- Without a diagnostic both parses have read the same; otherwise the limit was met somewhere.
  by_cases hclean : o.isClean = true
  · obtain ⟨hdiagnostics', haborted'⟩ := (Outcome.isClean_iff _).1 hclean
    exact .inl ⟨statement_eq_of_isClean rfl rfl hlimit hclean h,
      hdiagnostics'.trans hdiagnostics.symm, haborted'.trans haborted.symm⟩
  · obtain ⟨t, heq, hnone⟩ | ⟨d, t, heq, hkind, hnone⟩ | ⟨rule, d, hkind, hmem⟩ :=
      limits_runRoot rfl hlimit hrun
    · refine absurd ?_ hclean
      have ho : o = outcome (.ok _ t) := congrArg outcome heq
      rw [ho, Outcome.isClean_iff]
      exact ⟨congrArg List.reverse hnone, rfl⟩
    · have ho : o = outcome (.error (.rejected d) t) := congrArg outcome heq
      rw [ho]
      exact .inr (.inl ⟨rfl, rfl, d, congrArg (fun l => (d :: l).reverse) hnone, hkind⟩)
    · exact .inr (.inr ⟨Bool.eq_false_iff.2 hclean, rule, d, mem_events_outcome hmem, hkind⟩)

/-- Three parentheses need three levels, and the parse with two of them says so. -/
theorem parse_parenthesized_one :
    (parse "SELECT (((1)))" Settings.deepest).isClean = true ∧
      (parse "SELECT (((1)))" { Settings.standard with maxDepth := 2 }).statement = none ∧
      (parse "SELECT (((1)))" { Settings.standard with maxDepth := 2 }).aborted = true ∧
      ∃ d, (parse "SELECT (((1)))" { Settings.standard with maxDepth := 2 }).diagnostics = [d] ∧
        d.kind = .recursionLimitExceeded := by
  have hclean : (parse "SELECT (((1)))" Settings.deepest).isClean = true := by decide +kernel
  have haborted : (parse "SELECT (((1)))"
      { Settings.standard with maxDepth := 2 }).aborted = true := by decide +kernel
  have hundone : (parse "SELECT (((1)))" { Settings.standard with maxDepth := 2 }).events.all
      (fun e => match e with | .attemptUndone .. => false | _ => true) = true := by decide +kernel
  refine ⟨hclean, ?_⟩
  obtain ⟨_, _, hfinished⟩ | hstopped | ⟨_, rule, d, hmem, _⟩ :=
    parse_of_isClean "SELECT (((1)))" 2 hclean
  · rw [haborted, ((Outcome.isClean_iff _).1 hclean).2] at hfinished
    cases hfinished
  · exact hstopped
  · cases List.all_eq_true.1 hundone _ hmem

/-- The order in front of the filter is nested more deeply than two levels. The attempt to read it
is given up because of that, and the parse ends in front of the word `ORDER`, with a statement and
without a word about the limit. -/
theorem parse_hides_limit :
    (parse "SELECT count(*) ORDER BY 1 FILTER (WHERE 1)" Settings.deepest).isClean = true ∧
      (parse "SELECT count(*) ORDER BY 1 FILTER (WHERE 1)"
          { Settings.standard with maxDepth := 2 }).diagnostics =
        [⟨.unexpected "end of input" (.keyword .ORDER), ⟨16, 21⟩⟩] ∧
      (parse "SELECT count(*) ORDER BY 1 FILTER (WHERE 1)"
          { Settings.standard with maxDepth := 2 }).statement.isSome = true := by
  decide +kernel

end SearchSql
