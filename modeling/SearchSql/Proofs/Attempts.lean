import SearchSql.Proofs.Agreement
import SearchSql.Proofs.Contract
import SearchSql.Time.Reading

/-!
# Attempts that are undone

Behind an aggregate, reading `ORDER BY` as a part of it is an attempt. One that is given up leaves
nothing behind but the events that tell of it: the state is that in front of the attempt
(`read_aggregateTail`), whatever the attempt has reported, however deep it went, and whichever further
attempts it made.

A token list without the word `FILTER` lets every such attempt fail. Its parse is therefore that of a
grammar in which an order never belongs to an aggregate (`plainRule`).
-/

set_option autoImplicit false

namespace SearchSql

namespace Grammar

open SearchSql.Grammar.Parser

variable {α β : Type}

/-- The state with other events. -/
def State.withEvents (s : State) (events : List Event) : State := { s with events := events }

/-- What an attempt leaves behind that is given up. -/
theorem State.undone_eq {s t : State} (h : s.trying.Leads t) (rule : String) (d : Diagnostic) :
    s.undone rule d t = s.withEvents (.attemptUndone rule d :: t.events) := by
  have hattempts : t.attempts - 1 = s.attempts := by
    rw [h.attempts]
    exact Nat.add_sub_cancel s.attempts 1
  have hsettings : t.settings = s.settings := h.settings
  have hlibrary : t.library = s.library := h.library
  have hdepth : t.depth = s.depth := h.depth
  have hsubqueries : t.subqueries = s.subqueries := h.subqueries
  have hseparator : t.separatorDepth = s.separatorDepth := h.separatorDepth
  simp only [State.undone, State.tried, State.withEvents, hattempts, hsettings, hlibrary, hdepth,
    hsubqueries, hseparator]

theorem steady_orderedFilter : Steady (orderedFilter read) :=
  (steady_read .orderBy).bind fun _ => (steady_read .filter).bind fun _ => steady_pure _

/-- An attempt at a filter behind an order is complete, for which the word `FILTER` has to stand
somewhere, or leaves nothing behind but events. -/
theorem attempt_orderedFilter_cases (s : State) :
    (∃ x t, attempt "ordered aggregate filter" (orderedFilter read) s = .ok (some x) t ∧
        ∃ token ∈ s.cursor.allTokens, token.kind = .keyword .FILTER) ∨
      ∃ events, attempt "ordered aggregate filter" (orderedFilter read) s =
        .ok none (s.withEvents (events ++ s.events)) := by
  obtain ⟨x, t, hrun, heq⟩ | ⟨d, t, hrun, heq⟩ := attempt_orderedFilter s
  · -- The word is read where the order ends.
    obtain ⟨u, horder, hfilter⟩ := orderedFilter_eq_ok hrun
    have hu : u.cursor.allTokens = s.cursor.allTokens :=
      ((steady_read .orderBy).leads horder).allTokens
    refine .inl ⟨x, t.tried, heq, u.cursor.current, ?_, filter_of_read hfilter⟩
    obtain ⟨rest, hrest⟩ := u.cursor.exists_current_cons
    rw [← hu, Cursor.allTokens, List.append_assoc, hrest]
    exact List.mem_append_right _ List.mem_cons_self
  · have hleads : s.trying.Leads t := by
      have hlast := steady_orderedFilter s.trying
      rwa [hrun] at hlast
    obtain ⟨events, hevents⟩ : s.events <:+ t.events := hleads.events
    refine .inr ⟨.attemptUndone "ordered aggregate filter" d :: events, ?_⟩
    rw [heq, State.undone_eq hleads, ← hevents, List.cons_append]

/-- How reading what follows an aggregate ends: with a window or a filter, with a failure of the window
or filter that stands here, or with nothing read and nothing changed. -/
theorem aggregateTail_cases (aggregate : Aggregate) (s : State) :
    (∃ shape t, read (.aggregateTail aggregate) s = .ok shape t ∧
        ((∃ window, shape = .windowed aggregate window) ∨
          ∃ orderBy filter, shape = .filtered aggregate orderBy filter)) ∨
      (∃ failure t, read (.aggregateTail aggregate) s = .error failure t ∧
        (s.cursor.current.kind = .keyword .OVER ∧ read .window s = .error failure t ∨
          s.cursor.current.kind = .keyword .FILTER ∧ read .filter s = .error failure t)) ∨
      ∃ events, read (.aggregateTail aggregate) s =
        .ok (.aggregate aggregate) (s.withEvents (events ++ s.events)) := by
  rw [read_eq_rule]
  show (∃ shape t, aggregateTailRule read aggregate s = .ok shape t ∧ _) ∨
    (∃ failure t, aggregateTailRule read aggregate s = .error failure t ∧ _) ∨
      ∃ events, aggregateTailRule read aggregate s = _
  unfold aggregateTailRule
  rw [atKeyword_bind_apply]
  by_cases hover : s.cursor.current.kind = .keyword .OVER
  · simp only [hover, beq_self_eq_true, if_true]
    cases hwindow : read .window s with
    | ok window t =>
      exact .inl ⟨_, t, bind_of_ok hwindow, .inl ⟨window, rfl⟩⟩
    | error failure t =>
      exact .inr (.inl ⟨failure, t, bind_of_error hwindow, .inl ⟨trivial, rfl⟩⟩)
  simp only [beq_iff_eq, hover, if_false]
  rw [atKeyword_bind_apply]
  by_cases hfilter : s.cursor.current.kind = .keyword .FILTER
  · simp only [hfilter, beq_self_eq_true, if_true]
    cases hread : read .filter s with
    | ok filter t =>
      exact .inl ⟨_, t, bind_of_ok hread, .inr ⟨none, filter, rfl⟩⟩
    | error failure t =>
      exact .inr (.inl ⟨failure, t, bind_of_error hread, .inr ⟨trivial, rfl⟩⟩)
  simp only [beq_iff_eq, hfilter, if_false]
  rw [atKeyword_bind_apply]
  by_cases horder : s.cursor.current.kind = .keyword .ORDER
  · simp only [horder, beq_self_eq_true, if_true]
    -- Only here an attempt is made, and the aggregate stays alone if it is given up.
    obtain ⟨⟨orderBy, filter⟩, t, hattempt, _⟩ | ⟨events, hattempt⟩ :=
      attempt_orderedFilter_cases s
    · exact .inl ⟨_, t, bind_of_ok hattempt, .inr ⟨some orderBy, filter, rfl⟩⟩
    · exact .inr (.inr ⟨events, bind_of_ok hattempt⟩)
  · simp only [beq_iff_eq, horder, if_false]
    exact .inr (.inr ⟨[], rfl⟩)

/-! ## The grammar without ordered filters -/

/-- What may follow an aggregate to which no order belongs. -/
def plainTailRule (call : Callee) (aggregate : Aggregate) : Parser CallShape := do
  if ← atKeyword .OVER then return .windowed aggregate (← call .window)
  if ← atKeyword .FILTER then return .filtered aggregate none (← call .filter)
  return .aggregate aggregate

/-- The rule of a nonterminal where no order belongs to an aggregate. -/
def plainRule (call : Callee) : {α : Type} → Nonterminal α → Parser α
  | _, .aggregateTail aggregate => plainTailRule call aggregate
  | _, nonterminal => rule call nonterminal

/-- Runs the rule of a nonterminal where no order belongs to an aggregate. -/
def plainDerive : Nat → {α : Type} → Nonterminal α → Parser α
  | 0, _, _ => throw .outOfFuel
  | fuel + 1, _, nonterminal => plainRule (plainDerive fuel) nonterminal

/-- Runs the rule of the whole input where no order belongs to an aggregate. -/
def runPlainRoot [Time.Library] (tokens : List Token) (settings : Settings) : Run
    (Option Statement) :=
  rootRule (plainDerive (fuelFor settings)) (State.ofTokens tokens settings)

/-- No token is the word `FILTER`. -/
def Filterless (tokens : List Token) : Prop := ∀ t ∈ tokens, t.kind ≠ .keyword .FILTER

/-- The diagnostics of two states are the same. -/
def State.SameDiagnostics (s s' : State) : Prop :=
  s.diagnostics = s'.diagnostics ∧ s.lastReported = s'.lastReported

/-- Runs on tokens without the word `FILTER` are compared for being the same but for their events. -/
def filterless : Simulation where
  frame s s' := s.SameFrame s' ∧ Filterless s.cursor.allTokens ∧ Filterless s'.cursor.allTokens
  log := State.SameDiagnostics
  left _ _ := False
  right _ _ := False
  parted r r' := ∃ d t t', r = .error (.rejected d) t ∧ r' = .error (.rejected d) t' ∧
    t.cursor = t'.cursor ∧ t.SameDiagnostics t'
  astray _ _ _ := False

theorem State.SameFrame.withEvents (s : State) (events : List Event) :
    s.SameFrame (s.withEvents events) := ⟨rfl, rfl, rfl, rfl, rfl, rfl⟩

theorem eq_withEvents {s s' : State} (h : filterless.Linked s s') :
    s' = s.withEvents s'.events := by
  have hcursor : (s.withEvents s'.events).cursor = s'.cursor := h.cursor
  have hframe : (s.withEvents s'.events).SameFrame s' :=
    (State.SameFrame.withEvents s s'.events).symm.trans h.frame.1
  exact (State.eq_of_same hcursor hframe ⟨h.log.1, h.log.2, rfl⟩).symm

/-! ## Runs that do not depend on events -/

/-- What a parser does is the same whatever events there were before, and it runs to its end. -/
def Unlogged (p : Parser α) : Prop :=
  ∀ (s : State) (events : List Event),
    (∃ a t later, p s = .ok a t ∧ p (s.withEvents events) = .ok a (t.withEvents later)) ∨
      ∃ d t later, p s = .error (.rejected d) t ∧
        p (s.withEvents events) = .error (.rejected d) (t.withEvents later)

theorem unlogged_pure (a : α) : Unlogged (pure a : Parser α) :=
  fun s events => .inl ⟨a, s, events, rfl, rfl⟩

theorem unlogged_reject (d : Diagnostic) : Unlogged (reject d : Parser α) :=
  fun s events => .inr ⟨d, s, events, rfl, rfl⟩

theorem unlogged_skip (n : Nat) : Unlogged (Parser.skip n) :=
  fun s events => .inl ⟨(), s.skip n, events, rfl, rfl⟩

theorem unlogged_note (e : Event) : Unlogged (note e) :=
  fun s events => .inl ⟨(), s.withEvents (e :: s.events), e :: events, rfl, rfl⟩

/-- Two parsers in a row do not depend on events if neither does. -/
theorem Unlogged.bind {p : Parser α} {f : α → Parser β} (hp : Unlogged p)
    (hf : ∀ a, Unlogged (f a)) : Unlogged (p >>= f) := by
  intro s events
  obtain ⟨a, t, later, hrun, hrun'⟩ | ⟨d, t, later, hrun, hrun'⟩ := hp s events
  · rw [bind_of_ok hrun, bind_of_ok hrun']
    exact hf a t later
  · exact .inr ⟨d, t, later, bind_of_error hrun, bind_of_error hrun'⟩

/-- To look at the state does not depend on events, if what follows ignores them. -/
theorem unlogged_get_bind {f : State → Parser α} (h : ∀ s, Unlogged (f s))
    (hevents : ∀ (s : State) (events : List Event), f (s.withEvents events) = f s) :
    Unlogged (get >>= f) := by
  intro s events
  rw [get_bind_apply, get_bind_apply, hevents]
  exact h s s events

/-- A report does not depend on events. -/
theorem unlogged_report (d : Diagnostic) : Unlogged (report d) := by
  refine unlogged_get_bind (fun s => ?_) fun _ _ => rfl
  split
  · exact unlogged_note _
  · refine Unlogged.bind (fun s events => .inl ⟨(), s.reported d, events, rfl, rfl⟩) fun _ =>
      unlogged_get_bind (fun s => ?_) fun _ _ => rfl
    split
    · exact unlogged_reject _
    · exact unlogged_pure _

/-- The report of a malformed literal does not depend on events. -/
theorem unlogged_malformedLiteral (kind : LiteralKind) (text : String) (fault : LiteralFault)
    (span : Span) : Unlogged (malformedLiteral kind text fault span) := by
  refine Unlogged.bind (unlogged_get_bind (fun s => ?_) fun _ _ => rfl) fun _ => unlogged_pure _
  split
  · exact unlogged_report _
  · exact unlogged_reject _

theorem unlogged_passOver (d : Diagnostic) : Unlogged (passOver d) := by
  have hsynchronize : Unlogged synchronize :=
    unlogged_get_bind (fun s => (unlogged_skip _).bind fun _ =>
      unlogged_get_bind (fun _ => unlogged_note _) fun _ _ => rfl) fun _ _ => rfl
  refine unlogged_get_bind (fun s => ?_) fun _ _ => rfl
  split
  · exact (unlogged_report d).bind fun _ => hsynchronize
  · exact unlogged_reject d

theorem unlogged_clauseEnd : Unlogged clauseEnd := by
  refine unlogged_get_bind (fun s => ?_) fun _ _ => rfl
  split
  · exact unlogged_get_bind (fun _ => unlogged_passOver _) fun _ _ => rfl
  · exact unlogged_pure _

theorem unlogged_inputEnd : Unlogged inputEnd := by
  refine unlogged_get_bind (fun s => ?_) fun _ _ => rfl
  dsimp only
  split
  · refine unlogged_get_bind (fun s => ?_) fun _ _ => rfl
    split
    · exact (unlogged_report _).bind fun _ =>
        unlogged_get_bind (fun _ => (unlogged_skip _).bind fun _ => unlogged_note _) fun _ _ => rfl
    · exact unlogged_reject _
  · exact unlogged_pure _

/-! ## Comparing the two grammars -/

/-- The runs of a parser that does not depend on events agree. -/
theorem Unlogged.agree {p : Parser α} (hp : Unlogged p) {s s' : State}
    (hs : filterless.Linked s s') {b : Nat} {firm : Bool} :
    filterless.Agree b firm (p s) (p s') := by
  rw [eq_withEvents hs]
  obtain ⟨a, t, later, hrun, hrun'⟩ | ⟨d, t, later, hrun, hrun'⟩ := hp s s'.events
  · rw [hrun, hrun']
    exact .ok a rfl ⟨rfl, rfl⟩
  · rw [hrun, hrun']
    exact .parted ⟨d, t, t.withEvents later, rfl, rfl, rfl, rfl, rfl⟩

/-- A run does not change the tokens, so no filter appears among them. -/
theorem Filterless.leads {s t : State} (h : Filterless s.cursor.allTokens) (ht : s.Leads t) :
    Filterless t.cursor.allTokens := by
  rw [ht.allTokens]
  exact h

/-- States with the same diagnostics keep them while nothing is reported. -/
theorem State.SameDiagnostics.same {s u t v : State} (h : s.SameDiagnostics u) (hs : s.SameLog t)
    (hu : u.SameLog v) : t.SameDiagnostics v :=
  ⟨by rw [hs.diagnostics, hu.diagnostics, h.1], by rw [hs.lastReported, hu.lastReported, h.2]⟩

/-- The comparison of both grammars is kept by every combination of rules. -/
theorem filterless_lawful : filterless.Lawful where
  frame_library h := h.1.library
  frame_leads h ht ht' := ⟨h.1.leads ht ht', h.2.1.leads ht, h.2.2.leads ht'⟩
  frame_deeper h hcost hin hin' :=
    have hdeeper := identity_lawful.frame_deeper h.1 hcost hin hin'
    ⟨⟨hdeeper.1, h.2⟩, hdeeper.2⟩
  frame_separatingHere h := ⟨identity_lawful.frame_separatingHere h.1, h.2⟩
  log_same h hs hs' := State.SameDiagnostics.same h hs hs'
  left_atOrder := False.elim
  right_atOrder := False.elim
  parted_andThen := by
    rintro α β γ δ _ _ f g ⟨d, t, t', rfl, rfl, h⟩ _ _
    exact ⟨d, t, t', rfl, rfl, h⟩
  parted_mapState := by
    rintro α β _ _ f g ⟨d, t, t', rfl, rfl, hcursor, hlog⟩ hf hg
    exact ⟨d, f t, g t', rfl, rfl, (hf t).2.trans (hcursor.trans (hg t').2.symm),
      hlog.same (hf t).1 (hg t').1⟩
  parted_reject {α s s'} d h := ⟨d, s, s', rfl, rfl, h.cursor, h.log⟩
  parted_nest := by
    intro α s s' cost p q h hparted
    obtain ⟨hsettings, -, hdepth, -⟩ := h.frame.1
    rw [← hsettings, ← hdepth, or_self] at hparted
    have hparted' := hparted
    rw [hsettings, hdepth] at hparted'
    rw [nest_apply, nest_apply, if_pos hparted, if_pos hparted', ← hsettings, ← h.cursor]
    exact ⟨_, s, s', rfl, rfl, h.cursor, h.log⟩
  astray_andThen := False.elim
  astray_mapState := False.elim
  malformedLiteral _ _ _ _ h := (unlogged_malformedLiteral _ _ _ _).agree h

/-- The comparison of both grammars is kept by the rules of queries. -/
theorem filterless_queryLawful : filterless.QueryLawful where
  frame_enclosed h := ⟨identity_queryLawful.frame_enclosed h.1, h.2⟩
  clauseEnd h := unlogged_clauseEnd.agree h
  recover {α b firm p q s s'} hp hq hframe h := by
    have ht := hp s
    have ht' := hq s'
    unfold recover
    generalize p s = r at ht h
    generalize q s' = r' at ht' h
    cases h with
    | ok a hcursor hlog => exact .ok (some a) hcursor hlog
    | parted h =>
      obtain ⟨d, t, t', rfl, rfl, hcursor, hlog⟩ := h
      have hlinked : filterless.Linked t t' :=
        ⟨hcursor, filterless_lawful.frame_leads hframe ht ht', hlog⟩
      exact ((unlogged_passOver d).bind fun _ => unlogged_pure none).agree hlinked
    | astray _ h => exact h.elim

/-- What follows an aggregate is read alike by both grammars. -/
theorem filterless_aggregateTail {b : Nat} {d : Callee}
    (hwindow : filterless.Rel false b true (read .window) (d .window))
    (hfilter : filterless.Rel false b true (read .filter) (d .filter)) (aggregate : Aggregate) :
    filterless.Rel false b false (aggregateTailRule read aggregate)
      (plainTailRule d aggregate) := by
  have hR := (Simulation.family filterless_lawful).congruence false
  refine hR.atKeyword_bind _ fun windowed => ?_
  cases windowed with
  | true => exact hR.weaken (hR.map _ hwindow)
  | false =>
    refine hR.atKeyword_bind _ fun filtered => ?_
    cases filtered with
    | true => exact hR.weaken (hR.map _ hfilter)
    | false =>
      simp only [Bool.false_eq_true, if_false]
      refine ⟨?_, steady_pure _, fun {s s'} hs _ _ _ => ?_⟩
      · refine Steady.bind (steady_current_bind fun _ => steady_pure _) fun here => ?_
        split
        · refine steady_orderedFilter.attempt.bind fun found => ?_
          cases found <;> exact steady_pure _
        · exact steady_pure _
      · rw [atKeyword_bind_apply]
        split
        · obtain ⟨x, t, _, token, hmem, hkind⟩ | ⟨events, hattempt⟩ :=
            attempt_orderedFilter_cases s
          · exact absurd hkind (hs.frame.2.1 token hmem)
          · rw [bind_of_ok hattempt]
            exact .ok _ hs.cursor hs.log
        · exact .ok _ hs.cursor hs.log

theorem waits_plainDerive_filter (fuel : Nat) : Waits true (plainDerive fuel .filter) := by
  cases fuel with
  | zero => exact fun _ _ _ _ h => nomatch h
  | succ fuel => exact (waits_keyword (by decide)).bind_firm

/-- The rules without ordered filters are steady. -/
theorem steady_plainDerive (fuel : Nat) (n : Nonterminal α) : Steady (plainDerive fuel n) := by
  induction fuel generalizing α with
  | zero => exact State.Leads.refl
  | succ fuel ih =>
    have hrule := steady_rule ih (waits_plainDerive_filter fuel) n
    cases n with
    | aggregateTail aggregate =>
      refine Steady.bind (steady_current_bind fun _ => steady_pure _) fun windowed => ?_
      split
      · exact (ih .window).bind fun _ => steady_pure _
      · refine Steady.bind (steady_current_bind fun _ => steady_pure _) fun filtered => ?_
        split
        · exact (ih .filter).bind fun _ => steady_pure _
        · exact steady_pure _
    | _ => exact hrule

/-- Runs are compared in the substring of `POSITION` as elsewhere. -/
theorem filterless_separating {s s' : State} (h : filterless.frame s s') :
    filterless.frame s.separating s'.separating :=
  ⟨h.1.separating, h.2⟩

/-- Attempts at a filter behind an order come to nothing in both grammars. -/
theorem filterless_attempt {b : Nat} {d : Callee}
    (h : filterless.Rel false b true (orderedFilter read) (orderedFilter d)) :
    filterless.Rel false b false (attempt "ordered aggregate filter" (orderedFilter read))
      (attempt "ordered aggregate filter" (orderedFilter d)) := by
  refine ⟨h.steadyLeft.attempt, h.steadyRight.attempt, fun {s s'} hs hb hb' _ => ?_⟩
  have hlinked : filterless.Linked s.trying s'.trying := by
    obtain ⟨hframe, htokens⟩ := hs.frame
    exact ⟨hs.cursor, ⟨hframe.trying, htokens⟩, hs.log⟩
  have hagree := h.agree hlinked hb hb' nofun
  rw [attempt_apply, attempt_apply]
  generalize orderedFilter read s.trying = r at hagree
  generalize orderedFilter d s'.trying = r' at hagree
  cases hagree with
  | ok x hcursor hlog => exact .ok (some x) hcursor hlog
  | parted hparted =>
    obtain ⟨_, t, t', rfl, rfl, _⟩ := hparted
    exact .ok none hs.cursor hs.log
  | astray _ hfalse => exact hfalse.elim

/-- Both grammars read the same where no token is the word `FILTER`. -/
theorem filterless_related {b fuel : Nat} (n : Nonterminal α) (h : n.fuel b ≤ fuel) :
    filterless.Rel n.isPredicate b n.firm (read n) (plainDerive fuel n) := by
  refine Nonterminal.fuel_induction
    (P := fun b fuel _ n => filterless.Rel n.isPredicate b n.firm (read n) (plainDerive fuel n))
    (fun {b fuel α} n hflat hdeep => ?_) n h
  have hfamily := Simulation.family filterless_lawful
  have hcallees : Callees filterless.Left filterless.Right
      (fun aligned b firm _ p q => filterless.Rel aligned b firm p q) b read (plainDerive fuel) :=
    { steadyLeft := steady_read
      steadyRight := steady_plainDerive fuel
      separating := fun hexpr _ => hexpr.atSeparator filterless_lawful fun hs => filterless_separating hs
      attempt := filterless_attempt
      waitsLeft := waits_read_filter
      waitsRight := waits_plainDerive_filter fuel
      window := fun hexpr horder => (hfamily.congruence false).windowRule hexpr horder
        (fun _ _ _ hs => hs.1.elim) fun _ _ _ hs => hs.1.elim }
  have hrule := hfamily.queryRule
    (Simulation.query_congruence filterless_lawful filterless_queryLawful) hcallees
    (fun _ _ => ⟨fun _ _ _ hs => hs.1.elim, fun _ _ _ hs => hs.1.elim⟩) n hflat hdeep
  rw [read_eq_rule]
  cases n with
  | aggregateTail aggregate =>
    exact filterless_aggregateTail (hflat .window rfl) (hflat .filter rfl) aggregate
  | _ => exact hrule

/-- A cursor adds at most an end of input to its list. -/
theorem mem_ofTokens {tokens : List Token} {t : Token}
    (h : t ∈ (Cursor.ofTokens tokens).allTokens) : t ∈ tokens ∨ t.isEnd = true := by
  unfold Cursor.ofTokens at h
  cases hlast : tokens.getLast? with
  | none =>
    rw [hlast] at h
    obtain rfl := List.mem_singleton.1 h
    exact .inr rfl
  | some last =>
    rw [hlast] at h
    dsimp only at h
    split at h
    · next hend =>
      obtain hmem | hmem := List.mem_append.1 h
      · exact .inl ((List.dropLast_sublist tokens).mem hmem)
      · obtain rfl := List.mem_singleton.1 hmem
        exact .inr hend
    · obtain hmem | hmem := List.mem_append.1 h
      · exact .inl hmem
      · obtain rfl := List.mem_singleton.1 hmem
        exact .inr rfl

/-- A parse starts without filters if there are none among its tokens. -/
theorem filterless_ofTokens [Time.Library] {tokens : List Token} (h : Filterless tokens)
    (settings : Settings) :
    Filterless (State.ofTokens tokens settings).cursor.allTokens := by
  intro t ht hkind
  obtain hmem | hend := mem_ofTokens ht
  · exact h t hmem hkind
  · rw [isEnd_of_keyword hkind] at hend
    cases hend

/-- How the runs of both grammars on the whole input end. -/
theorem filterless_runRoot [Time.Library] {tokens : List Token} (settings : Settings)
    (h : Filterless (State.ofTokens tokens settings).cursor.allTokens) :
    filterless.Agree settings.nestingLimit true (runRoot tokens settings)
      (runPlainRoot tokens settings) := by
  have hinput : filterless.Rel false settings.nestingLimit true inputEnd inputEnd :=
    ⟨steady_inputEnd, steady_inputEnd, fun hs _ _ _ => unlogged_inputEnd.agree hs⟩
  have hroot := (Simulation.query_congruence filterless_lawful filterless_queryLawful).rootRule
    (filterless_related .query (query_fuel_le settings)) hinput (fun _ _ _ hs => hs.1.elim) fun _ _ _ hs => hs.1.elim
  rw [runRoot_eq]
  exact hroot.agree ⟨rfl, ⟨⟨rfl, rfl, rfl, rfl, rfl, rfl⟩, h, h⟩, rfl, rfl⟩ (Nat.le_refl _)
    (Nat.le_refl _) nofun

end Grammar

open SearchSql.Grammar

/-- Parses a token list where no order belongs to an aggregate. -/
def parsePlainTokens [Time.Library] (tokens : List Token) (settings : Settings) : Outcome :=
  outcome (runPlainRoot tokens settings)

/-- Parses a token list up to the first error where no order belongs to an aggregate. -/
def parsePlainTokensStrict [Time.Library] (tokens : List Token) (settings : Settings) :
    Except Failure Statement :=
  match runPlainRoot tokens { settings with recover := false } with
  | .ok (some statement) _ => .ok statement
  | .ok none s => .error (.rejected (.unexpected "statement" s.cursor.current))
  | .error failure _ => .error failure

/-- An attempt at a filter behind an order that is given up leaves nothing behind: what stands behind
an aggregate is a window or a filter, or refused in one of these, or nothing is read and the state is
as it was, events apart. So the parse of a token list without the word `FILTER` is the same where no
such attempt is made. -/
theorem attempts_leave_nothing [Time.Library] :
    (∀ (aggregate : Aggregate) (s : State),
      (∃ shape t, read (.aggregateTail aggregate) s = .ok shape t ∧
          ((∃ window, shape = .windowed aggregate window) ∨
            ∃ orderBy filter, shape = .filtered aggregate orderBy filter)) ∨
        (∃ failure t, read (.aggregateTail aggregate) s = .error failure t ∧
          (s.cursor.current.kind = .keyword .OVER ∧ read .window s = .error failure t ∨
            s.cursor.current.kind = .keyword .FILTER ∧ read .filter s = .error failure t)) ∨
        ∃ events, read (.aggregateTail aggregate) s =
          .ok (.aggregate aggregate) (s.withEvents (events ++ s.events))) ∧
    ∀ (tokens : List Token) (settings : Settings), Filterless tokens →
      ((parseTokens tokens settings).statement = (parsePlainTokens tokens settings).statement ∧
        (parseTokens tokens settings).diagnostics =
          (parsePlainTokens tokens settings).diagnostics ∧
        (parseTokens tokens settings).aborted = (parsePlainTokens tokens settings).aborted) ∧
      parseTokensStrict tokens settings = parsePlainTokensStrict tokens settings := by
  refine ⟨aggregateTail_cases, fun tokens settings h => ⟨?_, ?_⟩⟩
  -- Without filters every attempt is given up, and what it does is undone but for the events.
  · have hagree := filterless_runRoot settings (filterless_ofTokens h settings)
    unfold parseTokens parsePlainTokens
    generalize runRoot tokens settings = r at hagree
    generalize runPlainRoot tokens settings = r' at hagree
    cases hagree with
    | ok statement _ hlog => exact ⟨rfl, congrArg List.reverse hlog.1, rfl⟩
    | parted hparted =>
      obtain ⟨d, t, t', rfl, rfl, _, hlog⟩ := hparted
      exact ⟨rfl, congrArg (fun ds => (d :: ds).reverse) hlog.1, rfl⟩
    | astray _ hfalse => exact hfalse.elim
  · have hagree := filterless_runRoot { settings with recover := false } (filterless_ofTokens h _)
    unfold parseTokensStrict parsePlainTokensStrict
    generalize runRoot tokens { settings with recover := false } = r at hagree
    generalize runPlainRoot tokens { settings with recover := false } = r' at hagree
    cases hagree with
    | ok statement hcursor _ =>
      cases statement with
      | some statement => rfl
      | none => simp only [hcursor]
    | parted hparted =>
      obtain ⟨d, t, t', rfl, rfl, _⟩ := hparted
      rfl
    | astray _ hfalse => exact hfalse.elim

/-- The order behind this count is tried as a part of it, given up, and left to the query. -/
theorem attempts_leave_nothing_having :
    Filterless (Token.tokenize "SELECT a FROM t HAVING count(*) ORDER BY a") ∧
      (parse "SELECT a FROM t HAVING count(*) ORDER BY a" Settings.standard).events ≠ [] ∧
      (parse "SELECT a FROM t HAVING count(*) ORDER BY a" Settings.standard).statement =
        (parsePlainTokens (Token.tokenize "SELECT a FROM t HAVING count(*) ORDER BY a")
          Settings.standard).statement := by
  have hwords : Filterless (Token.tokenize "SELECT a FROM t HAVING count(*) ORDER BY a") := by
    unfold Filterless
    decide +kernel
  exact ⟨hwords, by decide +kernel, (attempts_leave_nothing.2 _ Settings.standard hwords).1.1⟩

end SearchSql
