import SearchSql.Proofs.Runs

/-!
# Steady parsers

Everything that rules are written with is steady, or makes steady parsers of steady ones. An attempt
puts diagnostics back to what they were, which is why a run is compared with its start only, and not
with what lies between.
-/

set_option autoImplicit false

namespace SearchSql.Grammar

open SearchSql.Grammar.Parser

variable {α β : Type}

theorem steady_pure (a : α) : Steady (pure a : Parser α) := State.Leads.refl

theorem steady_reject (d : Diagnostic) : Steady (reject d : Parser α) := State.Leads.refl

/-- Steady parsers run one after the other are steady. -/
theorem Steady.bind {p : Parser α} {f : α → Parser β} (hp : Steady p) (hf : ∀ a, Steady (f a)) :
    Steady (p >>= f) := by
  intro s
  have hs := hp s
  rw [bind_apply]
  cases h : p s with
  | ok a t =>
    rw [h] at hs
    exact hs.trans (hf a t)
  | error e t =>
    rw [h] at hs
    exact hs

/-- A parser that looks at the state is steady if it is for every state. -/
theorem steady_get_bind {f : State → Parser α} (h : ∀ s, Steady (f s)) : Steady (get >>= f) :=
  fun s => h s s

/-- A parser that looks at the token in front is steady if it is for every token. -/
theorem steady_current_bind {f : Token → Parser α} (h : ∀ t, Steady (f t)) :
    Steady (current >>= f) := fun s => h s.cursor.current s

theorem steady_skip (n : Nat) : Steady (Parser.skip n) := fun s => s.leads_skip n

/-- Events and diagnostics may be added. -/
theorem State.leads_log {s : State} {events : List Event} {diagnostics : List Diagnostic}
    (last : Option Nat) (he : s.events <:+ events) (hd : s.diagnostics <:+ diagnostics) :
    s.Leads { s with events := events, diagnostics := diagnostics, lastReported := last } :=
  ⟨rfl, rfl, rfl, rfl, rfl, rfl, rfl, List.suffix_refl _, hd, he⟩

/-- A note is no diagnostic, and moves nothing. -/
theorem steady_note (e : Event) : Steady (note e) := fun s =>
  State.leads_log s.lastReported (List.suffix_cons e s.events) (List.suffix_refl _)

theorem steady_loopNext {step : α → Parser (ForInStep α)} (h : ∀ a, Steady (step a))
    (rounds : List Token) (r : ForInStep α) : Steady (loopNext step rounds r) := by
  induction rounds generalizing r with
  | nil =>
    cases r with
    | done a => exact steady_pure a
    | yield a => exact State.Leads.refl
  | cons _ rounds ih =>
    cases r with
    | done a => exact steady_pure a
    | yield a =>
      show Steady (loopOver step rounds a)
      rw [loopOver_eq]
      exact (h a).bind ih

/-- A repetition of steady steps is steady. -/
theorem steady_loop {step : α → Parser (ForInStep α)} (h : ∀ a, Steady (step a)) (a : α) :
    Steady (loop a step) := by
  refine steady_get_bind fun s => ?_
  rw [loopOver_eq]
  exact (h a).bind (steady_loopNext h _)

/-- A change of the counters that is taken back. -/
theorem Steady.between {enter leave : State → State} {p : Parser α} (hp : Steady p)
    (h : ∀ s t : State, (enter s).Leads t → s.Leads (leave t)) :
    Steady (between enter leave p) := by
  intro s
  rw [between_apply, lastState_mapState]
  exact h s _ (hp (enter s))

/-- The levels of nesting that a steady parser is run on are given back behind it. -/
theorem Steady.nest {cost : Nat} {p : Parser α} (hp : Steady p) : Steady (nest cost p) := by
  refine steady_get_bind fun s => ?_
  dsimp only
  have hbetween : Steady (Parser.between (State.deeper · cost) (State.shallower · cost) p) :=
    hp.between fun s t h =>
      ⟨h.settings, h.library, by simp [State.shallower, h.depth, State.deeper], h.attempts,
        h.subqueries, h.separatorDepth, h.allTokens, h.ahead, h.diagnostics, h.events⟩
  split
  · exact (steady_reject _).bind fun _ => hbetween
  · exact hbetween

/-- A query in parentheses is closed again. -/
theorem Steady.subquery {p : Parser α} (hp : Steady p) : Steady (subquery p) :=
  hp.between fun _ _ h =>
    ⟨h.settings, h.library, h.depth, h.attempts, by simp [h.subqueries], h.separatorDepth,
      h.allTokens, h.ahead, h.diagnostics, h.events⟩

/-- The separator of `POSITION` holds for its substring only. -/
theorem Steady.atSeparator {p : Parser α} (hp : Steady p) : Steady (atSeparator p) := by
  intro s
  rw [atSeparator_apply, lastState_mapState]
  have h := hp s.separating
  exact ⟨h.settings, h.library, h.depth, h.attempts, h.subqueries, rfl, h.allTokens, h.ahead,
    h.diagnostics, h.events⟩

theorem Steady.separateHere {p : Parser α} (hp : Steady p) : Steady (separateHere p) := by
  intro s
  unfold Parser.separateHere
  rw [lastState_mapState]
  have h := hp s.separatingHere
  exact ⟨h.settings, h.library, h.depth, h.attempts, h.subqueries, rfl, h.allTokens, h.ahead,
    h.diagnostics, h.events⟩

/-! ## Diagnostics -/

/-- A report adds a diagnostic and moves nothing. -/
theorem steady_report (d : Diagnostic) : Steady (report d) := by
  refine steady_get_bind fun s => ?_
  split
  · exact steady_note _
  · refine Steady.bind (fun s => State.leads_log (some d.span.start) (List.suffix_refl _)
      (List.suffix_cons d s.diagnostics)) fun _ => steady_get_bind fun s => ?_
    split
    · exact steady_reject _
    · exact steady_pure _

theorem steady_reportLiteral (d : Diagnostic) : Steady (reportLiteral d) := by
  refine steady_get_bind fun s => ?_
  split
  · exact steady_report d
  · exact steady_reject d

theorem steady_malformedLiteral (kind : LiteralKind) (text : String) (fault : LiteralFault)
    (span : Span) : Steady (malformedLiteral kind text fault span) :=
  (steady_reportLiteral _).bind fun _ => steady_pure _

/-- To skip to a boundary takes tokens, and nothing else. -/
theorem steady_synchronize : Steady synchronize :=
  steady_get_bind fun _ => (steady_skip _).bind fun _ => steady_current_bind fun _ => steady_note _

theorem steady_passOver (d : Diagnostic) : Steady (passOver d) := by
  refine steady_get_bind fun s => ?_
  split
  · exact (steady_report d).bind fun _ => steady_synchronize
  · exact steady_reject d

/-- What is added to a run so that it recovers keeps what runs keep. -/
theorem leads_recover (p : Parser α) (s : State) :
    (lastState (p s)).Leads (lastState (recover p s)) := by
  unfold Parser.recover
  cases p s with
  | ok a t => exact State.Leads.refl t
  | error e t =>
    cases e with
    | rejected d => exact (steady_passOver d).bind (fun _ => steady_pure _) t
    | outOfFuel => exact State.Leads.refl t

/-- A steady parser is steady if its errors are passed over. -/
theorem Steady.recover {p : Parser α} (hp : Steady p) : Steady (recover p) :=
  fun s => (hp s).trans (leads_recover p s)

theorem steady_clauseEnd : Steady clauseEnd := by
  refine steady_get_bind fun s => ?_
  split
  · exact steady_current_bind fun t => steady_passOver _
  · exact steady_pure _

theorem steady_inputEnd : Steady inputEnd := by
  refine steady_current_bind fun t => ?_
  dsimp only
  split
  · refine steady_get_bind fun s => ?_
    split
    · exact (steady_report _).bind fun _ => steady_get_bind fun _ => (steady_skip _).bind fun _ =>
        steady_note _
    · exact steady_reject _
  · exact steady_pure _

/-- A failed attempt leaves the state as it was, but for the event that tells of it. -/
theorem Steady.attempt {rule : String} {p : Parser α} (hp : Steady p) :
    Steady (attempt rule p) := by
  intro s
  have hs := hp s.trying
  have hattempts : (lastState (p s.trying)).attempts - 1 = s.attempts := by
    rw [hs.attempts]
    exact Nat.add_sub_cancel s.attempts 1
  rw [attempt_apply]
  cases h : p s.trying with
  | ok a t =>
    rw [h] at hs hattempts
    exact ⟨hs.settings, hs.library, hs.depth, hattempts, hs.subqueries, hs.separatorDepth,
      hs.allTokens, hs.ahead, hs.diagnostics, hs.events⟩
  | error e t =>
    rw [h] at hs hattempts
    cases e with
    | rejected d =>
      exact ⟨hs.settings, hs.library, hs.depth, hattempts, hs.subqueries, hs.separatorDepth, rfl,
        List.suffix_refl _, List.suffix_refl _, hs.events.trans (List.suffix_cons _ _)⟩
    | outOfFuel =>
      exact ⟨hs.settings, hs.library, hs.depth, hattempts, hs.subqueries, hs.separatorDepth,
        hs.allTokens, hs.ahead, hs.diagnostics, hs.events⟩

/-! ## Runs that do not recover -/

/-- Where a parse stops at the first error, no state recovers. -/
theorem notRecovering_of_strict {s : State} (h : s.settings.recover = false) :
    s.isRecovering = false := by
  unfold State.isRecovering
  rw [h]
  rfl

/-- Without recovery, no error is passed over. -/
theorem passOver_apply {s : State} (h : s.isRecovering = false) (d : Diagnostic) :
    passOver d s = .error (.rejected d) s := by
  unfold passOver
  rw [get_bind_apply, h, Bool.and_false]
  rfl

/-- Without recovery, a parser succeeds just if it does where errors are passed over. -/
theorem recover_eq_ok_iff {p : Parser α} (hp : Steady p) {s t : State}
    (hs : s.isRecovering = false) {found : Option α} :
    recover p s = .ok found t ↔ ∃ a, p s = .ok a t ∧ found = some a := by
  have hst := hp s
  unfold recover
  cases h : p s with
  | ok a u =>
    constructor
    · intro heq
      injection heq with hfound hu
      exact ⟨a, by rw [hu], hfound.symm⟩
    · rintro ⟨a', heq, rfl⟩
      injection heq with ha hu
      rw [ha, hu]
  | error e u =>
    rw [h] at hst
    refine ⟨fun heq => ?_, nofun⟩
    cases e with
    | outOfFuel => cases heq
    | rejected d =>
      have hrun : (passOver d >>= fun _ => (pure none : Parser (Option α))) u =
          .error (.rejected d) u := bind_of_error (passOver_apply (hst.isRecovering.trans hs) d)
      cases hrun.symm.trans heq

/-- Without recovery a failure ends the run. -/
theorem recover_of_error {p : Parser α} {s t : State} {e : Failure} (hp : Steady p)
    (hs : s.isRecovering = false) (h : p s = .error e t) : recover p s = .error e t := by
  have ht := hp s
  unfold recover
  rw [h] at ht ⊢
  cases e with
  | outOfFuel => rfl
  | rejected d => exact bind_of_error (passOver_apply (ht.isRecovering.trans hs) d)

/-- Without recovery, a clause ends only at a boundary, and takes nothing there. -/
theorem clauseEnd_eq_ok_iff {s t : State} (hs : s.isRecovering = false) {a : Unit} :
    clauseEnd s = .ok a t ↔ s.atBoundary = true ∧ s = t := by
  unfold clauseEnd
  rw [get_bind_apply]
  cases h : s.atBoundary with
  | true => simp [pure_apply]
  | false =>
    simp only [Bool.not_false, if_true, Bool.false_eq_true, false_and, iff_false]
    rw [current_bind_apply, passOver_apply hs]
    nofun

/-- At the end, nothing has to be passed over. -/
theorem inputEnd_of_isEnd {s : State} (hend : s.cursor.current.isEnd = true) :
    inputEnd s = .ok () s := by
  unfold inputEnd
  rw [current_bind_apply, hend]
  rfl

/-- Without recovery the input has to end. -/
theorem inputEnd_apply {s : State} (hs : s.isRecovering = false) :
    inputEnd s =
      if s.cursor.current.isEnd then .ok () s
      else .error (.rejected (.unexpected "end of input" s.cursor.current)) s := by
  unfold inputEnd
  rw [current_bind_apply]
  cases s.cursor.current.isEnd with
  | true => rfl
  | false =>
    simp only [Bool.not_false, if_true]
    rw [get_bind_apply, hs]
    rfl

/-- Without recovery, a literal without a value is refused. -/
theorem malformedLiteral_of_strict {s : State} (h : s.settings.recover = false)
    (kind : LiteralKind) (text : String) (fault : LiteralFault) (span : Span) :
    malformedLiteral kind text fault span s =
      .error (.rejected (.malformed kind.text fault.message span)) s := by
  refine bind_of_error ?_
  unfold reportLiteral
  rw [get_bind_apply, h]
  rfl

/-- A report does not move the cursor. -/
theorem report_cursor {d : Diagnostic} {s t : State} {a : Unit} (h : report d s = .ok a t) :
    t.cursor = s.cursor := by
  unfold report at h
  rw [get_bind_apply] at h
  split at h
  · injection h with _ ht
    rw [← ht]
  · obtain ⟨_, u, hu, hrest⟩ := bind_eq_ok_iff.1 h
    injection hu with _ hu
    rw [get_bind_apply] at hrest
    split at hrest
    · exact absurd hrest reject_ne_ok
    · obtain ⟨_, rfl⟩ := pure_eq_ok_iff.1 hrest
      rw [← hu]

/-- A malformed literal has a value only where errors are recovered from. -/
theorem malformedLiteral_eq_ok {kind : LiteralKind} {text : String} {fault : LiteralFault}
    {span : Span} {s t : State} {value : Literal}
    (h : malformedLiteral kind text fault span s = .ok value t) :
    s.settings.recover = true ∧ value = .malformed kind text fault ∧ t.cursor = s.cursor := by
  obtain ⟨_, u, hu, hvalue⟩ := bind_eq_ok_iff.1 h
  obtain ⟨rfl, rfl⟩ := pure_eq_ok_iff.1 hvalue
  unfold reportLiteral at hu
  rw [get_bind_apply] at hu
  split at hu
  · next hrecover => exact ⟨hrecover, rfl, report_cursor hu⟩
  · exact absurd hu reject_ne_ok

end SearchSql.Grammar
