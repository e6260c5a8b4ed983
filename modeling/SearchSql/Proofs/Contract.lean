import SearchSql.Proofs.LeafLikeness

/-!
# Contracts of parsers

A contract says what every state of a run keeps, and what a refusal says about the state in which it
is made. A parser `Meets` a contract if each run of it that starts in a state as the contract asks
ends in such a state, or with a refusal as the contract says.

Parsers only move the cursor over tokens, refuse the token under the cursor or one just passed, and
report what was refused. A contract that allows this is `Lawful`. What rules are written with meets
every lawful contract, one lemma for each parser that rules share.
-/

set_option autoImplicit false

namespace SearchSql

/-- At an end of input the cursor stays where it is. -/
theorem Cursor.advance_of_isEnd {c : Cursor} (h : c.current.isEnd = true) : c.advance = c := by
  obtain ⟨passed, ahead, closing, hclosing⟩ := c
  cases ahead with
  | nil => rfl
  | cons t ts =>
    have ht : t.isEnd = true := h
    simp [advance, ht]

namespace Grammar

open SearchSql.Grammar.Parser

variable {α β : Type}

/-- What is asked of the runs of a parser. -/
structure Contract where
  /-- What every state keeps. -/
  keeps : State → Prop
  /-- What a refusal says about the state in which it is made. -/
  refuses : Diagnostic → State → Prop

/-- The diagnostic is about the token `t`. -/
inductive Blames (t : Token) : Diagnostic → Prop where
  | unexpected (expected : String) : Blames t (.unexpected expected t)
  | noAlternative (construct : String) (expected : List String) :
      Blames t (.noAlternative construct expected t)
  | unknownFunction (name : String) : Blames t (.unknownFunction name t)
  | tooDeep (limit : Nat) : Blames t ⟨.tooDeep limit, t.span⟩

/-- The kinds of diagnostics that blame a token. -/
theorem Blames.kind_ne {t : Token} {d : Diagnostic} (h : Blames t d) :
    d.kind ≠ .tooManyErrors ∧ d.kind ≠ .malformedLiteral := by
  cases h <;> exact ⟨nofun, nofun⟩

/-- The state in which `d` has been added to the diagnostics. -/
def State.reported (s : State) (d : Diagnostic) : State :=
  { s with lastReported := some d.span.start, diagnostics := d :: s.diagnostics }

/-- A diagnostic is added, unless the last report was about the same place. -/
theorem report_apply (d : Diagnostic) (s : State) :
    report d s =
      if s.lastReported = some d.span.start then
        .ok () { s with events := .duplicateSuppressed d.span.start :: s.events }
      else if s.settings.maxDiagnostics ≤ s.diagnostics.length + 1 then
        .error (.rejected ⟨.tooMany s.settings.maxDiagnostics, s.cursor.current.span⟩)
          (s.reported d)
      else .ok () (s.reported d) := by
  unfold report
  rw [get_bind_apply]
  split
  · rfl
  · show (do
      let s ← get
      if s.settings.maxDiagnostics ≤ s.diagnostics.length then
        reject ⟨.tooMany s.settings.maxDiagnostics, s.cursor.current.span⟩ : Parser Unit)
      (s.reported d) = _
    rw [get_bind_apply]
    split
    · next h => exact (if_pos h).symm
    · next h => exact (if_neg h).symm

namespace Contract

variable (C : Contract)

/-- How a run ends that keeps the contract. -/
def Ends : Run α → Prop
  | .ok _ t => C.keeps t
  | .error (.rejected d) t => C.refuses d t
  | .error .outOfFuel t => C.keeps t

/-- All runs of the parser keep the contract. -/
def Meets (p : Parser α) : Prop := ∀ s, C.keeps s → C.Ends (p s)

/-- All runs of the parser that start at the token `t` keep the contract. -/
def MeetsAt (t : Token) (p : Parser α) : Prop :=
  ∀ s, C.keeps s → s.cursor.current = t → C.Ends (p s)

/-- The laws about moving the cursor and refusing what it is at. -/
structure Quiet : Prop where
  skip_one {s : State} : C.keeps s → s.cursor.current.isEnd = false → C.keeps (s.skip 1)
  same {s t : State} : C.keeps s → s.Keeps t → t.cursor = s.cursor → C.keeps t
  refuses_same {d : Diagnostic} {s t : State} : C.refuses d s → s.Keeps t → t.cursor = s.cursor →
    C.refuses d t
  refuses_current {d : Diagnostic} {s : State} : C.keeps s → Blames s.cursor.current d →
    C.refuses d s
  /-- A token just passed may be refused after all. -/
  refuses_passed {s : State} (expected : String) : C.keeps s → s.cursor.current.isEnd = false →
    C.refuses (.unexpected expected s.cursor.current) (s.skip 1)
  /-- A literal of some tokens just passed may be refused. -/
  refuses_literal {s : State} (literal reason : String) (n : Nat) : C.keeps s →
    s.cursor.current.isEnd = false → C.keeps (s.skip (n + 1)) →
      C.refuses (.malformed literal reason
        (s.cursor.current.span.merge (s.skip (n + 1)).cursor.previousSpan)) (s.skip (n + 1))

/-- What makes a contract one that the parsers meet. What is refused is reported in three places. -/
structure Lawful : Prop extends C.Quiet where
  /-- Behind the report, the cursor moves to a boundary. -/
  report_synchronize {d : Diagnostic} {s : State} : C.refuses d s → d.isFatal = false →
    s.settings.recover = true → C.Ends ((report d >>= fun _ => synchronize) s)
  /-- Behind the report, the cursor moves to the end of the input. -/
  report_skip {d : Diagnostic} {s : State} : C.refuses d s → d.isFatal = false →
    s.settings.recover = true →
      C.Ends ((do report d; Parser.skip (← get).cursor.ahead.length) s)
  /-- The parse goes on behind a literal without a value. -/
  report_literal {d : Diagnostic} {s : State} : C.refuses d s → d.kind = .malformedLiteral →
    s.settings.recover = true → C.Ends (report d s)

/-- A report keeps the contract, whatever comes behind it. -/
structure Reporting : Prop extends C.Quiet where
  report {d : Diagnostic} {s : State} : C.refuses d s → d.isFatal = false →
    s.settings.recover = true → C.Ends (report d s)

variable {C}

/-! ## Combining parsers -/

/-- A run that keeps the contract goes on to one that does. -/
theorem Ends.andThen {r : Run α} {f : α → Parser β} (hr : C.Ends r)
    (hf : ∀ a t, r = .ok a t → C.keeps t → C.Ends (f a t)) : C.Ends (Run.andThen r f) := by
  cases r with
  | ok a t => exact hf a t rfl hr
  | error e t =>
    cases e with
    | rejected d => exact hr
    | outOfFuel => exact hr

/-- The next parser need keep it only where the first has ended. -/
theorem Ends.bind {p : Parser α} {f : α → Parser β} {s : State} (hp : C.Ends (p s))
    (hf : ∀ a t, p s = .ok a t → C.keeps t → C.Ends (f a t)) : C.Ends ((p >>= f) s) := by
  rw [bind_apply_andThen]
  exact hp.andThen hf

/-- To give a value meets every contract. -/
theorem meets_pure (a : α) : C.Meets (pure a : Parser α) := fun _ hs => hs

/-- Parsers that keep the contract do so one after the other. -/
theorem Meets.bind {p : Parser α} {f : α → Parser β} (hp : C.Meets p) (hf : ∀ a, C.Meets (f a)) :
    C.Meets (p >>= f) := fun s hs => (hp s hs).bind fun a t _ ht => hf a t ht

/-- What is given in another form keeps the contract. -/
theorem Meets.map {p : Parser α} (hp : C.Meets p) (f : α → β) : C.Meets (f <$> p) :=
  hp.bind fun a => meets_pure (f a)

/-- What looks at the state keeps the contract if it does for every state. -/
theorem meets_get_bind {f : State → Parser α} (h : ∀ s, C.Meets (f s)) : C.Meets (get >>= f) :=
  fun s hs => h s s hs

/-- To look at the current token meets every contract. -/
theorem meets_current_bind {f : Token → Parser α} (h : ∀ t, C.Meets (f t)) :
    C.Meets (current >>= f) := fun s hs => h s.cursor.current s hs

/-- What is done at a token may depend on its being there. -/
theorem meets_at_bind {f : Token → Parser α} (h : ∀ t, C.MeetsAt t (f t)) :
    C.Meets (current >>= f) := fun s hs => h s.cursor.current s hs rfl

/-- What meets a contract everywhere does at every token. -/
theorem Meets.at {p : Parser α} (hp : C.Meets p) (t : Token) : C.MeetsAt t p :=
  fun s hs _ => hp s hs

/-- To look ahead meets every contract. -/
theorem meets_peek_bind (k : Nat) {f : Token → Parser α} (h : ∀ t, C.Meets (f t)) :
    C.Meets (peek k >>= f) := fun s hs => h (s.cursor.peek k) s hs

theorem meets_atSymbol_bind (sign : Symbol) {f : Bool → Parser α} (h : ∀ here, C.Meets (f here)) :
    C.Meets (atSymbol sign >>= f) := meets_current_bind fun t => h (t.kind == .symbol sign)

/-- What asks for a word keeps it if it does for both answers. -/
theorem meets_atKeyword_bind (word : Keyword) {f : Bool → Parser α}
    (h : ∀ here, C.Meets (f here)) : C.Meets (atKeyword word >>= f) :=
  meets_current_bind fun t => h (t.kind == .keyword word)

theorem meets_spanFrom (start : Span) : C.Meets (spanFrom start) := fun _ hs => hs

section

variable (hC : C.Quiet)

include hC

/-! ## Looking at tokens and taking them -/

/-- Tokens may be passed under the contract. -/
theorem Quiet.keeps_skip {s : State} (hs : C.keeps s) (n : Nat) : C.keeps (s.skip n) := by
  induction n generalizing s with
  | zero => exact hs
  | succ n ih =>
    -- Either the step takes a token, or the cursor stays where it is.
    show C.keeps ((s.skip 1).skip n)
    refine ih ?_
    cases hend : s.cursor.current.isEnd with
    | false => exact hC.skip_one hs hend
    | true => exact hC.same hs ⟨rfl, rfl, rfl⟩ (Cursor.advance_of_isEnd hend)

/-- Moving on meets a contract that does not mind the place. -/
theorem Quiet.skip (n : Nat) : C.Meets (Parser.skip n) := fun _ hs => hC.keeps_skip hs n

/-- A note is no concern of it. -/
theorem Quiet.note (e : Event) : C.Meets (note e) :=
  fun _ hs => hC.same hs ⟨rfl, rfl, rfl⟩ rfl

/-- To skip to a boundary is to pass tokens. -/
theorem Quiet.synchronize : C.Meets synchronize :=
  meets_get_bind fun _ => (hC.skip _).bind fun _ => meets_current_bind fun _ => hC.note _

end

/-- If every report keeps the contract, it is lawful. -/
theorem Reporting.lawful (hC : C.Reporting) : C.Lawful where
  toQuiet := hC.toQuiet
  report_synchronize h hfatal hrecover :=
    (hC.report h hfatal hrecover).bind fun _ t _ ht => hC.synchronize t ht
  report_skip h hfatal hrecover :=
    (hC.report h hfatal hrecover).bind fun _ t _ ht =>
      meets_get_bind (fun _ => hC.skip _) t ht
  report_literal {d _} h hkind hrecover := by
    have hfatal : d.isFatal = false := by
      unfold Diagnostic.isFatal
      rw [hkind]
      rfl
    exact hC.report h hfatal hrecover

variable (hC : C.Lawful)

include hC

/-- The token in front may be refused. -/
theorem Lawful.rejectCurrent (expected : String) : C.Meets (rejectCurrent expected : Parser α) :=
  fun _ hs => hC.refuses_current hs (.unexpected expected)

/-- What is said about a token may be the reason to refuse it. -/
theorem Lawful.reject {t : Token} {d : Diagnostic} (h : Blames t d) :
    C.MeetsAt t (reject d : Parser α) := by
  intro s hs ht
  subst ht
  exact hC.refuses_current hs h

/-- To take a token meets a lawful contract. -/
theorem Lawful.take : C.Meets take := meets_current_bind fun _ => (hC.skip 1).bind fun _ => meets_pure _

/-- A token that may be here is taken under the contract. -/
theorem Lawful.takeIf {here : Parser Bool} (h : C.Meets here) : C.Meets (takeIf here) := by
  refine h.bind fun found => ?_
  cases found with
  | true => exact (hC.skip 1).bind fun _ => meets_pure true
  | false => exact meets_pure false

theorem Lawful.takeSymbol (sign : Symbol) : C.Meets (takeSymbol sign) :=
  hC.takeIf (meets_current_bind fun _ => meets_pure _)

theorem Lawful.takeKeyword (word : Keyword) : C.Meets (takeKeyword word) :=
  hC.takeIf (meets_current_bind fun _ => meets_pure _)

/-- A sign is taken, or the token in its place is refused. -/
theorem Lawful.symbol (sign : Symbol) : C.Meets (symbol sign) := by
  refine meets_atSymbol_bind sign fun here => ?_
  cases here with
  | true => exact hC.take
  | false => exact hC.rejectCurrent _

/-- The same for a reserved word. -/
theorem Lawful.keyword (word : Keyword) : C.Meets (keyword word) := by
  refine meets_atKeyword_bind word fun here => ?_
  cases here with
  | true => exact hC.take
  | false => exact hC.rejectCurrent _

/-- To take a string meets a lawful contract. -/
theorem Lawful.string : C.Meets string := by
  refine meets_current_bind fun t => ?_
  split
  · exact (hC.skip 1).bind fun _ => meets_pure _
  · exact hC.rejectCurrent _

/-! ## Repetitions -/

omit hC in
/-- The rounds behind the first meet a contract if each round does. -/
theorem Meets.loopNext {step : α → Parser (ForInStep α)} (h : ∀ a, C.Meets (step a))
    (rounds : List Token) (r : ForInStep α) : C.Meets (loopNext step rounds r) := by
  induction rounds generalizing r with
  | nil =>
    cases r with
    | done a => exact meets_pure a
    | yield a => exact fun _ hs => hs
  | cons _ rounds ih =>
    cases r with
    | done a => exact meets_pure a
    | yield a =>
      show C.Meets (loopOver step rounds a)
      rw [loopOver_eq]
      exact (h a).bind ih

omit hC in
/-- Steps that keep the contract are repeated under it. -/
theorem Meets.loop {step : α → Parser (ForInStep α)} (h : ∀ a, C.Meets (step a)) (a : α) :
    C.Meets (loop a step) := by
  refine meets_get_bind fun s => ?_
  rw [loopOver_eq]
  exact (h a).bind (Meets.loopNext h _)

omit hC in
/-- An item that always takes a token is never refused for taking none. -/
theorem Meets.taking {p : Parser α} (hp : C.Meets p) (htakes : Consumes p) (rule : String) :
    C.Meets (taking rule p) := by
  intro s hs
  rw [htakes.taking_apply]
  exact hp s hs

/-- A list keeps the contract if its items do. -/
theorem Meets.commaList {first next : Parser α} (hfirst : C.Meets first) (hnext : C.Meets next)
    (htakes : Consumes first) (htakes' : Consumes next) (rule : String) :
    C.Meets (commaList rule first next) := by
  rw [commaList_eq]
  have hstep (items : List α) : C.Meets (commaStep rule next items) := by
    refine (hC.takeSymbol .comma).bind fun found => ?_
    cases found with
    | true => exact (hnext.taking htakes' rule).map _
    | false => exact meets_pure _
  exact (hfirst.taking htakes rule).bind fun head => (Meets.loop hstep []).map _

/-- A list meets a contract if its items do. -/
theorem Meets.commaSeparated {p : Parser α} (hp : C.Meets p) (htakes : Consumes p) (rule : String) :
    C.Meets (Parser.commaSeparated rule p) := hp.commaList hC hp htakes htakes rule

/-! ## Changing the state -/

/-- A run keeps it if neither the cursor nor the reports are changed behind it. -/
theorem Ends.mapState {r : Run α} {change : State → State} (h : C.Ends r)
    (hchange : ∀ t : State, t.Keeps (change t) ∧ (change t).cursor = t.cursor) :
    C.Ends (mapState change r) := by
  cases r with
  | ok a t => exact hC.same h (hchange t).1 (hchange t).2
  | error e t =>
    cases e with
    | rejected d => exact hC.refuses_same h (hchange t).1 (hchange t).2
    | outOfFuel => exact hC.same h (hchange t).1 (hchange t).2

/-- Under the contract, the limit of nesting may be met. -/
theorem Meets.nest {p : Parser α} (hp : C.Meets p) (cost : Nat) : C.Meets (nest cost p) := by
  intro s hs
  rw [nest_apply]
  split
  · exact hC.refuses_current hs (.tooDeep _)
  · have hdeeper : C.keeps (s.deeper cost) := hC.same hs ⟨rfl, rfl, rfl⟩ rfl
    exact (hp _ hdeeper).mapState hC fun t => ⟨⟨rfl, rfl, rfl⟩, rfl⟩

/-- A subquery meets a contract if its rule does. -/
theorem Meets.subquery {p : Parser α} (hp : C.Meets p) : C.Meets (subquery p) := by
  intro s hs
  rw [subquery_apply]
  have henclosed : C.keeps s.enclosed := hC.same hs ⟨rfl, rfl, rfl⟩ rfl
  exact (hp _ henclosed).mapState hC fun t => ⟨⟨rfl, rfl, rfl⟩, rfl⟩

/-- A rule meets a contract where `IN` separates as it does elsewhere. -/
theorem Meets.atSeparator {p : Parser α} (hp : C.Meets p) : C.Meets (atSeparator p) := by
  intro s hs
  rw [atSeparator_apply]
  have hseparating : C.keeps s.separating := hC.same hs ⟨rfl, rfl, rfl⟩ rfl
  exact (hp _ hseparating).mapState hC fun t => ⟨⟨rfl, rfl, rfl⟩, rfl⟩

/-- An attempt that fails leaves what the contract is about as it was. -/
theorem Meets.attempt {p : Parser α} (hp : C.Meets p) (hsteady : Steady p) (rule : String) :
    C.Meets (attempt rule p) := by
  intro s hs
  have htrying : C.keeps s.trying := hC.same hs ⟨rfl, rfl, rfl⟩ rfl
  have hends := hp _ htrying
  have hleads := hsteady s.trying
  rw [attempt_apply]
  cases hrun : p s.trying with
  | ok a t =>
    rw [hrun] at hends
    exact hC.same hends ⟨rfl, rfl, rfl⟩ rfl
  | error e t =>
    rw [hrun] at hends hleads
    cases e with
    | rejected d => exact hC.same hs ⟨hleads.settings, rfl, rfl⟩ rfl
    | outOfFuel => exact hC.same hends ⟨rfl, rfl, rfl⟩ rfl

/-! ## Reporting -/

/-- What may be refused may be passed over. -/
theorem Lawful.passOver {d : Diagnostic} {s : State} (h : C.refuses d s) :
    C.Ends (passOver d s) := by
  unfold Parser.passOver
  rw [get_bind_apply]
  split
  · next hcond =>
    rw [Bool.and_eq_true, Bool.not_eq_true'] at hcond
    obtain ⟨hfatal, hrecovering⟩ := hcond
    have hrecover : s.settings.recover = true := (Bool.and_eq_true_iff.1 hrecovering).1
    exact hC.report_synchronize h hfatal hrecover
  · exact h

/-- The errors of a parser that keeps the contract are passed over under it. -/
theorem Meets.recover {p : Parser α} (hp : C.Meets p) : C.Meets (recover p) := by
  intro s hs
  have hends := hp s hs
  unfold Parser.recover
  cases hrun : p s with
  | ok a t =>
    rw [hrun] at hends
    exact hends
  | error e t =>
    rw [hrun] at hends
    cases e with
    | rejected d => exact (hC.passOver hends).bind fun _ _ _ ht => ht
    | outOfFuel => exact hends

/-- What stands behind a clause is refused or passed over. -/
theorem Lawful.clauseEnd : C.Meets clauseEnd := by
  refine meets_get_bind fun s => ?_
  split
  · exact fun t ht => hC.passOver (hC.refuses_current ht (.unexpected _))
  · exact meets_pure _

/-- So is what stands behind a statement. -/
theorem Lawful.inputEnd : C.Meets inputEnd := by
  intro s hs
  have hrefuses := hC.refuses_current hs (.unexpected "end of input")
  unfold Parser.inputEnd
  rw [current_bind_apply]
  split
  · rw [get_bind_apply]
    split
    · next hrecovering =>
      have hrecover : s.settings.recover = true := (Bool.and_eq_true_iff.1 hrecovering).1
      have hends := (hC.report_skip hrefuses rfl hrecover).bind fun _ t _ ht =>
        hC.note .trailingSkipped t ht
      simpa only [bind_assoc] using hends
    · exact hrefuses
  · exact hs

/-- A malformed literal may be reported if it may be refused. -/
theorem Lawful.malformedLiteral {s : State} {d : Diagnostic} {kind : LiteralKind} {text : String}
    {fault : LiteralFault} {span : Span} (h : C.refuses d s)
    (hd : d = .malformed kind.text fault.message span) :
    C.Ends (malformedLiteral kind text fault span s) := by
  subst hd
  refine Ends.bind ?_ fun _ t _ ht => ht
  unfold reportLiteral
  rw [get_bind_apply]
  split
  · next hrecover => exact hC.report_literal h rfl hrecover
  · exact h

end Contract

end Grammar

end SearchSql
