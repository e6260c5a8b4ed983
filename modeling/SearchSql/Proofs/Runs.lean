import SearchSql.Grammar.Outcome

/-!
# Runs of parsers

A run of a parser succeeds or fails, and ends in a state in either case. The lemmas on `bind`, `map`
and the parsers that look at a token say when a run succeeds and where it ends.

`State.Leads s t` collects what no run changes on its way from `s` to `t`: the settings and the
counters are restored, the cursor stays in its token list and never moves backwards, and diagnostics
and events are only added.
A parser all of whose runs are like this is `Steady`.

A statement that is given, by either parse, is what a run of the root rule has found
(`parseTokens_statement_eq_some`, `parseTokensStrict_eq_ok`).
-/

set_option autoImplicit false

namespace SearchSql.Grammar

open SearchSql.Grammar.Parser

variable {α β : Type}

/-- The state in which a run ends. -/
def lastState : EStateM.Result Failure State α → State
  | .ok _ t => t
  | .error _ t => t

@[simp] theorem lastState_ok (a : α) (t : State) : lastState (.ok a t) = t := rfl

@[simp] theorem lastState_error (e : Failure) (t : State) :
    lastState (.error e t : EStateM.Result Failure State α) = t := rfl

/-- The state with the cursor moved over `n` tokens. -/
def State.skip (s : State) (n : Nat) : State := { s with cursor := s.cursor.skip n }

@[simp] theorem State.skip_cursor (s : State) (n : Nat) : (s.skip n).cursor = s.cursor.skip n := rfl
@[simp] theorem State.skip_settings (s : State) (n : Nat) : (s.skip n).settings = s.settings := rfl

@[simp] theorem State.skip_library (s : State) (n : Nat) : (s.skip n).library = s.library := rfl
@[simp] theorem State.skip_depth (s : State) (n : Nat) : (s.skip n).depth = s.depth := rfl
@[simp] theorem State.skip_attempts (s : State) (n : Nat) : (s.skip n).attempts = s.attempts := rfl
@[simp] theorem State.skip_subqueries (s : State) (n : Nat) :
    (s.skip n).subqueries = s.subqueries := rfl
@[simp] theorem State.skip_separatorDepth (s : State) (n : Nat) :
    (s.skip n).separatorDepth = s.separatorDepth := rfl
@[simp] theorem State.skip_diagnostics (s : State) (n : Nat) :
    (s.skip n).diagnostics = s.diagnostics := rfl
@[simp] theorem State.skip_lastReported (s : State) (n : Nat) :
    (s.skip n).lastReported = s.lastReported := rfl
@[simp] theorem State.skip_events (s : State) (n : Nat) : (s.skip n).events = s.events := rfl

/-- The levels of nesting that are left. -/
def State.budget (s : State) : Nat := s.settings.nestingLimit - s.depth

@[simp] theorem State.skip_budget (s : State) (n : Nat) : (s.skip n).budget = s.budget := rfl

/-! ## Successful runs -/

/-- A parser runs the next one from the state where it has ended, unless it fails. -/
theorem bind_apply (p : Parser α) (f : α → Parser β) (s : State) :
    (p >>= f) s =
      match p s with
      | .ok a t => f a t
      | .error e t => .error e t := by
  show EStateM.bind p f s = _
  unfold EStateM.bind
  cases p s <;> rfl

/-- A sequence succeeds just if both of its parts do, the second from where the first has ended. -/
theorem bind_eq_ok_iff {p : Parser α} {f : α → Parser β} {s t : State} {b : β} :
    (p >>= f) s = .ok b t ↔ ∃ a u, p s = .ok a u ∧ f a u = .ok b t := by
  rw [bind_apply]
  cases p s with
  | ok a u =>
    constructor
    · intro h
      exact ⟨a, u, rfl, h⟩
    · rintro ⟨a', u', heq, h⟩
      injection heq with h1 h2
      rw [h1, h2]
      exact h
  | error e u => simp

theorem bind_of_ok {p : Parser α} {f : α → Parser β} {s u : State} {a : α} (h : p s = .ok a u) :
    (p >>= f) s = f a u := by
  rw [bind_apply, h]

theorem bind_of_error {p : Parser α} {f : α → Parser β} {s u : State} {e : Failure}
    (h : p s = .error e u) : (p >>= f) s = .error e u := by
  rw [bind_apply, h]

theorem pure_apply (a : α) (s : State) : (pure a : Parser α) s = .ok a s := rfl

theorem pure_eq_ok_iff {a b : α} {s t : State} :
    (pure a : Parser α) s = .ok b t ↔ a = b ∧ s = t := by
  simp [pure_apply]

/-- What is given in another form succeeds as before. -/
theorem map_eq_ok_iff {p : Parser α} {f : α → β} {s t : State} {b : β} :
    (f <$> p) s = .ok b t ↔ ∃ a, p s = .ok a t ∧ f a = b := by
  show (p >>= fun a => pure (f a)) s = .ok b t ↔ _
  rw [bind_eq_ok_iff]
  constructor
  · rintro ⟨a, u, hp, h⟩
    obtain ⟨rfl, rfl⟩ := pure_eq_ok_iff.1 h
    exact ⟨a, hp, rfl⟩
  · rintro ⟨a, hp, rfl⟩
    exact ⟨a, t, hp, rfl⟩

theorem get_bind_apply (f : State → Parser α) (s : State) : (get >>= f) s = f s s := rfl

theorem current_bind_apply (f : Token → Parser α) (s : State) :
    (current >>= f) s = f s.cursor.current s := rfl

theorem peek_bind_apply (k : Nat) (f : Token → Parser α) (s : State) :
    (peek k >>= f) s = f (s.cursor.peek k) s := rfl

theorem atSymbol_bind_apply (sign : Symbol) (f : Bool → Parser α) (s : State) :
    (atSymbol sign >>= f) s = f (s.cursor.current.kind == .symbol sign) s := rfl

theorem atKeyword_bind_apply (word : Keyword) (f : Bool → Parser α) (s : State) :
    (atKeyword word >>= f) s = f (s.cursor.current.kind == .keyword word) s := rfl

theorem skip_bind_apply (n : Nat) (f : Unit → Parser α) (s : State) :
    (Parser.skip n >>= f) s = f () (s.skip n) := rfl

theorem spanFrom_bind_apply (start : Span) (f : Span → Parser α) (s : State) :
    (spanFrom start >>= f) s = f (start.merge s.cursor.previousSpan) s := rfl

theorem take_bind_apply (f : Span → Parser α) (s : State) :
    (take >>= f) s = f s.cursor.current.span (s.skip 1) := rfl

theorem reject_ne_ok {d : Diagnostic} {s t : State} {a : α} :
    (reject d : Parser α) s ≠ .ok a t := nofun

theorem rejectCurrent_ne_ok {expected : String} {s t : State} {a : α} :
    (rejectCurrent expected : Parser α) s ≠ .ok a t := nofun

/-- The run that succeeds if a token of a certain kind is under the cursor, and moves over it. -/
theorem symbol_eq_ok_iff {sign : Symbol} {s t : State} {span : Span} :
    symbol sign s = .ok span t ↔
      s.cursor.current.kind = .symbol sign ∧ span = s.cursor.current.span ∧ t = s.skip 1 := by
  unfold symbol
  rw [atSymbol_bind_apply]
  by_cases h : s.cursor.current.kind = .symbol sign
  · simp only [h, beq_self_eq_true, if_true, true_and]
    constructor
    · intro heq
      injection heq with h1 h2
      exact ⟨h1.symm, h2.symm⟩
    · rintro ⟨rfl, rfl⟩
      rfl
  · simp only [beq_iff_eq, h, if_false, false_and, iff_false]
    exact rejectCurrent_ne_ok

/-- A reserved word is taken if it is in front, and its place is given. -/
theorem keyword_eq_ok_iff {word : Keyword} {s t : State} {span : Span} :
    keyword word s = .ok span t ↔
      s.cursor.current.kind = .keyword word ∧ span = s.cursor.current.span ∧ t = s.skip 1 := by
  unfold keyword
  rw [atKeyword_bind_apply]
  by_cases h : s.cursor.current.kind = .keyword word
  · simp only [h, beq_self_eq_true, if_true, true_and]
    constructor
    · intro heq
      injection heq with h1 h2
      exact ⟨h1.symm, h2.symm⟩
    · rintro ⟨rfl, rfl⟩
      rfl
  · simp only [beq_iff_eq, h, if_false, false_and, iff_false]
    exact rejectCurrent_ne_ok

/-- A sign that may stand here is taken if it does, and what follows is told. -/
theorem takeSymbol_bind_apply (sign : Symbol) (f : Bool → Parser α) (s : State) :
    (takeSymbol sign >>= f) s =
      if s.cursor.current.kind = .symbol sign then f true (s.skip 1) else f false s := by
  unfold takeSymbol takeIf
  rw [bind_apply, atSymbol_bind_apply]
  by_cases h : s.cursor.current.kind = .symbol sign
  · simp only [h, beq_self_eq_true, if_true]
    rfl
  · simp only [beq_iff_eq, h, if_false]
    rfl

/-- A word that may stand here is taken if it does, and what follows is told. -/
theorem takeKeyword_bind_apply (word : Keyword) (f : Bool → Parser α) (s : State) :
    (takeKeyword word >>= f) s =
      if s.cursor.current.kind = .keyword word then f true (s.skip 1) else f false s := by
  unfold takeKeyword takeIf
  rw [bind_apply, atKeyword_bind_apply]
  by_cases h : s.cursor.current.kind = .keyword word
  · simp only [h, beq_self_eq_true, if_true]
    rfl
  · simp only [beq_iff_eq, h, if_false]
    rfl

/-! ## Repetitions -/

/-- What a repetition does with the answer of a step. -/
def loopNext (step : α → Parser (ForInStep α)) : List Token → ForInStep α → Parser α
  | _, .done a => pure a
  | [], .yield _ => throw .outOfFuel
  | _ :: rounds, .yield a => loopOver step rounds a

/-- A repetition makes a step and goes on with what the step has answered. -/
theorem loopOver_eq (step : α → Parser (ForInStep α)) (rounds : List Token) (a : α) :
    loopOver step rounds a = step a >>= loopNext step rounds := by
  cases rounds with
  | nil =>
    refine congrArg (step a >>= ·) (funext fun r => ?_)
    cases r <;> rfl
  | cons t rounds =>
    refine congrArg (step a >>= ·) (funext fun r => ?_)
    cases r <;> rfl

/-! ## Nesting -/

/-- The state with `cost` more levels of nesting in use. -/
def State.deeper (s : State) (cost : Nat) : State := { s with depth := s.depth + cost }

/-- The state with `cost` levels of nesting given back. -/
def State.shallower (s : State) (cost : Nat) : State := { s with depth := s.depth - cost }

/-- The result of a run with its last state changed. -/
def Parser.mapState (f : State → State) :
    EStateM.Result Failure State α → EStateM.Result Failure State α
  | .ok a t => .ok a (f t)
  | .error e t => .error e (f t)

/-- A parser between two changes of the state runs from the changed state. -/
theorem between_apply (enter leave : State → State) (p : Parser α) (s : State) :
    between enter leave p s = mapState leave (p (enter s)) := by
  unfold between
  cases p (enter s) <;> rfl

/-- Behind further levels of nesting, a parser runs if they are left; else the limit is reported. -/
theorem nest_apply (cost : Nat) (p : Parser α) (s : State) :
    nest cost p s =
      if s.settings.nestingLimit < s.depth + cost then
        .error (.rejected ⟨.tooDeep s.settings.nestingLimit, s.cursor.current.span⟩) s
      else mapState (State.shallower · cost) (p (s.deeper cost)) := by
  unfold nest
  rw [get_bind_apply]
  by_cases h : s.settings.nestingLimit < s.depth + cost
  · simp only [h, if_true]
    rfl
  · simp only [h, if_false]
    exact between_apply _ _ p s

/-- A run with its last state changed succeeds just if the run does. -/
@[simp] theorem mapState_eq_ok_iff {f : State → State} {r : EStateM.Result Failure State α} {a : α}
    {t : State} : mapState f r = .ok a t ↔ ∃ u, r = .ok a u ∧ f u = t := by
  cases r <;> simp [mapState, and_assoc]

/-- A run with its last state changed fails just if the run does, for the same reason. -/
@[simp] theorem mapState_eq_error_iff {f : State → State} {r : EStateM.Result Failure State α}
    {e : Failure} {t : State} : mapState f r = .error e t ↔ ∃ u, r = .error e u ∧ f u = t := by
  cases r <;> simp [mapState, and_assoc]

@[simp] theorem lastState_mapState (f : State → State) (r : EStateM.Result Failure State α) :
    lastState (mapState f r) = f (lastState r) := by
  cases r <;> rfl

/-- Success on further levels is success of the body where the levels are left. -/
theorem nest_eq_ok_iff {cost : Nat} {p : Parser α} {s t : State} {a : α} :
    nest cost p s = .ok a t ↔
      s.depth + cost ≤ s.settings.nestingLimit ∧
        ∃ u, p (s.deeper cost) = .ok a u ∧ u.shallower cost = t := by
  rw [nest_apply]
  by_cases h : s.settings.nestingLimit < s.depth + cost
  · rw [if_pos h]
    constructor
    · nofun
    · rintro ⟨hle, -⟩
      omega
  · rw [if_neg h, mapState_eq_ok_iff]
    simp only [Nat.not_lt] at h
    simp [h]

/-- The state in front of a substring of `POSITION`, in which `IN` is a separator. -/
def State.separating (s : State) : State := { s with separatorDepth := some (s.depth + 1) }

/-- In front of `IN` as a separator, the state is changed for the run and restored behind it. -/
theorem atSeparator_apply (p : Parser α) (s : State) :
    atSeparator p s =
      mapState (fun t => { t with separatorDepth := s.separatorDepth }) (p s.separating) := by
  unfold atSeparator
  rw [get_bind_apply]
  exact between_apply State.separating _ p s

/-- The state in which `IN` is a separator at the present depth. -/
def State.separatingHere (s : State) : State := { s with separatorDepth := some s.depth }

/-- Runs `p` where `IN` is a separator at the present depth. -/
def Parser.separateHere (p : Parser α) : Parser α := fun s =>
  mapState (fun t => { t with separatorDepth := s.separatorDepth }) (p s.separatingHere)

/-- To separate one level deeper is to separate here behind one level. -/
theorem atSeparator_nest (p : Parser α) : atSeparator (nest 1 p) = nest 1 (separateHere p) := by
  funext s
  rw [atSeparator_apply, nest_apply, nest_apply]
  by_cases h : s.settings.nestingLimit < s.depth + 1
  · rw [if_pos h, if_pos (show s.separating.settings.nestingLimit < s.separating.depth + 1 from h)]
    rfl
  · rw [if_neg h,
      if_neg (show ¬s.separating.settings.nestingLimit < s.separating.depth + 1 from h)]
    show _ = mapState _ (mapState _ (p (s.separating.deeper 1)))
    cases p (s.separating.deeper 1) <;> rfl

/-- The state with one more query in parentheses open. -/
def State.enclosed (s : State) : State := { s with subqueries := s.subqueries + 1 }

/-- The state with one query in parentheses closed. -/
def State.disclosed (s : State) : State := { s with subqueries := s.subqueries - 1 }

theorem subquery_apply (p : Parser α) (s : State) :
    subquery p s = mapState State.disclosed (p s.enclosed) := between_apply _ _ p s

/-! ## Attempts -/

/-- The state with one more attempt under way. -/
def State.trying (s : State) : State := { s with attempts := s.attempts + 1 }

/-- The state with one attempt less under way. -/
def State.tried (s : State) : State := { s with attempts := s.attempts - 1 }

/-- The state after an attempt from `s` that failed for the reason `d` in the state `t`. -/
def State.undone (s : State) (rule : String) (d : Diagnostic) (t : State) : State :=
  { t.tried with
    cursor := s.cursor
    diagnostics := s.diagnostics
    lastReported := s.lastReported
    events := .attemptUndone rule d :: t.events }

/-- An attempt gives what its run has given, or undoes the run and gives nothing. -/
theorem attempt_apply (rule : String) (p : Parser α) (s : State) :
    attempt rule p s =
      match p s.trying with
      | .ok a t => .ok (some a) t.tried
      | .error (.rejected d) t => .ok none (s.undone rule d t)
      | .error .outOfFuel t => .error .outOfFuel t.tried := by
  unfold attempt
  dsimp only
  rw [between_apply]
  show (match mapState State.tried (p s.trying) with
    | .ok a t => _
    | .error (.rejected d) t => _
    | .error .outOfFuel t => _) = _
  cases p s.trying with
  | ok a t => rfl
  | error e t => cases e <;> rfl

/-! ## What runs keep -/

/-- What no run changes on its way from `s` to `t`, and what it only adds to. -/
structure State.Leads (s t : State) : Prop where
  settings : t.settings = s.settings
  library : t.library = s.library
  depth : t.depth = s.depth
  attempts : t.attempts = s.attempts
  subqueries : t.subqueries = s.subqueries
  separatorDepth : t.separatorDepth = s.separatorDepth
  allTokens : t.cursor.allTokens = s.cursor.allTokens
  ahead : t.cursor.ahead <:+ s.cursor.ahead
  diagnostics : s.diagnostics <:+ t.diagnostics
  events : s.events <:+ t.events

theorem State.Leads.refl (s : State) : s.Leads s :=
  ⟨rfl, rfl, rfl, rfl, rfl, rfl, rfl, List.suffix_refl _, List.suffix_refl _, List.suffix_refl _⟩

/-- What two runs keep, they keep one after the other. -/
theorem State.Leads.trans {s t u : State} (hst : s.Leads t) (htu : t.Leads u) : s.Leads u where
  settings := htu.settings.trans hst.settings
  library := htu.library.trans hst.library
  depth := htu.depth.trans hst.depth
  attempts := htu.attempts.trans hst.attempts
  subqueries := htu.subqueries.trans hst.subqueries
  separatorDepth := htu.separatorDepth.trans hst.separatorDepth
  allTokens := htu.allTokens.trans hst.allTokens
  ahead := htu.ahead.trans hst.ahead
  diagnostics := hst.diagnostics.trans htu.diagnostics
  events := hst.events.trans htu.events

/-- Runs give back the levels of nesting that they take. -/
theorem State.Leads.budget {s t : State} (h : s.Leads t) : t.budget = s.budget := by
  unfold State.budget
  rw [h.settings, h.depth]

theorem State.Leads.budget_le {s t : State} (h : s.Leads t) {b : Nat} (hb : s.budget ≤ b) :
    t.budget ≤ b := by
  rw [h.budget]
  exact hb

/-- No run changes whether errors are recovered from. -/
theorem State.Leads.isRecovering {s t : State} (h : s.Leads t) :
    t.isRecovering = s.isRecovering := by
  unfold State.isRecovering
  rw [h.settings, h.attempts]

/-- What is ahead behind some tokens is the end of what was ahead. -/
theorem ahead_skip_suffix (n : Nat) (c : Cursor) : (c.skip n).ahead <:+ c.ahead := by
  induction n generalizing c with
  | zero => exact List.suffix_refl _
  | succ n ih =>
    refine (ih c.advance).trans ?_
    unfold Cursor.advance
    split
    · exact List.suffix_refl _
    · next t ts h =>
      split
      · exact List.suffix_refl _
      · rw [h]
        exact List.suffix_cons t ts

/-- To move over tokens keeps what runs keep. -/
theorem State.leads_skip (s : State) (n : Nat) : s.Leads (s.skip n) where
  settings := rfl
  library := rfl
  depth := rfl
  attempts := rfl
  subqueries := rfl
  separatorDepth := rfl
  allTokens := Cursor.allTokens_skip n s.cursor
  ahead := ahead_skip_suffix n s.cursor
  diagnostics := List.suffix_refl _
  events := List.suffix_refl _

/-- Only the token at the end of the input is the end. -/
theorem isEnd_eq_false {t : Token} (h : t.kind ≠ .endOfInput) : t.isEnd = false :=
  beq_eq_false_iff_ne.2 h

theorem isEnd_of_symbol {sign : Symbol} {t : Token} (h : t.kind = .symbol sign) :
    t.isEnd = false := isEnd_eq_false (h ▸ nofun)

theorem isEnd_of_keyword {word : Keyword} {t : Token} (h : t.kind = .keyword word) :
    t.isEnd = false := isEnd_eq_false (h ▸ nofun)

/-- A step over a token that does not end the input shortens what is ahead. -/
theorem ahead_skip_lt {c : Cursor} (h : c.current.isEnd = false) (n : Nat) :
    (c.skip (n + 1)).ahead.length < c.ahead.length := by
  have hadvance := Cursor.ahead_length_advance c h
  have hrest := (ahead_skip_suffix n c.advance).length_le
  show (Cursor.skip n c.advance).ahead.length < c.ahead.length
  omega

/-- A parser all of whose runs, those that fail included, keep what runs keep. -/
def Steady (p : Parser α) : Prop := ∀ s : State, s.Leads (lastState (p s))

/-- A successful run of a steady parser leads to where it ends. -/
theorem Steady.leads {p : Parser α} (h : Steady p) {s t : State} {a : α} (hp : p s = .ok a t) :
    s.Leads t := by
  have hs := h s
  rw [hp] at hs
  exact hs

end SearchSql.Grammar

namespace SearchSql

open SearchSql.Grammar

/-! ## Statements of parses -/

/-- The statement of a parse that recovers is what the root rule has found. -/
theorem parseTokens_statement_eq_some [Time.Library] {tokens : List Token} {settings : Settings}
    {s : Statement} :
    (parseTokens tokens settings).statement = some s ↔
      ∃ t, runRoot tokens settings = .ok (some s) t := by
  show (outcome (runRoot tokens settings)).statement = some s ↔ _
  cases runRoot tokens settings with
  | ok found t =>
    constructor
    · intro h
      obtain rfl : found = some s := h
      exact ⟨t, rfl⟩
    · rintro ⟨u, h⟩
      cases h
      rfl
  | error e t =>
    constructor
    · intro h
      cases e <;> cases h
    · rintro ⟨u, h⟩
      cases h

/-- A parse that stops at the first error succeeds just if the root rule does and has found a
statement. -/
theorem parseTokensStrict_eq_ok [Time.Library] {tokens : List Token} {settings : Settings}
    {s : Statement} :
    parseTokensStrict tokens settings = .ok s ↔
      ∃ t, runRoot tokens { settings with recover := false } = .ok (some s) t := by
  unfold parseTokensStrict
  cases runRoot tokens { settings with recover := false } with
  | ok statement t => cases statement <;> simp
  | error e t => simp

end SearchSql
