import SearchSql.Proofs.RuleContract

/-!
# Checked parses

A checked parse is a parse that stops for good where a run leaves its bounds. It looks at the state
in which each rule starts and ends: the cursor may not be behind the first end of the input, no more
levels of nesting may be in use than are allowed, and the counters have to be at the end what they
were at the start. Levels are given back only where as many are in use, attempts and queries in
parentheses are closed only where one is open, and an attempt is undone only backwards.

The checked parse is the parse (`checkedRun_eq`), so no check ever fails.
-/

set_option autoImplicit false

namespace SearchSql

-- Powers are those of the core library, whatever else is in scope.
attribute [local instance (2000)] instPowNat

/-! ## The token under a cursor -/

namespace Cursor

/-- No token is looked at beyond the list. -/
theorem getElem?_peek (c : Cursor) (k : Nat) :
    c.allTokens[min (c.position + k) (c.allTokens.length - 1)]? = some (c.peek k) := by
  have hlength : c.allTokens.length = c.passed.length + (c.ahead.length + 1) := by
    simp [allTokens]
  have hposition : c.passed.reverse.length = c.position := List.length_reverse
  rw [hlength]
  unfold allTokens
  rw [List.append_assoc]
  rcases Nat.lt_or_ge k c.ahead.length with hk | hk
  · have hmin : min (c.position + k) (c.passed.length + (c.ahead.length + 1) - 1) =
        c.position + k := by
      unfold position
      omega
    rw [hmin, List.getElem?_append_right (by omega), hposition, Nat.add_sub_cancel_left,
      List.getElem?_append_left hk]
    unfold peek
    rw [List.getElem?_eq_getElem hk]
    rfl
  · -- Behind the list, the closing token is looked at again.
    have hmin : min (c.position + k) (c.passed.length + (c.ahead.length + 1) - 1) =
        c.position + c.ahead.length := by
      unfold position
      omega
    rw [hmin, List.getElem?_append_right (by omega), hposition, Nat.add_sub_cancel_left,
      List.getElem?_append_right (Nat.le_refl _), Nat.sub_self]
    unfold peek
    rw [List.getElem?_eq_none hk]
    rfl

/-- The token at the place of the cursor is the one under the cursor. -/
theorem getElem?_position (c : Cursor) : c.allTokens[c.position]? = some c.current := by
  have hpeek := c.getElem?_peek 0
  have hmin : min (c.position + 0) (c.allTokens.length - 1) = c.position := by
    have hlength : c.allTokens.length = c.passed.length + (c.ahead.length + 1) := by
      simp [allTokens]
    unfold position
    omega
  rwa [hmin, peek_zero] at hpeek

/-- The span passed last is that of the token in front of the cursor, if there is one. -/
theorem getElem?_previous (c : Cursor) :
    if c.position = 0 then ∃ t, c.allTokens[0]? = some t ∧ c.previousSpan = .point t.span.start
    else ∃ t, c.allTokens[c.position - 1]? = some t ∧ c.previousSpan = t.span := by
  have hcurrent := c.getElem?_position
  obtain ⟨passed, ahead, closing, hclosing⟩ := c
  cases passed with
  | nil => exact ⟨_, hcurrent, rfl⟩
  | cons t ts =>
    refine ⟨t, ?_, rfl⟩
    show ((t :: ts).reverse ++ ahead ++ [closing])[ts.length]? = some t
    simp

/-- The list ends, and the cursor is in it. -/
theorem position_lt (c : Cursor) : c.position < c.allTokens.length := by
  obtain ⟨hlt, -⟩ := List.getElem?_eq_some_iff.1 c.getElem?_position
  exact hlt

/-- The cursor stands in front of the first end of the input, or at it. -/
def IsPlaced (c : Cursor) : Prop := c.position ≤ c.allTokens.findIdx Token.isEnd

/-- A step in front of the end leads to the end at most. -/
theorem IsPlaced.advance {c : Cursor} (h : c.IsPlaced) (hend : c.current.isEnd = false) :
    c.advance.IsPlaced := by
  unfold IsPlaced at h ⊢
  rw [allTokens_advance, position_advance c hend]
  refine Nat.lt_of_le_of_ne h ?_
  intro heq
  -- The token under the cursor would be the first end.
  have hcurrent := c.getElem?_position
  rw [heq] at hcurrent
  obtain ⟨hlt, hcurrent⟩ := List.getElem?_eq_some_iff.1 hcurrent
  have hfirst : c.allTokens[c.allTokens.findIdx Token.isEnd].isEnd = true := List.findIdx_getElem
  rw [hcurrent, hend] at hfirst
  cases hfirst

end Cursor

namespace Grammar

open SearchSql.Grammar.Parser

variable {α β : Type}

/-! ## Checks -/

/-- The cursor is not behind the first end of the input, and no more levels of nesting are in use
than are allowed. -/
structure State.InBounds (s : State) : Prop where
  placed : s.cursor.IsPlaced
  depth : s.depth ≤ s.settings.nestingLimit

instance (c : Cursor) : Decidable c.IsPlaced :=
  inferInstanceAs (Decidable (c.position ≤ c.allTokens.findIdx Token.isEnd))

instance (s : State) : Decidable s.InBounds :=
  decidable_of_iff (s.cursor.IsPlaced ∧ s.depth ≤ s.settings.nestingLimit)
    ⟨fun h => ⟨h.1, h.2⟩, fun h => ⟨h.placed, h.depth⟩⟩

/-- The counters are in `t` what they are in `s`. The list of tokens is the same, and the cursor has
not been moved backwards. -/
structure State.Restores (s t : State) : Prop where
  depth : t.depth = s.depth
  subqueries : t.subqueries = s.subqueries
  attempts : t.attempts = s.attempts
  separatorDepth : t.separatorDepth = s.separatorDepth
  allTokens : t.cursor.allTokens = s.cursor.allTokens
  position : s.cursor.position ≤ t.cursor.position

instance (s t : State) : Decidable (s.Restores t) :=
  decidable_of_iff (t.depth = s.depth ∧ t.subqueries = s.subqueries ∧ t.attempts = s.attempts ∧
      t.separatorDepth = s.separatorDepth ∧ t.cursor.allTokens = s.cursor.allTokens ∧
      s.cursor.position ≤ t.cursor.position)
    ⟨fun ⟨h1, h2, h3, h4, h5, h6⟩ => ⟨h1, h2, h3, h4, h5, h6⟩,
      fun ⟨h1, h2, h3, h4, h5, h6⟩ => ⟨h1, h2, h3, h4, h5, h6⟩⟩

/-- Runs `p`, which has to end in a state that `ok` allows. Otherwise the run stops for good: as
where fuel is missing, neither an attempt nor a recovery goes on behind it. -/
def Parser.ensuring (ok : State → State → Prop) [∀ s t, Decidable (ok s t)] (p : Parser α) :
    Parser α := fun s =>
  let r := p s
  if ok s (lastState r) then r else .error .outOfFuel (lastState r)

/-- Runs a rule, which has to start and end in bounds and to take back its changes. -/
def Parser.watched (p : Parser α) : Parser α :=
  ensuring (fun s t => s.InBounds ∧ t.InBounds ∧ s.Restores t) p

/-- More than the levels of nesting that a machine counts at least. -/
def wordSize : Nat := 2 ^ (16 : Nat)

/-- Further levels of nesting, which have to be countable, and of which as many have to be left. -/
def Parser.checkedNest (cost : Nat) (p : Parser α) : Parser α := fun s =>
  if s.depth + cost < wordSize then nest cost (ensuring (fun _ t => cost ≤ t.depth) p) s
  else .error .outOfFuel s

/-- A query in parentheses, of which one has to be open at its end. -/
def Parser.checkedSubquery (p : Parser α) : Parser α :=
  subquery (ensuring (fun _ t => 1 ≤ t.subqueries) p)

/-- An attempt, of which one has to be under way at its end, and which is undone backwards. -/
def Parser.checkedAttempt (rule : String) (p : Parser α) : Parser (Option α) :=
  attempt rule
    (ensuring (fun s t => 1 ≤ t.attempts ∧ s.cursor.position ≤ t.cursor.position) p)

/-! ## Rules with checks -/

/-- A relation, where `query` reads what stands in parentheses. -/
def relationAround (query : Parser Query) : Parser Relation := do
  let _ ← keyword .FROM
  if ← atSymbol .leftParen then
    let start ← take
    let query ← query
    let _ ← symbol .rightParen
    let _ ← takeKeyword .AS
    let name ← ident
    return .subquery query name (← spanFrom start)
  let name ← qualifiedName
  return .table name (← optionalAlias)

/-- The rule of a nonterminal, with checks where it counts levels, attempts or queries. -/
def checkedRule (call : Callee) : {α : Type} → Nonterminal α → Parser α
  | _, .expr least => checkedNest 1 (exprBody call least)
  | _, .call => checkedNest 1 (callBody call)
  | _, .relation => relationAround (checkedNest 2 (checkedSubquery (call .query)))
  | _, .aggregateTail aggregate =>
      tailAround call aggregate (checkedAttempt "ordered aggregate filter" (orderedFilter call))
  | _, nonterminal => rule call nonterminal

/-- Runs the rule of a nonterminal with all checks. -/
def checked : Nat → {α : Type} → Nonterminal α → Parser α
  | 0, _, _ => throw .outOfFuel
  | fuel + 1, _, nonterminal => watched (checkedRule (checked fuel) nonterminal)

/-- Runs the rule of the whole input with all checks. -/
def checkedRun [Time.Library] (tokens : List Token) (settings : Settings) :
    EStateM.Result Failure State (Option Statement) :=
  watched (rootRule (checked (fuelFor settings))) (State.ofTokens tokens settings)

/-! ## Checks that hold -/

/-- A check does not change where a run ends. -/
@[simp] theorem lastState_ensuring (ok : State → State → Prop) [∀ s t, Decidable (ok s t)]
    (p : Parser α) (s : State) : lastState (ensuring ok p s) = lastState (p s) := by
  unfold ensuring
  dsimp only
  split
  · rfl
  · rfl

/-- A check that holds changes nothing. -/
theorem ensuring_apply {ok : State → State → Prop} [∀ s t, Decidable (ok s t)] {p : Parser α}
    {s : State} (h : ok s (lastState (p s))) : ensuring ok p s = p s := if_pos h

/-- A check that fails keeps what runs keep. -/
theorem Steady.ensuring {ok : State → State → Prop} [∀ s t, Decidable (ok s t)] {p : Parser α}
    (hp : Steady p) : Steady (ensuring ok p) := by
  intro s
  rw [lastState_ensuring]
  exact hp s

/-- A steady parser stays steady under checked levels. -/
theorem Steady.checkedNest {p : Parser α} (hp : Steady p) (cost : Nat) :
    Steady (checkedNest cost p) := by
  intro s
  unfold Parser.checkedNest
  split
  · exact hp.ensuring.nest s
  · exact State.Leads.refl s

/-- A state to which a run leads restores the counters. -/
theorem State.Leads.restores {s t : State} (h : s.Leads t) : s.Restores t := by
  refine ⟨h.depth, h.subqueries, h.attempts, h.separatorDepth, h.allTokens, ?_⟩
  have hlength := congrArg List.length h.allTokens
  have hahead := h.ahead.length_le
  simp only [Cursor.allTokens, List.length_append, List.length_reverse, List.length_singleton]
    at hlength
  unfold Cursor.position
  omega

/-- In bounds, few more levels are countable, and they are given back. -/
theorem checkedNest_apply {p : Parser α} (hp : Steady p) {cost : Nat} (hcost : cost ≤ 2) {s : State}
    (hs : s.InBounds) : checkedNest cost p s = nest cost p s := by
  have hdepth := hs.depth
  have hlimit : s.settings.nestingLimit ≤ 128 := Nat.min_le_right _ _
  have hword : s.depth + cost < wordSize := by
    unfold wordSize
    omega
  have hback : cost ≤ (lastState (p (s.deeper cost))).depth := by
    rw [(hp (s.deeper cost)).depth]
    exact Nat.le_add_left _ _
  unfold checkedNest
  rw [if_pos hword, nest_apply, nest_apply, ensuring_apply hback]

/-- A steady parser leaves a subquery open that was opened in front of it. -/
theorem checkedSubquery_eq {p : Parser α} (hp : Steady p) : checkedSubquery p = subquery p := by
  funext s
  have hback : 1 ≤ (lastState (p s.enclosed)).subqueries := by
    rw [(hp s.enclosed).subqueries]
    exact Nat.le_add_left _ _
  unfold checkedSubquery
  rw [subquery_apply, subquery_apply, ensuring_apply hback]

/-- A steady parser leaves an attempt under way that was begun in front of it. -/
theorem checkedAttempt_eq {p : Parser α} (hp : Steady p) (rule : String) :
    checkedAttempt rule p = attempt rule p := by
  funext s
  have hback : 1 ≤ (lastState (p s.trying)).attempts := by
    rw [(hp s.trying).attempts]
    exact Nat.le_add_left _ _
  unfold checkedAttempt
  rw [attempt_apply, attempt_apply, ensuring_apply ⟨hback, (hp s.trying).restores.position⟩]

/-- The cursor stays in front of the first end of the input, or at it. -/
def placement : Contract where
  keeps s := s.cursor.IsPlaced
  refuses _ s := s.cursor.IsPlaced

/-- A report does not move the cursor. -/
theorem placement_reporting : placement.Reporting where
  skip_one hs hend := Cursor.IsPlaced.advance hs hend
  same {s t} hs _ hcursor := by
    show t.cursor.IsPlaced
    rw [hcursor]
    exact hs
  refuses_same {d s t} hs _ hcursor := by
    show t.cursor.IsPlaced
    rw [hcursor]
    exact hs
  refuses_current hs _ := hs
  refuses_passed _ hs hend := Cursor.IsPlaced.advance hs hend
  refuses_literal _ _ _ _ _ ht := ht
  report {d s} hs _ _ := by
    rw [report_apply]
    split
    · exact hs
    · split
      · exact hs
      · exact hs

/-- No parser passes the first end of the input. -/
theorem placement_lawful : placement.Lawful := placement_reporting.lawful

/-- A run from there ends there. -/
theorem placement_ends {r : Run α} (h : placement.Ends r) : (lastState r).cursor.IsPlaced := by
  cases r with
  | ok a t => exact h
  | error e t =>
    cases e with
    | rejected d => exact h
    | outOfFuel => exact h

/-- A run that keeps the cursor in place stays in bounds. -/
theorem State.InBounds.leads {s t : State} (hs : s.InBounds) (hleads : s.Leads t)
    (hplaced : t.cursor.IsPlaced) : t.InBounds := by
  refine ⟨hplaced, ?_⟩
  rw [hleads.depth, hleads.settings]
  exact hs.depth

/-! ## Checked rules -/

/-- The runs of two parsers are the same where they start in bounds, with at most `b` levels of
nesting left, and end in bounds. -/
structure Tracks (b : Nat) (p q : Parser α) : Prop where
  steadyLeft : Steady p
  steadyRight : Steady q
  same {s : State} : s.budget ≤ b → s.InBounds → p s = q s ∧ (lastState (q s)).cursor.IsPlaced

/-- A parser without checks tracks itself, if it stays in place. -/
theorem Tracks.refl {p : Parser α} (hp : Steady p) (hplaced : placement.Meets p) (b : Nat) :
    Tracks b p p :=
  ⟨hp, hp, fun _ hs => ⟨rfl, placement_ends (hplaced _ hs.placed)⟩⟩

/-- Parsers that track others do so one after the other. -/
theorem Tracks.bind {b : Nat} {p q : Parser α} {f g : α → Parser β} (hp : Tracks b p q)
    (hf : ∀ a, Tracks b (f a) (g a)) : Tracks b (p >>= f) (q >>= g) := by
  refine ⟨hp.steadyLeft.bind fun a => (hf a).steadyLeft,
    hp.steadyRight.bind fun a => (hf a).steadyRight, ?_⟩
  intro s hb hs
  have hleads := hp.steadyRight s
  obtain ⟨hsame, hplaced⟩ := hp.same hb hs
  rw [bind_apply, bind_apply, hsame]
  cases hrun : q s with
  | ok a t =>
    rw [hrun] at hleads hplaced
    exact (hf a).same (hleads.budget_le hb) (hs.leads hleads hplaced)
  | error e t =>
    rw [hrun] at hplaced
    exact ⟨rfl, hplaced⟩

/-- What looks at the state tracks if it does for every state. -/
theorem Tracks.get_bind {b : Nat} {f g : State → Parser α} (h : ∀ s, Tracks b (f s) (g s)) :
    Tracks b (get >>= f) (get >>= g) :=
  ⟨steady_get_bind fun s => (h s).steadyLeft, steady_get_bind fun s => (h s).steadyRight,
    fun {s} hb hs => (h s).same hb hs⟩

/-- Parsers that look at the current token are tracked if they are for every token. -/
theorem Tracks.current_bind {b : Nat} {f g : Token → Parser α} (h : ∀ t, Tracks b (f t) (g t)) :
    Tracks b (current >>= f) (current >>= g) := Tracks.get_bind fun s => h s.cursor.current

/-- Without moving, the state stays in bounds. -/
theorem tracks_pure (a : α) (b : Nat) : Tracks b (pure a : Parser α) (pure a) :=
  .refl (steady_pure a) (Contract.meets_pure a) b

/-- The rounds behind the first are tracked if each round is. -/
theorem Tracks.loopNext {b : Nat} {f g : α → Parser (ForInStep α)}
    (h : ∀ a, Tracks b (f a) (g a)) (rounds : List Token) (r : ForInStep α) :
    Tracks b (loopNext f rounds r) (loopNext g rounds r) := by
  induction rounds generalizing r with
  | nil =>
    cases r with
    | done a => exact tracks_pure a b
    | yield a => exact ⟨State.Leads.refl, State.Leads.refl, fun _ hs => ⟨rfl, hs.placed⟩⟩
  | cons _ rounds ih =>
    cases r with
    | done a => exact tracks_pure a b
    | yield a =>
      show Tracks b (loopOver f rounds a) (loopOver g rounds a)
      rw [loopOver_eq, loopOver_eq]
      exact (h a).bind ih

/-- A repetition tracks if its steps do. -/
theorem Tracks.loop {b : Nat} {f g : α → Parser (ForInStep α)} (h : ∀ a, Tracks b (f a) (g a))
    (a : α) : Tracks b (loop a f) (loop a g) := by
  refine Tracks.get_bind fun s => ?_
  rw [loopOver_eq, loopOver_eq]
  exact (h a).bind (Tracks.loopNext h _)

/-- Under further levels, runs are the same with fewer levels left. -/
theorem Tracks.nest {b cost : Nat} {p q : Parser α} (hcost : 0 < cost) (hp : Steady p)
    (hq : Steady q) (h : ∀ b' < b, Tracks b' p q) : Tracks b (nest cost p) (nest cost q) := by
  refine ⟨hp.nest, hq.nest, ?_⟩
  intro s hb hs
  rw [nest_apply, nest_apply]
  split
  · exact ⟨rfl, hs.placed⟩
  · next hlimit =>
    have hdeeper := Simulation.deeper_budget_lt hcost (Nat.not_lt.1 hlimit)
    have hbounds : (s.deeper cost).InBounds := ⟨hs.placed, Nat.not_lt.1 hlimit⟩
    obtain ⟨hsame, hplaced⟩ :=
      (h _ (Nat.lt_of_lt_of_le hdeeper hb)).same (Nat.le_refl _) hbounds
    rw [hsame, lastState_mapState]
    exact ⟨rfl, hplaced⟩

/-- A change of the state behind a run. -/
theorem Tracks.mapState {b : Nat} {p q : Parser α} (h : Tracks b p q) {s : State}
    (hb : s.budget ≤ b) (hs : s.InBounds) (leave : State → State)
    (hleave : ∀ t, (leave t).cursor = t.cursor) :
    mapState leave (p s) = mapState leave (q s) ∧
      (lastState (Parser.mapState leave (q s))).cursor.IsPlaced := by
  obtain ⟨hsame, hplaced⟩ := h.same hb hs
  rw [hsame, lastState_mapState, hleave]
  exact ⟨rfl, hplaced⟩

/-- A parser that is run where `IN` separates is tracked if it is without. -/
theorem Tracks.atSeparator {b : Nat} {p q : Parser α} (h : Tracks b p q) :
    Tracks b (atSeparator p) (atSeparator q) := by
  refine ⟨h.steadyLeft.atSeparator, h.steadyRight.atSeparator, ?_⟩
  intro s hb hs
  have hseparating : s.separating.InBounds := ⟨hs.placed, hs.depth⟩
  rw [atSeparator_apply, atSeparator_apply]
  exact h.mapState (show s.separating.budget ≤ b from hb) hseparating _ fun _ => rfl

/-- A subquery with its check is tracked by one without. -/
theorem Tracks.subquery {b : Nat} {p q : Parser α} (h : Tracks b p q) :
    Tracks b (subquery p) (subquery q) := by
  refine ⟨h.steadyLeft.subquery, h.steadyRight.subquery, ?_⟩
  intro s hb hs
  have henclosed : s.enclosed.InBounds := ⟨hs.placed, hs.depth⟩
  rw [subquery_apply, subquery_apply]
  exact h.mapState (show s.enclosed.budget ≤ b from hb) henclosed _ fun _ => rfl

/-- An attempt with its check is tracked by one without. -/
theorem Tracks.attempt {b : Nat} {p q : Parser α} (h : Tracks b p q) (rule : String) :
    Tracks b (attempt rule p) (attempt rule q) := by
  refine ⟨h.steadyLeft.attempt, h.steadyRight.attempt, ?_⟩
  intro s hb hs
  obtain ⟨hsame, hplaced⟩ := h.same (s := s.trying) hb ⟨hs.placed, hs.depth⟩
  rw [attempt_apply, attempt_apply, hsame]
  refine ⟨rfl, ?_⟩
  cases hrun : q s.trying with
  | ok a t =>
    rw [hrun] at hplaced
    exact hplaced
  | error e t =>
    rw [hrun] at hplaced
    cases e with
    | rejected d => exact hs.placed
    | outOfFuel => exact hplaced

/-- A recovering parser is tracked if the parser is. -/
theorem Tracks.recover {b : Nat} {p q : Parser α} (h : Tracks b p q) :
    Tracks b (recover p) (recover q) := by
  refine ⟨h.steadyLeft.recover, h.steadyRight.recover, ?_⟩
  intro s hb hs
  obtain ⟨hsame, hplaced⟩ := h.same hb hs
  have heq : p.recover s = q.recover s := by
    unfold Parser.recover
    rw [hsame]
  refine ⟨heq, ?_⟩
  unfold Parser.recover
  cases hrun : q s with
  | ok a t =>
    rw [hrun] at hplaced
    exact hplaced
  | error e t =>
    rw [hrun] at hplaced
    cases e with
    | outOfFuel => exact hplaced
    | rejected d =>
      have hends : placement.Ends (passOver d t) := placement_lawful.passOver hplaced
      exact placement_ends (hends.bind fun _ _ _ hu => hu)

/-- To track is respected by all that rules are written with. -/
theorem tracks_congruence :
    QueryCongruence Eq (fun _ _ => False) (fun _ _ => False) (fun b _ _ p q => Tracks b p q) where
  cursor := congrArg State.cursor
  library := congrArg State.library
  left_atOrder _ := False.elim
  right_atOrder _ := False.elim
  steadyLeft := Tracks.steadyLeft
  steadyRight := Tracks.steadyRight
  weaken h := h
  pure a := tracks_pure a _
  bind hp hf := hp.bind hf
  bindStays hp hf _ _ := hp.bind hf
  get _ _ h := .get_bind fun s => h s s rfl
  reject d := .refl (steady_reject d) (fun _ hs => hs) _
  skip n := .refl (steady_skip n) (placement_lawful.skip n) _
  loop a h _ _ _ _ := .loop h a
  malformedLiteral kind text fault span :=
    .refl (steady_malformedLiteral kind text fault span)
      (fun _ hs => placement_lawful.malformedLiteral hs rfl) _
  nest hcost hp hq h := .nest hcost hp hq h
  subquery h := h.subquery
  recover h := h.recover
  clauseEnd := .refl steady_clauseEnd placement_lawful.clauseEnd _

/-- It is respected by all rules. -/
theorem tracks_family :
    CongruenceFamily (fun _ => Eq) (fun _ _ => False) (fun _ _ => False)
      (fun _ b _ _ p q => Tracks b p q) where
  congruence _ := tracks_congruence.toNestingCongruence
  align h := h
  nestAligned hp hq h := .nest (by decide) hp hq h
  separator h _ := by rw [h]

/-- The checks of a rule hold if those of its callees do. -/
theorem tracks_rule {c d : Callee} (hsteady : ∀ {α : Type} (n : Nonterminal α), Steady (d n))
    (hc : Waits true (c .filter)) (hd : Waits true (d .filter))
    (h : ∀ (b : Nat) {α : Type} (n : Nonterminal α), Tracks b (c n) (d n)) (b : Nat)
    (n : Nonterminal α) : Tracks b (rule c n) (rule d n) := by
  have hcallees : Callees (fun _ _ => False) (fun _ _ => False)
      (fun _ b _ _ p q => Tracks b p q) b c d :=
    { steadyLeft := fun n => (h b n).steadyLeft
      steadyRight := hsteady
      separating := fun hexpr _ => hexpr.atSeparator
      attempt := fun hordered => hordered.attempt _
      waitsLeft := hc
      waitsRight := hd
      window := fun hexpr horder => tracks_congruence.windowRule hexpr horder
        (fun _ _ _ hs => hs.elim) fun _ _ _ hs => hs.elim }
  exact tracks_family.queryRule tracks_congruence hcallees
    (fun _ _ => ⟨fun _ _ _ hs => hs.elim, fun _ _ _ hs => hs.elim⟩) n (fun m _ => h b m)
    fun b' _ _ m => h b' m

/-- The check of the levels holds where the run is in bounds. -/
theorem Tracks.checkedNest {b cost : Nat} {p q : Parser α} (h : Tracks b (Parser.nest cost p) q)
    (hp : Steady p) (hcost : cost ≤ 2) : Tracks b (Parser.checkedNest cost p) q := by
  refine ⟨hp.checkedNest cost, h.steadyRight, ?_⟩
  intro s hb hs
  rw [checkedNest_apply hp hcost hs]
  exact h.same hb hs

/-- So does the check of the subqueries. -/
theorem Tracks.relationAround {b : Nat} {p q : Parser Query} (h : Tracks b p q) :
    Tracks b (relationAround p) (relationAround q) := by
  have hR := tracks_congruence.toCongruence
  refine Tracks.bind (hR.keyword .FROM) fun _ => Tracks.get_bind fun s => ?_
  show Tracks b (if (s.cursor.current.kind == .symbol .leftParen) = true then _ else _)
    (if (s.cursor.current.kind == .symbol .leftParen) = true then _ else _)
  split
  · refine Tracks.bind hR.take fun start => h.bind fun _ => ?_
    exact Tracks.bind (hR.symbol .rightParen) fun _ => Tracks.bind (hR.takeKeyword .AS) fun _ =>
      Tracks.bind hR.ident fun _ => Tracks.bind (hR.spanFrom start) fun _ => tracks_pure _ b
  · exact Tracks.bind hR.qualifiedName fun _ => Tracks.bind hR.optionalAlias fun _ =>
      tracks_pure _ b

/-- A rule with its checks is the rule, if its callees are the same with theirs. -/
theorem tracks_checkedRule {c d : Callee}
    (hsteady : ∀ {α : Type} (n : Nonterminal α), Steady (d n))
    (hc : Waits true (c .filter)) (hd : Waits true (d .filter))
    (h : ∀ (b : Nat) {α : Type} (n : Nonterminal α), Tracks b (c n) (d n)) (b : Nat)
    (n : Nonterminal α) : Tracks b (checkedRule c n) (rule d n) := by
  have hrule := tracks_rule hsteady hc hd h b n
  have hcsteady {α : Type} (m : Nonterminal α) : Steady (c m) := (h 0 m).steadyLeft
  -- Only these four rules have checks; each of them is the rule with its checks taken away.
  cases n with
  | expr least =>
    have hbody := steady_congruence.exprBody (b := 0) (c := c) (d := c)
      (fun _ => ⟨hcsteady _, hcsteady _⟩) ⟨hcsteady _, hcsteady _⟩ least
    exact hrule.checkedNest hbody.1 (by decide)
  | call =>
    have hbody := steady_congruence.callBody (b := 0) (c := c) (d := c)
      ⟨hcsteady _, hcsteady _⟩ ⟨hcsteady _, hcsteady _⟩ (fun _ => ⟨hcsteady _, hcsteady _⟩)
      (fun _ => ⟨hcsteady _, hcsteady _⟩)
    exact hrule.checkedNest hbody.1 (by decide)
  | relation =>
    have hquery : Tracks b (Parser.nest 2 (Parser.subquery (c .query)))
        (Parser.nest 2 (Parser.subquery (d .query))) :=
      .nest (by decide) (hcsteady .query).subquery (hsteady .query).subquery
        fun b' _ => (h b' .query).subquery
    show Tracks b (relationAround (checkedNest 2 (checkedSubquery (c .query)))) _
    rw [checkedSubquery_eq (hcsteady .query)]
    exact (hquery.checkedNest (hcsteady .query).subquery (by decide)).relationAround
  | aggregateTail aggregate =>
    have hordered : Steady (orderedFilter c) :=
      (hcsteady .orderBy).bind fun _ => (hcsteady .filter).bind fun _ => steady_pure _
    show Tracks b (tailAround c aggregate (checkedAttempt _ (orderedFilter c))) _
    rw [checkedAttempt_eq hordered]
    exact hrule
  | _ => exact hrule

/-- A watched parser is steady if the parser is. -/
theorem Steady.watched {p : Parser α} (hp : Steady p) : Steady (watched p) := hp.ensuring

/-- The checks around a rule hold where its own do. -/
theorem Tracks.watched {b : Nat} {p q : Parser α} (h : Tracks b p q) :
    Tracks b (watched p) q := by
  refine ⟨h.steadyLeft.watched, h.steadyRight, ?_⟩
  intro s hb hs
  obtain ⟨hsame, hplaced⟩ := h.same hb hs
  refine ⟨?_, hplaced⟩
  have hleads := h.steadyLeft s
  have hbounds : (lastState (p s)).InBounds := by
    refine hs.leads hleads ?_
    rw [hsame]
    exact hplaced
  rw [← hsame]
  exact ensuring_apply ⟨hs, hbounds, hleads.restores⟩

/-- A watched parser waits as the parser does. -/
theorem waits_watched {p : Parser α} {firm : Bool} (hp : Waits firm p) :
    Waits firm (watched p) := by
  intro s t a hs hrun
  unfold Parser.watched ensuring at hrun
  dsimp only at hrun
  split at hrun
  · exact hp s t a hs hrun
  · cases hrun

/-- In front of `ORDER`, no filter is read, with checks or without. -/
theorem waits_checked_filter (fuel : Nat) : Waits true (checked fuel .filter) := by
  cases fuel with
  | zero => exact fun _ _ _ _ hrun => nomatch hrun
  | succ fuel => exact waits_watched (waits_keyword (by decide)).bind_firm

/-- All rules run as they do without checks. -/
theorem tracks_checked (fuel b : Nat) (n : Nonterminal α) :
    Tracks b (checked fuel n) (derive fuel n) := by
  induction fuel generalizing b α with
  | zero => exact ⟨State.Leads.refl, State.Leads.refl, fun _ hs => ⟨rfl, hs.placed⟩⟩
  | succ fuel ih =>
    rw [derive_succ]
    have hrule := tracks_checkedRule (steady_derive fuel) (waits_checked_filter fuel)
      (waits_derive_filter fuel) (fun b _ m => ih b m) b n
    exact hrule.watched

/-- A parse starts in front of the first token. -/
theorem position_ofTokens (tokens : List Token) : (Cursor.ofTokens tokens).position = 0 := by
  unfold Cursor.ofTokens
  split
  · rfl
  · split
    · rfl
    · rfl

/-- A parse starts in bounds. -/
theorem inBounds_ofTokens [Time.Library] (tokens : List Token) (settings : Settings) :
    (State.ofTokens tokens settings).InBounds := by
  constructor
  · show (Cursor.ofTokens tokens).position ≤ _
    rw [position_ofTokens]
    exact Nat.zero_le _
  · exact Nat.zero_le _

/-- A parse with all checks is the parse. -/
theorem checkedRun_eq [Time.Library] (tokens : List Token) (settings : Settings) :
    checkedRun tokens settings = runRoot tokens settings := by
  have hquery := tracks_checked (fuelFor settings) settings.nestingLimit .query
  have hroot := tracks_congruence.rootRule hquery
    (.refl steady_inputEnd placement_lawful.inputEnd _) (fun _ _ _ hs => hs.elim)
    (fun _ _ _ hs => hs.elim)
  exact (Tracks.watched hroot).same (Nat.le_refl _) (inBounds_ofTokens tokens settings) |>.1

end Grammar

end SearchSql
