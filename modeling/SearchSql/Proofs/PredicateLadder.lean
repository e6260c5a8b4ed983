import SearchSql.Proofs.Fuel
import SearchSql.Proofs.Predicates
import SearchSql.Proofs.Spending

/-!
# The ladder of tests

Tests are read by climbing: a predicate is asked for with a least precedence, and takes tests that
bind at least as tightly. What is known of a predicate while it grows is how tightly its outermost
test binds, and which tests can follow it (`Climbing`). A right operand is asked for one step above
its test and stops in front of what binds less tightly, so the next test does not bind more tightly
than the one just read. `IS NULL` and `IN` stop in front of nothing, and are the exception.

This is a fact about single runs (`read_climbs`). That all predicates in a tree are grouped as the
strength of their tests demands follows rule by rule (`parse_ranked`), for runs that recover from
errors as well.
-/

set_option autoImplicit false

namespace SearchSql

/-! ## Ranked predicates -/

/-- All of the predicates are grouped as the strength of their tests demands. -/
def AllRanked (ps : List Predicate) : Prop := ∀ p ∈ ps, p.Ranked

@[simp] theorem allRanked_nil : AllRanked [] := fun _ h => absurd h List.not_mem_nil

@[simp] theorem allRanked_cons {p : Predicate} {ps : List Predicate} :
    AllRanked (p :: ps) ↔ p.Ranked ∧ AllRanked ps := List.forall_mem_cons

@[simp] theorem allRanked_append {ps qs : List Predicate} :
    AllRanked (ps ++ qs) ↔ AllRanked ps ∧ AllRanked qs := List.forall_mem_append

/-- The predicates of some expressions are ranked if those of each are. -/
theorem allRanked_predicatesAll {es : List Expr} :
    AllRanked (predicatesAll es) ↔ ∀ e ∈ es, AllRanked e.predicates := by
  simp only [AllRanked, mem_predicatesAll]
  grind

/-- The predicates of an order are ranked if those of each expression are. -/
theorem allRanked_predicatesItems {is : List OrderItem} :
    AllRanked (predicatesItems is) ↔ ∀ i ∈ is, AllRanked i.predicates := by
  simp only [AllRanked, mem_predicatesItems]
  grind

/-- The predicates of some branches are ranked if those of each are. -/
theorem allRanked_predicatesBranches {bs : List CaseBranch} :
    AllRanked (predicatesBranches bs) ↔ ∀ b ∈ bs, AllRanked b.predicates := by
  simp only [AllRanked, mem_predicatesBranches]
  grind

/-- The predicates of some options are ranked if those of each are. -/
theorem allRanked_predicatesOptions {os : List RelevanceOption} :
    AllRanked (predicatesOptions os) ↔ ∀ o ∈ os, AllRanked o.predicates := by
  simp only [AllRanked, mem_predicatesOptions]
  grind

/-- An atom is grouped in one way only. -/
theorem ranked_atom (a : Atom) : (Predicate.atom a).Ranked := ⟨nofun, nofun⟩

/-- A predicate binds as tightly as its outermost test. -/
theorem precedence_of_test {p : Predicate} {test : Grammar.Test} (h : p.test? = some test) :
    p.precedence = test.precedence := by
  cases p
  all_goals cases h
  all_goals rfl

/-- A test is grouped rightly if its left side binds at least as tightly, and its operands tighter.
-/
theorem ranked_of_operands {p left : Predicate} {test : Grammar.Test} (htest : p.test? = some test)
    (hleft : p.target? = some left)
    (htarget : test.precedence ≤ left.precedence ∨ left.isClosed = true)
    (hright : ∀ q ∈ p.operands, test.precedence < q.precedence) : p.Ranked := by
  rw [← precedence_of_test htest] at htarget hright
  refine ⟨fun q hq => ?_, hright⟩
  obtain rfl := Option.some.inj (hleft.symm.trans hq)
  exact htarget

namespace Grammar

open SearchSql.Grammar.Parser

variable {α β : Type}

/-! ## Combinators -/

section

variable {P : α → Prop} {Q : β → Prop} {p : Parser α}

/-- What a parser gives has every weaker property. -/
theorem Yields.imp {P' : α → Prop} (hp : Yields P p) (h : ∀ a, P a → P' a) : Yields P' p :=
  fun s t a heq => h a (hp s t a heq)

/-- To look at the state first changes nothing. -/
theorem yields_get_bind {f : State → Parser α} (h : ∀ s, Yields P (f s)) : Yields P (get >>= f) :=
  fun s => h s s

/-- Two ways to read what the rest goes on with. -/
theorem yields_either {here : Prop} [Decidable here] {q r : Parser β} {f : β → Parser α}
    (hq : Yields Q q) (hr : Yields Q r) (hf : ∀ b, Q b → Yields P (f b)) :
    Yields P (if here then q >>= f else r >>= f) := by
  split
  · exact hq.bind hf
  · exact hr.bind hf

/-- What a subquery gives is what its rule gives. -/
theorem Yields.subquery (hp : Yields P p) : Yields P (subquery p) := by
  intro s t a heq
  rw [subquery_apply] at heq
  obtain ⟨u, hu, -⟩ := mapState_eq_ok_iff.1 heq
  exact hp _ u a hu

/-- Where `IN` separates the rule gives what it gives elsewhere. -/
theorem Yields.atSeparator (hp : Yields P p) : Yields P (atSeparator p) := by
  intro s t a heq
  rw [atSeparator_apply] at heq
  obtain ⟨u, hu, -⟩ := mapState_eq_ok_iff.1 heq
  exact hp _ u a hu

/-- What an attempt gives was given by the parser attempted. -/
theorem Yields.attempt (hp : Yields P p) (rule : String) :
    Yields (fun found => ∀ a ∈ found, P a) (attempt rule p) := by
  intro s t found heq
  rintro a rfl
  rw [attempt_apply] at heq
  cases hrun : p s.trying with
  | ok b u =>
    rw [hrun] at heq
    cases heq
    exact hp _ u a hrun
  | error e u =>
    rw [hrun] at heq
    cases e <;> cases heq

/-- A failure that is passed over leaves nothing behind. -/
theorem Yields.recover (hp : Yields P p) : Yields (fun found => ∀ a ∈ found, P a) (recover p) := by
  intro s t found heq
  rintro a rfl
  unfold Parser.recover at heq
  cases hrun : p s with
  | ok b u =>
    rw [hrun] at heq
    cases heq
    exact hp s t a hrun
  | error e u =>
    rw [hrun] at heq
    cases e with
    | outOfFuel => cases heq
    | rejected d =>
      obtain ⟨_, v, -, hnone⟩ := bind_eq_ok_iff.1 heq
      cases (pure_eq_ok_iff.1 hnone).1

/-- A clause gives what its rule gives, or nothing. -/
theorem Yields.clause (hp : Yields P p) (allowed : Bool) (word : Keyword) :
    Yields (fun found => ∀ a ∈ found, P a) (clause allowed word p) := by
  apply yields_bind
  intro here
  split
  · refine hp.recover.bind fun found hfound => ?_
    exact yields_bind fun _ => yields_pure hfound
  · exact yields_pure nofun

/-- What every round keeps holds of the result of a loop. -/
theorem yields_loop {step : α → Parser (ForInStep α)}
    (hstep : ∀ a, P a → Yields (fun r => P r.value) (step a)) {a : α} (ha : P a) :
    Yields P (loop a step) := by
  intro s t b heq
  exact keeps_loop (P := fun a _ => P a) (fun a r u v hkeeps hr => hstep a hkeeps u v r hr) ha heq

/-- A rule that has to take a token gives what it gives without. -/
theorem Yields.taking (hp : Yields P p) (rule : String) : Yields P (taking rule p) :=
  fun s t a heq => hp s t a (taking_eq_ok heq)

/-- Every item of a list has what the first and the later rules give. -/
theorem Yields.commaList {first next : Parser α} (hfirst : Yields P first) (hnext : Yields P next)
    (rule : String) : Yields (fun items => ∀ a ∈ items, P a) (commaList rule first next) := by
  have hstep (items : List α) (hitems : ∀ a ∈ items, P a) :
      Yields (fun r => ∀ a ∈ r.value, P a) (commaStep rule next items) := by
    apply yields_bind
    intro found
    split
    · exact (hnext.taking rule).map fun a ha => List.forall_mem_cons.2 ⟨ha, hitems⟩
    · exact yields_pure hitems
  rw [commaList_eq]
  refine (hfirst.taking rule).bind fun head hhead => ?_
  refine (yields_loop hstep fun a ha => absurd ha List.not_mem_nil).bind fun tail htail => ?_
  refine yields_pure ?_
  exact List.forall_mem_cons.2 ⟨hhead, fun a ha => htail a (List.mem_reverse.1 ha)⟩

/-- Every item of a list has what the rule of items gives. -/
theorem Yields.commaSeparated (hp : Yields P p) (rule : String) :
    Yields (fun items => ∀ a ∈ items, P a) (commaSeparated rule p) := hp.commaList hp rule

end

/-! ## Climbing -/

/-- Two tokens that start a test written as a reserved word, and how tightly it binds. The word `IN`
starts one only in front of a parenthesis. -/
inductive StartsWord : TokenKind → TokenKind → Nat → Prop where
  | between {next : TokenKind} : StartsWord (.keyword .BETWEEN) next 4
  | like {next : TokenKind} : StartsWord (.keyword .LIKE) next 3
  | regexp {next : TokenKind} : StartsWord (.keyword .REGEXP) next 2
  | within : StartsWord (.keyword .IN) (.symbol .leftParen) 1

/-- Three tokens that start a test, and how tightly it binds. -/
inductive StartsTest : TokenKind → TokenKind → TokenKind → Nat → Prop where
  | comparison {sign : Symbol} {second third : TokenKind} :
      sign ∈ [.eq, .notEq, .lt, .ltEq, .gt, .gtEq] → StartsTest (.symbol sign) second third 6
  | isNull {second third : TokenKind} : StartsTest (.keyword .IS) second third 5
  | word {first second third : TokenKind} {precedence : Nat} :
      StartsWord first second precedence → StartsTest first second third precedence
  | not {second third : TokenKind} {precedence : Nat} :
      StartsWord second third precedence → StartsTest (.keyword .NOT) second third precedence

/-- The cursor is at no test that binds at least as tightly as `least`, unless it is the `IN` between
the operands of `POSITION`. -/
def State.Stops (s : State) (least : Nat) : Prop :=
  ∀ precedence, StartsTest (s.cursor.peek 0).kind (s.cursor.peek 1).kind (s.cursor.peek 2).kind
      precedence → precedence < least ∨ precedence = 1 ∧ s.separatorDepth = some s.depth

/-- Two tokens start a test if and only if the table of words has one for them. -/
theorem startsWord_iff {first second : TokenKind} {precedence : Nat} (negated : Bool) :
    StartsWord first second precedence ↔
      ∃ test, Test.ofWord? negated first second = some test ∧ test.precedence = precedence := by
  constructor
  · intro h
    cases h
    all_goals exact ⟨_, rfl, rfl⟩
  · rintro ⟨test, h, rfl⟩
    unfold Test.ofWord? at h
    split at h
    · cases h
      exact .between
    · cases h
      exact .like
    · cases h
      exact .regexp
    · cases h
      exact .within
    · cases h

/-- Tokens start a test if the function that looks for one finds it. -/
theorem startsTest_iff {first second third : TokenKind} {precedence : Nat} :
    StartsTest first second third precedence ↔
      ∃ test width, Test.ofKinds? first second third = some (test, width) ∧
        test.precedence = precedence := by
  constructor
  · intro h
    cases h with
    | comparison hsign =>
      simp only [List.mem_cons, List.not_mem_nil, or_false] at hsign
      -- What follows decides which comparison it is, and not how tightly it binds.
      rcases hsign with rfl | rfl | rfl | rfl | rfl | rfl
      all_goals
        unfold Test.ofKinds?
        split
        all_goals first
          | exact ⟨_, _, rfl, rfl⟩
          | simp_all
    | isNull =>
      unfold Test.ofKinds?
      split
      all_goals first
        | exact ⟨_, _, rfl, rfl⟩
        | simp_all
    | word h =>
      cases h
      all_goals exact ⟨_, _, rfl, rfl⟩
    | not h =>
      cases h
      all_goals exact ⟨_, _, rfl, rfl⟩
  · rintro ⟨test, width, h, rfl⟩
    unfold Test.ofKinds? at h
    split at h
    all_goals first
      | (cases h; exact .comparison (by decide))
      | (cases h; exact .isNull)
      | skip
    · obtain ⟨found, hfound, heq⟩ := Option.map_eq_some_iff.1 h
      cases heq
      exact .not ((startsWord_iff true).2 ⟨test, hfound, rfl⟩)
    · obtain ⟨found, hfound, heq⟩ := Option.map_eq_some_iff.1 h
      cases heq
      exact .word ((startsWord_iff false).2 ⟨test, hfound, rfl⟩)

/-- The `IN` of `POSITION` is the loosest of tests, at the level of nesting that is kept for it. -/
theorem isSeparator_iff {s : State} {test : Test} :
    s.isSeparator test = true ↔ test.precedence = 1 ∧ s.separatorDepth = some s.depth := by
  cases test with
  | within negated => simp [State.isSeparator, Test.precedence]
  | _ => simp [State.isSeparator, Test.precedence]

section

variable {s t : State} {least : Nat} {p left : Predicate}

/-- The cursor is at no test if every test there binds too loosely or is the separator of
`POSITION`. -/
theorem stops_iff :
    s.Stops least ↔ ∀ test width, Test.at? s.cursor = some (test, width) →
      test.precedence < least ∨ s.isSeparator test = true := by
  unfold State.Stops
  constructor
  · intro h test width hat
    rw [isSeparator_iff]
    exact h test.precedence (startsTest_iff.2 ⟨test, width, hat, rfl⟩)
  · intro h precedence hstarts
    obtain ⟨test, width, hat, rfl⟩ := startsTest_iff.1 hstarts
    rw [← isSeparator_iff]
    exact h test width hat

/-- A step that goes on passes the words of its test and reads the operands behind them. -/
theorem predicateStep_eq_yield (h : predicateStep read least left s = .ok (.yield p) t) :
    ∃ test width, Test.at? s.cursor = some (test, width) ∧ least ≤ test.precedence ∧
      s.isSeparator test = false ∧ testRule read left test (s.skip width) = .ok p t := by
  rw [predicateStep_eq, get_bind_apply] at h
  unfold testStep at h
  cases hat : Test.at? s.cursor with
  | none =>
    rw [hat] at h
    cases (pure_eq_ok_iff.1 h).1
  | some found =>
    obtain ⟨test, width⟩ := found
    rw [hat] at h
    dsimp only at h
    split at h
    · cases (pure_eq_ok_iff.1 h).1
    · next hgo =>
      simp only [Bool.or_eq_true, decide_eq_true_eq, not_or, Nat.not_lt, Bool.not_eq_true] at hgo
      rw [skip_bind_apply] at h
      obtain ⟨q, u, hq, hrest⟩ := bind_eq_ok_iff.1 h
      obtain ⟨heq, rfl⟩ := pure_eq_ok_iff.1 hrest
      obtain rfl := ForInStep.yield.inj heq
      exact ⟨test, width, rfl, hgo.1, hgo.2, hq⟩

/-- Where a test stands that binds tightly enough, a step reads it. -/
theorem predicateStep_of_testRule {test : Test} {width : Nat}
    (hat : Test.at? s.cursor = some (test, width)) (hleast : least ≤ test.precedence)
    (hseparator : s.isSeparator test = false)
    (h : testRule read left test (s.skip width) = .ok p t) :
    predicateStep read least left s = .ok (.yield p) t := by
  rw [predicateStep_eq, get_bind_apply]
  unfold testStep
  rw [hat]
  dsimp only
  rw [if_neg (by simp [hseparator, hleast]), skip_bind_apply, bind_of_ok h]
  rfl

/-- A step that is done leaves all as it is. -/
theorem predicateStep_eq_done (h : predicateStep read least left s = .ok (.done p) t) :
    p = left ∧ t = s ∧ s.Stops least := by
  rw [predicateStep_eq, get_bind_apply] at h
  unfold testStep at h
  cases hat : Test.at? s.cursor with
  | none =>
    rw [hat] at h
    obtain ⟨heq, rfl⟩ := pure_eq_ok_iff.1 h
    refine ⟨ForInStep.done.inj heq.symm, rfl, stops_iff.2 fun _ _ htest => ?_⟩
    cases hat.symm.trans htest
  | some found =>
    obtain ⟨test, width⟩ := found
    rw [hat] at h
    dsimp only at h
    split at h
    · next hstop =>
      obtain ⟨heq, rfl⟩ := pure_eq_ok_iff.1 h
      refine ⟨ForInStep.done.inj heq.symm, rfl, stops_iff.2 fun test' width' htest => ?_⟩
      obtain ⟨rfl, rfl⟩ := Prod.mk.inj (Option.some.inj (hat.symm.trans htest))
      simpa using hstop
    · rw [skip_bind_apply] at h
      obtain ⟨q, u, hq, hrest⟩ := bind_eq_ok_iff.1 h
      cases (pure_eq_ok_iff.1 hrest).1

/-- Where the cursor is at no test, a step ends the predicate. -/
theorem predicateStep_of_stops (h : s.Stops least) :
    predicateStep read least left s = .ok (.done left) s := by
  rw [predicateStep_eq, get_bind_apply]
  unfold testStep
  cases hat : Test.at? s.cursor with
  | none => rfl
  | some found =>
    obtain ⟨test, width⟩ := found
    have hstop := stops_iff.1 h test width hat
    dsimp only
    rw [if_pos (by simpa using hstop)]
    rfl

/-- A step that reads a test moves the cursor. -/
theorem advances_read_predicateStep (least : Nat) (left : Predicate) :
    Advances (predicateStep read least left) :=
  Congruence.advances_predicateStep (fun _ => steady_read _) (steady_read _) least left

end

/-- What is known of a predicate that has been read up to the state `s`, with tests that bind at least
as tightly as `least`. -/
structure Climbing (least : Nat) (p : Predicate) (s : State) : Prop where
  root : p.isAtom = true ∨ least ≤ p.precedence
  follows : p.isClosed = true ∨ s.Stops (p.precedence + 1)
  ranked : AllRanked p.predicates

/-- A test that follows a predicate may have it for its target. -/
theorem Climbing.target {least width : Nat} {p : Predicate} {s : State} {test : Test}
    (h : Climbing least p s) (htest : Test.at? s.cursor = some (test, width))
    (hnot : s.isSeparator test = false) : test.precedence ≤ p.precedence ∨ p.isClosed = true := by
  rcases h.follows with hclosed | hstops
  · exact .inr hclosed
  · rcases stops_iff.1 hstops test width htest with hlt | hseparator
    · exact .inl (Nat.le_of_lt_succ hlt)
    · rw [hnot] at hseparator
      cases hseparator

/-- In front of a test, an atom is the tightest of predicates. -/
theorem climbing_atom (least : Nat) {a : Atom} (s : State) (h : AllRanked a.predicates) :
    Climbing least (.atom a) s where
  root := .inl rfl
  follows := by
    right
    apply stops_iff.2
    intro test width _
    exact .inl (Nat.lt_succ_of_lt test.precedence_lt)
  ranked := by
    simp only [Predicate.predicates, allRanked_cons]
    exact ⟨ranked_atom a, h⟩

/-- What the rule of a nonterminal gives has ranked predicates. What follows an aggregate is added to
it. -/
def Nonterminal.Ranked : {α : Type} → Nonterminal α → α → Prop
  | _, .expr _, e => AllRanked e.predicates
  | _, .predicate _, p => AllRanked p.predicates
  | _, .arithmetic _, a | _, .operand, a | _, .parenthesized, a => AllRanked a.predicates
  | _, .constant, c => AllRanked c.predicates
  | _, .interval, value => AllRanked value.predicates
  | _, .call, f => AllRanked f.predicates
  | _, .arguments, es => ∀ e ∈ es, AllRanked e.predicates
  | _, .shape _, f | _, .scalar _, f | _, .case, f | _, .cast, f | _, .ranking _, f | _, .score, f
  | _, .position, f | _, .extract, f | _, .getFormat, f | _, .timestamp _, f =>
      AllRanked f.predicates
  | _, .aggregate _, a | _, .percentile _, a => AllRanked a.predicates
  | _, .aggregateTail a, f => AllRanked a.predicates → AllRanked f.predicates
  | _, .window, w => AllRanked w.predicates
  | _, .filter, f => AllRanked f.predicates
  | _, .orderBy, o => AllRanked o.predicates
  | _, .orderItem, i => AllRanked i.predicates
  | _, .relevance _, r | _, .fieldEquals, r => AllRanked r.predicates
  | _, .namedArguments, r => AllRanked r.1.predicates
  | _, .searchValue, v => AllRanked v.predicates
  | _, .relevanceOptions, os => ∀ o ∈ os, AllRanked o.predicates
  | _, .selectItems, is => ∀ i ∈ is, AllRanked i.predicates
  | _, .selectItem _, i => AllRanked i.predicates
  | _, .relation, r => AllRanked r.predicates
  | _, .condition _, c => AllRanked c.expr.predicates
  | _, .groupBy, g => ∀ e ∈ g.exprs, AllRanked e.predicates
  | _, .query, q => AllRanked q.predicates

/-- What is known of the rules that a rule goes on to. -/
structure Ranks (call : Callee) : Prop where
  climbs {least : Nat} {s t : State} {p : Predicate} : call (.predicate least) s = .ok p t →
    (p.isAtom = true ∨ least ≤ p.precedence) ∧ t.Stops least
  ranked {α : Type} (n : Nonterminal α) : Yields n.Ranked (call n)

section

variable {call : Callee} (h : Ranks call)

include h

/-- A right operand binds more tightly than its test, and so do the tests that it takes. -/
theorem Ranks.operand {test : Test} {s t : State} {p : Predicate}
    (heq : call (.predicate (test.precedence + 1)) s = .ok p t) :
    test.precedence < p.precedence ∧ t.Stops (test.precedence + 1) ∧ AllRanked p.predicates := by
  obtain ⟨hroot, hstops⟩ := h.climbs heq
  refine ⟨?_, hstops, h.ranked (.predicate _) s t p heq⟩
  rcases hroot with hatom | hle
  · cases p with
    | atom a => exact test.precedence_lt
    | _ => cases hatom
  · exact hle

/-- The predicate that a test with a single operand on its right makes of its target and of what
follows. -/
theorem climbing_single {least : Nat} {left p : Predicate} {test : Test} {s t : State}
    {join : Predicate → Predicate} (htest : ∀ q, (join q).test? = some test)
    (hleft : ∀ q, (join q).target? = some left) (hright : ∀ q, (join q).operands = [q])
    (hall : ∀ q, (join q).predicates = join q :: (left.predicates ++ q.predicates))
    (hleast : least ≤ test.precedence)
    (htarget : test.precedence ≤ left.precedence ∨ left.isClosed = true)
    (hranked : AllRanked left.predicates)
    (heq : (do return join (← call (.predicate (test.precedence + 1)))) s = .ok p t) :
    Climbing least p t := by
  obtain ⟨right, u, hread, hrest⟩ := bind_eq_ok_iff.1 heq
  obtain ⟨rfl, rfl⟩ := pure_eq_ok_iff.1 hrest
  obtain ⟨htighter, hstops, hrightRanked⟩ := h.operand hread
  have hprecedence := precedence_of_test (htest right)
  refine ⟨.inr (hprecedence ▸ hleast), .inr (hprecedence ▸ hstops), ?_⟩
  rw [hall, allRanked_cons, allRanked_append]
  refine ⟨ranked_of_operands (htest right) (hleft right) htarget fun q hq => ?_, hranked,
    hrightRanked⟩
  rw [hright] at hq
  obtain rfl := List.mem_singleton.1 hq
  exact htighter

/-- The predicate that a test makes of its target and of what follows. -/
theorem climbing_testRule {least : Nat} {left p : Predicate} {test : Test} {s t : State}
    (hleast : least ≤ test.precedence)
    (htarget : test.precedence ≤ left.precedence ∨ left.isClosed = true)
    (hleft : AllRanked left.predicates) (heq : testRule call left test s = .ok p t) :
    Climbing least p t := by
  cases test with
  | comparison op =>
    exact climbing_single h (fun _ => rfl) (fun _ => rfl) (fun _ => rfl)
      (fun q => by rw [Predicate.predicates]) hleast htarget hleft heq
  | like negated =>
    exact climbing_single h (fun _ => rfl) (fun _ => rfl) (fun _ => rfl)
      (fun q => by rw [Predicate.predicates]) hleast htarget hleft heq
  | regexp negated =>
    exact climbing_single h (fun _ => rfl) (fun _ => rfl) (fun _ => rfl)
      (fun q => by rw [Predicate.predicates]) hleast htarget hleft heq
  | between negated =>
    obtain ⟨low, u, hlow, hrest⟩ := bind_eq_ok_iff.1 heq
    obtain ⟨_, v, -, hrest⟩ := bind_eq_ok_iff.1 hrest
    obtain ⟨high, w, hhigh, hrest⟩ := bind_eq_ok_iff.1 hrest
    obtain ⟨rfl, rfl⟩ := pure_eq_ok_iff.1 hrest
    obtain ⟨hlowTighter, -, hlowRanked⟩ := h.operand hlow
    obtain ⟨hhighTighter, hstops, hhighRanked⟩ := h.operand hhigh
    refine ⟨.inr hleast, .inr hstops, ?_⟩
    simp only [Predicate.predicates, allRanked_cons, allRanked_append]
    refine ⟨ranked_of_operands rfl rfl htarget fun q hq => ?_, ⟨hleft, hlowRanked⟩, hhighRanked⟩
    rcases List.mem_cons.1 hq with rfl | hq
    · exact hlowTighter
    · obtain rfl := List.mem_singleton.1 hq
      exact hhighTighter
  | isNull negated =>
    -- What ends in a token of its own is the target of any test behind it.
    obtain ⟨stop, u, -, hrest⟩ := bind_eq_ok_iff.1 heq
    obtain ⟨rfl, rfl⟩ := pure_eq_ok_iff.1 hrest
    refine ⟨.inr hleast, .inl rfl, ?_⟩
    simp only [Predicate.predicates, allRanked_cons]
    exact ⟨ranked_of_operands rfl rfl htarget nofun, hleft⟩
  | within negated =>
    obtain ⟨_, u, -, hrest⟩ := bind_eq_ok_iff.1 heq
    obtain ⟨items, v, hitems, hrest⟩ := bind_eq_ok_iff.1 hrest
    obtain ⟨_, w, -, hrest⟩ := bind_eq_ok_iff.1 hrest
    rw [spanFrom_bind_apply] at hrest
    obtain ⟨rfl, rfl⟩ := pure_eq_ok_iff.1 hrest
    have hall : ∀ e ∈ items, AllRanked e.predicates :=
      (h.ranked .wholeExpr).commaSeparated "IN list item" u v items hitems
    refine ⟨.inr hleast, .inl rfl, ?_⟩
    simp only [Predicate.predicates, allRanked_cons, allRanked_append]
    exact ⟨ranked_of_operands rfl rfl htarget nofun, hleft, allRanked_predicatesAll.2 hall⟩

/-- A step that goes on keeps what is known of the predicate, and one that does not leaves it in front
of no test that could follow. -/
theorem climbing_predicateStep {least : Nat} {left : Predicate} {r : ForInStep Predicate}
    {s t : State} (hleft : Climbing least left s) (heq : predicateStep call least left s = .ok r t) :
    Climbing least r.value t ∧ ∀ p, r = .done p → t.Stops least := by
  rw [predicateStep_eq, get_bind_apply] at heq
  unfold testStep at heq
  cases hat : Test.at? s.cursor with
  | none =>
    rw [hat] at heq
    obtain ⟨rfl, rfl⟩ := pure_eq_ok_iff.1 heq
    refine ⟨hleft, fun _ _ => stops_iff.2 fun test width htest => ?_⟩
    rw [hat] at htest
    cases htest
  | some found =>
    obtain ⟨test, width⟩ := found
    rw [hat] at heq
    dsimp only at heq
    split at heq
    · next hstop =>
      obtain ⟨rfl, rfl⟩ := pure_eq_ok_iff.1 heq
      refine ⟨hleft, fun _ _ => stops_iff.2 fun test' width' htest => ?_⟩
      rw [hat] at htest
      obtain ⟨rfl, rfl⟩ := Prod.mk.inj (Option.some.inj htest)
      simpa using hstop
    · next hgo =>
      -- The test binds tightly enough and is no separator, so its left side is grouped before it.
      simp only [Bool.or_eq_true, decide_eq_true_eq, not_or, Nat.not_lt, Bool.not_eq_true] at hgo
      rw [skip_bind_apply] at heq
      obtain ⟨p, u, hp, hrest⟩ := bind_eq_ok_iff.1 heq
      obtain ⟨rfl, rfl⟩ := pure_eq_ok_iff.1 hrest
      have hgrown := climbing_testRule h hgo.1 (hleft.target hat hgo.2) hleft.ranked hp
      exact ⟨hgrown, nofun⟩

/-- A predicate is an atom with the tests behind it, up to the first that it may not take. -/
theorem climbing_predicateRule {least : Nat} {p : Predicate} {s t : State}
    (heq : predicateRule call least s = .ok p t) : Climbing least p t ∧ t.Stops least := by
  obtain ⟨left, u, hleft, hloop⟩ := bind_eq_ok_iff.1 heq
  have hatom : Climbing least (.atom left) u :=
    climbing_atom least u (h.ranked (.arithmetic 0) s u left hleft)
  obtain ⟨q, v, hq, hdone⟩ := exists_done_of_loop (P := Climbing least)
    (fun a b u v ha hstep => (climbing_predicateStep h ha hstep).1) hatom hloop
  obtain ⟨hclimbing, hstops⟩ := climbing_predicateStep h hq hdone
  exact ⟨hclimbing, hstops p rfl⟩

end

end Grammar

end SearchSql
