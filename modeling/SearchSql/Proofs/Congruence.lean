import SearchSql.Proofs.Steadiness

/-!
# Relations that the rules respect

`Congruence L R` says that a relation `R` between parsers is respected by everything that the rules
are written with, where `L` links the states of two related runs. A relation that holds between two
callees then holds between the rules over them, one lemma for each rule.

`R` carries a bound on the levels of nesting that are left, so that a rule under `nest` only needs
its callee at smaller bounds, and a flag. The flag tells whether a parser is firm, that is, whether
it ends behind a token that it requires. An expression is not: behind an aggregate, what is read may
depend on whether `ORDER BY` is taken for a part of it. What follows a parser that is not firm has
to wait in front of `ORDER` (`Waits`).
-/

set_option autoImplicit false

namespace SearchSql.Grammar

open SearchSql.Grammar.Parser

variable {α β : Type}

/-- Whether the cursor is at the word `ORDER`. -/
def State.AtOrder (s : State) : Prop := s.cursor.current.kind = .keyword .ORDER

/-- The parser ends in one of the states `S` if it starts in one, and fails there if it is firm. -/
def Stays (S : State → Prop) (firm : Bool) (p : Parser α) : Prop :=
  ∀ (s t : State) (a : α), S s → p s = .ok a t → firm = false ∧ S t

/-- In front of `ORDER`, the parser changes nothing, and fails if it is firm. -/
def Waits (firm : Bool) (p : Parser α) : Prop :=
  ∀ (s t : State) (a : α), s.AtOrder → p s = .ok a t → firm = false ∧ t = s

/-- A parser that waits in front of `ORDER` stays in all states that are there. -/
theorem Waits.stays {p : Parser α} {firm : Bool} (hp : Waits firm p) {S : State → Prop}
    (hS : ∀ s, S s → s.AtOrder) : Stays S firm p := by
  intro s t a hs h
  obtain ⟨hfirm, rfl⟩ := hp s t a (hS s hs) h
  exact ⟨hfirm, hs⟩

/-- What fails in such states fails whatever is to follow. -/
theorem Stays.bind_firm {S : State → Prop} {p : Parser α} {f : α → Parser β} {firm : Bool}
    (hp : Stays S true p) : Stays S firm (p >>= f) := by
  intro s t b hs h
  obtain ⟨a, u, hpu, -⟩ := bind_eq_ok_iff.1 h
  exact absurd (hp s u a hs hpu).1 (by decide)

/-- A parser that stays leaves it to the next one whether the sequence does. -/
theorem Stays.bind {S : State → Prop} {p : Parser α} {f : α → Parser β} {firm : Bool}
    (hp : Stays S false p) (hf : ∀ a, Stays S firm (f a)) : Stays S firm (p >>= f) := by
  intro s t b hs h
  obtain ⟨a, u, hpu, hfu⟩ := bind_eq_ok_iff.1 h
  exact hf a u t b (hp s u a hs hpu).2 hfu

theorem waits_pure (a : α) : Waits false (pure a : Parser α) := by
  intro s t b _ h
  exact ⟨rfl, (pure_eq_ok_iff.1 h).2.symm⟩

theorem waits_reject (firm : Bool) (d : Diagnostic) : Waits firm (reject d : Parser α) :=
  fun _ _ _ _ h => absurd h reject_ne_ok

theorem waits_rejectCurrent (firm : Bool) (expected : String) :
    Waits firm (rejectCurrent expected : Parser α) :=
  fun _ _ _ _ h => absurd h rejectCurrent_ne_ok

/-- What fails in front of `ORDER` fails whatever is to follow. -/
theorem Waits.bind_firm {p : Parser α} {f : α → Parser β} {firm : Bool} (hp : Waits true p) :
    Waits firm (p >>= f) := by
  intro s t b hs h
  obtain ⟨a, u, hpu, -⟩ := bind_eq_ok_iff.1 h
  exact absurd (hp s u a hs hpu).1 (by decide)

/-- A sequence waits if all of its parts do. -/
theorem Waits.bind {p : Parser α} {f : α → Parser β} {firm : Bool} (hp : Waits false p)
    (hf : ∀ a, Waits firm (f a)) : Waits firm (p >>= f) := by
  intro s t b hs h
  obtain ⟨a, u, hpu, hfu⟩ := bind_eq_ok_iff.1 h
  obtain ⟨-, rfl⟩ := hp s u a hs hpu
  exact hf a u t b hs hfu

/-- What looks at the state may be taken to look at one that is in front of `ORDER`. -/
theorem waits_get_bind {f : State → Parser α} {firm : Bool}
    (h : ∀ s : State, s.AtOrder → Waits firm (f s)) : Waits firm (get >>= f) := by
  intro s t a hs heq
  exact h s hs s t a hs heq

/-- What looks at the token in front may be taken to see the word `ORDER`. -/
theorem waits_current_bind {f : Token → Parser α} {firm : Bool}
    (h : ∀ t : Token, t.kind = .keyword .ORDER → Waits firm (f t)) :
    Waits firm (current >>= f) := by
  intro s t a hs heq
  exact h s.cursor.current hs s t a hs heq

theorem waits_symbol (sign : Symbol) : Waits true (symbol sign) := by
  intro s t a hs h
  have hkind := (symbol_eq_ok_iff.1 h).1
  rw [show s.cursor.current.kind = .keyword .ORDER from hs] at hkind
  cases hkind

/-- No other word is taken in front of `ORDER`. -/
theorem waits_keyword {word : Keyword} (hword : word ≠ .ORDER) : Waits true (keyword word) := by
  intro s t a hs h
  have hkind := (keyword_eq_ok_iff.1 h).1
  rw [show s.cursor.current.kind = .keyword .ORDER from hs] at hkind
  cases hkind
  exact absurd rfl hword

theorem waits_spanFrom (start : Span) : Waits false (spanFrom start) := by
  intro s t a _ h
  injection h with _ ht
  exact ⟨rfl, ht.symm⟩

/-- No sign is taken in front of `ORDER`, so only the case without it counts. -/
theorem waits_takeSymbol_bind {sign : Symbol} {f : Bool → Parser α} {firm : Bool}
    (h : Waits firm (f false)) : Waits firm (takeSymbol sign >>= f) := by
  intro s t a hs heq
  rw [takeSymbol_bind_apply, if_neg (by rw [show _ = _ from hs]; nofun)] at heq
  exact h s t a hs heq

/-- No other word is taken there, so only the case without it counts. -/
theorem waits_takeKeyword_bind {word : Keyword} {f : Bool → Parser α} {firm : Bool}
    (hword : word ≠ .ORDER) (h : Waits firm (f false)) : Waits firm (takeKeyword word >>= f) := by
  intro s t a hs heq
  have hkind : s.cursor.current.kind ≠ .keyword word := by
    rw [show _ = _ from hs]
    intro hkw
    injection hkw with hkw
    exact hword hkw.symm
  rw [takeKeyword_bind_apply, if_neg hkind] at heq
  exact h s t a hs heq

/-- No other word is seen there. -/
theorem waits_atKeyword_bind {word : Keyword} {f : Bool → Parser α} {firm : Bool}
    (hword : word ≠ .ORDER) (h : Waits firm (f false)) : Waits firm (atKeyword word >>= f) := by
  intro s t a hs heq
  have hkind : (s.cursor.current.kind == .keyword word) = false := by
    rw [show s.cursor.current.kind = _ from hs, beq_eq_false_iff_ne]
    intro hkw
    injection hkw with hkw
    exact hword hkw.symm
  rw [atKeyword_bind_apply, hkind] at heq
  exact h s t a hs heq

theorem waits_loopNext {step : α → Parser (ForInStep α)} (h : ∀ a, Waits false (step a))
    (rounds : List Token) (r : ForInStep α) : Waits false (loopNext step rounds r) := by
  induction rounds generalizing r with
  | nil =>
    cases r with
    | done a => exact waits_pure a
    | yield a => exact fun _ _ _ _ h => nomatch h
  | cons _ rounds ih =>
    cases r with
    | done a => exact waits_pure a
    | yield a =>
      show Waits false (loopOver step rounds a)
      rw [loopOver_eq]
      exact (h a).bind ih

/-- A repetition of steps that wait is over after the first. -/
theorem waits_loop {step : α → Parser (ForInStep α)} (h : ∀ a, Waits false (step a)) (a : α) :
    Waits false (loop a step) := by
  refine waits_get_bind fun s _ => ?_
  rw [loopOver_eq]
  exact (h a).bind (waits_loopNext h _)

/-- A repetition ends in a round that is done. What the rounds before keep holds where it starts. -/
theorem exists_done_of_loop {P : α → State → Prop} {step : α → Parser (ForInStep α)}
    (hkeeps : ∀ a b s t, P a s → step a s = .ok (.yield b) t → P b t) {a b : α} {s t : State}
    (ha : P a s)
    (h : loop a step s = .ok b t) : ∃ c u, P c u ∧ step c u = .ok (.done b) t := by
  have hrounds : ∀ (rounds : List Token) (a : α) (s : State), P a s →
      loopOver step rounds a s = .ok b t → ∃ c u, P c u ∧ step c u = .ok (.done b) t := by
    intro rounds
    induction rounds with
    | nil =>
      intro a s ha heq
      rw [loopOver_eq] at heq
      obtain ⟨r, u, hr, hrest⟩ := bind_eq_ok_iff.1 heq
      cases r with
      | done c =>
        obtain ⟨rfl, rfl⟩ := pure_eq_ok_iff.1 hrest
        exact ⟨a, s, ha, hr⟩
      | yield c => cases hrest
    | cons _ rounds ih =>
      intro a s ha heq
      rw [loopOver_eq] at heq
      obtain ⟨r, u, hr, hrest⟩ := bind_eq_ok_iff.1 heq
      cases r with
      | done c =>
        obtain ⟨rfl, rfl⟩ := pure_eq_ok_iff.1 hrest
        exact ⟨a, s, ha, hr⟩
      | yield c => exact ih c u (hkeeps a c s u ha hr) hrest
  exact hrounds _ a s ha h

/-- What the rounds of a repetition keep holds of its result and the state it ends in. -/
theorem keeps_loop {P : α → State → Prop} {step : α → Parser (ForInStep α)}
    (hkeeps : ∀ a r s t, P a s → step a s = .ok r t → P r.value t) {a b : α} {s t : State}
    (ha : P a s)
    (h : loop a step s = .ok b t) : P b t := by
  obtain ⟨c, u, hc, hdone⟩ := exists_done_of_loop
    (fun a b s t hs heq => hkeeps a (.yield b) s t hs heq) ha h
  exact hkeeps c (.done b) u t hc hdone

/-- A step of a repetition that goes on has taken a token. -/
def Advances (p : Parser (ForInStep α)) : Prop :=
  ∀ (s t : State) (a : α), p s = .ok (.yield a) t →
    t.cursor.ahead.length < s.cursor.ahead.length

/-- The check that an item has taken a token. -/
def progress (rule : String) (before : Nat) (item : α) : Parser α := do
  if (← get).cursor.position = before then reject ⟨.noProgress rule, (← current).span⟩
  return item

/-- A parser that has to take a token is checked against the place where it has begun. -/
theorem taking_eq (rule : String) (p : Parser α) :
    taking rule p = get >>= fun s => p >>= progress rule s.cursor.position := rfl

/-- Whatever passes the check has been read. -/
theorem taking_eq_ok {rule : String} {p : Parser α} {a : α} {s t : State}
    (h : taking rule p s = .ok a t) :
    p s = .ok a t := by
  rw [taking_eq, get_bind_apply] at h
  obtain ⟨b, u, hu, hrest⟩ := bind_eq_ok_iff.1 h
  unfold progress at hrest
  rw [get_bind_apply] at hrest
  split at hrest
  · cases hrest
  · obtain ⟨rfl, rfl⟩ := pure_eq_ok_iff.1 hrest
    exact hu

/-- With fewer tokens ahead, the cursor has moved on. -/
theorem State.Leads.position_lt {s t : State} (h : s.Leads t)
    (htaken : t.cursor.ahead.length < s.cursor.ahead.length) :
    s.cursor.position < t.cursor.position := by
  have hall := congrArg List.length h.allTokens
  simp only [Cursor.allTokens, List.length_append, List.length_reverse,
    List.length_singleton] at hall
  unfold Cursor.position
  omega

/-- A parser that has taken a token passes the check that it did. -/
theorem taking_of_ok {rule : String} {p : Parser α} {a : α} {s t : State} (hp : Steady p)
    (h : p s = .ok a t) (htaken : t.cursor.ahead.length < s.cursor.ahead.length) :
    taking rule p s = .ok a t := by
  have hmoved : t.cursor.position ≠ s.cursor.position :=
    Nat.ne_of_gt ((hp.leads h).position_lt htaken)
  rw [taking_eq, get_bind_apply, bind_of_ok h]
  unfold progress
  rw [get_bind_apply, if_neg hmoved]
  rfl

/-- A parser whose runs have taken a token if they succeed. -/
structure Consumes (p : Parser α) : Prop where
  steady : Steady p
  taken {s t : State} {a : α} : p s = .ok a t → t.cursor.ahead.length < s.cursor.ahead.length

/-- The place moves on in each successful run of a parser that takes a token. -/
theorem Consumes.position_lt {p : Parser α} (hp : Consumes p) {s t : State} {a : α}
    (h : p s = .ok a t) : s.cursor.position < t.cursor.position :=
  (hp.steady.leads h).position_lt (hp.taken h)

/-- The check that a token has been taken changes nothing where one always has. -/
theorem Consumes.taking_apply {p : Parser α} (hp : Consumes p) (rule : String) (s : State) :
    taking rule p s = p s := by
  cases h : p s with
  | ok a t => exact taking_of_ok hp.steady h (hp.taken h)
  | error e t =>
    rw [taking_eq, get_bind_apply, bind_of_error h]

/-- The check changes nothing that runs keep. -/
theorem steady_taking (rule : String) {p : Parser α} (hp : Steady p) : Steady (taking rule p) := by
  rw [taking_eq]
  refine steady_get_bind fun s => hp.bind fun item => steady_get_bind fun t => ?_
  dsimp only
  split
  · exact steady_current_bind fun _ => (steady_reject _).bind fun _ => steady_pure _
  · exact steady_pure _

theorem waits_progress (rule : String) (before : Nat) (item : α) :
    Waits false (progress rule before item) := by
  refine waits_get_bind fun s _ => ?_
  dsimp only
  split
  · exact waits_current_bind fun t _ => (waits_reject true _).bind_firm
  · exact waits_pure item

/-- The step that reads the items behind the first of a list. -/
def commaStep (rule : String) (next : Parser α) (items : List α) :
    Parser (ForInStep (List α)) := do
  if ← takeSymbol .comma then return .yield ((← taking rule next) :: items)
  return .done items

/-- A list with commas is a first item and a repetition of commas with items. -/
theorem commaList_eq (rule : String) (first next : Parser α) :
    commaList rule first next = do
      let head ← taking rule first
      let tail ← loop [] (commaStep rule next)
      return head :: tail.reverse := rfl

/-- In front of `ORDER`, no list goes on. -/
theorem waits_commaStep (rule : String) (next : Parser α) (items : List α) :
    Waits false (commaStep rule next items) :=
  waits_takeSymbol_bind (waits_pure _)

/-- Behind a token that is not the end there is less ahead. -/
theorem ahead_lt_of_skip {p : Parser β} (hp : Steady p) {s t : State} {a : β}
    (hend : s.cursor.current.isEnd = false) (n : Nat) (heq : p (s.skip (n + 1)) = .ok a t) :
    t.cursor.ahead.length < s.cursor.ahead.length :=
  Nat.lt_of_le_of_lt (hp.leads heq).ahead.length_le (ahead_skip_lt hend n)

/-- A step that goes on only if a sign was taken has taken a token. -/
theorem advances_takeSymbol_bind {sign : Symbol} {f : Bool → Parser (ForInStep α)}
    (htrue : Steady (f true)) (hfalse : Advances (f false)) : Advances (takeSymbol sign >>= f) := by
  intro s t a h
  rw [takeSymbol_bind_apply] at h
  split at h
  · next hkind =>
    exact ahead_lt_of_skip htrue (isEnd_eq_false (by rw [hkind]; nofun)) 0 h
  · exact hfalse s t a h

/-- A step that goes on only if a word was taken has taken a token. -/
theorem advances_takeKeyword_bind {word : Keyword} {f : Bool → Parser (ForInStep α)}
    (htrue : Steady (f true)) (hfalse : Advances (f false)) :
    Advances (takeKeyword word >>= f) := by
  intro s t a h
  rw [takeKeyword_bind_apply] at h
  split at h
  · next hkind =>
    exact ahead_lt_of_skip htrue (isEnd_eq_false (by rw [hkind]; nofun)) 0 h
  · exact hfalse s t a h

theorem advances_done (a : α) : Advances (pure (.done a) : Parser (ForInStep α)) := by
  intro s t b h
  cases (pure_eq_ok_iff.1 h).1

/-- A step that looks at the token under the cursor, and goes on only behind it. -/
theorem advances_current_bind {f : Token → Parser (ForInStep α)}
    (h : ∀ t : Token, Advances (f t) ∨ t.isEnd = false ∧
      ∃ n p, Steady p ∧ f t = (Parser.skip (n + 1) >>= fun _ => p)) :
    Advances (current >>= f) := by
  intro s t a heq
  rw [current_bind_apply] at heq
  obtain hadv | ⟨hend, n, p, hp, hf⟩ := h s.cursor.current
  · exact hadv s t a heq
  · rw [hf, skip_bind_apply] at heq
    exact ahead_lt_of_skip hp hend n heq

/-- A relation between parsers that what rules are written with respects. The states `left` and
`right` are those in which a run of the first parser, or of the second, has gone astray. -/
structure Congruence (L : State → State → Prop) (left right : Nat → State → Prop)
    (R : Nat → Bool → {α : Type} → Parser α → Parser α → Prop) : Prop where
  cursor {s s' : State} : L s s' → s.cursor = s'.cursor
  library {s s' : State} : L s s' → s.library = s'.library
  left_atOrder {b : Nat} (s : State) : left b s → s.AtOrder
  right_atOrder {b : Nat} (s : State) : right b s → s.AtOrder
  steadyLeft {b : Nat} {firm : Bool} {α : Type} {p q : Parser α} : R b firm p q → Steady p
  steadyRight {b : Nat} {firm : Bool} {α : Type} {p q : Parser α} : R b firm p q → Steady q
  weaken {b : Nat} {α : Type} {p q : Parser α} : R b true p q → R b false p q
  pure {b : Nat} {α : Type} (a : α) : R b true (pure a) (pure a)
  bind {b : Nat} {firm : Bool} {α β : Type} {p q : Parser α} {f g : α → Parser β} :
    R b true p q → (∀ a, R b firm (f a) (g a)) → R b firm (p >>= f) (q >>= g)
  bindStays {b : Nat} {firm : Bool} {α β : Type} {p q : Parser α} {f g : α → Parser β} :
    R b false p q → (∀ a, R b firm (f a) (g a)) → (∀ a, Stays (left b) firm (f a)) →
      (∀ a, Stays (right b) firm (g a)) → R b firm (p >>= f) (q >>= g)
  get {b : Nat} {firm : Bool} {α : Type} {f g : State → Parser α} :
    (∀ s, Steady (f s)) → (∀ s, Steady (g s)) → (∀ s s', L s s' → R b firm (f s) (g s')) →
      R b firm (get >>= f) (get >>= g)
  reject {b : Nat} {α : Type} (d : Diagnostic) : R b true (reject d : Parser α) (reject d)
  skip {b : Nat} (n : Nat) : R b true (Parser.skip n) (Parser.skip n)
  loop {b : Nat} {firm : Bool} {α : Type} {f g : α → Parser (ForInStep α)} (a : α) :
    (∀ a, R b firm (f a) (g a)) → (firm = false → ∀ a, Waits false (f a)) →
      (firm = false → ∀ a, Waits false (g a)) → (∀ a, Advances (f a)) → (∀ a, Advances (g a)) →
        R b firm (loop a f) (loop a g)
  malformedLiteral {b : Nat} (kind : LiteralKind) (text : String) (fault : LiteralFault)
    (span : Span) :
    R b true (malformedLiteral kind text fault span) (malformedLiteral kind text fault span)

/-- A congruence that also respects further levels of nesting. -/
structure NestingCongruence (L : State → State → Prop) (left right : Nat → State → Prop)
    (R : Nat → Bool → {α : Type} → Parser α → Parser α → Prop) : Prop
    extends Congruence L left right R where
  nest {b : Nat} {firm : Bool} {α : Type} {p q : Parser α} {cost : Nat} :
    0 < cost → Steady p → Steady q → (∀ b' < b, R b' firm p q) →
      R b firm (nest cost p) (nest cost q)

/-- A congruence that also respects what only the rules of queries are written with. -/
structure QueryCongruence (L : State → State → Prop) (left right : Nat → State → Prop)
    (R : Nat → Bool → {α : Type} → Parser α → Parser α → Prop) : Prop
    extends NestingCongruence L left right R where
  subquery {b : Nat} {firm : Bool} {α : Type} {p q : Parser α} :
    R b firm p q → R b firm (subquery p) (subquery q)
  recover {b : Nat} {firm : Bool} {α : Type} {p q : Parser α} :
    R b firm p q → R b firm (recover p) (recover q)
  clauseEnd {b : Nat} : R b true clauseEnd clauseEnd

/-- Being steady, as a relation. -/
theorem steady_congruence :
    QueryCongruence Eq (fun _ _ => False) (fun _ _ => False)
      (fun _ _ _ p q => Steady p ∧ Steady q) where
  cursor := congrArg State.cursor
  library := congrArg State.library
  left_atOrder _ := False.elim
  right_atOrder _ := False.elim
  steadyLeft h := h.1
  steadyRight h := h.2
  weaken h := h
  pure a := ⟨steady_pure a, steady_pure a⟩
  bind hp hf := ⟨hp.1.bind fun a => (hf a).1, hp.2.bind fun a => (hf a).2⟩
  bindStays hp hf _ _ := ⟨hp.1.bind fun a => (hf a).1, hp.2.bind fun a => (hf a).2⟩
  get hf hg _ := ⟨steady_get_bind hf, steady_get_bind hg⟩
  reject d := ⟨steady_reject d, steady_reject d⟩
  skip n := ⟨steady_skip n, steady_skip n⟩
  loop a h _ _ _ _ := ⟨steady_loop (fun a => (h a).1) a, steady_loop (fun a => (h a).2) a⟩
  nest _ hp hq _ := ⟨hp.nest, hq.nest⟩
  malformedLiteral kind text fault span :=
    ⟨steady_malformedLiteral kind text fault span, steady_malformedLiteral kind text fault span⟩
  subquery h := ⟨h.1.subquery, h.2.subquery⟩
  recover h := ⟨h.1.recover, h.2.recover⟩
  clauseEnd := ⟨steady_clauseEnd, steady_clauseEnd⟩

namespace Congruence

variable {L : State → State → Prop} {left right : Nat → State → Prop}
variable {R : Nat → Bool → {α : Type} → Parser α → Parser α → Prop}
variable {b : Nat} {firm : Bool} (hR : Congruence L left right R)

include hR

/-- Two parsers in a row, of which the second waits. -/
theorem bindOpen {p q : Parser α} {f g : α → Parser β}
    (hp : R b false p q) (h : ∀ a, R b firm (f a) (g a)) (hf : ∀ a, Waits firm (f a))
    (hg : ∀ a, Waits firm (g a)) : R b firm (p >>= f) (q >>= g) :=
  hR.bindStays hp h (fun a => (hf a).stays hR.left_atOrder)
    (fun a => (hg a).stays hR.right_atOrder)

/-! ## Looking at tokens and taking them -/

/-- Parsers that look at nothing but the cursor of the state may be compared cursor by cursor. -/
theorem cursor_bind {f g : Cursor → Parser α} (h : ∀ c, R b firm (f c) (g c)) :
    R b firm (MonadState.get >>= fun s => f s.cursor) (MonadState.get >>= fun s => g s.cursor) :=
  hR.get (fun s => hR.steadyLeft (h s.cursor)) (fun s => hR.steadyRight (h s.cursor))
    fun s _ hs => hR.cursor hs ▸ h s.cursor

/-- Parsers that look at the token in front may be compared token by token. -/
theorem current_bind {f g : Token → Parser α} (h : ∀ t, R b firm (f t) (g t)) :
    R b firm (current >>= f) (current >>= g) :=
  hR.cursor_bind fun c => h c.current

theorem peek_bind (k : Nat) {f g : Token → Parser α} (h : ∀ t, R b firm (f t) (g t)) :
    R b firm (peek k >>= f) (peek k >>= g) :=
  hR.cursor_bind fun c => h (c.peek k)

/-- Parsers that ask for a sign may be compared answer by answer. -/
theorem atSymbol_bind (sign : Symbol) {f g : Bool → Parser α}
    (h : ∀ here, R b firm (f here) (g here)) :
    R b firm (atSymbol sign >>= f) (atSymbol sign >>= g) :=
  hR.current_bind fun t => h (t.kind == .symbol sign)

theorem atKeyword_bind (word : Keyword) {f g : Bool → Parser α}
    (h : ∀ here, R b firm (f here) (g here)) :
    R b firm (atKeyword word >>= f) (atKeyword word >>= g) :=
  hR.current_bind fun t => h (t.kind == .keyword word)

theorem rejectCurrent (expected : String) :
    R b true (rejectCurrent expected : Parser α) (Parser.rejectCurrent expected) :=
  hR.current_bind fun _ => hR.reject _

theorem take : R b true take Parser.take :=
  hR.current_bind fun _ => hR.bind (hR.skip 1) fun _ => hR.pure _

/-- What is taken if it is here is related, if the question whether it is here is. -/
theorem takeIf {here : Parser Bool} (h : R b true here here) :
    R b true (takeIf here) (Parser.takeIf here) := by
  refine hR.bind h fun found => ?_
  cases found with
  | true => exact hR.bind (hR.skip 1) fun _ => hR.pure true
  | false => exact hR.pure false

theorem takeSymbol (sign : Symbol) :
    R b true (takeSymbol sign) (Parser.takeSymbol sign) :=
  hR.takeIf (hR.current_bind fun _ => hR.pure _)

theorem takeKeyword (word : Keyword) :
    R b true (takeKeyword word) (Parser.takeKeyword word) :=
  hR.takeIf (hR.current_bind fun _ => hR.pure _)

theorem symbol (sign : Symbol) :
    R b true (symbol sign) (Parser.symbol sign) := by
  refine hR.atSymbol_bind sign fun here => ?_
  cases here with
  | true => exact hR.take
  | false => exact hR.rejectCurrent _

theorem keyword (word : Keyword) :
    R b true (keyword word) (Parser.keyword word) := by
  refine hR.atKeyword_bind word fun here => ?_
  cases here with
  | true => exact hR.take
  | false => exact hR.rejectCurrent _

theorem string : R b true string Parser.string := by
  refine hR.current_bind fun t => ?_
  split
  · exact hR.bind (hR.skip 1) fun _ => hR.pure _
  · exact hR.rejectCurrent _

theorem spanFrom (start : Span) :
    R b true (spanFrom start) (Parser.spanFrom start) :=
  hR.cursor_bind fun c => hR.pure (start.merge c.previousSpan)

/-- A parser that ends with a required symbol is firm. -/
theorem beforeSymbol {p q : Parser α} {sign : Symbol}
    {f g : α → Span → Parser β} (hp : R b false p q) (h : ∀ a x, R b firm (f a x) (g a x)) :
    R b firm (p >>= fun a => Parser.symbol sign >>= f a)
      (q >>= fun a => Parser.symbol sign >>= g a) :=
  hR.bindOpen hp (fun a => hR.bind (hR.symbol sign) (h a))
    (fun _ => (waits_symbol sign).bind_firm) (fun _ => (waits_symbol sign).bind_firm)

/-- A parser that ends with a required word is firm, unless the word is `ORDER`. -/
theorem beforeKeyword {p q : Parser α} {word : Keyword}
    {f g : α → Span → Parser β} (hword : word ≠ .ORDER) (hp : R b false p q)
    (h : ∀ a x, R b firm (f a x) (g a x)) :
    R b firm (p >>= fun a => Parser.keyword word >>= f a)
      (q >>= fun a => Parser.keyword word >>= g a) :=
  hR.bindOpen hp (fun a => hR.bind (hR.keyword word) (h a))
    (fun _ => (waits_keyword hword).bind_firm) (fun _ => (waits_keyword hword).bind_firm)

/-- Building something of what an open parser gives. -/
theorem thenPure {p q : Parser α} (hp : R b false p q) (f : α → β) :
    R b false (p >>= fun a => Pure.pure (f a)) (q >>= fun a => Pure.pure (f a)) :=
  hR.bindOpen hp (fun _ => hR.weaken (hR.pure _)) (fun _ => waits_pure _) (fun _ => waits_pure _)

/-- Building something of what an open parser gives and of where it was read. -/
theorem thenSpan {p q : Parser α} (hp : R b false p q) (start : Span)
    (f : α → Span → β) :
    R b false (p >>= fun a => Parser.spanFrom start >>= fun x => Pure.pure (f a x))
      (q >>= fun a => Parser.spanFrom start >>= fun x => Pure.pure (f a x)) :=
  hR.bindOpen hp (fun _ => hR.weaken (hR.bind (hR.spanFrom start) fun _ => hR.pure _))
    (fun _ => (waits_spanFrom start).bind fun _ => waits_pure _)
    (fun _ => (waits_spanFrom start).bind fun _ => waits_pure _)

/-- Related parsers are related in every other form that is given to what they read. -/
theorem map {p q : Parser α} (f : α → β) (h : R b firm p q) :
    R b firm (f <$> p) (f <$> q) := by
  show R b firm (p >>= fun a => Pure.pure (f a)) (q >>= fun a => Pure.pure (f a))
  cases firm with
  | true => exact hR.bind h fun _ => hR.pure _
  | false => exact hR.thenPure h f

/-- Two parsers in a row, of which the second waits if the first is open. -/
theorem bindAny {p q : Parser α} {f g : α → Parser β} (h : R b firm p q)
    (hrest : ∀ a, R b firm (f a) (g a)) (hf : firm = false → ∀ a, Waits false (f a))
    (hg : firm = false → ∀ a, Waits false (g a)) : R b firm (p >>= f) (q >>= g) := by
  cases firm with
  | true => exact hR.bind h hrest
  | false => exact hR.bindOpen h hrest (hf rfl) (hg rfl)

/-- Parsers related where the first is firm are related whether it is or not. -/
theorem weakenTo {p q : Parser α} (h : R b true p q) : R b firm p q := by
  cases firm with
  | true => exact h
  | false => exact hR.weaken h

/-- A parser on a condition, in front of what follows in any case. -/
theorem guarded {γ : Type} {taken : Prop} [Decidable taken] {p : Parser γ}
    {q r : Parser α} (hp : R b true p p) (h : R b firm q r) :
    R b firm (if taken then p >>= fun _ => q else q) (if taken then p >>= fun _ => r else r) := by
  split
  · exact hR.bind hp fun _ => h
  · exact h

/-- Two ways to get something, in front of what follows in any case. -/
theorem either {first : Prop} [Decidable first] {p p' q q' : Parser α}
    {f g : α → Parser β} (hp : R b false p p') (hq : R b false q q')
    (h : ∀ a, R b firm (f a) (g a)) (hf : ∀ a, Waits firm (f a)) (hg : ∀ a, Waits firm (g a)) :
    R b firm (if first then p >>= f else q >>= f) (if first then p' >>= g else q' >>= g) := by
  split
  · exact hR.bindOpen hp h hf hg
  · exact hR.bindOpen hq h hf hg

/-! ## Lists -/

theorem progress (rule : String) (before : Nat) (item : α) :
    R b true (progress rule before item) (Grammar.progress rule before item) := by
  have hcheck (c : Cursor) : R b true
      (if c.position = before then do
        let token ← Parser.current
        Parser.reject ⟨.noProgress rule, token.span⟩
        return item
      else return item)
      (if c.position = before then do
        let token ← Parser.current
        Parser.reject ⟨.noProgress rule, token.span⟩
        return item
      else return item) := by
    split
    · exact hR.current_bind fun t => hR.bind (hR.reject _) fun _ => hR.pure _
    · exact hR.pure item
  exact hR.cursor_bind hcheck

/-- Related parsers are related if they have to take a token. -/
theorem taking (rule : String) {p q : Parser α} (h : R b firm p q) :
    R b firm (taking rule p) (Parser.taking rule q) := by
  rw [taking_eq, taking_eq]
  exact hR.cursor_bind fun c => hR.bindAny h (fun item => hR.weakenTo (hR.progress rule _ item))
    (fun _ item => waits_progress rule c.position item)
    (fun _ item => waits_progress rule c.position item)

omit hR in
/-- A list goes on only behind a comma. -/
theorem advances_commaStep (rule : String) {next : Parser α} (hs : Steady next)
    (items : List α) : Advances (Grammar.commaStep rule next items) :=
  advances_takeSymbol_bind
    ((steady_taking rule hs).bind fun _ => steady_pure _)
    (advances_done items)

/-- Steps of lists are related if their items are. -/
theorem commaStep (rule : String) {next next' : Parser α}
    (h : R b firm next next') (items : List α) :
    R b firm (commaStep rule next items) (Grammar.commaStep rule next' items) := by
  refine hR.bind (hR.takeSymbol .comma) fun found => ?_
  cases found with
  | true => exact hR.map _ (hR.taking rule h)
  | false => exact hR.weakenTo (hR.pure _)

/-- Lists with commas are related if their items are. -/
theorem commaList (rule : String) {first first' next next' : Parser α}
    (hfirst : R b firm first first') (hnext : R b firm next next') :
    R b firm (commaList rule first next) (Parser.commaList rule first' next') := by
  rw [commaList_eq, commaList_eq]
  refine hR.bindAny (hR.taking rule hfirst) (fun head => ?_)
    (fun _ _ => (waits_loop (waits_commaStep rule next) []).bind fun _ => waits_pure _)
    (fun _ _ => (waits_loop (waits_commaStep rule next') []).bind fun _ => waits_pure _)
  exact hR.map _ (hR.loop [] (hR.commaStep rule hnext) (fun _ => waits_commaStep rule next)
    (fun _ => waits_commaStep rule next')
    (advances_commaStep rule (hR.steadyLeft hnext))
    (advances_commaStep rule (hR.steadyRight hnext)))

theorem commaSeparated (rule : String) {item item' : Parser α}
    (h : R b firm item item') :
    R b firm (commaSeparated rule item) (Parser.commaSeparated rule item') :=
  hR.commaList rule h h

end Congruence

end SearchSql.Grammar
