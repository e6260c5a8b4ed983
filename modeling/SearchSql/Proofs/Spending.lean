import SearchSql.Proofs.Levels
import SearchSql.Proofs.Need

/-!
# What parsers spend

A parser spends what a number says that depends on its result (`Spends`): a run that has as many
levels of nesting left succeeds if any run with more of them does, and each run that succeeds has
had as many. The number only grows from one parser to the next, so it starts at what has been spent
before.

Most parsers read no expression and spend nothing; for them, one run from each place is enough
(`Free`).
-/

set_option autoImplicit false

namespace SearchSql.Grammar

open SearchSql.Grammar.Parser

variable {α β : Type} {library : Time.Library}

/-- What the second parser reads, the first reads with fewer levels of nesting left. -/
def Free (library : Time.Library) (p q : Parser α) : Prop :=
  Steady p ∧ Steady q ∧ ∀ (s s' t' : State) (a : α), (levels library true).Linked s s' →
    q s' = .ok a t' → ∃ t, p s = .ok a t ∧ t.cursor = t'.cursor

/-- Runs that end at the same place leave their states linked. -/
theorem linked_leads {s s' t t' : State} (hs : (levels library true).Linked s s') (ht : s.Leads t)
    (ht' : s'.Leads t') (hcursor : t.cursor = t'.cursor) : (levels library true).Linked t t' :=
  ⟨hcursor, hs.frame.leads ht ht', trivial⟩

theorem free_pure (a : α) : Free library (pure a : Parser α) (pure a) :=
  ⟨steady_pure a, steady_pure a, fun s _ _ _ hs h => by
    obtain ⟨rfl, rfl⟩ := pure_eq_ok_iff.1 h
    exact ⟨s, rfl, hs.cursor⟩⟩

/-- What is free run one after the other is free. -/
theorem Free.bind {p q : Parser α} {f g : α → Parser β} (hp : Free library p q)
    (hf : ∀ a, Free library (f a) (g a)) : Free library (p >>= f) (q >>= g) := by
  refine ⟨hp.1.bind fun a => (hf a).1, hp.2.1.bind fun a => (hf a).2.1, fun s s' t' b hs h => ?_⟩
  obtain ⟨a, u', hq, hg⟩ := bind_eq_ok_iff.1 h
  obtain ⟨u, hpu, hcursor⟩ := hp.2.2 s s' u' a hs hq
  obtain ⟨t, ht, hend⟩ := (hf a).2.2 u u' t' b
    (linked_leads hs (hp.1.leads hpu) (hp.2.1.leads hq) hcursor) hg
  exact ⟨t, bind_eq_ok_iff.2 ⟨a, u, hpu, ht⟩, hend⟩

/-- What looks at the state is free if it is for each pair of linked states. -/
theorem free_get_bind {f g : State → Parser α} (hf : ∀ s, Steady (f s)) (hg : ∀ s, Steady (g s))
    (h : ∀ s s', (levels library true).Linked s s' → Free library (f s) (g s')) :
    Free library (get >>= f) (get >>= g) :=
  ⟨steady_get_bind hf, steady_get_bind hg, fun s s' t' a hs heq =>
    (h s s' hs).2.2 s s' t' a hs heq⟩

theorem free_loopNext {f g : α → Parser (ForInStep α)} (h : ∀ a, Free library (f a) (g a))
    (rounds : List Token) (r : ForInStep α) :
    Free library (loopNext f rounds r) (loopNext g rounds r) := by
  induction rounds generalizing r with
  | nil =>
    cases r with
    | done a => exact free_pure a
    | yield a =>
      exact ⟨fun s => State.Leads.refl s, fun s => State.Leads.refl s,
        fun _ _ _ _ _ heq => nomatch heq⟩
  | cons _ rounds ih =>
    cases r with
    | done a => exact free_pure a
    | yield a =>
      show Free library (loopOver f rounds a) (loopOver g rounds a)
      rw [loopOver_eq, loopOver_eq]
      exact (h a).bind ih

/-- A repetition of free steps is free. -/
theorem free_loop {f g : α → Parser (ForInStep α)} (h : ∀ a, Free library (f a) (g a)) (a : α) :
    Free library (loop a f) (loop a g) := by
  have hparted (rounds : List Token) :
      Free library (loopOver f rounds a) (loopOver g rounds a) := by
    rw [loopOver_eq, loopOver_eq]
    exact (h a).bind (free_loopNext h rounds)
  exact free_get_bind (fun s => (hparted _).1) (fun s => (hparted _).2.1)
    fun s s' hs => hs.cursor ▸ hparted _

/-- Being free, as a relation that carries a bound and a flag. -/
def FreeAt (library : Time.Library) (_ : Nat) (_ : Bool) (p q : Parser α) : Prop := Free library p q

/-- What the rules are written with, but for further levels of nesting, is free if its parts are. -/
theorem free : Congruence (levels library true).Linked (fun _ _ => False) (fun _ _ => False)
    (fun b firm _ p q => FreeAt library b firm p q) where
  cursor h := h.cursor
  library h := h.frame.withLibrary.trans h.frame.withLibrary'.symm
  left_atOrder _ := False.elim
  right_atOrder _ := False.elim
  steadyLeft h := h.1
  steadyRight h := h.2.1
  weaken h := h
  pure := free_pure
  bind hp hf := Free.bind hp hf
  bindStays hp hf _ _ := Free.bind hp hf
  get := free_get_bind
  reject d := ⟨steady_reject d, steady_reject d, fun _ _ _ _ _ h => absurd h reject_ne_ok⟩
  skip n := ⟨steady_skip n, steady_skip n, fun s s' _ _ hs h => by
    cases h
    exact ⟨s.skip n, rfl, congrArg (Cursor.skip n) hs.cursor⟩⟩
  loop a h _ _ _ _ := free_loop h a
  malformedLiteral kind text fault span :=
    ⟨steady_malformedLiteral _ _ _ _, steady_malformedLiteral _ _ _ _, fun s s' t' a hs h => by
      rw [malformedLiteral_of_strict (hs.frame.strict' rfl)] at h
      cases h⟩

/-- All that the parser gives satisfies `P`. -/
def Yields (P : α → Prop) (p : Parser α) : Prop :=
  ∀ (s t : State) (a : α), p s = .ok a t → P a

section Yields

variable {P : α → Prop}

theorem yields_pure {a : α} (h : P a) : Yields P (pure a) := by
  intro s t b heq
  exact (pure_eq_ok_iff.1 heq).1 ▸ h

theorem yields_reject (d : Diagnostic) : Yields P (reject d) :=
  fun _ _ _ h => absurd h reject_ne_ok

theorem yields_rejectCurrent (expected : String) : Yields P (rejectCurrent expected) :=
  fun _ _ _ h => absurd h rejectCurrent_ne_ok

/-- What a parser gives depends on its last part. -/
theorem yields_bind {p : Parser β} {f : β → Parser α} (h : ∀ x, Yields P (f x)) :
    Yields P (p >>= f) := by
  intro s t a heq
  obtain ⟨x, u, _, hrest⟩ := bind_eq_ok_iff.1 heq
  exact h x u t a hrest

theorem yields_map {p : Parser β} {f : β → α} (h : ∀ x, P (f x)) : Yields P (f <$> p) :=
  yields_bind fun x => yields_pure (h x)

/-- What is known of a value is known of what is made of it. -/
theorem Yields.map {Q : β → Prop} {p : Parser β} {f : β → α} (hp : Yields Q p)
    (h : ∀ x, Q x → P (f x)) : Yields P (f <$> p) := by
  intro s t a heq
  obtain ⟨x, hx, rfl⟩ := map_eq_ok_iff.1 heq
  exact h x (hp s t x hx)

/-- What the first parser gives is known to the second. -/
theorem Yields.bind {Q : β → Prop} {p : Parser β} {f : β → Parser α} (hp : Yields Q p)
    (h : ∀ x, Q x → Yields P (f x)) : Yields P (p >>= f) := by
  intro s t a heq
  obtain ⟨x, u, hx, hrest⟩ := bind_eq_ok_iff.1 heq
  exact h x (hp s u x hx) u t a hrest

/-- What may be in front makes no difference to what is given. -/
theorem yields_guarded {taken : Prop} [Decidable taken] {p : Parser β} {q : Parser α}
    (h : Yields P q) : Yields P (if taken then p >>= fun _ => q else q) := by
  split
  · exact yields_bind fun _ => h
  · exact h

theorem Yields.nest {levels : Nat} {p : Parser α} (hp : Yields P p) : Yields P (nest levels p) := by
  intro s t a heq
  obtain ⟨_, u, hu, _⟩ := nest_eq_ok_iff.1 heq
  exact hp _ u a hu

end Yields

/-- A parser spends `cost a` where it gives `a`, and `m` of this was spent before. -/
structure Spends (library : Time.Library) (aligned : Bool) (b m : Nat) (cost : α → Nat)
    (p : Parser α) : Prop where
  steady : Steady p
  spends {s t : State} {a : α} : s.settings.recover = false → s.budget ≤ b → p s = .ok a t →
    m ≤ cost a ∧ (m ≤ s.budget → cost a ≤ s.budget)
  affords {s u v : State} {a : α} : (levels library true).Linked s u → u.budget ≤ b →
    (aligned = true → s.Aligned u) → p u = .ok a v → cost a ≤ s.budget →
      ∃ t, p s = .ok a t ∧ t.cursor = v.cursor

theorem free_clauseEnd {b : Nat} : FreeAt library b true clauseEnd clauseEnd := by
  refine ⟨steady_clauseEnd, steady_clauseEnd, fun s s' t' a hs h => ?_⟩
  obtain ⟨hboundary, rfl⟩ :=
    (clauseEnd_eq_ok_iff (notRecovering_of_strict (hs.frame.strict' rfl))).1 h
  rw [← atBoundary_eq hs.cursor hs.frame.enclosed] at hboundary
  exact ⟨s, (clauseEnd_eq_ok_iff (notRecovering_of_strict hs.frame.strict)).2 ⟨hboundary, rfl⟩,
    hs.cursor⟩

theorem free_inputEnd {b : Nat} : FreeAt library b true inputEnd inputEnd := by
  refine ⟨steady_inputEnd, steady_inputEnd, fun s s' t' a hs h => ?_⟩
  rw [inputEnd_apply (notRecovering_of_strict (hs.frame.strict' rfl))] at h
  rw [inputEnd_apply (notRecovering_of_strict hs.frame.strict), hs.cursor]
  cases hend : s'.cursor.current.isEnd with
  | true => exact ⟨s, rfl, by rw [hend] at h; cases h; exact hs.cursor⟩
  | false =>
    rw [hend] at h
    cases h

namespace Spends

variable {aligned : Bool} {b m : Nat} {cost : α → Nat} {total : β → Nat}

/-- What is spent on a part before is part of what is spent on the whole. -/
theorem bind {p : Parser α} {f : α → Parser β} (hp : Spends library aligned b m cost p)
    (hf : ∀ a, Spends library aligned b (cost a) total (f a)) :
    Spends library aligned b m total (p >>= f) := by
  refine ⟨hp.steady.bind fun a => (hf a).steady, fun {s t x} hs hb h => ?_,
    fun {s s' t' x} hs hb ha h hcost => ?_⟩
  · obtain ⟨a, u, hpu, hfu⟩ := bind_eq_ok_iff.1 h
    have hlead := hp.steady.leads hpu
    have hfirst := hp.spends hs hb hpu
    have hrest := (hf a).spends (hlead.settings ▸ hs) (hlead.budget_le hb) hfu
    rw [hlead.budget] at hrest
    exact ⟨Nat.le_trans hfirst.1 hrest.1, fun hm => hrest.2 (hfirst.2 hm)⟩
  · obtain ⟨a, u', hpu', hfu'⟩ := bind_eq_ok_iff.1 h
    have hlead' := hp.steady.leads hpu'
    have hb' := hlead'.budget_le hb
    have hgrows := ((hf a).spends (hlead'.settings ▸ (hs.frame.strict' rfl)) hb' hfu').1
    obtain ⟨u, hpu, hcursor⟩ := hp.affords hs hb ha hpu' (Nat.le_trans hgrows hcost)
    have hlead := hp.steady.leads hpu
    obtain ⟨t, ht, hend⟩ := (hf a).affords (linked_leads hs hlead hlead' hcursor) hb'
      (fun h => (ha h).leads hlead hlead') hfu' (hlead.budget ▸ hcost)
    exact ⟨t, bind_eq_ok_iff.2 ⟨a, u, hpu, ht⟩, hend⟩

/-- What is free spends nothing more. -/
theorem of_free {p : Parser α} (h : Free library p p) : Spends library aligned b m (fun _ => m) p :=
  ⟨h.1, fun _ _ _ => ⟨Nat.le_refl m, id⟩, fun hs _ _ heq _ => h.2.2 _ _ _ _ hs heq⟩

/-- A parser behind one that spends nothing. -/
theorem behind {p : Parser α} {f : α → Parser β} {firm : Bool} (hp : FreeAt library b firm p p)
    (hf : ∀ a, Spends library aligned b m total (f a)) :
    Spends library aligned b m total (p >>= f) :=
  (of_free hp).bind hf

/-- What was spent before counts as well. -/
theorem after {p : Parser α} (h : Spends library aligned b 0 cost p) :
    Spends library aligned b m (fun a => max m (cost a)) p := by
  refine ⟨h.steady, fun hs hb heq => ⟨Nat.le_max_left _ _, fun hm => ?_⟩,
    fun hs hb ha heq hcost => h.affords hs hb ha heq (Nat.le_trans (Nat.le_max_right _ _) hcost)⟩
  exact Nat.max_le.2 ⟨hm, (h.spends hs hb heq).2 (Nat.zero_le _)⟩

/-- A parser behind one that spends something. -/
theorem andThen {p : Parser α} {f : α → Parser β} (hp : Spends library aligned b 0 cost p)
    (hf : ∀ a, Spends library aligned b (max m (cost a)) total (f a)) :
    Spends library aligned b m total (p >>= f) :=
  hp.after.bind hf

/-- The cost may be counted in another way. -/
theorem congr {p : Parser α} {cost' : α → Nat} (h : Spends library aligned b m cost p)
    (heq : ∀ a, cost a = cost' a) : Spends library aligned b m cost' p := by
  obtain rfl : cost = cost' := funext heq
  exact h

/-- It may be counted in another way for the values that are given. -/
theorem congrOf {p : Parser α} {P : α → Prop} {cost' : α → Nat}
    (h : Spends library aligned b m cost p)
    (hy : Yields P p) (heq : ∀ a, P a → cost a = cost' a) : Spends library aligned b m cost' p :=
  ⟨h.steady, fun {s t a} hs hb hrun => heq a (hy s t a hrun) ▸ h.spends hs hb hrun,
    fun {_ s' t' a} hs hb ha hrun hcost =>
      h.affords hs hb ha hrun (heq a (hy s' t' a hrun) ▸ hcost)⟩

/-- A parser that spends nothing, and gives what costs nothing. -/
theorem of_yields {p : Parser α} {firm : Bool} (h : FreeAt library b firm p p)
    (hy : Yields (fun a => cost a = m) p) : Spends library aligned b m cost p :=
  (of_free h).congrOf hy fun _ ha => ha.symm

/-- What is spent from all linked states is spent from aligned ones. -/
theorem align {p : Parser α} (h : Spends library false b m cost p) :
    Spends library true b m cost p :=
  ⟨h.steady, h.spends, fun hs hb _ => h.affords hs hb nofun⟩

theorem pure {a : α} (h : cost a = m) : Spends library aligned b m cost (pure a) := by
  refine ⟨steady_pure a, fun _ _ heq => ?_, fun hs _ _ heq _ => (free_pure a).2.2 _ _ _ _ hs heq⟩
  obtain ⟨rfl, rfl⟩ := pure_eq_ok_iff.1 heq
  exact ⟨Nat.le_of_eq h.symm, fun hm => h ▸ hm⟩

/-- Building something of what a parser gives. -/
theorem map {p : Parser α} {f : α → β} (hp : Spends library aligned b m cost p)
    (h : ∀ a, total (f a) = cost a) : Spends library aligned b m total (f <$> p) :=
  hp.bind fun a => pure (h a)

theorem reject (d : Diagnostic) : Spends library aligned b m cost (reject d) :=
  ⟨steady_reject d, fun _ _ h => absurd h reject_ne_ok, fun _ _ _ h => absurd h reject_ne_ok⟩

theorem rejectCurrent (expected : String) :
    Spends library aligned b m cost (rejectCurrent expected) :=
  ⟨steady_current_bind fun _ => steady_reject _, fun _ _ h => absurd h rejectCurrent_ne_ok,
    fun _ _ _ h => absurd h rejectCurrent_ne_ok⟩

/-- What looks at no more of the state than what linked states have in common may be taken to see
the same state. -/
theorem get_bind {f : State → Parser α}
    (heq : ∀ s s', (levels library true).Linked s s' → (aligned = true → s.Aligned s') → f s = f s')
    (h : ∀ s, Spends library aligned b m cost (f s)) :
    Spends library aligned b m cost (get >>= f) :=
  ⟨steady_get_bind fun s => (h s).steady, fun {s _ _} hs hb hrun => (h s).spends hs hb hrun,
    fun {s s' _ _} hs hb ha hrun hcost =>
      (h s).affords hs hb ha (by rw [heq s s' hs ha]; exact hrun) hcost⟩

theorem cursor_bind {f : Cursor → Parser α} (h : ∀ c, Spends library aligned b m cost (f c)) :
    Spends library aligned b m cost (get >>= fun s => f s.cursor) :=
  get_bind (fun _ _ hs _ => congrArg f hs.cursor) fun s => h s.cursor

/-- What looks at the token in front spends what it does for every token. -/
theorem current_bind {f : Token → Parser α} (h : ∀ t, Spends library aligned b m cost (f t)) :
    Spends library aligned b m cost (current >>= f) :=
  cursor_bind fun c => h c.current

theorem peek_bind (k : Nat) {f : Token → Parser α}
    (h : ∀ t, Spends library aligned b m cost (f t)) :
    Spends library aligned b m cost (peek k >>= f) :=
  cursor_bind fun c => h (c.peek k)

theorem atSymbol_bind (sign : Symbol) {f : Bool → Parser α}
    (h : ∀ here, Spends library aligned b m cost (f here)) :
    Spends library aligned b m cost (atSymbol sign >>= f) :=
  current_bind fun t => h (t.kind == .symbol sign)

theorem atKeyword_bind (word : Keyword) {f : Bool → Parser α}
    (h : ∀ here, Spends library aligned b m cost (f here)) :
    Spends library aligned b m cost (atKeyword word >>= f) :=
  current_bind fun t => h (t.kind == .keyword word)

/-- A parser on a condition that spends nothing, in front of what follows in any case. -/
theorem guarded {γ : Type} {taken : Prop} [Decidable taken] {p : Parser γ} {q : Parser α}
    (hp : Spends library aligned b m (fun _ => m) p) (h : Spends library aligned b m cost q) :
    Spends library aligned b m cost (if taken then p >>= fun _ => q else q) := by
  split
  · exact hp.bind fun _ => h
  · exact h

/-- Two ways to get something, in front of what follows in any case. -/
theorem either {first : Prop} [Decidable first] {p q : Parser α} {f : α → Parser β}
    (hp : Spends library aligned b 0 cost p) (hq : Spends library aligned b 0 cost q)
    (h : ∀ a, Spends library aligned b (max m (cost a)) total (f a)) :
    Spends library aligned b m total (if first then p >>= f else q >>= f) := by
  split
  · exact hp.andThen h
  · exact hq.andThen h

/-! ## Repetitions -/

/-- What is repeated spends as a single step does. -/
theorem loop (cost : α → Nat) {f : α → Parser (ForInStep α)}
    (h : ∀ a, Spends library aligned b (cost a) (fun r => cost r.value) (f a)) (a : α) :
    Spends library aligned b (cost a) cost (loop a f) := by
  have hnext (rounds : List Token) : ∀ r : ForInStep α,
      Spends library aligned b (cost r.value) cost (loopNext f rounds r) := by
    induction rounds with
    | nil =>
      intro r
      cases r with
      | done a => exact pure rfl
      | yield a =>
        exact ⟨fun s => State.Leads.refl s, fun _ _ heq => (nomatch heq),
          fun _ _ _ heq => (nomatch heq)⟩
    | cons _ rounds ih =>
      intro r
      cases r with
      | done a => exact pure rfl
      | yield a =>
        show Spends library aligned b (cost a) cost (loopOver f rounds a)
        rw [loopOver_eq]
        exact (h a).bind ih
  refine cursor_bind (f := fun c => loopOver f c.ahead a) fun c => ?_
  rw [loopOver_eq]
  exact (h a).bind (hnext _)

/-- A repetition that adds to a list, which is turned around in the end. -/
theorem loopList {f : List α → Parser (ForInStep (List α))} (h : ∀ as,
      Spends library aligned b (greatest cost as) (fun r => greatest cost r.value) (f as)) :
    Spends library aligned b 0 (fun as => greatest cost as) (Parser.loop [] f) :=
  loop (greatest cost) h []

theorem progress (rule : String) (before : Nat) (a : α) :
    Spends library aligned b (cost a) cost (progress rule before a) := by
  refine get_bind (fun _ _ hs _ => by rw [hs.cursor]) fun s => ?_
  dsimp only
  split
  · have hreject (d : Diagnostic) : Spends library aligned b (cost a) (fun _ => cost a)
        (Parser.reject d : Parser Unit) := reject d
    exact current_bind fun t => (hreject _).bind fun _ => pure rfl
  · exact pure rfl

/-- The check that a token was taken is free. -/
theorem taking (rule : String) {p : Parser α} (hp : Spends library aligned b m cost p) :
    Spends library aligned b m cost (taking rule p) := by
  rw [taking_eq]
  exact cursor_bind (f := fun c => p >>= Grammar.progress rule c.position) fun c =>
    hp.bind fun a => progress rule c.position a

/-- A further item raises the cost of the list to its own, if that is greater. -/
theorem commaStep (rule : String) {next : Parser α} (h : Spends library aligned b 0 cost next)
    (items : List α) :
    Spends library aligned b (greatest cost items) (fun r => greatest cost r.value)
      (commaStep rule next items) := by
  refine behind (free.takeSymbol .comma) fun found => ?_
  cases found with
  | true => exact (h.taking rule).after.map fun item => Nat.max_comm _ _
  | false => exact pure rfl

/-- A list spends as much as any of its items does. -/
theorem commaList (rule : String) {first next : Parser α}
    (hfirst : Spends library aligned b 0 cost first)
    (hnext : Spends library aligned b 0 cost next) :
    Spends library aligned b 0 (greatest cost) (commaList rule first next) := by
  rw [commaList_eq]
  refine (hfirst.taking rule).andThen fun head => ?_
  refine (loopList (hnext.commaStep rule)).after.map fun tail => ?_
  show max (cost head) (greatest cost tail.reverse) = _
  rw [greatest_reverse, Nat.zero_max]

/-- A list costs as much as the greatest of its items. -/
theorem commaSeparated (rule : String) {item : Parser α}
    (h : Spends library aligned b 0 cost item) :
    Spends library aligned b 0 (greatest cost) (commaSeparated rule item) :=
  commaList rule h h

/-- What may be there, if it is. -/
theorem present {p : Parser α} (h : Spends library aligned b 0 cost p) :
    Spends library aligned b 0 (orZero cost) (some <$> p) := h.map fun _ => rfl

theorem absent : Spends library aligned b 0 (orZero cost) (Pure.pure none) := pure rfl

/-! ## Nesting -/

/-- Levels in use are levels not left. -/
theorem budget_deeper (s : State) (levels : Nat) : (s.deeper levels).budget = s.budget - levels := by
  show s.settings.nestingLimit - (s.depth + levels) = s.settings.nestingLimit - s.depth - levels
  omega

/-- Further levels are spent on what is under them. -/
theorem nest (further : Nat) {p : Parser α} (hfurther : 0 < further) (hsteady : Steady p)
    (h : ∀ b' < b, Spends library true b' 0 cost p) :
    Spends library aligned b 0 (fun a => cost a + further) (nest further p) := by
  refine ⟨hsteady.nest, fun {s t a} hs hb heq => ⟨Nat.zero_le _, fun _ => ?_⟩,
    fun {s s' t' a} hs hb _ heq hcost => ?_⟩
  · obtain ⟨hroom, u, hu, rfl⟩ := nest_eq_ok_iff.1 heq
    have hdeep := Simulation.deeper_budget_lt hfurther hroom
    have hle := ((h _ (Nat.lt_of_lt_of_le hdeep hb)).spends (s := s.deeper further) hs
      (Nat.le_refl _) hu).2 (Nat.zero_le _)
    rw [budget_deeper] at hle
    have hbudget : further ≤ s.budget := Nat.le_sub_of_add_le' hroom
    omega
  · obtain ⟨hroom', u', hu', rfl⟩ := nest_eq_ok_iff.1 heq
    have hdeep' := Simulation.deeper_budget_lt hfurther hroom'
    have hroom : s.depth + further ≤ s.settings.nestingLimit := by
      unfold State.budget at hcost
      omega
    obtain ⟨hframe, haligned⟩ := levels_lawful.frame_deeper hs.frame hfurther hroom hroom'
    have hleft : cost a ≤ (s.deeper further).budget := by
      rw [budget_deeper]
      omega
    obtain ⟨u, hu, hcursor⟩ := (h _ (Nat.lt_of_lt_of_le hdeep' hb)).affords
      (s := s.deeper further) (u := s'.deeper further) ⟨hs.cursor, hframe, trivial⟩
      (Nat.le_refl _) (fun _ => haligned) hu' hleft
    exact ⟨_, nest_eq_ok_iff.2 ⟨hroom, u, hu, rfl⟩, hcursor⟩

theorem separateHere {p : Parser α} (h : Spends library true b m cost p) :
    Spends library true b m cost (separateHere p) := by
  refine ⟨h.steady.separateHere, fun {s t a} hs hb heq => ?_, fun {s s' t' a} hs hb _ heq hcost => ?_⟩
  · obtain ⟨u, hu, rfl⟩ := mapState_eq_ok_iff.1 heq
    exact h.spends (s := s.separatingHere) hs hb hu
  · obtain ⟨u', hu', rfl⟩ := mapState_eq_ok_iff.1 heq
    obtain ⟨u, hu, hcursor⟩ := h.affords (s := s.separatingHere) (u := s'.separatingHere)
      ⟨hs.cursor, levels_lawful.frame_separatingHere hs.frame, trivial⟩ hb
      (fun _ => ⟨fun _ => rfl, fun _ => rfl⟩) hu' hcost
    exact ⟨_, mapState_eq_ok_iff.2 ⟨u, hu, rfl⟩, hcursor⟩

/-- The substring of `POSITION` spends what an expression does. -/
theorem atSeparator {p : Parser α} (hsteady : Steady p)
    (h : ∀ b' < b, Spends library true b' 0 cost p) :
    Spends library aligned b 0 (fun a => cost a + 1) (atSeparator (Parser.nest 1 p)) := by
  rw [atSeparator_nest]
  exact nest 1 Nat.one_pos hsteady.separateHere fun b' hb => (h b' hb).separateHere

/-- To open a subquery is free. -/
theorem subquery {p : Parser α} (h : Spends library false b m cost p) :
    Spends library false b m cost (subquery p) := by
  refine ⟨h.steady.subquery, fun {s t a} hs hb heq => ?_, fun {s s' t' a} hs hb _ heq hcost => ?_⟩
  · rw [subquery_apply] at heq
    obtain ⟨u, hu, rfl⟩ := mapState_eq_ok_iff.1 heq
    exact h.spends (s := s.enclosed) hs hb hu
  · rw [subquery_apply] at heq
    obtain ⟨u', hu', rfl⟩ := mapState_eq_ok_iff.1 heq
    obtain ⟨u, hu, hcursor⟩ := h.affords (s := s.enclosed) (u := s'.enclosed)
      ⟨hs.cursor, levels_queryLawful.frame_enclosed hs.frame, trivial⟩ hb nofun hu' hcost
    refine ⟨u.disclosed, ?_, hcursor⟩
    rw [subquery_apply]
    exact mapState_eq_ok_iff.2 ⟨u, hu, rfl⟩

/-! ## Attempts and clauses -/

/-- An attempt that fails spends nothing. With fewer levels it fails as well. -/
theorem attempt {b : Nat} {cost : OrderBy × Filter → Nat}
    (h : Spends library false b 0 cost (orderedFilter read)) :
    Spends library false b 0 (orZero cost)
      (attempt "ordered aggregate filter" (orderedFilter read)) := by
  refine ⟨h.steady.attempt, fun {s t a} hs hb heq => ⟨Nat.zero_le _, fun _ => ?_⟩,
    fun {s s' t' a} hs hb _ heq hcost => ?_⟩
  · obtain ⟨x, u, hrun, hattempt⟩ | ⟨d, u, hrun, hattempt⟩ := attempt_orderedFilter s
    · cases hattempt.symm.trans heq
      exact (h.spends (s := s.trying) hs hb hrun).2 (Nat.zero_le _)
    · cases hattempt.symm.trans heq
      exact Nat.zero_le _
  · have hlinked : (levels library true).Linked s.trying s'.trying :=
      ⟨hs.cursor, hs.frame.trying, trivial⟩
    obtain ⟨x', u', hrun', hattempt'⟩ | ⟨d', u', hrun', hattempt'⟩ := attempt_orderedFilter s'
    · cases hattempt'.symm.trans heq
      obtain ⟨u, hrun, hcursor⟩ := h.affords hlinked hb nofun hrun' hcost
      refine ⟨u.tried, ?_, hcursor⟩
      rw [attempt_apply, hrun]
    · cases hattempt'.symm.trans heq
      obtain ⟨x, u, hrun, hattempt⟩ | ⟨d, u, hrun, hattempt⟩ := attempt_orderedFilter s
      · have hagree := (levels_orderedFilter b).agree hlinked
          (Nat.le_trans hs.frame.within.budget_le hb) hb nofun
        rw [hrun, hrun'] at hagree
        cases hagree with
        | parted hparted =>
          obtain ⟨e, v, hfalse⟩ := hparted
          cases hfalse
        | astray hfirm _ => cases hfirm
      · exact ⟨_, hattempt, hs.cursor⟩

/-- To pass over errors is free where none are passed over. -/
theorem recover {p : Parser α} (h : Spends library false b 0 cost p) :
    Spends library false b 0 (orZero cost) (recover p) := by
  refine ⟨h.steady.recover, fun {s t a} hs hb heq => ?_, fun {s s' t' a} hs hb ha heq hcost => ?_⟩
  · obtain ⟨x, hrun, rfl⟩ := (recover_eq_ok_iff h.steady (notRecovering_of_strict hs)).1 heq
    exact h.spends hs hb hrun
  · obtain ⟨x, hrun, rfl⟩ :=
      (recover_eq_ok_iff h.steady (notRecovering_of_strict (hs.frame.strict' rfl))).1 heq
    obtain ⟨t, ht, hcursor⟩ := h.affords hs hb ha hrun hcost
    exact ⟨t, (recover_eq_ok_iff h.steady (notRecovering_of_strict hs.frame.strict)).2 ⟨x, ht, rfl⟩,
      hcursor⟩

end Spends

end SearchSql.Grammar
