import SearchSql.Proofs.Derivations

/-!
# Comparing runs

Two runs from linked states either stay linked, or need no longer be compared, or one of them goes
astray: it has taken `ORDER BY` for a part of an aggregate, or has not, in a place where the other
run decided otherwise. `Simulation` says what is compared, and how far. What the rules are written
with respects the resulting relation (`Simulation.family`), so that the rules do.

States are linked if they have the same cursor, linked counters and settings (`frame`), which no run
changes, and linked diagnostics and events (`log`).
-/

set_option autoImplicit false

namespace SearchSql.Grammar

open SearchSql.Grammar.Parser

variable {α β : Type}

/-- What a run gives, and where it ends. -/
abbrev Run (α : Type) : Type := EStateM.Result Failure State α

/-- The run that goes on with `f` where `r` succeeds. -/
def Run.andThen (r : Run α) (f : α → Parser β) : Run β :=
  match r with
  | .ok a t => f a t
  | .error e t => .error e t

/-- A sequence is a run that goes on with the next parser. -/
theorem bind_apply_andThen (p : Parser α) (f : α → Parser β) (s : State) :
    (p >>= f) s = Run.andThen (p s) f := by
  rw [bind_apply]
  rfl

/-- A run that goes on with steady parsers keeps what runs keep. -/
theorem leads_andThen {r : Run α} {f : α → Parser β} (hf : ∀ a, Steady (f a)) :
    (lastState r).Leads (lastState (Run.andThen r f)) := by
  cases r with
  | ok a t => exact hf a t
  | error e t => exact State.Leads.refl t

/-- The diagnostics and events of two states are the same. -/
structure State.SameLog (s t : State) : Prop where
  diagnostics : t.diagnostics = s.diagnostics
  lastReported : t.lastReported = s.lastReported
  events : t.events = s.events

/-- Two states agree on whether `IN` separates operands. -/
def State.Aligned (s t : State) : Prop :=
  s.separatorDepth = some s.depth ↔ t.separatorDepth = some t.depth

/-- Runs do not change whether `IN` separates. -/
theorem State.Aligned.leads {s s' t t' : State} (h : s.Aligned s') (hs : s.Leads t)
    (hs' : s'.Leads t') : t.Aligned t' := by
  unfold State.Aligned
  rw [hs.separatorDepth, hs.depth, hs'.separatorDepth, hs'.depth]
  exact h

/-- States that agree on the separator have the same tests for separators. -/
theorem State.Aligned.isSeparator {s s' : State} (h : s.Aligned s') (test : Test) :
    s.isSeparator test = s'.isSeparator test := by
  cases test with
  | within negated =>
    show (s.separatorDepth == some s.depth) = (s'.separatorDepth == some s'.depth)
    rw [Bool.eq_iff_iff, beq_iff_eq, beq_iff_eq]
    exact h
  | _ => rfl

/-- A way to compare the runs of two parsers. -/
structure Simulation where
  /-- What links the counters and settings of two states. -/
  frame : State → State → Prop
  /-- What links their diagnostics and events. -/
  log : State → State → Prop
  /-- Where the first run has gone astray, with a bound on the levels of nesting left. -/
  left : Nat → Cursor → Prop
  /-- Where the second run has gone astray. -/
  right : Nat → Cursor → Prop
  /-- Runs that need no longer be compared. -/
  parted : {α β : Type} → Run α → Run β → Prop
  /-- Runs of which one has gone astray. -/
  astray : {α β : Type} → Nat → Run α → Run β → Prop

namespace Simulation

variable (S : Simulation)

/-- Two states from which runs are compared. -/
structure Linked (s s' : State) : Prop where
  cursor : s.cursor = s'.cursor
  frame : S.frame s s'
  log : S.log s s'

/-- How two compared runs end. -/
inductive Agree (b : Nat) (firm : Bool) : Run α → Run α → Prop where
  | ok (a : α) {t t' : State} : t.cursor = t'.cursor → S.log t t' → Agree b firm (.ok a t) (.ok a t')
  | parted {r r' : Run α} : S.parted r r' → Agree b firm r r'
  | astray {r r' : Run α} : firm = false → S.astray b r r' → Agree b firm r r'

/-- The states of a first run that has gone astray. -/
def Left (b : Nat) (s : State) : Prop :=
  S.left b s.cursor ∧ (∃ s', S.frame s s') ∧ s.budget ≤ b

/-- The states of a second run that has gone astray. -/
def Right (b : Nat) (s : State) : Prop :=
  S.right b s.cursor ∧ (∃ s', S.frame s' s) ∧ s.budget ≤ b

/-- Parsers whose runs from linked states agree. -/
structure Rel (aligned : Bool) (b : Nat) (firm : Bool) (p q : Parser α) : Prop where
  steadyLeft : Steady p
  steadyRight : Steady q
  agree {s u : State} : S.Linked s u → s.budget ≤ b → u.budget ≤ b →
    (aligned = true → s.Aligned u) → S.Agree b firm (p s) (q u)

/-- What makes a comparison of runs one that the rules respect. -/
structure Lawful : Prop where
  frame_library {s s' : State} : S.frame s s' → s.library = s'.library
  frame_leads {s s' t t' : State} : S.frame s s' → s.Leads t → s'.Leads t' → S.frame t t'
  frame_deeper {s s' : State} {cost : Nat} : S.frame s s' → 0 < cost →
    s.depth + cost ≤ s.settings.nestingLimit → s'.depth + cost ≤ s'.settings.nestingLimit →
      S.frame (s.deeper cost) (s'.deeper cost) ∧ (s.deeper cost).Aligned (s'.deeper cost)
  frame_separatingHere {s s' : State} : S.frame s s' →
    S.frame s.separatingHere s'.separatingHere
  log_same {s u t v : State} : S.log s u → s.SameLog t → u.SameLog v → S.log t v
  left_atOrder {b : Nat} {c : Cursor} : S.left b c → c.current.kind = .keyword .ORDER
  right_atOrder {b : Nat} {c : Cursor} : S.right b c → c.current.kind = .keyword .ORDER
  parted_andThen {α β γ δ : Type} {r : Run α} {r' : Run β} {f : α → Parser γ} {g : β → Parser δ} :
    S.parted r r' → (∀ a, Steady (f a)) → (∀ a, Steady (g a)) →
      S.parted (Run.andThen r f) (Run.andThen r' g)
  parted_mapState {α β : Type} {r : Run α} {r' : Run β} {f g : State → State} : S.parted r r' →
    (∀ t : State, t.SameLog (f t) ∧ (f t).cursor = t.cursor) →
      (∀ t : State, t.SameLog (g t) ∧ (g t).cursor = t.cursor) →
        S.parted (mapState f r) (mapState g r')
  parted_reject {α : Type} {s s' : State} (d : Diagnostic) : S.Linked s s' →
    S.parted (reject d s : Run α) (reject d s' : Run α)
  parted_nest {α : Type} {s s' : State} {cost : Nat} {p q : Parser α} : S.Linked s s' →
    s.settings.nestingLimit < s.depth + cost ∨ s'.settings.nestingLimit < s'.depth + cost →
      S.parted (nest cost p s) (nest cost q s')
  astray_andThen {α β γ : Type} {b : Nat} {firm : Bool} {r : Run α} {r' : Run β}
    {f : α → Parser γ} {g : β → Parser γ} : S.astray b r r' → (∃ s', S.frame (lastState r) s') →
      (∃ s, S.frame s (lastState r')) → (lastState r).budget ≤ b → (lastState r').budget ≤ b →
        (∀ a, Steady (f a)) → (∀ a, Steady (g a)) → (∀ a, Stays (S.Left b) firm (f a)) →
          (∀ a, Stays (S.Right b) firm (g a)) →
            S.Agree b firm (Run.andThen r f) (Run.andThen r' g)
  astray_mapState {α β : Type} {b b' : Nat} {r : Run α} {r' : Run β} {f g : State → State} :
    S.astray b r r' → b ≤ b' → (∀ t : State, t.SameLog (f t) ∧ (f t).cursor = t.cursor) →
      (∀ t : State, t.SameLog (g t) ∧ (g t).cursor = t.cursor) →
        S.astray b' (mapState f r) (mapState g r')
  malformedLiteral {b : Nat} {s s' : State} (kind : LiteralKind) (text : String)
    (fault : LiteralFault) (span : Span) : S.Linked s s' →
      S.Agree b true (malformedLiteral kind text fault span s)
        (malformedLiteral kind text fault span s')

variable {S} {aligned : Bool} {b b' : Nat} {firm : Bool}

/-- A first run goes astray in front of `ORDER` only. -/
theorem Left.atOrder (hS : S.Lawful) (s : State) (h : S.Left b s) : s.AtOrder :=
  hS.left_atOrder h.1

/-- So does a second run. -/
theorem Right.atOrder (hS : S.Lawful) (s : State) (h : S.Right b s) : s.AtOrder :=
  hS.right_atOrder h.1

/-- Runs agree as before if neither their reports nor their cursors are changed behind them. -/
theorem Agree.mapState (hS : S.Lawful) {r r' : Run α} {f g : State → State}
    (h : S.Agree b firm r r') (hb : b ≤ b')
    (hf : ∀ t : State, t.SameLog (f t) ∧ (f t).cursor = t.cursor)
    (hg : ∀ t : State, t.SameLog (g t) ∧ (g t).cursor = t.cursor) :
    S.Agree b' firm (Parser.mapState f r) (Parser.mapState g r') := by
  cases h with
  | @ok a t t' hcursor hlog =>
    refine .ok a ?_ (hS.log_same hlog (hf t).1 (hg t').1)
    rw [(hf t).2, (hg t').2]
    exact hcursor
  | parted h => exact .parted (hS.parted_mapState h hf hg)
  | astray hfirm h => exact .astray hfirm (hS.astray_mapState h hb hf hg)

/-- To give a value without a look at anything is compared with itself. -/
theorem rel_pure (a : α) : S.Rel aligned b true (pure a) (pure a) :=
  ⟨steady_pure a, steady_pure a, fun h _ _ _ => .ok a h.cursor h.log⟩

/-- Failures for the same reason are comparable. -/
theorem rel_reject (hS : S.Lawful) (d : Diagnostic) :
    S.Rel aligned b true (reject d : Parser α) (reject d) :=
  ⟨steady_reject d, steady_reject d, fun h _ _ _ => .parted (hS.parted_reject d h)⟩

/-- Runs that agree where the parser is firm agree where it is not. -/
theorem Agree.weaken {r r' : Run α} (h : S.Agree b true r r') : S.Agree b firm r r' := by
  cases h with
  | ok a hcursor hlog => exact .ok a hcursor hlog
  | parted h => exact .parted h
  | astray hfirm h => cases hfirm

/-- Runs that agree go on to runs that agree. -/
theorem Agree.andThen (hS : S.Lawful) {r r' : Run α} {f g : α → Parser β} {open_ : Bool}
    (h : S.Agree b open_ r r') (hframe : S.frame (lastState r) (lastState r'))
    (hb : (lastState r).budget ≤ b) (hb' : (lastState r').budget ≤ b)
    (hf : ∀ a, Steady (f a)) (hg : ∀ a, Steady (g a))
    (hok : ∀ a t t', r = .ok a t → r' = .ok a t' → S.Linked t t' →
      S.Agree b firm (f a t) (g a t'))
    (hl : open_ = false → ∀ a, Stays (S.Left b) firm (f a))
    (hr : open_ = false → ∀ a, Stays (S.Right b) firm (g a)) :
    S.Agree b firm (Run.andThen r f) (Run.andThen r' g) := by
  cases h with
  | @ok a t t' hcursor hlog => exact hok a t t' rfl rfl ⟨hcursor, hframe, hlog⟩
  | parted h => exact .parted (hS.parted_andThen h hf hg)
  | astray hopen h =>
    exact hS.astray_andThen h ⟨_, hframe⟩ ⟨_, hframe⟩ hb hb' hf hg (hl hopen) (hr hopen)

/-- Runs from linked states go on with related parsers to runs that agree. -/
theorem Rel.andThen (hS : S.Lawful) {p q : Parser α} {f g : α → Parser β} {open_ : Bool}
    (hp : S.Rel aligned b open_ p q) {s s' : State} (hs : S.Linked s s') (hb : s.budget ≤ b)
    (hb' : s'.budget ≤ b) (ha : aligned = true → s.Aligned s') (hf : ∀ a, Steady (f a))
    (hg : ∀ a, Steady (g a))
    (hok : ∀ a t t', p s = .ok a t → q s' = .ok a t' → S.Linked t t' → t.budget ≤ b →
      t'.budget ≤ b → (aligned = true → t.Aligned t') → S.Agree b firm (f a t) (g a t'))
    (hl : open_ = false → ∀ a, Stays (S.Left b) firm (f a))
    (hr : open_ = false → ∀ a, Stays (S.Right b) firm (g a)) :
    S.Agree b firm ((p >>= f) s) ((q >>= g) s') := by
  have ht := hp.steadyLeft s
  have ht' := hp.steadyRight s'
  have hbt := ht.budget_le hb
  have hbt' := ht'.budget_le hb'
  have hframe := hS.frame_leads hs.frame ht ht'
  have hagree := hp.agree hs hb hb' ha
  rw [bind_apply_andThen, bind_apply_andThen]
  refine hagree.andThen hS hframe hbt hbt' hf hg (fun a t t' hp hq hlinked => ?_) hl hr
  rw [hp] at ht hbt
  rw [hq] at ht' hbt'
  exact hok a t t' hp hq hlinked hbt hbt' fun h => (ha h).leads ht ht'

/-- Related parsers run one after the other are related, if what follows stays where a run has gone
astray. -/
theorem Rel.bind (hS : S.Lawful) {p q : Parser α} {f g : α → Parser β}
    {open_ : Bool} (hp : S.Rel aligned b open_ p q) (hf : ∀ a, S.Rel aligned b firm (f a) (g a))
    (hl : open_ = false → ∀ a, Stays (S.Left b) firm (f a))
    (hr : open_ = false → ∀ a, Stays (S.Right b) firm (g a)) :
    S.Rel aligned b firm (p >>= f) (q >>= g) :=
  ⟨hp.steadyLeft.bind fun a => (hf a).steadyLeft, hp.steadyRight.bind fun a => (hf a).steadyRight,
    fun hs hb hb' ha => hp.andThen hS hs hb hb' ha (fun a => (hf a).steadyLeft)
      (fun a => (hf a).steadyRight)
      (fun a _ _ _ _ ht hbt hbt' hat => (hf a).agree ht hbt hbt' hat) hl hr⟩

/-- Repeating steps that agree. As many rounds as there are tokens ahead are enough, so that no run
is cut short. -/
theorem rel_loop (hS : S.Lawful) {f g : α → Parser (ForInStep α)}
    (h : ∀ a, S.Rel aligned b firm (f a) (g a)) (hf : firm = false → ∀ a, Waits false (f a))
    (hg : firm = false → ∀ a, Waits false (g a)) (hadv : ∀ a, Advances (f a)) (a : α) :
    S.Rel aligned b firm (loop a f) (loop a g) := by
  have hparted : ∀ (rounds : List Token) (a : α) (s s' : State), S.Linked s s' → s.budget ≤ b →
      s'.budget ≤ b → (aligned = true → s.Aligned s') → s.cursor.ahead.length ≤ rounds.length →
        S.Agree b firm (loopOver f rounds a s) (loopOver g rounds a s') := by
    have hsteady (rounds : List Token) (r : ForInStep α) :
        Steady (loopNext f rounds r) ∧ Steady (loopNext g rounds r) :=
      ⟨steady_loopNext (fun a => (h a).steadyLeft) rounds r,
        steady_loopNext (fun a => (h a).steadyRight) rounds r⟩
    have hleft (rounds : List Token) (hfirm : firm = false) (r : ForInStep α) :
        Stays (S.Left b) firm (loopNext f rounds r) :=
      hfirm ▸ (waits_loopNext (hf hfirm) rounds r).stays (Left.atOrder hS)
    have hright (rounds : List Token) (hfirm : firm = false) (r : ForInStep α) :
        Stays (S.Right b) firm (loopNext g rounds r) :=
      hfirm ▸ (waits_loopNext (hg hfirm) rounds r).stays (Right.atOrder hS)
    -- By induction on the tokens ahead, of which every further round takes at least one.
    intro rounds
    induction rounds with
    | nil =>
      intro a s s' hs hb hb' ha hlen
      rw [loopOver_eq, loopOver_eq]
      refine (h a).andThen hS hs hb hb' ha (fun r => (hsteady _ r).1) (fun r => (hsteady _ r).2)
        (fun r t t' hr hr' ht _ _ _ => ?_) (hleft _) (hright _)
      cases r with
      | done a => exact .ok a ht.cursor ht.log
      | yield a =>
        have hlt := hadv _ s t a hr
        simp only [List.length_nil] at hlen
        omega
    | cons _ rounds ih =>
      intro a s s' hs hb hb' ha hlen
      rw [loopOver_eq, loopOver_eq]
      refine (h a).andThen hS hs hb hb' ha (fun r => (hsteady _ r).1) (fun r => (hsteady _ r).2)
        (fun r t t' hr hr' ht hbt hbt' hat => ?_) (hleft _) (hright _)
      cases r with
      | done a => exact .ok a ht.cursor ht.log
      | yield a =>
        have hlt := hadv _ s t a hr
        simp only [List.length_cons] at hlen
        exact ih a t t' ht hbt hbt' hat (by omega)
  refine ⟨steady_loop (fun a => (h a).steadyLeft) a, steady_loop (fun a => (h a).steadyRight) a,
    fun {s s'} hs hb hb' ha => ?_⟩
  show S.Agree b firm (loopOver f s.cursor.ahead a s) (loopOver g s'.cursor.ahead a s')
  rw [← hs.cursor]
  exact hparted _ a s s' hs hb hb' ha (Nat.le_refl _)

/-! ## Nesting -/

/-- Further levels of nesting leave less of them. -/
theorem deeper_budget_lt {s : State} {cost : Nat} (hcost : 0 < cost)
    (h : s.depth + cost ≤ s.settings.nestingLimit) : (s.deeper cost).budget < s.budget := by
  show s.settings.nestingLimit - (s.depth + cost) < s.settings.nestingLimit - s.depth
  omega

/-- Under further levels of nesting, runs need to agree only where fewer of them are left. -/
theorem agree_nest (hS : S.Lawful) {p q : Parser α} {cost : Nat} (hcost : 0 < cost)
    {s s' : State} (hs : S.Linked s s') (hb : s.budget ≤ b) (hb' : s'.budget ≤ b)
    (h : ∀ b' < b, S.Rel true b' firm p q) : S.Agree b firm (nest cost p s) (nest cost q s') := by
  by_cases hparted : s.settings.nestingLimit < s.depth + cost ∨
      s'.settings.nestingLimit < s'.depth + cost
  · exact .parted (hS.parted_nest hs hparted)
  · obtain ⟨hin, hin'⟩ := not_or.1 hparted
    have hdeep := deeper_budget_lt hcost (Nat.not_lt.1 hin)
    have hdeep' := deeper_budget_lt hcost (Nat.not_lt.1 hin')
    obtain ⟨hframe, haligned⟩ :=
      hS.frame_deeper hs.frame hcost (Nat.not_lt.1 hin) (Nat.not_lt.1 hin')
    have hlog := hS.log_same hs.log (t := s.deeper cost) (v := s'.deeper cost) ⟨rfl, rfl, rfl⟩
      ⟨rfl, rfl, rfl⟩
    rw [nest_apply, nest_apply, if_neg hin, if_neg hin']
    have hlt : max (s.deeper cost).budget (s'.deeper cost).budget < b := by omega
    have hagree := (h _ hlt).agree (s := s.deeper cost) (u := s'.deeper cost)
      ⟨hs.cursor, hframe, hlog⟩ (Nat.le_max_left _ _) (Nat.le_max_right _ _) fun _ => haligned
    exact hagree.mapState hS (Nat.le_of_lt hlt) (fun t => ⟨⟨rfl, rfl, rfl⟩, rfl⟩)
      fun t => ⟨⟨rfl, rfl, rfl⟩, rfl⟩

/-- What is related from all linked states is related from aligned ones. -/
theorem Rel.align {p q : Parser α} (h : S.Rel aligned b firm p q) : S.Rel true b firm p q :=
  ⟨h.steadyLeft, h.steadyRight, fun hs hb hb' ha => h.agree hs hb hb' fun _ => ha rfl⟩

/-- What the rules of expressions are written with respects a comparison of runs. -/
theorem family (hS : S.Lawful) :
    CongruenceFamily (fun aligned s s' => S.Linked s s' ∧ (aligned = true → s.Aligned s')) S.Left
      S.Right (fun aligned b firm _ p q => S.Rel aligned b firm p q) where
  congruence aligned :=
    { cursor := fun h => h.1.cursor
      library := fun h => hS.frame_library h.1.frame
      left_atOrder := Left.atOrder hS
      right_atOrder := Right.atOrder hS
      weaken := fun h => ⟨h.steadyLeft, h.steadyRight,
        fun hs hb hb' ha => (h.agree hs hb hb' ha).weaken⟩
      pure := rel_pure
      bind := fun hp hf => hp.bind hS hf nofun nofun
      bindStays := fun hp hf hl hr => hp.bind hS hf (fun _ => hl) fun _ => hr
      steadyLeft := Rel.steadyLeft
      steadyRight := Rel.steadyRight
      get := fun hf hg h => ⟨steady_get_bind hf, steady_get_bind hg,
        fun {s s'} hs hb hb' ha => (h s s' ⟨hs, ha⟩).agree hs hb hb' ha⟩
      reject := rel_reject hS
      skip := fun n => ⟨steady_skip n, steady_skip n, fun {s s'} hs _ _ _ =>
        .ok () (congrArg (Cursor.skip n) hs.cursor)
          (hS.log_same hs.log ⟨rfl, rfl, rfl⟩ ⟨rfl, rfl, rfl⟩)⟩
      loop := fun a h hf hg hadv _ => rel_loop hS h hf hg hadv a
      nest := fun hcost hp hq h => ⟨hp.nest, hq.nest, fun hs hb hb' _ =>
        agree_nest hS hcost hs hb hb' fun b' hlt => (h b' hlt).align⟩
      malformedLiteral := fun kind text fault span => ⟨steady_malformedLiteral _ _ _ _,
        steady_malformedLiteral _ _ _ _, fun hs _ _ _ => hS.malformedLiteral _ _ _ _ hs⟩ }
  align := Rel.align
  nestAligned hp hq h := ⟨hp.nest, hq.nest, fun hs hb hb' _ =>
    agree_nest hS (by decide) hs hb hb' h⟩
  separator h test := (h.2 rfl).isSeparator test

theorem Rel.separateHere (hS : S.Lawful) {p q : Parser α} (h : S.Rel true b firm p q) :
    S.Rel true b firm (separateHere p) (separateHere q) := by
  refine ⟨h.steadyLeft.separateHere, h.steadyRight.separateHere, fun {s s'} hs hb hb' _ => ?_⟩
  have hlog := hS.log_same hs.log (t := s.separatingHere) (v := s'.separatingHere) ⟨rfl, rfl, rfl⟩
    ⟨rfl, rfl, rfl⟩
  have hagree := h.agree (s := s.separatingHere) (u := s'.separatingHere)
    ⟨hs.cursor, hS.frame_separatingHere hs.frame, hlog⟩ hb hb' fun _ => ⟨fun _ => rfl, fun _ => rfl⟩
  exact hagree.mapState hS (Nat.le_refl b) (fun t => ⟨⟨rfl, rfl, rfl⟩, rfl⟩)
    fun t => ⟨⟨rfl, rfl, rfl⟩, rfl⟩

/-- The substring of `POSITION` may be compared as an expression is, where states stay linked in it. -/
theorem Rel.atSeparator (hS : S.Lawful) {p q : Parser α} (h : S.Rel false b firm p q)
    (hframe : ∀ {s s' : State}, S.frame s s' → S.frame s.separating s'.separating) :
    S.Rel false b firm (atSeparator p) (atSeparator q) := by
  refine ⟨h.steadyLeft.atSeparator, h.steadyRight.atSeparator, fun {s s'} hs hb hb' _ => ?_⟩
  have hlog := hS.log_same hs.log (t := s.separating) (v := s'.separating) ⟨rfl, rfl, rfl⟩
    ⟨rfl, rfl, rfl⟩
  have hagree := h.agree (s := s.separating) (u := s'.separating)
    ⟨hs.cursor, hframe hs.frame, hlog⟩ hb hb' nofun
  rw [atSeparator_apply, atSeparator_apply]
  exact hagree.mapState hS (Nat.le_refl b) (fun t => ⟨⟨rfl, rfl, rfl⟩, rfl⟩)
    fun t => ⟨⟨rfl, rfl, rfl⟩, rfl⟩

/-- The substring of `POSITION` may be compared where expressions under fewer levels can. -/
theorem rel_atSeparator (hS : S.Lawful) {p q : Parser α} (hp : Steady p) (hq : Steady q)
    (h : ∀ b' < b, S.Rel true b' firm p q) :
    S.Rel false b firm (atSeparator (nest 1 p)) (atSeparator (nest 1 q)) := by
  rw [atSeparator_nest, atSeparator_nest]
  exact (family hS).nestAligned hp.separateHere hq.separateHere
    fun b' hb => (h b' hb).separateHere hS

/-! ## Queries -/

/-- What makes the rules of queries respect a comparison of runs as well. -/
structure QueryLawful (S : Simulation) : Prop where
  frame_enclosed {s s' : State} : S.frame s s' → S.frame s.enclosed s'.enclosed
  recover {α : Type} {b : Nat} {firm : Bool} {p q : Parser α} {s s' : State} : Steady p → Steady q →
    S.frame s s' → S.Agree b firm (p s) (q s') → S.Agree b firm (recover p s) (recover q s')
  clauseEnd {b : Nat} {s s' : State} : S.Linked s s' → S.Agree b true (clauseEnd s) (clauseEnd s')

/-- A lawful comparison of runs is respected by all that the rules of queries are written with. -/
theorem query_congruence (hS : S.Lawful) (hquery : S.QueryLawful) :
    QueryCongruence (fun s s' => S.Linked s s' ∧ (false = true → s.Aligned s')) S.Left S.Right
      (fun b firm _ p q => S.Rel false b firm p q) where
  toNestingCongruence := (family hS).congruence false
  subquery := fun {b firm α p q} h => ⟨h.steadyLeft.subquery, h.steadyRight.subquery,
    fun {s s'} hs hb hb' _ => by
      have hlog := hS.log_same hs.log (t := s.enclosed) (v := s'.enclosed) ⟨rfl, rfl, rfl⟩
        ⟨rfl, rfl, rfl⟩
      have hagree := h.agree (s := s.enclosed) (u := s'.enclosed)
        ⟨hs.cursor, hquery.frame_enclosed hs.frame, hlog⟩ hb hb' nofun
      rw [subquery_apply, subquery_apply]
      exact hagree.mapState hS (Nat.le_refl b) (fun t => ⟨⟨rfl, rfl, rfl⟩, rfl⟩)
        fun t => ⟨⟨rfl, rfl, rfl⟩, rfl⟩⟩
  recover := fun h => ⟨h.steadyLeft.recover, h.steadyRight.recover, fun hs hb hb' ha =>
    hquery.recover h.steadyLeft h.steadyRight hs.frame (h.agree hs hb hb' ha)⟩
  clauseEnd := ⟨steady_clauseEnd, steady_clauseEnd, fun hs _ _ _ => hquery.clauseEnd hs⟩

/-! ## Callees that run the rules -/

end Simulation

/-- A callee that runs the rule of each nonterminal. -/
structure Closed (c : Callee) : Prop where
  eq_rule {α : Type} (n : Nonterminal α) : c n = rule c n
  steady {α : Type} (n : Nonterminal α) : Steady (c n)

/-- A callee that runs the rules reads no filter in front of `ORDER`. -/
theorem Closed.waits_filter {c : Callee} (hc : Closed c) : Waits true (c .filter) := by
  rw [hc.eq_rule]
  exact (waits_keyword (by decide)).bind_firm

namespace Simulation

variable {S : Simulation} {c : Callee}

/-- Attempts at a filter behind an order agree if what they attempt does. -/
def ComparesAttempts (S : Simulation) (c : Callee) : Prop :=
  ∀ b, S.Rel false b true (orderedFilter c) (orderedFilter c) →
    S.Rel false b false (attempt "ordered aggregate filter" (orderedFilter c))
      (attempt "ordered aggregate filter" (orderedFilter c))

theorem callees (hS : S.Lawful) (hc : Closed c) (hattempt : S.ComparesAttempts c)
    {b : Nat} (hstops : S.Rel false b false (c .orderBy) (c .orderBy) →
      StopsAtFilter (S.Left b) c ∧ StopsAtFilter (S.Right b) c) :
    Callees S.Left S.Right (fun aligned b firm _ p q => S.Rel aligned b firm p q) b c c where
  steadyLeft := hc.steady
  steadyRight := hc.steady
  separating _ hdeep := by
    rw [hc.eq_rule .wholeExpr]
    have hsteady := steady_congruence.exprBody (b := 0) (c := c) (d := c)
      (fun _ => ⟨hc.steady _, hc.steady _⟩) ⟨hc.steady _, hc.steady _⟩ 0
    exact rel_atSeparator hS hsteady.1 hsteady.2 fun b' hb =>
      ((family hS).congruence true).exprBody (fun m => (hdeep b' hb (.expr m) rfl).align)
        (hdeep b' hb (.predicate 0) rfl) 0
  attempt := hattempt b
  waitsLeft := hc.waits_filter
  waitsRight := hc.waits_filter
  window hexpr horder :=
    ((family hS).congruence false).windowRule hexpr horder (hstops horder).1 (hstops horder).2

/-- Runs of the rules of expressions agree. -/
theorem related_expr (hS : S.Lawful) (hc : Closed c) (hattempt : S.ComparesAttempts c)
    (hstops : ∀ b, S.Rel false b false (c .orderBy) (c .orderBy) →
      StopsAtFilter (S.Left b) c ∧ StopsAtFilter (S.Right b) c)
    (b : Nat) {α : Type} (n : Nonterminal α) (hn : n.isQuery = false) :
    S.Rel n.isPredicate b n.firm (c n) (c n) := by
  induction b using Nat.strongRecOn generalizing α n with
  | ind b ihb =>
    induction hr : n.rank using Nat.strongRecOn generalizing α n with
    | ind r ihr =>
      rw [hc.eq_rule]
      exact (family hS).exprRule (callees hS hc hattempt (hstops b)) n hn
        (fun m hm hlt => ihr m.rank (hr ▸ Nonterminal.isAbove_iff.1 hlt) m hm rfl)
        fun b' hb _ m hm => ihb b' hb m hm

/-- Runs of all rules agree. -/
theorem related (hS : S.Lawful) (hquery : S.QueryLawful) (hc : Closed c)
    (hattempt : S.ComparesAttempts c)
    (hstops : ∀ b, S.Rel false b false (c .orderBy) (c .orderBy) →
      StopsAtFilter (S.Left b) c ∧ StopsAtFilter (S.Right b) c)
    (hfails : ∀ b s, S.Left b s ∨ S.Right b s → s.isRecovering = false)
    (b : Nat) {α : Type} (n : Nonterminal α) : S.Rel n.isPredicate b n.firm (c n) (c n) := by
  induction b using Nat.strongRecOn generalizing α n with
  | ind b ihb =>
    induction hr : n.rank using Nat.strongRecOn generalizing α n with
    | ind r ihr =>
      rw [hc.eq_rule]
      refine (family hS).queryRule (query_congruence hS hquery)
        (callees hS hc hattempt (hstops b)) (fun horder allowed => ?_) n
        (fun m hlt => ihr m.rank (hr ▸ Nonterminal.isAbove_iff.1 hlt) m rfl)
        fun b' hb _ m => ihb b' hb m
      obtain ⟨hleft, hright⟩ := hstops b horder
      exact ⟨hleft.clause (Left.atOrder hS) (hc.steady _) (fun s hs => hfails b s (.inl hs)) _,
        hright.clause (Right.atOrder hS) (hc.steady _) (fun s hs => hfails b s (.inr hs)) _⟩

end Simulation

end SearchSql.Grammar
