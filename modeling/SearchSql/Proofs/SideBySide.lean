import SearchSql.Proofs.ClauseIsolation
import SearchSql.Proofs.Limits
import SearchSql.Proofs.Rounds

/-!
# Runs side by side

Two texts that begin in different ways and then go on with the same tokens are read alike from there
on. Their runs stand in front of the same tokens at other places (`State.Beside`), and end in front of
the same tokens, with values that are related, or fail both (`Ends`). The relation is that of the
values that came before: what is built around them is built on both sides.

A rule that only sees the tokens ahead gives values that differ in their places (`sides_read`). Where
the second run is nested more deeply, it may meet the limit of nesting (`ends_deeper`); nothing is
said about the values then.
-/

set_option autoImplicit false

namespace SearchSql.Grammar

open SearchSql.Grammar.Parser

variable {α β γ δ : Type}

/-! ## Runs that meet the limit -/

/-- A run that has met the limit goes on as one that has. -/
theorem MetLimit.andThen {r : Run α} {f : α → Parser β} (h : MetLimit r) (hf : ∀ a, Steady (f a)) :
    MetLimit (Run.andThen r f) := by
  obtain ⟨d, t, rfl, hkind⟩ | h := h
  · exact .inl ⟨d, t, rfl, hkind⟩
  · exact .inr (h.leads (leads_andThen hf))

/-- It has met the limit if its state is changed behind it. -/
theorem MetLimit.mapState {r : Run α} {f : State → State} (h : MetLimit r)
    (hf : ∀ t, (f t).events = t.events) : MetLimit (mapState f r) := by
  obtain ⟨d, t, rfl, hkind⟩ | ⟨rule, d, hkind, hmem⟩ := h
  · exact .inl ⟨d, f t, rfl, hkind⟩
  · refine .inr ⟨rule, d, hkind, ?_⟩
    rw [lastState_mapState, hf]
    exact hmem

/-- The limit of nesting is no error that is passed over. -/
theorem MetLimit.recover {p : Parser α} {s : State} (h : MetLimit (p s)) :
    MetLimit (recover p s) := by
  obtain ⟨d, t, hrun, hkind⟩ | h := h
  · have hstopped : StoppedTooDeep t.diagnostics (p s) := ⟨d, t, hrun, hkind, rfl⟩
    obtain ⟨d', t', hrun', hkind', -⟩ := hstopped.recover
    exact .inl ⟨d', t', hrun', hkind'⟩
  · exact .inr (h.leads (leads_recover p s))

/-! ## States side by side -/

section

variable {rest : List Token} {cost : Nat} {s s' t t' : State}

/-- Two states that differ in what they stand in front of. The second is nested `cost` levels
deeper. -/
structure State.Abreast (cost : Nat) (s s' : State) : Prop where
  frame : (s.deeper cost).SameFrame s'
  strict : s.settings.recover = false
  settled : s.Settled

/-- Two states in front of the same tokens among `rest`, wherever these stand. -/
structure State.Beside (rest : List Token) (cost : Nat) (s s' : State) : Prop
    extends s.Abreast cost s' where
  tokens : ∃ tokens, tokens <:+ rest ∧ s.Faces tokens ∧ s'.Faces tokens

/-- States abreast stay abreast along two runs. -/
theorem State.Abreast.leads (h : s.Abreast cost s') (ht : s.Leads t) (ht' : s'.Leads t') :
    t.Abreast cost t' where
  frame := by
    refine ⟨?_, ?_, ?_, ?_, ?_, ?_⟩
    · rw [ht'.settings, ← h.frame.settings]
      exact ht.settings
    · rw [ht'.library, ← h.frame.library]
      exact ht.library
    · rw [ht'.depth, ← h.frame.depth]
      exact congrArg (· + cost) ht.depth
    · rw [ht'.attempts, ← h.frame.attempts]
      exact ht.attempts
    · rw [ht'.subqueries, ← h.frame.subqueries]
      exact ht.subqueries
    · rw [ht'.separatorDepth, ← h.frame.separatorDepth]
      exact ht.separatorDepth
  strict := ht.settings ▸ h.strict
  settled := h.settled.leads ht

/-- Neither of them recovers. -/
theorem State.Abreast.notRecovering (h : s.Abreast cost s') :
    s.isRecovering = false ∧ s'.isRecovering = false :=
  ⟨notRecovering_of_strict h.strict, notRecovering_of_strict (h.frame.settings ▸ h.strict)⟩

/-- More levels of nesting may be in use in both. -/
theorem State.Abreast.deeper (h : s.Abreast 0 s') (levels : Nat) :
    (s.deeper levels).Abreast 0 (s'.deeper levels) where
  frame := h.frame.deeper levels
  strict := h.strict
  settled := h.settled.deeper levels

/-- States side by side have tokens of the same kinds ahead. -/
theorem State.Beside.kindAt (h : s.Beside rest cost s') (k : Nat) :
    kindAt s'.cursor.ahead k = kindAt s.cursor.ahead k := by
  obtain ⟨tokens, -, hs, hs'⟩ := h.tokens
  rw [hs.kindAt, hs'.kindAt]

theorem State.Beside.peek (h : s.Beside rest cost s') (k : Nat) :
    (s'.cursor.peek k).kind = (s.cursor.peek k).kind := by
  rw [← kindAt_ahead, ← kindAt_ahead, h.kindAt]

theorem State.Beside.current (h : s.Beside rest cost s') :
    s'.cursor.current.kind = s.cursor.current.kind := by
  rw [← kindAt_zero, ← kindAt_zero, h.kindAt]

/-- They have as many tokens ahead. -/
theorem State.Beside.length (h : s.Beside rest cost s') :
    s'.cursor.ahead.length = s.cursor.ahead.length := by
  obtain ⟨tokens, -, hs, hs'⟩ := h.tokens
  rw [hs.length, hs'.length]

/-- These are among the tokens that both share. -/
theorem State.Beside.length_le (h : s.Beside rest cost s') :
    s.cursor.ahead.length ≤ rest.length := by
  obtain ⟨tokens, hsuffix, hs, -⟩ := h.tokens
  rw [hs.length]
  exact hsuffix.length_le

/-- Runs from two states that end in front of the same tokens. -/
theorem State.Beside.leads (h : s.Beside rest cost s') (ht : s.Leads t) (ht' : s'.Leads t')
    {tokens : List Token} (hfaces : t.Faces tokens) (hfaces' : t'.Faces tokens) :
    t.Beside rest cost t' where
  toAbreast := h.toAbreast.leads ht ht'
  tokens := by
    obtain ⟨before, hsuffix, hs, -⟩ := h.tokens
    refine ⟨tokens, ?_, hfaces, hfaces'⟩
    have hahead := ht.ahead.map Token.placeless
    rw [show _ = tokens from hfaces, show _ = before from hs] at hahead
    exact hahead.trans hsuffix

/-- Both states move over the token under their cursors. -/
theorem State.Beside.skip_one (h : s.Beside rest cost s') :
    (s.skip 1).Beside rest cost (s'.skip 1) := by
  obtain ⟨tokens, -, hs, hs'⟩ := h.tokens
  cases hend : s.cursor.current.isEnd with
  | true =>
    have hend' : s'.cursor.current.isEnd = true := by
      rw [← hend]
      exact congrArg (· == .endOfInput) h.current
    have hstays {u : State} (hu : u.cursor.current.isEnd = true) : (u.skip 1).cursor = u.cursor :=
      Cursor.advance_of_isEnd hu
    have hfaces : (s.skip 1).Faces tokens := by
      unfold State.Faces
      rw [hstays hend]
      exact hs
    have hfaces' : (s'.skip 1).Faces tokens := by
      unfold State.Faces
      rw [hstays hend']
      exact hs'
    exact h.leads (s.leads_skip 1) (s'.leads_skip 1) hfaces hfaces'
  | false =>
    cases tokens with
    | nil =>
      have hkind : s.cursor.current.kind = .endOfInput := hs.current
      exact absurd (beq_iff_eq.2 hkind) (Bool.eq_false_iff.1 hend)
    | cons u tokens =>
      have hu : u.isEnd = false := by
        rw [← hend, ← hs.current_placeless]
        rfl
      exact h.leads (s.leads_skip 1) (s'.leads_skip 1) (hs.skip hu) (hs'.skip hu)

/-- Both may pass tokens. -/
theorem State.Beside.skip (h : s.Beside rest cost s') (n : Nat) :
    (s.skip n).Beside rest cost (s'.skip n) := by
  induction n generalizing s s' with
  | zero => exact h
  | succ n ih => exact ih h.skip_one

/-! ## Runs side by side -/

/-- Two runs end in front of the same tokens with related values, or fail both. Nothing is said of
runs that meet the limit of nesting. -/
inductive Ends (rest : List Token) (cost : Nat) (R : α → β → Prop) : Run α → Run β → Prop where
  | ok {a : α} {b : β} {t t' : State} : R a b → t.Beside rest cost t' →
      Ends rest cost R (.ok a t) (.ok b t')
  | failed {e e' : Failure} {t t' : State} : Ends rest cost R (.error e t) (.error e' t')
  | limited {r : Run α} {r' : Run β} : MetLimit r ∨ MetLimit r' → Ends rest cost R r r'

/-- Parsers whose runs from states side by side end alike. -/
structure Sides (rest : List Token) (cost : Nat) (R : α → β → Prop) (p : Parser α) (q : Parser β) :
    Prop where
  left : Steady p
  right : Steady q
  ends {s s' : State} : s.Beside rest cost s' → Ends rest cost R (p s) (q s')

variable {R : α → β → Prop} {S : γ → δ → Prop}

/-- Runs that end alike go on alike. -/
theorem Ends.andThen {r : Run α} {r' : Run β} {f : α → Parser γ} {g : β → Parser δ}
    (h : Ends rest cost R r r') (hf : ∀ a, Steady (f a)) (hg : ∀ b, Steady (g b))
    (hends : ∀ a b t t', r = .ok a t → r' = .ok b t' → R a b → t.Beside rest cost t' →
      Ends rest cost S (f a t) (g b t')) :
    Ends rest cost S (Run.andThen r f) (Run.andThen r' g) := by
  cases h with
  | ok hab ht => exact hends _ _ _ _ rfl rfl hab ht
  | failed => exact .failed
  | limited h => exact .limited (h.imp (·.andThen hf) (·.andThen hg))

/-- Parsers run one after the other end alike if both parts do. -/
theorem Ends.bind {p : Parser α} {q : Parser β} {f : α → Parser γ} {g : β → Parser δ}
    (h : Ends rest cost R (p s) (q s')) (hf : ∀ a, Steady (f a)) (hg : ∀ b, Steady (g b))
    (hends : ∀ a b t t', p s = .ok a t → q s' = .ok b t' → R a b → t.Beside rest cost t' →
      Ends rest cost S (f a t) (g b t')) :
    Ends rest cost S ((p >>= f) s) ((q >>= g) s') := by
  rw [bind_apply_andThen, bind_apply_andThen]
  exact h.andThen hf hg hends

/-- Values that are related are related in any weaker way. -/
theorem Ends.imp {R' : α → β → Prop} {r : Run α} {r' : Run β} (h : Ends rest cost R r r')
    (himp : ∀ a b, R a b → R' a b) : Ends rest cost R' r r' := by
  cases h with
  | ok hab ht => exact .ok (himp _ _ hab) ht
  | failed => exact .failed
  | limited h => exact .limited h

/-- Values may be changed on both sides. -/
theorem Ends.map {p : Parser α} {q : Parser β} {f : α → γ} {g : β → δ}
    (h : Ends rest cost R (p s) (q s')) (hfg : ∀ a b, R a b → S (f a) (g b)) :
    Ends rest cost S ((f <$> p) s) ((g <$> q) s') :=
  h.bind (fun _ => steady_pure _) (fun _ => steady_pure _)
    fun a b _ _ _ _ hab ht => .ok (hfg a b hab) ht

/-- Runs that use up as many further levels. -/
theorem Ends.nest {p : Parser α} {q : Parser β} {levels : Nat} (hp : Steady p) (hq : Steady q)
    (hs : s.Abreast cost s')
    (h : Ends rest cost R (p (s.deeper levels)) (q (s'.deeper levels))) :
    Ends rest cost R (nest levels p s) (nest levels q s') := by
  have hleads : s.Leads (lastState (Parser.nest levels p s)) := hp.nest s
  have hleads' : s'.Leads (lastState (Parser.nest levels q s')) := hq.nest s'
  rw [nest_apply] at hleads hleads' ⊢
  rw [nest_apply]
  by_cases hroom : s.settings.nestingLimit < s.depth + levels
  · rw [if_pos hroom]
    exact .limited (.inl (.inl ⟨_, s, rfl, rfl⟩))
  by_cases hroom' : s'.settings.nestingLimit < s'.depth + levels
  · rw [if_pos hroom']
    exact .limited (.inr (.inl ⟨_, s', rfl, rfl⟩))
  rw [if_neg hroom] at hleads ⊢
  rw [if_neg hroom'] at hleads' ⊢
  generalize p (s.deeper levels) = r at h hleads
  generalize q (s'.deeper levels) = r' at h hleads'
  cases h with
  | ok hab ht =>
    exact .ok hab ⟨hs.leads hleads hleads', ht.tokens⟩
  | failed => exact .failed
  | limited h => exact .limited (h.imp (·.mapState fun _ => rfl) (·.mapState fun _ => rfl))

/-- Where nothing is recovered from, both runs fail or none does. -/
theorem Ends.recover {p : Parser α} {q : Parser β} (hp : Steady p) (hq : Steady q)
    (hs : s.Abreast cost s') (h : Ends rest cost R (p s) (q s')) :
    Ends rest cost (Option.Rel R) (recover p s) (recover q s') := by
  obtain ⟨hstrict, hstrict'⟩ := hs.notRecovering
  generalize hr : p s = r at h
  generalize hr' : q s' = r' at h
  cases h with
  | @ok a b t t' hab ht =>
    rw [(recover_eq_ok_iff hp hstrict).2 ⟨a, hr, rfl⟩, (recover_eq_ok_iff hq hstrict').2 ⟨b, hr', rfl⟩]
    exact .ok (.some hab) ht
  | failed =>
    rw [recover_of_error hp hstrict hr, recover_of_error hq hstrict' hr']
    exact .failed
  | limited h => exact .limited (h.imp (fun h => (hr ▸ h).recover) fun h => (hr' ▸ h).recover)

theorem steady_progress (rule : String) (before : Nat) (item : α) :
    Steady (progress rule before item) := by
  refine steady_get_bind fun t => ?_
  dsimp only
  split
  · exact steady_current_bind fun _ => (steady_reject _).bind fun _ => steady_pure _
  · exact steady_pure _

/-- What ends within `rest` has taken a token, if it begins in front of more. -/
theorem Ends.taking {rule : String} {p : Parser α} {q : Parser β} (hp : Steady p) (hq : Steady q)
    (hlt : rest.length < s.cursor.ahead.length) (hlt' : rest.length < s'.cursor.ahead.length)
    (h : Ends rest cost R (p s) (q s')) :
    Ends rest cost R (taking rule p s) (taking rule q s') := by
  rw [taking_eq, taking_eq, get_bind_apply, get_bind_apply]
  refine h.bind (fun _ => steady_progress _ _ _) (fun _ => steady_progress _ _ _)
    fun a b t t' hr hr' hab ht => ?_
  have htaken : Parser.taking rule p s = .ok a t :=
    taking_of_ok hp hr (Nat.lt_of_le_of_lt ht.length_le hlt)
  have htaken' : Parser.taking rule q s' = .ok b t' :=
    taking_of_ok hq hr' (Nat.lt_of_le_of_lt (ht.length ▸ ht.length_le) hlt')
  rw [taking_eq, get_bind_apply, bind_of_ok hr] at htaken
  rw [taking_eq, get_bind_apply, bind_of_ok hr'] at htaken'
  rw [htaken, htaken']
  exact .ok hab ht

/-! ## Parsers side by side -/

/-- Related values are given on both sides. -/
theorem sides_pure {a : α} {b : β} (hab : R a b) : Sides rest cost R (pure a) (pure b) :=
  ⟨steady_pure a, steady_pure b, fun hs => .ok hab hs⟩

/-- Values that are related to themselves go on alike. -/
theorem Sides.bind {R : α → α → Prop} {p q : Parser α} {f : α → Parser γ} {g : α → Parser δ}
    (h : Sides rest cost R p q) (hrefl : ∀ a, R a a)
    (hfg : ∀ a b, R a b → Sides rest cost S (f a) (g b)) : Sides rest cost S (p >>= f) (q >>= g) := by
  have hf (a : α) : Steady (f a) := (hfg a a (hrefl a)).left
  have hg (a : α) : Steady (g a) := (hfg a a (hrefl a)).right
  exact ⟨h.left.bind hf, h.right.bind hg,
    fun hs => (h.ends hs).bind hf hg fun a b _ _ _ _ hab ht => (hfg a b hab).ends ht⟩

/-- Values may be changed on both sides. -/
theorem Sides.map {p : Parser α} {q : Parser β} {f : α → γ} {g : β → δ}
    (h : Sides rest cost R p q) (hfg : ∀ a b, R a b → S (f a) (g b)) :
    Sides rest cost S (f <$> p) (g <$> q) :=
  ⟨h.left.bind fun _ => steady_pure _, h.right.bind fun _ => steady_pure _,
    fun hs => (h.ends hs).map hfg⟩

/-- The token in front is of the same kind on both sides. -/
theorem sides_current_bind {f : Token → Parser α} {g : Token → Parser β}
    (hfg : ∀ t t', t'.kind = t.kind → Sides rest cost R (f t) (g t')) :
    Sides rest cost R (current >>= f) (current >>= g) :=
  ⟨steady_current_bind fun t => (hfg t t rfl).left, steady_current_bind fun t => (hfg t t rfl).right,
    fun hs => (hfg _ _ hs.current).ends hs⟩

theorem sides_skip (n : Nat) : Sides rest cost (fun _ _ => True) (Parser.skip n) (Parser.skip n) :=
  ⟨steady_skip n, steady_skip n, fun hs => .ok trivial (hs.skip n)⟩

theorem sides_spanFrom (start start' : Span) :
    Sides rest cost (fun _ _ => True) (spanFrom start) (spanFrom start') :=
  ⟨steady_spanFrom start, steady_spanFrom start', fun hs => .ok trivial hs⟩

/-- A sign is taken on both sides or refused on both. -/
theorem sides_symbol (sign : Symbol) :
    Sides rest cost (fun _ _ => True) (symbol sign) (symbol sign) := by
  refine ⟨steady_symbol sign, steady_symbol sign, fun {s s'} hs => ?_⟩
  unfold symbol
  rw [atSymbol_bind_apply, atSymbol_bind_apply, hs.current]
  cases s.cursor.current.kind == .symbol sign with
  | true => exact .ok trivial hs.skip_one
  | false => exact .failed

/-- So is a reserved word. -/
theorem sides_keyword (word : Keyword) :
    Sides rest cost (fun _ _ => True) (keyword word) (keyword word) := by
  refine ⟨steady_keyword word, steady_keyword word, fun {s s'} hs => ?_⟩
  unfold keyword
  rw [atKeyword_bind_apply, atKeyword_bind_apply, hs.current]
  cases s.cursor.current.kind == .keyword word with
  | true => exact .ok trivial hs.skip_one
  | false => exact .failed

/-- A sign that may stand here is taken on both sides or on neither. -/
theorem sides_takeSymbol (sign : Symbol) :
    Sides rest cost Eq (takeSymbol sign) (takeSymbol sign) := by
  refine ⟨steady_takeSymbol sign, steady_takeSymbol sign, fun {s s'} hs => ?_⟩
  unfold takeSymbol takeIf
  rw [atSymbol_bind_apply, atSymbol_bind_apply, hs.current]
  cases s.cursor.current.kind == .symbol sign with
  | true => exact .ok rfl hs.skip_one
  | false => exact .ok rfl hs

theorem sides_atKeyword (word : Keyword) : Sides rest cost Eq (atKeyword word) (atKeyword word) :=
  sides_current_bind fun _ _ hkind => sides_pure (by rw [hkind])

/-- Neither side recovers. -/
theorem Sides.recover {p : Parser α} {q : Parser β} (h : Sides rest cost R p q) :
    Sides rest cost (Option.Rel R) (recover p) (recover q) :=
  ⟨h.left.recover, h.right.recover, fun hs => (h.ends hs).recover h.left h.right hs.toAbreast⟩

/-- A clause ends on both sides or fails on both. -/
theorem sides_clauseEnd : Sides rest cost (fun _ _ => True) clauseEnd clauseEnd := by
  refine ⟨steady_clauseEnd, steady_clauseEnd, fun {s s'} hs => ?_⟩
  have hboundary : s'.atBoundary = s.atBoundary := by
    unfold State.atBoundary
    rw [hs.current, ← hs.frame.subqueries]
    rfl
  unfold clauseEnd
  rw [get_bind_apply, get_bind_apply, hboundary]
  cases s.atBoundary with
  | true => exact .ok trivial hs
  | false =>
    show Ends rest cost _ ((current >>= _) s) ((current >>= _) s')
    rw [current_bind_apply, current_bind_apply, passOver_apply hs.notRecovering.1,
      passOver_apply hs.notRecovering.2]
    exact .failed

/-- What a step of a repetition answers on both sides. -/
inductive StepsAlike (R : α → β → Prop) : ForInStep α → ForInStep β → Prop where
  | done {a : α} {b : β} : R a b → StepsAlike R (.done a) (.done b)
  | yield {a : α} {b : β} : R a b → StepsAlike R (.yield a) (.yield b)

/-- Steps that answer alike are repeated alike, for as many rounds as there are tokens. -/
theorem ends_loopOver {step : α → Parser (ForInStep α)} {step' : β → Parser (ForInStep β)}
    (hsteady : ∀ a, Steady (step a)) (hsteady' : ∀ b, Steady (step' b))
    (h : ∀ a b, R a b → Sides rest cost (StepsAlike R) (step a) (step' b)) {rounds rounds' : List Token}
    (hlength : rounds'.length = rounds.length) {a : α} {b : β} (hab : R a b)
    (hs : s.Beside rest cost s') :
    Ends rest cost R (loopOver step rounds a s) (loopOver step' rounds' b s') := by
  induction rounds generalizing rounds' a b s s' with
  | nil =>
    obtain rfl := List.length_eq_zero_iff.1 hlength
    rw [loopOver_eq, loopOver_eq]
    refine ((h a b hab).ends hs).bind (steady_loopNext hsteady _) (steady_loopNext hsteady' _)
      fun r r' t t' _ _ hr ht => ?_
    cases hr with
    | done hab => exact .ok hab ht
    | yield _ => exact .failed
  | cons _ rounds ih =>
    obtain ⟨_, rounds', rfl⟩ := List.exists_cons_of_length_eq_add_one hlength
    rw [loopOver_eq, loopOver_eq]
    refine ((h a b hab).ends hs).bind (steady_loopNext hsteady _) (steady_loopNext hsteady' _)
      fun r r' t t' _ _ hr ht => ?_
    cases hr with
    | done hab => exact .ok hab ht
    | yield hab => exact ih (Nat.succ.inj hlength) hab ht

/-- Repetitions make as many rounds on both sides. -/
theorem sides_loop {step : α → Parser (ForInStep α)} {step' : β → Parser (ForInStep β)}
    (hsteady : ∀ a, Steady (step a)) (hsteady' : ∀ b, Steady (step' b))
    (h : ∀ a b, R a b → Sides rest cost (StepsAlike R) (step a) (step' b)) {a : α} {b : β}
    (hab : R a b) : Sides rest cost R (loop a step) (loop b step') :=
  ⟨steady_loop hsteady a, steady_loop hsteady' b,
    fun hs => ends_loopOver hsteady hsteady' h hs.length hab hs⟩

/-! ## Lists side by side -/

/-- A token is taken on both sides or on neither. -/
theorem Sides.taking {p : Parser α} {q : Parser β} (h : Sides rest cost R p q) (rule : String) :
    Sides rest cost R (taking rule p) (taking rule q) := by
  refine ⟨steady_taking rule h.left, steady_taking rule h.right, fun {s s'} hs => ?_⟩
  rw [taking_eq, taking_eq, get_bind_apply, get_bind_apply]
  refine (h.ends hs).bind (fun _ => steady_progress _ _ _) (fun _ => steady_progress _ _ _)
    fun a b t t' hr hr' hab ht => ?_
  -- As many tokens are taken on both sides.
  have hmoved {u v : State} (huv : u.Leads v) : v.cursor.position = u.cursor.position ↔
      v.cursor.ahead.length = u.cursor.ahead.length := by
    have hall := congrArg List.length huv.allTokens
    simp only [Cursor.allTokens, List.length_append, List.length_reverse,
      List.length_singleton] at hall
    unfold Cursor.position
    omega
  have hiff : t'.cursor.position = s'.cursor.position ↔ t.cursor.position = s.cursor.position := by
    rw [hmoved (h.right.leads hr'), hmoved (h.left.leads hr), ht.length, hs.length]
  unfold progress
  rw [get_bind_apply, get_bind_apply]
  by_cases hstays : t.cursor.position = s.cursor.position
  · rw [if_pos hstays, if_pos (hiff.2 hstays)]
    exact .failed
  · rw [if_neg hstays, if_neg (mt hiff.1 hstays)]
    exact .ok hab ht

variable {seen : α → δ} {first first' next : Parser α} {rule : String} {change : α → α}

/-- A list goes on with a comma on both sides or on neither. -/
theorem sides_commaStep (h : Sides rest cost (fun a b => seen b = seen a) next next)
    (items items' : List α) (hitems : items'.map seen = items.map seen) :
    Sides rest cost (StepsAlike fun l l' => l'.map seen = l.map seen) (commaStep rule next items)
      (commaStep rule next items') := by
  refine (sides_takeSymbol .comma).bind (fun _ => rfl) fun found _ hfound => ?_
  subst hfound
  cases found with
  | true =>
    refine (h.taking rule).map fun a b hab => .yield ?_
    rw [List.map_cons, List.map_cons, hitems, hab]
  | false => exact sides_pure (.done hitems)

/-- Lists whose first items are related, and whose other items look the same. -/
theorem ends_commaList
    (h : Ends rest cost (fun a b => seen b = seen (change a)) (taking rule first s)
      (taking rule first' s'))
    (hnext : Sides rest cost (fun a b => seen b = seen a) next next) :
    Ends rest cost (fun l l' => l'.map seen = (l.modifyHead change).map seen)
      (commaList rule first next s) (commaList rule first' next s') := by
  have hstep := steady_commaStep rule hnext.left
  have hrest (head : α) : Steady (loop [] (commaStep rule next) >>= fun tail =>
      (pure (head :: tail.reverse) : Parser (List α))) :=
    (steady_loop hstep []).bind fun _ => steady_pure _
  rw [commaList_eq, commaList_eq]
  refine h.bind hrest hrest fun a b t t' _ _ hab ht => ?_
  refine ((sides_loop hstep hstep (sides_commaStep hnext) rfl).ends ht).bind (fun _ => steady_pure _)
    (fun _ => steady_pure _) fun tail tail' u u' _ _ htail hu => .ok ?_ hu
  rw [List.modifyHead_cons, List.map_cons, List.map_cons, List.map_reverse, List.map_reverse, htail,
    hab]

theorem sides_commaSeparated (h : Sides rest cost (fun a b => seen b = seen a) next next) :
    Sides rest cost (fun l l' => l'.map seen = l.map seen) (Parser.commaSeparated rule next)
      (Parser.commaSeparated rule next) := by
  have hsteady := steady_commaSeparated rule h.left
  refine ⟨hsteady, hsteady, fun hs => ?_⟩
  refine (ends_commaList ((h.taking rule).ends hs) h).imp fun l l' hl => ?_
  cases l <;> exact hl

/-! ## The rules of the grammar side by side -/

/-- At the same depth, the sides may be exchanged. -/
theorem State.Beside.symm (h : s.Beside rest 0 s') : s'.Beside rest 0 s where
  frame := State.SameFrame.symm h.frame
  strict := h.frame.settings ▸ h.strict
  settled := by
    unfold State.Settled
    rw [← h.frame.separatorDepth, ← h.frame.depth]
    exact h.settled
  tokens := by
    obtain ⟨tokens, hsuffix, hs, hs'⟩ := h.tokens
    exact ⟨tokens, hsuffix, hs', hs⟩

section

variable {p : Parser α} {p' : Parser γ} {q : Parser β} {f : α → β} {f' : γ → β} {ending : Ending}

/-- What is read in front of some tokens is read in front of the same tokens at other places. -/
theorem exists_beside (hp : Likeness.placeless.Like false f p q)
    (hsteady : Steady p) (hp' : Likeness.placeless.Like false f' p' q) (hsteady' : Steady p')
    (hcomplete' : Complete p') (hq : (Seam.mk [] []).Replays false ending q)
    (hs : s.Beside rest 0 s') {a : α} (hrun : p s = .ok a t) :
    ∃ b t', p' s' = .ok b t' ∧ f' b = f a ∧ t.Beside rest 0 t' := by
  obtain ⟨tokens, -, hfaces, hfaces'⟩ := hs.tokens
  rw [← List.append_nil tokens] at hfaces hfaces'
  obtain ⟨b, t', beyond, hb, heq, ht, ht'⟩ := Seam.retell (B := ⟨[], []⟩) hp hsteady hp' hsteady' hq
    hs.frame hs.strict hfaces hfaces' ⟨rfl, rfl, .inr ⟨rfl, rfl⟩⟩ hrun (Nat.zero_le _)
    (Seam.clear_of_ne nofun fun _ => nofun) (hcomplete' s')
  exact ⟨b, t', hb, heq, hs.leads (hsteady.leads hrun) (hsteady'.leads hb) ht ht'⟩

/-- Parsers that see no places end alike. -/
theorem sides_of_like (hp : Likeness.placeless.Like false f p q) (hsteady : Steady p)
    (hcomplete : Complete p) (hp' : Likeness.placeless.Like false f' p' q) (hsteady' : Steady p')
    (hcomplete' : Complete p') (hq : (Seam.mk [] []).Replays false ending q) :
    Sides rest 0 (fun a b => f' b = f a) p p' := by
  refine ⟨hsteady, hsteady', fun {s s'} hs => ?_⟩
  cases hrun : p s with
  | ok a t =>
    obtain ⟨b, t', hb, heq, ht⟩ := exists_beside hp hsteady hp' hsteady' hcomplete' hq hs hrun
    rw [hb]
    exact .ok heq ht
  | error e t =>
    cases hrun' : p' s' with
    | error e' t' => exact .failed
    | ok b t' =>
      obtain ⟨a, u, ha, -⟩ := exists_beside hp' hsteady' hp hsteady hcomplete hq hs.symm hrun'
      cases hrun.symm.trans ha

end

variable (n : Nonterminal α)

variable {n}

/-- A rule that may be run in front of anything builds the same tree up to places. -/
theorem like_read_of_front (hfront : n.front = false) :
    Likeness.placeless.Like false (n.view .placeless) (read n) (read (n.seen .placeless)) := by
  have hlike := like_read n
  rwa [hfront] at hlike

/-- It is repeated in front of other tokens, as a rule of the nonterminal as seen. -/
theorem replays_seen {B : Seam} (hB : B.Calm) (hquery : n.isQuery = true → B.Even)
    (hfront : n.front = false) : B.Replays false n.ending (read (n.seen .placeless)) := by
  have hreplays := Seam.replays_read hB (n.seen .placeless) fun h => hquery (h ▸ by cases n <;> rfl)
  have hending : (n.seen .placeless).ending = n.ending := by cases n <;> rfl
  rw [hending] at hreplays
  have hseen : (n.seen .placeless).front = false := by
    rw [← hfront]
    cases n <;> rfl
  rwa [hseen] at hreplays

/-- What a rule reads on one side, it reads on the other. -/
theorem exists_read (hfront : n.front = false) (hs : s.Beside rest 0 s') {a : α}
    (hrun : read n s = .ok a t) :
    ∃ b t', read n s' = .ok b t' ∧ n.view .placeless b = n.view .placeless a ∧ t.Beside rest 0 t' :=
  exists_beside (like_read_of_front hfront) (steady_read n) (like_read_of_front hfront) (steady_read n)
    (complete_read n) (replays_seen Seam.calm_nil (fun _ => rfl) hfront) hs hrun

/-- The same rule gives values that differ in their places. -/
theorem sides_read (hfront : n.front = false) :
    Sides rest 0 (fun a b => n.view .placeless b = n.view .placeless a) (read n) (read n) :=
  sides_of_like (like_read_of_front hfront) (steady_read n) (complete_read n)
    (like_read_of_front hfront) (steady_read n) (complete_read n)
    (replays_seen Seam.calm_nil (fun _ => rfl) hfront)

/-- Under more levels of nesting, a rule that ends behind a token of its own gives the same, or meets
the limit. -/
theorem ends_deeper (hfront : n.front = false) (hpredicate : n.isPredicate = false)
    (hfirm : n.firm = true) (hs : s.Beside rest cost s') :
    Ends rest cost (fun a b => n.view .placeless b = n.view .placeless a) (read n s) (read n s') := by
  -- The second run is compared with the one from the same place under as few levels as the first.
  let u : State := { s' with depth := s.depth }
  have hu : s.Beside rest 0 u :=
    ⟨⟨⟨hs.frame.settings, hs.frame.library, rfl, hs.frame.attempts, hs.frame.subqueries,
      hs.frame.separatorDepth⟩, hs.strict, hs.settled⟩, hs.tokens⟩
  have hdepth : s'.depth = u.depth + cost := hs.frame.depth.symm
  have hstrict : s'.settings.recover = false := hs.frame.settings ▸ hs.strict
  have hsettled : u.Settled := hu.symm.settled
  have hsettled' : s'.Settled := by
    have hdeep := hsettled.deeper cost
    unfold State.Settled at hdeep ⊢
    rw [hdepth]
    exact hdeep
  have hwithin : s'.Within u := fun further hroom => by
    show u.depth + further ≤ s'.settings.nestingLimit
    omega
  cases hrun : read n s with
  | ok a t =>
    obtain ⟨b, v, hb, heq, hv⟩ := exists_read hfront hu hrun
    obtain ⟨t', ht', hcursor⟩ | hlimit := limits_ok
      (fun _ b => limits_related b n) (show s'.cursor = u.cursor from rfl)
      ⟨rfl, rfl, hstrict, hwithin, Iff.rfl, hsettled', hsettled⟩ (by rw [hpredicate]; nofun) hb
        (.inl hfirm)
    · obtain ⟨tokens, -, ht, hfaces⟩ := hv.tokens
      rw [ht']
      refine .ok heq (hs.leads ((steady_read n).leads hrun) ((steady_read n).leads ht') ht ?_)
      unfold State.Faces
      rw [hcursor]
      exact hfaces
    · exact .limited (.inr hlimit)
  | error e t =>
    cases hrun' : read n s' with
    | error e' t' => exact .failed
    | ok b t' =>
      have hrelated (b : Nat) : (levels s'.library false).Rel false b n.firm (read n) (read n) := by
        have hrelated : (levels s'.library false).Rel n.isPredicate b n.firm (read n) (read n) :=
          levels_related b n
        rwa [hpredicate] at hrelated
      have hlinked : (levels s'.library false).Linked s' u :=
        ⟨rfl, ⟨rfl, rfl, hstrict, nofun, hsettled', hsettled, hwithin, Iff.rfl⟩, trivial⟩
      obtain ⟨v, hv, -⟩ := levels_ok hrelated hlinked hrun' (.inl hfirm)
      obtain ⟨a, w, ha, -⟩ := exists_read hfront hu.symm hv
      cases hrun.symm.trans ha

end

end SearchSql.Grammar
