import SearchSql.Proofs.Enclosure
import SearchSql.Proofs.Fuel

/-!
# Reading the same tokens again

A run that fails at its first error is made again on a list that has the same tokens up to a seam, and
others behind it. If the first run succeeds in front of the seam, the second does the same, as long as
the tokens at the seam are such that no rule goes on with them (`Border`): then no decision in front of
the seam comes out otherwise.

Two things have to be taken care of. A parser that looks further than the next token might see the
seam closing a parenthesis that was opened in front of it; so none is left open there (`Sealed`). And
behind an operand the word `IN` is a test, unless it separates the operands of `POSITION`, and behind
the item of a list a comma goes on with the list; so a parser that ends with an operand or an item is
compared only where the seam has no such word or sign, or out of its reach (`Seam.Clear`).
-/

set_option autoImplicit false

namespace SearchSql.Grammar

open SearchSql.Grammar.Parser

variable {α β γ : Type}

/-- What must take a token has taken one. -/
theorem taking_lt {rule : String} {p : Parser α} {a : α} {s t : State} (hp : Steady p)
    (h : taking rule p s = .ok a t) : t.cursor.ahead.length < s.cursor.ahead.length := by
  rw [taking_eq, get_bind_apply] at h
  obtain ⟨b, u, hu, hrest⟩ := bind_eq_ok_iff.1 h
  unfold progress at hrest
  rw [get_bind_apply] at hrest
  split at hrest
  · cases hrest
  · next hmoved =>
    obtain ⟨rfl, rfl⟩ := pure_eq_ok_iff.1 hrest
    have hall := congrArg List.length (hp.leads hu).allTokens
    have hle := (hp.leads hu).ahead.length_le
    simp only [Cursor.allTokens, List.length_append, List.length_reverse,
      List.length_singleton] at hall
    unfold Cursor.position at hmoved
    omega

/-- Tokens passed in front of the end are tokens fewer ahead. -/
theorem ahead_skip_length {c : Cursor} {n : Nat} (hend : ∀ m < n, (c.skip m).current.isEnd = false) :
    (c.skip n).ahead.length + n = c.ahead.length := by
  induction n generalizing c with
  | zero => rfl
  | succ n ih =>
    have hadvance := Cursor.ahead_length_advance c (hend 0 (Nat.succ_pos n))
    have hrest := ih (c := c.advance) fun m hm => hend (m + 1) (by omega)
    show (Cursor.skip n c.advance).ahead.length + (n + 1) = _
    omega

/-! ## Parentheses -/

/-- The parentheses among the tokens. -/
def parensOf (tokens : List Token) : List Token :=
  tokens.filter fun t => t.kind == .symbol .leftParen || t.kind == .symbol .rightParen

/-- Tokens that close the parentheses that they open, and no others. -/
def Balanced (tokens : List Token) : Prop := levels? 0 (parensOf tokens) = some 0

instance (tokens : List Token) : Decidable (Balanced tokens) :=
  inferInstanceAs (Decidable (levels? 0 (parensOf tokens) = some 0))

/-- The parentheses of two rows of tokens are those of one and then those of the other. -/
theorem parensOf_append (v w : List Token) : parensOf (v ++ w) = parensOf v ++ parensOf w :=
  List.filter_append v w

/-- Further open parentheses make no difference to what a token opens or closes. -/
theorem levelAfter?_add {k l : Nat} {kind : TokenKind} (m : Nat) (h : levelAfter? k kind = some l) :
    levelAfter? (k + m) kind = some (l + m) := by
  unfold levelAfter? at h ⊢
  split at h
  · obtain rfl := Option.some.inj h
    rw [Nat.add_right_comm]
  · split at h
    · cases h
    · obtain rfl := Option.some.inj h
      rw [if_neg (by omega)]
      congr 1
      omega
  · split at h
    · cases h
    · next hword =>
      obtain rfl := Option.some.inj h
      rw [if_neg]
      simp only [Bool.and_eq_true, beq_iff_eq, not_and] at hword ⊢
      intro hclause hzero
      exact hword hclause (by omega)
  · obtain rfl := Option.some.inj h
    rfl

/-- What walks from one level to another does so from further levels. -/
theorem levels?_add {k l : Nat} {tokens : List Token} (m : Nat) (h : levels? k tokens = some l) :
    levels? (k + m) tokens = some (l + m) := by
  induction tokens generalizing k with
  | nil =>
    obtain rfl := Option.some.inj h
    rfl
  | cons t ts ih =>
    rw [levels?_cons] at h ⊢
    obtain ⟨n, hn, hrest⟩ := Option.bind_eq_some_iff.1 h
    rw [levelAfter?_add m hn, Option.bind_some]
    exact ih hrest

/-- The levels of a walk are those of its parentheses. -/
theorem levels?_parensOf {k l : Nat} {tokens : List Token} (h : levels? k tokens = some l) :
    levels? k (parensOf tokens) = some l := by
  induction tokens generalizing k with
  | nil => exact h
  | cons t ts ih =>
    rw [levels?_cons] at h
    obtain ⟨n, hn, hrest⟩ := Option.bind_eq_some_iff.1 h
    by_cases hparen : (t.kind == .symbol .leftParen || t.kind == .symbol .rightParen) = true
    · rw [parensOf, List.filter_cons_of_pos (by simpa using hparen), levels?_cons, hn]
      exact ih hrest
    · rw [parensOf, List.filter_cons_of_neg (by simpa using hparen)]
      have hk : n = k := by
        simp only [Bool.or_eq_true, beq_iff_eq, not_or] at hparen
        unfold levelAfter? at hn
        split at hn
        · next heq => exact absurd heq hparen.1
        · next heq => exact absurd heq hparen.2
        · split at hn
          · cases hn
          · exact (Option.some.inj hn).symm
        · exact (Option.some.inj hn).symm
      exact hk ▸ ih hrest

/-- Tokens that lead back to the level outside of parentheses are balanced. -/
theorem Balanced.of_levels {tokens : List Token} (h : levels? 0 tokens = some 0) : Balanced tokens :=
  levels?_parensOf h

/-- Balanced tokens behind balanced tokens are balanced. -/
theorem Balanced.append {v w : List Token} (hv : Balanced v) (hw : Balanced w) :
    Balanced (v ++ w) := by
  unfold Balanced at hv hw ⊢
  rw [parensOf_append, levels?_append, hv]
  exact hw

theorem balanced_nil : Balanced [] := rfl

theorem balanced_singleton {t : Token} (h : t.kind ≠ .symbol .leftParen)
    (h' : t.kind ≠ .symbol .rightParen) : Balanced [t] := by
  unfold Balanced parensOf
  rw [List.filter_cons_of_neg (by simp [h, h'])]
  rfl

/-- Balanced tokens in parentheses are balanced. -/
theorem Balanced.parenthesized {p q : Token} {tokens : List Token} (hp : p.kind = .symbol .leftParen)
    (hq : q.kind = .symbol .rightParen) (h : Balanced tokens) : Balanced (p :: tokens ++ [q]) := by
  unfold Balanced at h ⊢
  have hopen := levels?_add 1 h
  rw [List.cons_append, parensOf, List.filter_cons_of_pos (by simp [hp]), levels?_cons, hp]
  show levels? 1 (parensOf (tokens ++ [q])) = some 0
  rw [parensOf_append, levels?_append, hopen, parensOf, List.filter_cons_of_pos (by simp [hq])]
  simp [levels?_cons, hq, levelAfter?]

/-- Tokens that leave no parenthesis open that they open. -/
def Sealed (tokens : List Token) : Prop :=
  ∀ w, w <:+ tokens → ∀ l, levels? 0 (parensOf w) = some l → l = 0

/-- What ends sealed tokens is sealed. -/
theorem Sealed.suffix {v w : List Token} (h : Sealed v) (hw : w <:+ v) : Sealed w :=
  fun u hu => h u (hu.trans hw)

/-- Balanced tokens leave no parenthesis open. -/
theorem Balanced.sealed {tokens : List Token} (h : Balanced tokens) : Sealed tokens := by
  rintro w ⟨v, rfl⟩ l hl
  unfold Balanced at h
  rw [parensOf_append, levels?_append] at h
  obtain ⟨m, -, hm⟩ := Option.bind_eq_some_iff.1 h
  have hadd := levels?_add m hl
  rw [Nat.zero_add, hm] at hadd
  have := Option.some.inj hadd
  omega

/-- No opening parenthesis is the last of sealed tokens. -/
theorem Sealed.last_ne {tokens : List Token} {t : Token} (h : Sealed (tokens ++ [t])) :
    t.kind ≠ .symbol .leftParen := by
  intro hkind
  have hone := h [t] ⟨tokens, rfl⟩ 1
  rw [parensOf, List.filter_cons_of_pos (by simp [hkind]), levels?_cons, hkind] at hone
  exact absurd (hone rfl) (by decide)

/-! ## Seams -/

/-- The tokens behind two lists that begin with the same tokens. -/
structure Seam where
  left : List Token
  right : List Token

/-- How the rule of a nonterminal may end. -/
inductive Ending where
  /-- Behind a token of its own, or an operand that no test is made of. -/
  | closed
  /-- With an operand of a test, on the level of the test. -/
  | operand
  /-- With an expression. -/
  | expression
  /-- With an item of a list. -/
  | list
  deriving DecidableEq

/-- Tokens that no filter of an aggregate reaches into from in front of them. -/
structure Unfiltered (tokens : List Token) : Prop where
  order : kindAt tokens 0 ≠ .keyword .ORDER
  filter (v w : List Token) : tokens = v ++ w → v ≠ [] → levels? 0 v = some 0 →
    kindAt w 0 ≠ .keyword .FILTER

namespace Seam

variable (B : Seam)

/-- The seam with its sides exchanged. -/
def swap : Seam := ⟨B.right, B.left⟩

/-- Neither side of the seam belongs to an aggregate in front of it. -/
structure Calm : Prop where
  left : Unfiltered B.left
  right : Unfiltered B.right

/-- On neither side of the seam stands the word `ORDER`. -/
structure Orderless : Prop where
  left : kindAt B.left 0 ≠ .keyword .ORDER
  right : kindAt B.right 0 ≠ .keyword .ORDER

/-- Where nothing stands behind the tokens, nothing belongs to an aggregate in front of it. -/
theorem unfiltered_nil : Unfiltered [] :=
  ⟨nofun, fun _ _ hsplit hv => absurd (List.append_eq_nil_iff.1 hsplit.symm).1 hv⟩

theorem calm_nil : (Seam.mk [] []).Calm := ⟨unfiltered_nil, unfiltered_nil⟩

variable {B} in
theorem Calm.orderless (hB : B.Calm) : B.Orderless := ⟨hB.left.order, hB.right.order⟩

/-- Tokens in front of the seam behind which both lists may go on. -/
structure Fits (tokens : List Token) : Prop where
  left : Border B.left
  right : Border B.right
  closed : Sealed tokens ∨ B.left = [] ∧ B.right = []

/-- Two states in front of the same tokens. -/
structure Shared (s s' : State) : Prop where
  frame : s.SameFrame s'
  strict : s.settings.recover = false
  previous : s'.cursor.previousSpan = s.cursor.previousSpan
  tokens : ∃ tokens, s.cursor.ahead = tokens ++ B.left ∧ s'.cursor.ahead = tokens ++ B.right ∧
    B.Fits tokens

/-- In front of the seam there are more tokens than the word `NOT`. -/
def Away (t : State) : Prop :=
  B.left.length < t.cursor.ahead.length ∧
    (t.cursor.ahead.length = B.left.length + 1 → t.cursor.current.kind ≠ .keyword .NOT)

/-- No test is made of what ends here and of the word `IN` at the seam, and no list goes on with a
comma there. -/
def Clear (t : State) : Ending → Prop
  | .closed => True
  | .operand => kindAt B.right 0 = .keyword .IN → t.separatorDepth = some t.depth ∨ B.Away t
  | .expression => kindAt B.right 0 = .keyword .IN → B.Away t
  | .list => kindAt B.right 0 = .keyword .IN ∨ kindAt B.right 0 = .symbol .comma → B.Away t

/-- The run ends as a run that came to `a` in the state `t`, or has no fuel left. -/
def Repeats (a : α) (t : State) (r : Run α) : Prop :=
  (∃ u, r = .error .outOfFuel u) ∨ ∃ t', r = .ok a t' ∧ B.Shared t t'

/-- A parser whose runs that end in front of the seam are repeated on the other side. -/
structure Replays (front : Bool) (ending : Ending) (p : Parser α) : Prop where
  steady : Steady p
  replay {s s' t : State} {a : α} : B.Shared s s' →
    (front = true → B.left.length < s.cursor.ahead.length) → p s = .ok a t →
      B.left.length ≤ t.cursor.ahead.length → B.Clear t ending → B.Repeats a t (p s')

variable {B} {front : Bool} {ending : Ending} {s s' t : State}

/-! ### Shared states -/

theorem Shared.swap (h : B.Shared s s') : B.swap.Shared s' s := by
  obtain ⟨tokens, hs, hs', hleft, hright, hclosed⟩ := h.tokens
  exact ⟨h.frame.symm, h.frame.settings ▸ h.strict, h.previous.symm,
    ⟨tokens, hs', hs, hright, hleft, hclosed.imp_right And.symm⟩⟩

/-- A change of what does not belong to the cursor. -/
theorem Shared.same {u u' : State} (h : B.Shared s s') (hframe : u.SameFrame u')
    (hsettings : u.settings = s.settings) (hcursor : u.cursor = s.cursor)
    (hcursor' : u'.cursor = s'.cursor) : B.Shared u u' where
  frame := hframe
  strict := by rw [hsettings, h.strict]
  previous := by rw [hcursor, hcursor', h.previous]
  tokens := by
    rw [hcursor, hcursor']
    exact h.tokens

/-- In front of the seam, the token under the cursor is the same. At the seam, it is a border on both
sides. -/
theorem Shared.current (h : B.Shared s s') :
    (B.left.length < s.cursor.ahead.length ∧ s'.cursor.current = s.cursor.current) ∨
      (s.cursor.ahead = B.left ∧ s'.cursor.ahead = B.right ∧ s.cursor.current.kind.isBorder = true ∧
        s'.cursor.current.kind.isBorder = true) := by
  obtain ⟨tokens, hs, hs', hfits⟩ := h.tokens
  cases tokens with
  | nil =>
    refine .inr ⟨hs, hs', ?_, ?_⟩
    · rw [← kindAt_zero, hs]
      exact hfits.left
    · rw [← kindAt_zero, hs']
      exact hfits.right
  | cons u tokens =>
    refine .inl ⟨?_, ?_⟩
    · rw [hs, List.length_append, List.length_cons]
      omega
    unfold Cursor.current
    rw [hs, hs']
    rfl

/-- In front of the seam, both states have the same token. -/
theorem Shared.current_eq (h : B.Shared s s') (hfront : B.left.length < s.cursor.ahead.length) :
    s'.cursor.current = s.cursor.current := by
  obtain ⟨-, heq⟩ | ⟨hs, -⟩ := h.current
  · exact heq
  · rw [hs] at hfront
    exact absurd hfront (Nat.lt_irrefl _)

/-- A token that is no border is under both cursors, or under none. -/
theorem Shared.kind_eq_iff (h : B.Shared s s') {k : TokenKind} (hk : k.isBorder = false) :
    s'.cursor.current.kind = k ↔ s.cursor.current.kind = k := by
  obtain ⟨-, heq⟩ | ⟨-, -, hborder, hborder'⟩ := h.current
  · rw [heq]
  · exact ⟨fun heq => absurd heq (TokenKind.ne_of_isBorder hborder' hk),
      fun heq => absurd heq (TokenKind.ne_of_isBorder hborder hk)⟩

/-- A token that no rule may end in front of is in front of the seam. -/
theorem Shared.front_of_kind (h : B.Shared s s') (hk : s.cursor.current.kind.isBorder = false) :
    B.left.length < s.cursor.ahead.length := by
  obtain ⟨hfront, -⟩ | ⟨-, -, hborder, -⟩ := h.current
  · exact hfront
  · rw [hk] at hborder
    cases hborder

/-- Such a token is found in both states or in neither. -/
theorem Shared.beq_kind (h : B.Shared s s') {k : TokenKind} (hk : k.isBorder = false) :
    (s'.cursor.current.kind == k) = (s.cursor.current.kind == k) := by
  rw [Bool.eq_iff_iff, beq_iff_eq, beq_iff_eq]
  exact h.kind_eq_iff hk

/-- A token in front of the seam is passed by both. -/
theorem Shared.skip_one (h : B.Shared s s') (hfront : B.left.length < s.cursor.ahead.length) :
    B.Shared (s.skip 1) (s'.skip 1) := by
  have hcurrent := h.current_eq hfront
  cases hend : s.cursor.current.isEnd with
  | true =>
    have hend' : s'.cursor.current.isEnd = true := by rw [hcurrent, hend]
    refine h.same (h.frame.leads (s.leads_skip 1) (s'.leads_skip 1)) rfl ?_ ?_
    · exact Cursor.advance_of_isEnd hend
    · exact Cursor.advance_of_isEnd hend'
  | false =>
    have hend' : s'.cursor.current.isEnd = false := by rw [hcurrent, hend]
    refine ⟨h.frame.leads (s.leads_skip 1) (s'.leads_skip 1), h.strict, ?_, ?_⟩
    · rw [State.skip_cursor, State.skip_cursor, Cursor.previousSpan_skip_one hend,
        Cursor.previousSpan_skip_one hend', hcurrent]
    · obtain ⟨tokens, hs, hs', hleft, hright, hclosed⟩ := h.tokens
      cases tokens with
      | nil =>
        rw [hs] at hfront
        exact absurd hfront (Nat.lt_irrefl _)
      | cons u tokens =>
        rw [ahead_eq_cons hend] at hs
        rw [ahead_eq_cons hend'] at hs'
        exact ⟨tokens, (List.cons.inj hs).2, (List.cons.inj hs').2, hleft, hright,
          hclosed.imp_left fun hsealed => hsealed.suffix (List.suffix_cons u tokens)⟩

/-- Tokens in front of the seam are passed by both. -/
theorem Shared.skip (h : B.Shared s s') {n : Nat}
    (hend : ∀ m < n, (s.cursor.skip m).current.isEnd = false)
    (hle : B.left.length ≤ (s.skip n).cursor.ahead.length) : B.Shared (s.skip n) (s'.skip n) := by
  induction n generalizing s s' with
  | zero => exact h
  | succ n ih =>
    have hlt := ahead_skip_lt (hend 0 (Nat.succ_pos n)) n
    exact ih (h.skip_one (Nat.lt_of_le_of_lt hle hlt)) (fun m hm => hend (m + 1) (by omega)) hle

/-! ### Where runs end -/

/-- What is away from the seam was away from it before. -/
theorem Away.leads {u : State} (h : B.Away t) (hu : u.Leads t) : B.Away u := by
  obtain ⟨hlt, hnot⟩ := h
  have hle := hu.ahead.length_le
  refine ⟨Nat.lt_of_lt_of_le hlt hle, fun hlength => ?_⟩
  -- Where a single token is left, the run has stopped in front of it.
  have hsame : t.cursor.ahead = u.cursor.ahead := hu.ahead.eq_of_length_le (by omega)
  have hkind := hnot (by rw [hsame, hlength])
  rw [← kindAt_zero] at hkind ⊢
  rwa [hsame] at hkind

/-- What is clear behind a run is clear in front of it. -/
theorem Clear.leads {u : State} (h : B.Clear t ending) (hu : u.Leads t) : B.Clear u ending := by
  cases ending with
  | closed => trivial
  | operand =>
    intro hin
    rw [← hu.separatorDepth, ← hu.depth]
    exact (h hin).imp_right fun haway => haway.leads hu
  | expression | list => exact fun hin => Away.leads (h hin) hu

/-- No list goes on at a seam without a comma, and no test without the word `IN`. -/
theorem clear_of_ne (hin : kindAt B.right 0 ≠ .keyword .IN)
    (hcomma : ending = .list → kindAt B.right 0 ≠ .symbol .comma) : B.Clear t ending := by
  cases ending with
  | closed => trivial
  | operand | expression => exact fun h => absurd h hin
  | list => exact fun h => h.elim (fun h => absurd h hin) fun h => absurd h (hcomma rfl)

/-- What is clear for an expression is clear for an operand. -/
theorem Clear.operand (h : B.Clear t .expression) : B.Clear t .operand := fun hin => .inr (h hin)

/-- What is clear for a list is clear for an expression. -/
theorem Clear.expression (h : B.Clear t .list) : B.Clear t .expression := fun hin => h (.inl hin)

theorem Clear.closed : B.Clear t .closed := trivial

/-- A run that is repeated goes on to one that is repeated. -/
theorem Repeats.andThen {a : α} {b : β} {u : State} {r : Run α} {f : α → Parser β}
    (h : B.Repeats a t r) (hf : ∀ t', B.Shared t t' → B.Repeats b u (f a t')) :
    B.Repeats b u (Run.andThen r f) := by
  obtain ⟨v, rfl⟩ | ⟨t', rfl, ht⟩ := h
  · exact .inl ⟨v, rfl⟩
  · exact hf t' ht

/-- It is repeated if both states are changed alike behind it. -/
theorem Repeats.mapState {a : α} {r : Run α} {change : State → State} (h : B.Repeats a t r)
    (hcursor : ∀ u, (change u).cursor = u.cursor) (hsettings : (change t).settings = t.settings)
    (hframe : ∀ u, t.SameFrame u → (change t).SameFrame (change u)) :
    B.Repeats a (change t) (mapState change r) := by
  obtain ⟨u, rfl⟩ | ⟨t', rfl, ht⟩ := h
  · exact .inl ⟨change u, rfl⟩
  · exact .inr ⟨change t', rfl, ht.same (hframe t' ht.frame) hsettings (hcursor t) (hcursor t')⟩

/-! ### Combining parsers -/

namespace Replays

/-- What is repeated from everywhere is repeated in front of the seam. -/
theorem weaken {p : Parser α} (h : B.Replays false ending p) : B.Replays front ending p :=
  ⟨h.steady, fun hs _ => h.replay hs nofun⟩

/-- A parser that ends behind a token of its own may stand for any other. -/
theorem relax {p : Parser α} (h : B.Replays front .closed p) : B.Replays front ending p :=
  ⟨h.steady, fun hs hfront hrun hle _ => h.replay hs hfront hrun hle trivial⟩

/-- What may end like an operand may end like an expression. -/
theorem loosen {p : Parser α} (h : B.Replays front .operand p) : B.Replays front .expression p :=
  ⟨h.steady, fun hs hfront hrun hle hclear => h.replay hs hfront hrun hle hclear.operand⟩

/-- A parser that ends with an expression may stand for an item of a list. -/
theorem enlist {p : Parser α} (h : B.Replays front .expression p) : B.Replays front .list p :=
  ⟨h.steady, fun hs hfront hrun hle hclear => h.replay hs hfront hrun hle hclear.expression⟩

theorem pure (a : α) : B.Replays front ending (Pure.pure a) := by
  refine ⟨steady_pure a, fun {s s' t b} hs _ hrun _ _ => ?_⟩
  obtain ⟨rfl, rfl⟩ := pure_eq_ok_iff.1 hrun
  exact .inr ⟨s', rfl, hs⟩

theorem reject (d : Diagnostic) : B.Replays front ending (Parser.reject d : Parser α) :=
  ⟨steady_reject d, fun _ _ hrun => absurd hrun reject_ne_ok⟩

theorem rejectCurrent (expected : String) :
    B.Replays front ending (Parser.rejectCurrent expected : Parser α) :=
  ⟨steady_current_bind fun _ => steady_reject _, fun _ _ hrun => absurd hrun rejectCurrent_ne_ok⟩

/-- Parsers that are repeated are so one after the other, since the first ends in front of the seam
if the second does. -/
theorem bind {p : Parser α} {f : α → Parser β} (hp : B.Replays front ending p)
    (hf : ∀ a, B.Replays false ending (f a)) : B.Replays front ending (p >>= f) := by
  refine ⟨hp.steady.bind fun a => (hf a).steady, fun {s s' t b} hs hfront hrun hle hclear => ?_⟩
  obtain ⟨a, u, hpu, hfu⟩ := bind_eq_ok_iff.1 hrun
  have hleads := (hf a).steady.leads hfu
  rw [bind_apply_andThen]
  exact (hp.replay hs hfront hpu (Nat.le_trans hle hleads.ahead.length_le)
    (hclear.leads hleads)).andThen fun u' hu => (hf a).replay hu nofun hfu hle hclear

theorem map {p : Parser α} (hp : B.Replays front ending p) (f : α → β) :
    B.Replays front ending (f <$> p) := hp.bind fun a => Replays.pure (f a)

end Replays

/-- A parser that takes a token, which is not the word `NOT`. -/
def Takes (p : Parser α) : Prop :=
  ∀ s t a, p s = .ok a t →
    s.cursor.current.kind ≠ .keyword .NOT ∧ t.cursor.ahead.length < s.cursor.ahead.length

/-- What has taken a token goes on with what is steady. -/
theorem Takes.bind {p : Parser α} {f : α → Parser β} (hp : Takes p) (hf : ∀ a, Steady (f a)) :
    Takes (p >>= f) := by
  intro s t b hrun
  obtain ⟨a, u, hpu, hfu⟩ := bind_eq_ok_iff.1 hrun
  obtain ⟨hkind, hlt⟩ := hp s u a hpu
  exact ⟨hkind, Nat.lt_of_le_of_lt ((hf a).leads hfu).ahead.length_le hlt⟩

theorem takes_symbol (sign : Symbol) : Takes (symbol sign) := by
  intro s t span hrun
  obtain ⟨hkind, -, rfl⟩ := symbol_eq_ok_iff.1 hrun
  exact ⟨hkind ▸ nofun, ahead_skip_lt (isEnd_of_symbol hkind) 0⟩

/-- A reserved word other than `NOT` is taken. -/
theorem takes_keyword {word : Keyword} (hword : word ≠ .NOT) : Takes (keyword word) := by
  intro s t span hrun
  obtain ⟨hkind, -, rfl⟩ := keyword_eq_ok_iff.1 hrun
  refine ⟨?_, ahead_skip_lt (isEnd_of_keyword hkind) 0⟩
  rw [hkind]
  exact fun heq => hword (TokenKind.keyword.inj heq)

namespace Replays

/-- What follows takes a token of its own, so whatever comes first ends in front of the seam. -/
theorem bind_taking {first : Ending} {p : Parser α} {f : α → Parser β}
    (hp : B.Replays front first p) (hf : ∀ a, B.Replays false ending (f a))
    (htakes : ∀ a, Takes (f a)) : B.Replays front ending (p >>= f) := by
  refine ⟨hp.steady.bind fun a => (hf a).steady, fun {s s' t b} hs hfront hrun hle hclear => ?_⟩
  obtain ⟨a, u, hpu, hfu⟩ := bind_eq_ok_iff.1 hrun
  obtain ⟨hkind, hlt⟩ := htakes a u t b hfu
  have haway : B.Away u := ⟨Nat.lt_of_le_of_lt hle hlt, fun _ => hkind⟩
  have hclear' : B.Clear u first := by
    cases first with
    | closed => trivial
    | operand => exact fun _ => .inr haway
    | expression | list => exact fun _ => haway
  rw [bind_apply_andThen]
  exact (hp.replay hs hfront hpu (Nat.le_of_lt haway.1) hclear').andThen
    fun u' hu => (hf a).replay hu nofun hfu hle hclear

/-- A parser that looks at the token under the cursor and does the same in front of all borders. -/
theorem current_bind_of_eq {f : Token → Parser α} {r : Parser α}
    (hin : ∀ t, B.Replays true ending (f t)) (hr : B.Replays false ending r)
    (hf : ∀ t : Token, t.kind.isBorder = true → f t = r) :
    B.Replays front ending (current >>= f) := by
  refine ⟨steady_current_bind fun t => (hin t).steady, fun {s s' t a} hs _ hrun hle hclear => ?_⟩
  rw [current_bind_apply] at hrun ⊢
  obtain ⟨hfront, heq⟩ | ⟨-, -, hborder, hborder'⟩ := hs.current
  · rw [heq]
    exact (hin _).replay hs (fun _ => hfront) hrun hle hclear
  · rw [hf _ hborder] at hrun
    rw [hf _ hborder']
    exact hr.replay hs nofun hrun hle hclear

/-- A parser that looks at the token under the cursor where that is in front of the seam. -/
theorem current_bind {f : Token → Parser α} (hin : ∀ t, B.Replays true ending (f t)) :
    B.Replays true ending (current >>= f) := by
  refine ⟨steady_current_bind fun t => (hin t).steady, fun {s s' t a} hs hfront hrun hle hclear => ?_⟩
  rw [current_bind_apply] at hrun ⊢
  rw [hs.current_eq (hfront rfl)]
  exact (hin _).replay hs hfront hrun hle hclear

/-- In front of the seam, the same token is taken. -/
theorem skip_one : B.Replays true ending (Parser.skip 1) := by
  refine ⟨steady_skip 1, fun {s s' t a} hs hfront hrun _ _ => ?_⟩
  obtain ⟨rfl, rfl⟩ := EStateM.Result.ok.inj hrun
  exact .inr ⟨s'.skip 1, rfl, hs.skip_one (hfront rfl)⟩

theorem take : B.Replays true ending Parser.take :=
  current_bind fun t => skip_one.bind fun _ => Replays.pure t.span

/-- A question for a kind that no rule ends in front of is answered alike. -/
theorem atKind_bind {k : TokenKind} (hk : k.isBorder = false) {here : Parser Bool}
    (hhere : ∀ (f : Bool → Parser α) s, (here >>= f) s = f (s.cursor.current.kind == k) s)
    {f : Bool → Parser α} (htrue : B.Replays true ending (f true))
    (hfalse : B.Replays front ending (f false)) : B.Replays front ending (here >>= f) := by
  refine ⟨fun s => ?_, fun {s s' t a} hs hfront hrun hle hclear => ?_⟩
  · rw [hhere]
    cases s.cursor.current.kind == k with
    | true => exact htrue.steady s
    | false => exact hfalse.steady s
  · rw [hhere] at hrun ⊢
    rw [hs.beq_kind hk]
    cases hkind : s.cursor.current.kind == k with
    | true =>
      rw [hkind] at hrun
      exact htrue.replay hs (fun _ => hs.front_of_kind (eq_of_beq hkind ▸ hk)) hrun hle hclear
    | false =>
      rw [hkind] at hrun
      exact hfalse.replay hs hfront hrun hle hclear

theorem atSymbol_bind {sign : Symbol} (hsign : (TokenKind.symbol sign).isBorder = false)
    {f : Bool → Parser α} (htrue : B.Replays true ending (f true))
    (hfalse : B.Replays front ending (f false)) : B.Replays front ending (atSymbol sign >>= f) :=
  atKind_bind hsign (atSymbol_bind_apply sign) htrue hfalse

theorem atKeyword_bind {word : Keyword} (hword : (TokenKind.keyword word).isBorder = false)
    {f : Bool → Parser α} (htrue : B.Replays true ending (f true))
    (hfalse : B.Replays front ending (f false)) : B.Replays front ending (atKeyword word >>= f) :=
  atKind_bind hword (atKeyword_bind_apply word) htrue hfalse

theorem takeSymbol_bind {sign : Symbol} (hsign : (TokenKind.symbol sign).isBorder = false)
    {f : Bool → Parser α} (htrue : B.Replays false ending (f true))
    (hfalse : B.Replays front ending (f false)) : B.Replays front ending (takeSymbol sign >>= f) := by
  have hrun (f : Bool → Parser α) : (takeSymbol sign >>= f) =
      atSymbol sign >>= fun here => if here then Parser.skip 1 >>= fun _ => f true else f false := by
    funext s
    rw [takeSymbol_bind_apply, atSymbol_bind_apply]
    by_cases h : s.cursor.current.kind = .symbol sign
    · simp [h, skip_bind_apply]
    · simp [h]
  rw [hrun]
  exact atSymbol_bind hsign (skip_one.bind fun _ => htrue) hfalse

theorem takeKeyword_bind {word : Keyword} (hword : (TokenKind.keyword word).isBorder = false)
    {f : Bool → Parser α} (htrue : B.Replays false ending (f true))
    (hfalse : B.Replays front ending (f false)) :
    B.Replays front ending (takeKeyword word >>= f) := by
  have hrun (f : Bool → Parser α) : (takeKeyword word >>= f) =
      atKeyword word >>= fun here => if here then Parser.skip 1 >>= fun _ => f true else f false := by
    funext s
    rw [takeKeyword_bind_apply, atKeyword_bind_apply]
    by_cases h : s.cursor.current.kind = .keyword word
    · simp [h, skip_bind_apply]
    · simp [h]
  rw [hrun]
  exact atKeyword_bind hword (skip_one.bind fun _ => htrue) hfalse

/-- In front of the seam, any symbol may be taken. -/
theorem takeSymbol_bind_front {sign : Symbol} {f : Bool → Parser α}
    (htrue : B.Replays false ending (f true)) (hfalse : B.Replays true ending (f false)) :
    B.Replays true ending (takeSymbol sign >>= f) := by
  refine ⟨fun s => ?_, fun {s s' t a} hs hfront hrun hle hclear => ?_⟩
  · rw [takeSymbol_bind_apply]
    split
    · exact (s.leads_skip 1).trans (htrue.steady (s.skip 1))
    · exact hfalse.steady s
  · rw [takeSymbol_bind_apply] at hrun ⊢
    rw [hs.current_eq (hfront rfl)]
    split at hrun
    · next hkind =>
      rw [if_pos hkind]
      exact htrue.replay (hs.skip_one (hfront rfl)) nofun hrun hle hclear
    · next hkind =>
      rw [if_neg hkind]
      exact hfalse.replay hs hfront hrun hle hclear

/-- A list goes on with a comma in front of the seam only. -/
theorem takeComma_bind {f : Bool → Parser α} (htrue : B.Replays false .list (f true))
    (hfalse : B.Replays front .list (f false)) :
    B.Replays front .list (takeSymbol .comma >>= f) := by
  have hsteady : Steady (takeSymbol .comma >>= f) := fun s => by
    rw [takeSymbol_bind_apply]
    split
    · exact (s.leads_skip 1).trans (htrue.steady (s.skip 1))
    · exact hfalse.steady s
  refine ⟨hsteady, fun {s s' t a} hs hfront hrun hle hclear => ?_⟩
  have hlength := (hsteady.leads hrun).ahead.length_le
  rw [takeSymbol_bind_apply] at hrun ⊢
  -- Ahead of the seam both runs see the same token.
  obtain ⟨hin, heq⟩ | ⟨hleft, hright, -⟩ := hs.current
  · rw [heq]
    split at hrun
    · next hkind =>
      rw [if_pos hkind]
      exact htrue.replay (hs.skip_one hin) nofun hrun hle hclear
    · next hkind =>
      rw [if_neg hkind]
      exact hfalse.replay hs hfront hrun hle hclear
  · -- At the seam, the first run takes no comma, and there is none on the other side.
    rw [hleft] at hlength
    have hright' : s'.cursor.current.kind ≠ .symbol .comma := by
      rw [← kindAt_zero, hright]
      exact fun hcomma => absurd hlength (Nat.not_le.2 (hclear (.inr hcomma)).1)
    rw [if_neg hright']
    split at hrun
    · next hkind =>
      have hlt := Nat.lt_of_le_of_lt (htrue.steady.leads hrun).ahead.length_le
        (ahead_skip_lt (isEnd_of_symbol hkind) 0)
      rw [hleft] at hlt
      exact absurd hle (Nat.not_le.2 hlt)
    · exact hfalse.replay hs hfront hrun hle hclear

/-- A parser that takes a token does so in front of the seam. -/
theorem of_front {p : Parser α} (h : B.Replays true ending p)
    (htakes : ∀ s t a, p s = .ok a t → t.cursor.ahead.length < s.cursor.ahead.length) :
    B.Replays front ending p :=
  ⟨h.steady, fun hs _ hrun hle =>
    h.replay hs (fun _ => Nat.lt_of_le_of_lt hle (htakes _ _ _ hrun)) hrun hle⟩

/-- Where a token is taken in any case, any symbol may be taken in front of it. -/
theorem takeSymbol_bind_taking {sign : Symbol} {f : Bool → Parser α}
    (htrue : B.Replays false ending (f true)) (hfalse : B.Replays false ending (f false))
    (htakes : Takes (f false)) : B.Replays front ending (takeSymbol sign >>= f) := by
  refine of_front (takeSymbol_bind_front htrue hfalse.weaken) fun s t a hrun => ?_
  rw [takeSymbol_bind_apply] at hrun
  split at hrun
  · next hkind =>
    exact Nat.lt_of_le_of_lt (htrue.steady.leads hrun).ahead.length_le
      (ahead_skip_lt (isEnd_of_symbol hkind) 0)
  · exact (htakes s t a hrun).2

/-- A sign is in front of the seam, as it is taken there. -/
theorem symbol (sign : Symbol) : B.Replays front ending (Parser.symbol sign) := by
  refine of_front ⟨(steady_congruence.symbol (b := 0) sign).1, fun {s s' t span} hs hfront hrun _ _ => ?_⟩
    fun s t span hrun => (takes_symbol sign s t span hrun).2
  obtain ⟨hkind, rfl, rfl⟩ := symbol_eq_ok_iff.1 hrun
  refine .inr ⟨s'.skip 1, ?_, hs.skip_one (hfront rfl)⟩
  have hcurrent := hs.current_eq (hfront rfl)
  exact symbol_eq_ok_iff.2 ⟨hcurrent ▸ hkind, hcurrent ▸ rfl, rfl⟩

theorem keyword (word : Keyword) : B.Replays front ending (Parser.keyword word) := by
  refine of_front ⟨(steady_congruence.keyword (b := 0) word).1, fun {s s' t span} hs hfront hrun _ _ => ?_⟩
    fun s t span hrun => ?_
  · obtain ⟨hkind, rfl, rfl⟩ := keyword_eq_ok_iff.1 hrun
    refine .inr ⟨s'.skip 1, ?_, hs.skip_one (hfront rfl)⟩
    have hcurrent := hs.current_eq (hfront rfl)
    exact keyword_eq_ok_iff.2 ⟨hcurrent ▸ hkind, hcurrent ▸ rfl, rfl⟩
  · obtain ⟨hkind, -, rfl⟩ := keyword_eq_ok_iff.1 hrun
    exact ahead_skip_lt (isEnd_of_keyword hkind) 0

/-- Behind a parser that ends where a sign stands, it does not matter how the parser may end. -/
theorem bind_symbol {first : Ending} {p : Parser α} {sign : Symbol} {f : α → Span → Parser β}
    (hp : B.Replays front first p) (hf : ∀ a span, B.Replays false ending (f a span)) :
    B.Replays front ending (p >>= fun a => Parser.symbol sign >>= f a) :=
  hp.bind_taking (fun a => (Replays.symbol sign).bind (hf a)) fun a =>
    (takes_symbol sign).bind fun span => (hf a span).steady

/-- The same where a reserved word stands. -/
theorem bind_keyword {first : Ending} {p : Parser α} {word : Keyword} (hword : word ≠ .NOT)
    {f : α → Span → Parser β} (hp : B.Replays front first p)
    (hf : ∀ a span, B.Replays false ending (f a span)) :
    B.Replays front ending (p >>= fun a => Parser.keyword word >>= f a) :=
  hp.bind_taking (fun a => (Replays.keyword word).bind (hf a)) fun a =>
    (takes_keyword hword).bind fun span => (hf a span).steady

theorem spanFrom (start : Span) : B.Replays front ending (Parser.spanFrom start) := by
  refine ⟨fun s => State.Leads.refl s, fun {s s' t span} hs _ hrun _ _ => ?_⟩
  obtain ⟨rfl, rfl⟩ := EStateM.Result.ok.inj hrun
  refine .inr ⟨s', ?_, hs⟩
  show EStateM.Result.ok (start.merge s'.cursor.previousSpan) s' = _
  rw [hs.previous]

/-! ### Repetitions and lists -/

/-- A repetition stops on both sides in the same round, as each round takes a token. -/
theorem loop {step : α → Parser (ForInStep α)} (h : ∀ a, B.Replays false ending (step a))
    (hadv : ∀ a, Advances (step a)) (a : α) : B.Replays front ending (Parser.loop a step) := by
  -- A round that ends the loop ends it with any number of rounds left.
  have hdone (rounds' : List Token) (a b : α) (s s' t : State) (hs : B.Shared s s')
      (hr : step a s = .ok (.done b) t) (hle : B.left.length ≤ t.cursor.ahead.length)
      (hclear : B.Clear t ending) : B.Repeats b t (loopOver step rounds' a s') := by
    rw [loopOver_eq, bind_apply_andThen]
    refine ((h a).replay hs nofun hr hle hclear).andThen fun u' hu => ?_
    cases rounds' <;> exact .inr ⟨u', rfl, hu⟩
  -- Both runs have as many rounds as tokens ahead, and each round that goes on takes one.
  have hrounds : ∀ (rounds rounds' : List Token) (a b : α) (s s' t : State), B.Shared s s' →
      s'.cursor.ahead.length ≤ rounds'.length → loopOver step rounds a s = .ok b t →
        B.left.length ≤ t.cursor.ahead.length → B.Clear t ending →
          B.Repeats b t (loopOver step rounds' a s') := by
    intro rounds
    induction rounds with
    | nil =>
      intro rounds' a b s s' t hs _ hrun hle hclear
      rw [loopOver_eq] at hrun
      obtain ⟨r, u, hr, hrest⟩ := bind_eq_ok_iff.1 hrun
      cases r with
      | yield c => cases hrest
      | done c =>
        obtain ⟨rfl, rfl⟩ := pure_eq_ok_iff.1 hrest
        exact hdone rounds' a _ s s' _ hs hr hle hclear
    | cons _ rounds ih =>
      intro rounds' a b s s' t hs hlen hrun hle hclear
      rw [loopOver_eq] at hrun
      obtain ⟨r, u, hr, hrest⟩ := bind_eq_ok_iff.1 hrun
      cases r with
      | done c =>
        obtain ⟨rfl, rfl⟩ := pure_eq_ok_iff.1 hrest
        exact hdone rounds' a _ s s' _ hs hr hle hclear
      | yield c =>
        rw [loopOver_eq]
        have hleads : u.Leads t := by
          have hsteady := steady_loopNext (fun a => (h a).steady) (‹Token› :: rounds) (.yield c)
          exact hsteady.leads hrest
        have hu := (h a).replay hs nofun hr (Nat.le_trans hle hleads.ahead.length_le)
          (hclear.leads hleads)
        obtain ⟨v, hv⟩ | ⟨u', hu', hshared⟩ := hu
        · exact .inl ⟨v, bind_of_error hv⟩
        · rw [bind_of_ok hu']
          have hlt := hadv a s' u' c hu'
          cases rounds' with
          | nil => exact absurd (Nat.lt_of_lt_of_le hlt hlen) (Nat.not_lt_zero _)
          | cons _ rounds' =>
            exact ih rounds' c b u u' t hshared
              (Nat.le_of_lt_succ (Nat.lt_of_lt_of_le hlt hlen)) hrest hle hclear
  refine ⟨steady_loop (fun a => (h a).steady) a, fun {s s' t b} hs _ hrun hle hclear => ?_⟩
  exact hrounds _ _ a b s s' t hs (Nat.le_refl _) hrun hle hclear

theorem taking {p : Parser α} (h : B.Replays front ending p) (rule : String) :
    B.Replays front ending (Parser.taking rule p) := by
  refine ⟨steady_taking rule h.steady, fun {s s' t a} hs hfront hrun hle hclear => ?_⟩
  have hp := taking_eq_ok hrun
  have hlt := taking_lt h.steady hrun
  obtain ⟨u, hu⟩ | ⟨t', ht', hshared⟩ := h.replay hs hfront hp hle hclear
  · exact .inl ⟨u, by rw [taking_eq, get_bind_apply, bind_of_error hu]⟩
  · refine .inr ⟨t', taking_of_ok h.steady ht' ?_, hshared⟩
    obtain ⟨v, hsv, hsv', -⟩ := hs.tokens
    obtain ⟨w, htw, htw', -⟩ := hshared.tokens
    simp only [hsv, hsv', htw, htw', List.length_append] at hlt ⊢
    omega

/-- A list ends in front of the seam only if no comma is there, on either side. -/
theorem commaStep {next : Parser α} (h : B.Replays false .list next) (rule : String)
    (items : List α) : B.Replays false .list (Grammar.commaStep rule next items) :=
  takeComma_bind ((h.taking rule).bind fun _ => Replays.pure _) (Replays.pure _)

/-- A list is repeated if its items are. -/
theorem commaList {first next : Parser α} (hfirst : B.Replays front .list first)
    (hnext : B.Replays false .list next) (rule : String) :
    B.Replays front .list (Parser.commaList rule first next) := by
  rw [commaList_eq]
  exact (hfirst.taking rule).bind fun head =>
    (loop (hnext.commaStep rule) (Congruence.advances_commaStep rule hnext.steady) []).bind fun tail =>
      Replays.pure _

/-- A list takes a token, since its first item does. -/
theorem commaSeparated {p : Parser α} (h : B.Replays false .list p) (rule : String) :
    B.Replays front .list (Parser.commaSeparated rule p) := h.weaken.commaList h rule

/-! ### Changing the state -/

/-- Under further levels a test ends on no level of those outside. -/
theorem nest {p : Parser α} (h : B.Replays front ending p) (hending : ending ≠ .operand)
    (cost : Nat) : B.Replays front ending (Parser.nest cost p) := by
  refine ⟨h.steady.nest, fun {s s' t a} hs hfront hrun hle hclear => ?_⟩
  obtain ⟨hroom, u, hu, rfl⟩ := nest_eq_ok_iff.1 hrun
  have hdeep : B.Shared (s.deeper cost) (s'.deeper cost) :=
    hs.same (hs.frame.deeper cost) rfl rfl rfl
  have hclear' : B.Clear u ending := by
    cases ending with
    | operand => exact absurd rfl hending
    | closed => trivial
    | expression | list => exact hclear
  rw [nest_apply, if_neg (by rw [← hs.frame.settings, ← hs.frame.depth]; omega)]
  exact (h.replay hdeep hfront hu hle hclear').mapState (fun _ => rfl) rfl fun v hv =>
    hv.shallower cost

/-- In the substring of `POSITION`, no test of membership is made at the seam. -/
theorem atSeparator {p : Parser α} (h : B.Replays front ending p) (hending : ending ≠ .operand) :
    B.Replays front ending (Parser.atSeparator p) := by
  refine ⟨h.steady.atSeparator, fun {s s' t a} hs hfront hrun hle hclear => ?_⟩
  rw [atSeparator_apply] at hrun ⊢
  obtain ⟨u, hu, rfl⟩ := mapState_eq_ok_iff.1 hrun
  have hseparating : B.Shared s.separating s'.separating :=
    hs.same hs.frame.separating rfl rfl rfl
  have hclear' : B.Clear u ending := by
    cases ending with
    | operand => exact absurd rfl hending
    | closed => trivial
    | expression | list => exact hclear
  rw [hs.frame.separatorDepth]
  exact (h.replay hseparating hfront hu hle hclear').mapState (fun _ => rfl) rfl fun v hv =>
    ⟨hv.settings, hv.library, hv.depth, hv.attempts, hv.subqueries, rfl⟩

theorem subquery {p : Parser α} (h : B.Replays front ending p) :
    B.Replays front ending (Parser.subquery p) := by
  refine ⟨h.steady.subquery, fun {s s' t a} hs hfront hrun hle hclear => ?_⟩
  rw [subquery_apply] at hrun ⊢
  obtain ⟨u, hu, rfl⟩ := mapState_eq_ok_iff.1 hrun
  have henclosed : B.Shared s.enclosed s'.enclosed :=
    hs.same hs.frame.enclosed rfl rfl rfl
  exact (h.replay henclosed hfront hu hle hclear).mapState (fun _ => rfl) rfl fun v hv =>
    hv.disclosed

/-- Where a run stops at the first error, nothing is recovered from. -/
theorem recover {p : Parser α} (h : B.Replays front ending p) :
    B.Replays front ending (Parser.recover p) := by
  refine ⟨h.steady.recover, fun {s s' t a} hs hfront hrun hle hclear => ?_⟩
  have hstrict' : s'.isRecovering = false :=
    notRecovering_of_strict (hs.frame.settings ▸ hs.strict)
  obtain ⟨x, hx, rfl⟩ :=
    (recover_eq_ok_iff h.steady (notRecovering_of_strict hs.strict)).1 hrun
  obtain ⟨u, hu⟩ | ⟨t', ht', hshared⟩ := h.replay hs hfront hx hle hclear
  · exact .inl ⟨u, recover_of_error h.steady hstrict' hu⟩
  · exact .inr ⟨t', (recover_eq_ok_iff h.steady hstrict').2 ⟨x, ht', rfl⟩, hshared⟩

end Replays

/-! ### The kinds of the tokens at the seam -/

/-- The tokens at the seam are of the same kind. -/
def Even (B : Seam) : Prop := kindAt B.left 0 = kindAt B.right 0

/-- At an even seam, both states have tokens of the same kind in front. -/
theorem Shared.kind_eq (h : B.Shared s s') (hB : B.Even) :
    s'.cursor.current.kind = s.cursor.current.kind := by
  obtain ⟨-, heq⟩ | ⟨hs, hs', -⟩ := h.current
  · rw [heq]
  · rw [← kindAt_zero, ← kindAt_zero, hs, hs']
    exact hB.symm

namespace Replays

/-- At an even seam, a clause ends on both sides or on neither. -/
theorem clauseEnd (hB : B.Even) : B.Replays front ending Parser.clauseEnd := by
  refine ⟨steady_clauseEnd, fun {s s' t a} hs _ hrun _ _ => ?_⟩
  obtain ⟨hboundary, rfl⟩ := (clauseEnd_eq_ok_iff (notRecovering_of_strict hs.strict)).1 hrun
  refine .inr ⟨s', (clauseEnd_eq_ok_iff (notRecovering_of_strict
    (hs.frame.settings ▸ hs.strict))).2 ⟨?_, rfl⟩, hs⟩
  unfold State.atBoundary at hboundary ⊢
  rw [hs.kind_eq hB, ← hs.frame.subqueries]
  exact hboundary

/-- At an even seam, every question for a word is answered alike. -/
theorem atKeyword_bind_of_even (hB : B.Even) {word : Keyword} {f : Bool → Parser α}
    (h : ∀ b, B.Replays front ending (f b)) : B.Replays front ending (atKeyword word >>= f) := by
  refine ⟨fun s => (h _).steady s, fun {s s' t a} hs hfront hrun hle hclear => ?_⟩
  rw [atKeyword_bind_apply] at hrun ⊢
  rw [hs.kind_eq hB]
  exact (h _).replay hs hfront hrun hle hclear

/-- At an even seam, a clause may be missing on both sides. -/
theorem clause (hB : B.Even) {p : Parser α} (h : B.Replays front ending p) (allowed : Bool)
    (word : Keyword) : B.Replays front ending (Parser.clause allowed word p) := by
  cases allowed with
  | false => exact Replays.pure none
  | true =>
    refine atKeyword_bind_of_even hB fun here => ?_
    cases here with
    | false => exact Replays.pure none
    | true => exact h.recover.bind fun found => (clauseEnd hB).bind fun _ => Replays.pure found

end Replays

end Seam

end SearchSql.Grammar
