import SearchSql.Proofs.Levels
import SearchSql.Proofs.QueryLikeness
import SearchSql.Proofs.QueryReplaying

/-!
# The same tokens at other places

The trees that are built from the same tokens at other places differ in their spans only: they are the
same under the view that sees no places (`View.placeless`). So a run that fails at its first error is
retold in front of the same tokens wherever these stand, with other tokens behind them that no rule
goes on with (`Seam.retell`): it is compared with a run on tokens without places, that one with the run
on the other side of a seam, and the last with the run to be found.
-/

set_option autoImplicit false

namespace SearchSql

/-- The view that sees no places. -/
def View.placeless : View where
  span _ := default
  ident name := { name with span := default }
  word text := text

/-- No rule sees where a token stands. -/
theorem View.lawful_placeless : View.placeless.Lawful where
  merge _ _ := rfl
  bare _ _ := rfl
  quoted _ _ := rfl
  upper _ := rfl
  dot _ := rfl
  minus _ := rfl
  join words := by simp only [View.placeless, List.map_id']
  readSigned _ := rfl
  readUnsigned _ := rfl
  readReal _ := rfl

theorem Token.view_placeless (t : Token) : t.view .placeless = t.placeless := by
  obtain ⟨kind, text, span⟩ := t
  cases kind <;> rfl

/-- The cursor on tokens without places. -/
def Cursor.placeless (c : Cursor) : Cursor :=
  ⟨c.passed.map Token.placeless, c.ahead.map Token.placeless, c.closing.placeless, c.closing_isEnd⟩

theorem Cursor.previousSpan_placeless (c : Cursor) : c.placeless.previousSpan = default := by
  obtain ⟨passed, ahead, closing, hclosing⟩ := c
  cases passed with
  | nil => cases ahead <;> rfl
  | cons t ts => rfl

namespace Grammar

open SearchSql.Grammar.Parser

variable {α β γ : Type}

/-! ## Runs on tokens without places -/

/-- The kind of a token has nothing to do with its place. -/
theorem kindAt_placeless (tokens : List Token) (k : Nat) :
    kindAt (tokens.map Token.placeless) k = kindAt tokens k := by
  unfold kindAt
  rw [List.getElem?_map]
  cases tokens[k]? <;> rfl

/-- The state in front of tokens without places. -/
def State.placeless (s : State) : State := { s with cursor := s.cursor.placeless }

namespace Likeness

/-- Runs that fail at their first error, on tokens that differ in their places. -/
def placeless : Likeness where
  view := .placeless
  ends kind := kind == .endOfInput
  borders _ _ := True
  log s _ := s.settings.recover = false
  refused _ t _ t' := t.SameFrame t' ∧ t.settings.recover = false

/-- Tokens that look alike without places are of the same kind. -/
theorem seen_kind {t t' : Token} (h : placeless.Seen t t') : t'.kind = t.kind := by
  cases h with
  | inSight _ =>
    rw [show t.view placeless.view = t.placeless from t.view_placeless]
    rfl
  | atEnd ht ht' _ => rw [eq_of_beq ht, eq_of_beq ht']

/-- Likeness up to places is respected by all parsers. -/
theorem lawful_placeless : placeless.Lawful where
  view := View.lawful_placeless
  ends := ⟨rfl, fun h => .inl (eq_of_beq h)⟩
  log_same h hs _ := by
    show _ = false
    rw [hs.settings]
    exact h
  refused_frame h := h.1
  refused_same h hframe hs _ _ _ := ⟨hframe, by rw [hs.settings]; exact h.2⟩
  refused_matching hs _ := ⟨hs.frame, hs.log⟩
  malformedLiteral {s s'} kind text fault span hs := by
    have hstrict' : s'.settings.recover = false := hs.frame.settings ▸ hs.log
    rw [malformedLiteral_of_strict hs.log, malformedLiteral_of_strict hstrict']
    exact .refused ⟨hs.frame, hs.log⟩

/-- It is respected by queries. -/
theorem queryLawful_placeless : placeless.QueryLawful where
  toLawful := lawful_placeless
  recover {α β front f p q} hp hq h := by
    intro s s' hs hfront
    have hstrict := notRecovering_of_strict hs.log
    have hstrict' : s'.isRecovering = false := notRecovering_of_strict (hs.frame.settings ▸ hs.log)
    have hends := h s s' hs hfront
    generalize hr : p s = r at hends
    generalize hr' : q s' = r' at hends
    -- Both runs fail at their first error, so nothing is recovered from.
    cases hends with
    | ok a ht =>
      rw [(recover_eq_ok_iff hp hstrict).2 ⟨a, hr, rfl⟩, (recover_eq_ok_iff hq hstrict').2 ⟨f a, hr', rfl⟩]
      exact .ok (some a) ht
    | refused h =>
      rw [recover_of_error hp hstrict hr, recover_of_error hq hstrict' hr']
      exact .refused h
    | exhausted =>
      rw [recover_of_error hp hstrict hr, recover_of_error hq hstrict' hr']
      exact .exhausted
  clauseEnd := by
    intro s s' hs _
    have hstrict := notRecovering_of_strict hs.log
    have hstrict' : s'.isRecovering = false := notRecovering_of_strict (hs.frame.settings ▸ hs.log)
    have hboundary : s'.atBoundary = s.atBoundary := by
      unfold State.atBoundary
      rw [seen_kind (hs.seen lawful_placeless), hs.frame.subqueries]
    unfold Parser.clauseEnd
    rw [get_bind_apply, get_bind_apply, hboundary]
    cases s.atBoundary with
    | true => exact .ok () hs
    | false =>
      show placeless.Ends _ ((current >>= _) s) ((current >>= _) s')
      rw [current_bind_apply, current_bind_apply, passOver_apply hstrict, passOver_apply hstrict']
      exact .refused ⟨hs.frame, hs.log⟩

/-- A state is linked with the one in front of the same tokens without places. -/
theorem linked_placeless {s : State} (hs : s.settings.recover = false) :
    placeless.Linked s s.placeless where
  frame := ⟨rfl, rfl, rfl, rfl, rfl, rfl⟩
  border := trivial
  sight := by
    show inSight _ (s.cursor.ahead.map Token.placeless) = (inSight _ s.cursor.ahead).map _
    rw [show Token.view placeless.view = Token.placeless from funext Token.view_placeless]
    unfold inSight
    rw [List.takeWhile_map]
    rfl
  position := List.length_map Token.placeless
  previous := s.cursor.previousSpan_placeless
  log := hs

/-- A run on tokens without places ends in front of the tokens that the run it is compared with ends in
front of. -/
theorem Linked.ahead_placeless {s t t' : State} (h : placeless.Linked t t') (ht : s.Leads t)
    (ht' : s.placeless.Leads t') : t'.cursor.ahead = t.cursor.ahead.map Token.placeless := by
  have hsuffix : t.cursor.ahead.map Token.placeless <:+ s.placeless.cursor.ahead :=
    ht.ahead.map Token.placeless
  have hlength {u v : State} (huv : u.Leads v) : v.cursor.passed.length + v.cursor.ahead.length =
      u.cursor.passed.length + u.cursor.ahead.length := by
    have hall := congrArg List.length huv.allTokens
    simp only [Cursor.allTokens, List.length_append, List.length_reverse,
      List.length_singleton] at hall
    omega
  have hpassed : t'.cursor.passed.length = t.cursor.passed.length := h.position
  have hstart : s.placeless.cursor.passed.length + s.placeless.cursor.ahead.length =
      s.cursor.passed.length + s.cursor.ahead.length := by
    simp [State.placeless, Cursor.placeless]
  have hfirst := hlength ht
  have hsecond := hlength ht'
  have hsame : t'.cursor.ahead.length = (t.cursor.ahead.map Token.placeless).length := by
    rw [List.length_map]
    omega
  exact (List.suffix_of_suffix_length_le ht'.ahead hsuffix (Nat.le_of_eq hsame)).eq_of_length hsame

end Likeness

/-! ## Runs told again -/

open Likeness

/-- Every rule builds the same tree up to places from tokens without places. -/
theorem like_read (n : Nonterminal α) :
    placeless.Like n.front (n.view placeless.view) (read n) (read (n.seen placeless.view)) := by
  intro s s' hs hfront
  have hends := like_derive queryLawful_placeless (n.fuel s.budget) n s s' hs hfront
  have hbudget : s'.budget = s.budget := by
    unfold State.budget
    rw [hs.frame.settings, hs.frame.depth]
  have hfuel : (n.seen placeless.view).fuel s'.budget = n.fuel s.budget := by
    rw [hbudget]
    cases n <;> rfl
  rwa [derive_eq_read (Nat.le_refl _), derive_eq_read (Nat.le_of_eq hfuel)] at hends

theorem likeCallees_read : Likeness.LikeCallees .placeless read read :=
  ⟨steady_read, steady_read, like_read⟩

/-- What a run that fails at its first error reads in front of a seam is read again, at other places,
on the other side of it. -/
theorem Seam.retell {B : Seam} {ending : Ending} {p : Parser α} {q : Parser β} {p' : Parser γ}
    {f : α → β} {f' : γ → β} (hp : placeless.Like false f p q) (hsteady : Steady p)
    (hp' : placeless.Like false f' p' q) (hsteady' : Steady p') (hq : B.Replays false ending q)
    {s s' t : State} {a : α} {tokens : List Token} (hframe : s.SameFrame s')
    (hstrict : s.settings.recover = false) (hs : s.Faces (tokens ++ B.left))
    (hs' : s'.Faces (tokens ++ B.right)) (hfits : B.Fits tokens) (hrun : p s = .ok a t)
    (hle : B.left.length ≤ t.cursor.ahead.length) (hclear : B.Clear t ending)
    (hcomplete : ∀ u, p' s' ≠ .error .outOfFuel u) :
    ∃ a' t' rest, p' s' = .ok a' t' ∧ f' a' = f a ∧ t.Faces (rest ++ B.left) ∧
      t'.Faces (rest ++ B.right) := by
  have hstrict' : s'.settings.recover = false := hframe.settings ▸ hstrict
  -- The run on tokens without places.
  have hends := hp s s.placeless (linked_placeless hstrict) nofun
  rw [hrun] at hends
  generalize hq₁ : q s.placeless = r at hends
  cases hends with
  | @ok _ _ t₁ hlinked =>
  have ht₁ := hlinked.ahead_placeless (hsteady.leads hrun) (hq.steady.leads hq₁)
  -- The run on the other side of the seam.
  have hshared : B.Shared s.placeless s'.placeless :=
    ⟨hframe.same _ _ _ _ _ _ _ _, hstrict,
      s'.cursor.previousSpan_placeless.trans s.cursor.previousSpan_placeless.symm,
      tokens, hs, hs', hfits⟩
  have hle₁ : B.left.length ≤ t₁.cursor.ahead.length := by
    rw [ht₁, List.length_map]
    exact hle
  have haway (h : B.Away t) : B.Away t₁ := by
    unfold Seam.Away
    rw [← kindAt_zero, ht₁, List.length_map, kindAt_placeless, kindAt_zero]
    exact h
  have hclear₁ : B.Clear t₁ ending := by
    cases ending with
    | closed => trivial
    | operand =>
      intro hin
      rw [← hlinked.frame.separatorDepth, ← hlinked.frame.depth]
      exact (hclear hin).imp_right haway
    | expression | list => exact fun hin => haway (hclear hin)
  have hrepeats := hq.replay hshared nofun hq₁ hle₁ hclear₁
  -- The run at the other places.
  have hends' := hp' s' s'.placeless (linked_placeless hstrict') nofun
  generalize hp₂ : p' s' = r' at hends' hcomplete
  obtain ⟨u, hu⟩ | ⟨t₂, ht₂, hshared₂⟩ := hrepeats
  · rw [hu] at hends'
    cases hends' with
    | exhausted => exact absurd rfl (hcomplete _)
  · rw [ht₂] at hends'
    generalize hb : f a = b at hends'
    cases hends' with
    | @ok a' t' _ hlinked' =>
    have ht' := hlinked'.ahead_placeless (hsteady'.leads hp₂) (hq.steady.leads ht₂)
    obtain ⟨rest, hleft, hright, -⟩ := hshared₂.tokens
    exact ⟨a', t', rest, rfl, rfl, ht₁.symm.trans hleft, ht'.symm.trans hright⟩

/-! ## Runs that recover -/

/-- The state of a run that fails at its first error, and is otherwise the same. -/
def State.strict (s : State) : State := { s with settings := { s.settings with recover := false } }

/-- A run that fails at its first error stays what it is if recovery is taken from it. -/
theorem State.strict_eq {s : State} (h : s.settings.recover = false) : s.strict = s := by
  obtain ⟨cursor, ⟨maxDepth, recover, maxDiagnostics⟩, _⟩ := s
  obtain rfl : recover = false := h
  rfl

/-- Runs keep settings and counters, those that recover included. -/
theorem State.SameFrame.leads_strict {s s' t t' : State} (h : s.SameFrame s'.strict)
    (ht : s.Leads t) (ht' : s'.Leads t') : t.SameFrame t'.strict where
  settings := by
    rw [ht.settings, h.settings]
    unfold State.strict
    rw [ht'.settings]
  library := by rw [ht.library, h.library, State.strict, State.strict, ht'.library]
  depth := by rw [ht.depth, h.depth, State.strict, State.strict, ht'.depth]
  attempts := by rw [ht.attempts, h.attempts, State.strict, State.strict, ht'.attempts]
  subqueries := by rw [ht.subqueries, h.subqueries, State.strict, State.strict, ht'.subqueries]
  separatorDepth := by
    rw [ht.separatorDepth, h.separatorDepth, State.strict, State.strict, ht'.separatorDepth]

/-- What is read by a run that fails at its first error is read by one that recovers. -/
theorem ok_of_strict {p : Parser α} {firm : Bool}
    (h : ∀ {library : Time.Library} b, (levels library false).Rel false b firm p p)
    {s t : State} {a : α} (hsettled : s.Settled) (hrun : p s.strict = .ok a t)
    (horder : firm = true ∨ ¬t.AtOrder) : ∃ t', p s = .ok a t' ∧ t'.cursor = t.cursor := by
  have hlinked : (levels s.library false).Linked s.strict s :=
    ⟨rfl, ⟨rfl, rfl, rfl, nofun, hsettled, hsettled, fun _ => id, Iff.rfl⟩, trivial⟩
  exact levels_ok h hlinked hrun horder

/-- What a run that fails at its first error reads in front of a seam is read on the other side of it,
at other places, whether the other run recovers or not. -/
theorem Seam.retell_recovering {B : Seam} {ending : Ending} {p : Parser α} {q : Parser β}
    {p' : Parser γ} {f : α → β} {f' : γ → β} {firm : Bool} (hp : placeless.Like false f p q)
    (hsteady : Steady p) (hp' : placeless.Like false f' p' q) (hcomplete : Complete p')
    (hlevels : ∀ {library : Time.Library} b, (levels library false).Rel false b firm p' p')
    (hq : B.Replays false ending q)
    {s s' t : State} {a : α} {tokens : List Token} (hframe : s.SameFrame s'.strict)
    (hsettled : s'.Settled) (hs : s.Faces (tokens ++ B.left)) (hs' : s'.Faces (tokens ++ B.right))
    (hfits : B.Fits tokens) (hrun : p s = .ok a t) (hle : B.left.length ≤ t.cursor.ahead.length)
    (hclear : B.Clear t ending)
    (horder : firm = true ∨ B.Even ∧ ¬t.AtOrder) :
    ∃ a' t' rest, p' s' = .ok a' t' ∧ f' a' = f a ∧ t.Faces (rest ++ B.left) ∧
      t'.Faces (rest ++ B.right) := by
  have hstrict : s'.strict.Faces (tokens ++ B.right) := hs'
  have hrelated : (levels s.library false).Rel false 0 firm p' p' := hlevels 0
  obtain ⟨a', u, rest, hu, ha', ht, hfaces⟩ := B.retell hp hsteady hp' hrelated.steadyLeft hq
    hframe (hframe.settings ▸ rfl) hs hstrict hfits hrun hle hclear
    fun v => hcomplete s'.strict v
  have hkind (heven : B.Even) : u.cursor.current.kind = t.cursor.current.kind := by
    rw [hfaces.current, ht.current]
    cases rest with
    | nil => exact heven.symm
    | cons x rest => rfl
  obtain ⟨t', ht', hcursor⟩ := ok_of_strict hlevels hsettled hu <| horder.imp_right
    fun ⟨heven, hnot⟩ hat => hnot ((hkind heven).symm.trans hat)
  refine ⟨a', t', rest, ht', ha', ht, ?_⟩
  unfold State.Faces
  rw [hcursor]
  exact hfaces

end Grammar

end SearchSql
