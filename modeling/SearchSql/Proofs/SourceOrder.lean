import SearchSql.Proofs.Recovering
import SearchSql.Proofs.Tiling

/-!
# Diagnostics in source order

Every diagnostic is about tokens of the text, and each starts behind the one reported before it
(`parse_inSourceOrder`). While a parse goes on, the diagnostic reported last does not start behind
the token under the cursor, and what is refused starts between the two: it is about this token, or
about some tokens just passed, behind which nothing has been reported yet. Only a diagnostic that
ends the parse may start where the last one does, since it is not reported but handed on.
-/

set_option autoImplicit false

namespace SearchSql

/-- The tokens start one behind the other. -/
def Token.InOrder (tokens : List Token) : Prop :=
  tokens.Pairwise fun t u => t.span.start < u.span.start

/-- The tokens of a text are in order. -/
theorem Token.inOrder_tokenize (text : String) : InOrder (tokenize text) := by
  refine (tokenize_tiles text).2.2.1.imp ?_
  intro t u h
  exact Nat.lt_of_lt_of_le h.1 h.2

/-! ## Places of tokens around a cursor -/

namespace Cursor

/-- A list that ends in an end of input is taken as it is. -/
theorem allTokens_ofTokens {tokens : List Token} {last : Token} (h : tokens.getLast? = some last)
    (hend : last.isEnd = true) : (ofTokens tokens).allTokens = tokens := by
  unfold ofTokens
  rw [h]
  dsimp only
  rw [dif_pos hend]
  obtain ⟨front, rfl⟩ := List.getLast?_eq_some_iff.1 h
  simp [allTokens]

/-- All tokens are those passed, those ahead and the last one. -/
theorem allTokens_eq (c : Cursor) : c.allTokens = c.passed.reverse ++ (c.ahead ++ [c.closing]) := by
  unfold allTokens
  rw [List.append_assoc]

/-- The current token is ahead, or the last one. -/
theorem current_mem (c : Cursor) : c.current ∈ c.ahead ++ [c.closing] := by
  unfold current
  cases c.ahead with
  | nil => exact List.mem_singleton.2 rfl
  | cons t ts => exact List.mem_cons_self

variable {c : Cursor} (h : Token.InOrder c.allTokens)

include h

/-- Every token that is passed starts in front of the current one. -/
theorem start_lt_current {t : Token} (ht : t ∈ c.passed) :
    t.span.start < c.current.span.start := by
  rw [allTokens_eq] at h
  exact (List.pairwise_append.1 h).2.2 t (List.mem_reverse.2 ht) _ c.current_mem

/-- Moving on, the cursor does not come to an earlier place. -/
theorem start_le_advance : c.current.span.start ≤ c.advance.current.span.start := by
  cases hend : c.current.isEnd with
  | true => exact Nat.le_of_eq (by rw [advance_of_isEnd hend])
  | false =>
    have hmem : c.current ∈ c.advance.passed := by
      obtain ⟨passed, ahead, closing, hclosing⟩ := c
      cases ahead with
      | nil => cases hclosing.symm.trans hend
      | cons t ts =>
        have ht : t.isEnd = false := hend
        simp [advance, current, ht]
    have hadvance : Token.InOrder c.advance.allTokens := by
      rw [allTokens_advance]
      exact h
    exact Nat.le_of_lt (start_lt_current hadvance hmem)

/-- Moving on never moves the current place backwards. -/
theorem start_le_skip (n : Nat) : c.current.span.start ≤ (c.skip n).current.span.start := by
  induction n generalizing c with
  | zero => exact Nat.le_refl _
  | succ n ih =>
    have hadvance : Token.InOrder c.advance.allTokens := by
      rw [allTokens_advance]
      exact h
    exact Nat.le_trans (start_le_advance h) (ih hadvance)

/-- The token passed last on a way that starts in front of a token lies on this way. -/
theorem previousSpan_between (hend : c.current.isEnd = false) (n : Nat) :
    ∃ t ∈ c.allTokens, (c.skip (n + 1)).previousSpan = t.span ∧
      c.current.span.start ≤ t.span.start ∧
        t.span.start ≤ (c.skip (n + 1)).current.span.start := by
  induction n with
  | zero =>
    refine ⟨c.current, ?_, previousSpan_skip_one hend, Nat.le_refl _, start_le_skip h 1⟩
    rw [allTokens_eq]
    exact List.mem_append_right _ c.current_mem
  | succ n ih =>
    obtain ⟨t, ht, hspan, hstart, hstop⟩ := ih
    have hskip : Token.InOrder (c.skip (n + 1)).allTokens := by
      rw [allTokens_skip]
      exact h
    rw [← skip_skip_one]
    cases hnext : (c.skip (n + 1)).current.isEnd with
    | true =>
      have hstays : (c.skip (n + 1)).skip 1 = c.skip (n + 1) := advance_of_isEnd hnext
      rw [hstays]
      exact ⟨t, ht, hspan, hstart, hstop⟩
    | false =>
      refine ⟨(c.skip (n + 1)).current, ?_, previousSpan_skip_one hnext, start_le_skip h _,
        start_le_skip hskip 1⟩
      rw [← allTokens_skip (n + 1) c, allTokens_eq]
      exact List.mem_append_right _ (current_mem _)

end Cursor

/-! ## Places of diagnostics -/

/-- The diagnostic starts where a token does and ends where a token does. If a token is to blame,
it is about this token. -/
structure Diagnostic.IsLocated (tokens : List Token) (d : Diagnostic) : Prop where
  start : ∃ t ∈ tokens, d.span.start = t.span.start
  stop : ∃ t ∈ tokens, d.span.stop = t.span.stop
  found : d.kind = .unexpectedToken ∨ d.kind = .noViableAlternative →
    ∃ t ∈ tokens, d.span = t.span ∧ d.found = some t.kind

/-- The starts of the diagnostics increase. The last one, if it ends the parse, may start where the one
before it does. -/
def Diagnostic.InSourceOrder (ds : List Diagnostic) : Prop :=
  ds.Pairwise (fun d e => d.span.start < e.span.start) ∨
    ∃ front last, ds = front ++ [last] ∧ last.EndsParse ∧
      front.Pairwise (fun d e => d.span.start < e.span.start) ∧
      ∀ d ∈ front, d.span.start ≤ last.span.start

namespace Grammar

open SearchSql.Grammar.Parser

/-- A diagnostic has the place of the token it blames. -/
theorem Blames.span_eq {t : Token} {d : Diagnostic} (h : Blames t d) : d.span = t.span := by
  cases h <;> rfl

/-- A diagnostic that blames a token of the text is located there. -/
theorem Blames.isLocated {tokens : List Token} {t : Token} {d : Diagnostic} (h : Blames t d)
    (ht : t ∈ tokens) : d.IsLocated tokens := by
  refine ⟨⟨t, ht, ?_⟩, ⟨t, ht, ?_⟩, ?_⟩
  · rw [h.span_eq]
  · rw [h.span_eq]
  · intro hkind
    refine ⟨t, ht, h.span_eq, ?_⟩
    cases h with
    | unexpected | noAlternative | unknownFunction => rfl
    | tooDeep => rcases hkind with hkind | hkind <;> cases hkind

/-- The diagnostics so far are in order, and none starts behind the cursor. -/
structure State.IsOrdered (tokens : List Token) (s : State) : Prop where
  allTokens : s.cursor.allTokens = tokens
  located : ∀ d ∈ s.diagnostics, d.IsLocated tokens
  order : s.diagnostics.Pairwise fun d e => e.span.start < d.span.start
  last : s.lastReported = s.diagnostics.head?.map (·.span.start)
  behind : ∀ d ∈ s.diagnostics, d.span.start ≤ s.cursor.current.span.start

/-- The diagnostic starts between the one reported last and the cursor. -/
structure State.IsNext (tokens : List Token) (d : Diagnostic) (s : State) : Prop where
  state : s.IsOrdered tokens
  located : d.IsLocated tokens
  behind : ∀ e ∈ s.diagnostics, e.span.start ≤ d.span.start
  ahead : d.span.start ≤ s.cursor.current.span.start

variable {tokens : List Token}

/-- Diagnostics stay in order while nothing is reported. -/
theorem State.IsOrdered.same {s t : State} (h : s.IsOrdered tokens) (ht : s.Keeps t)
    (hcursor : t.cursor = s.cursor) : t.IsOrdered tokens := by
  constructor
  · rw [hcursor]
    exact h.allTokens
  · rw [ht.diagnostics]
    exact h.located
  · rw [ht.diagnostics]
    exact h.order
  · rw [ht.lastReported, ht.diagnostics]
    exact h.last
  · rw [ht.diagnostics, hcursor]
    exact h.behind

/-- Diagnostics stay in order as the cursor moves on. -/
theorem State.IsOrdered.skip {s : State} (h : s.IsOrdered tokens) (htokens : Token.InOrder tokens)
    (n : Nat) : (s.skip n).IsOrdered tokens := by
  have horder : Token.InOrder s.cursor.allTokens := by
    rw [h.allTokens]
    exact htokens
  constructor
  · exact (Cursor.allTokens_skip n s.cursor).trans h.allTokens
  · exact h.located
  · exact h.order
  · exact h.last
  · intro d hd
    exact Nat.le_trans (h.behind d hd) (Cursor.start_le_skip horder n)

/-- A diagnostic at another place than the last may be reported. -/
theorem State.IsNext.reported {s : State} {d : Diagnostic} (h : s.IsNext tokens d)
    (hnew : s.lastReported ≠ some d.span.start) : (s.reported d).IsOrdered tokens := by
  have hlt : ∀ e ∈ s.diagnostics, e.span.start < d.span.start := by
    intro e he
    have hlast := h.state.last
    have horder := h.state.order
    have hbehind := h.behind
    cases hdiagnostics : s.diagnostics with
    | nil =>
      rw [hdiagnostics] at he
      cases he
    | cons head rest =>
      rw [hdiagnostics] at he hlast horder hbehind
      -- The last one starts elsewhere, and the others start in front of it.
      have hhead : head.span.start < d.span.start := by
        refine Nat.lt_of_le_of_ne (hbehind head List.mem_cons_self) ?_
        intro heq
        rw [hlast, ← heq] at hnew
        exact hnew rfl
      rcases List.mem_cons.1 he with rfl | he
      · exact hhead
      · exact Nat.lt_trans ((List.pairwise_cons.1 horder).1 e he) hhead
  constructor
  · exact h.state.allTokens
  · intro e he
    rcases List.mem_cons.1 he with rfl | he
    · exact h.located
    · exact h.state.located e he
  · exact List.pairwise_cons.2 ⟨hlt, h.state.order⟩
  · rfl
  · intro e he
    rcases List.mem_cons.1 he with rfl | he
    · exact h.ahead
    · exact h.state.behind e he

/-- Diagnostics are reported in order, and what is refused is behind all of them. -/
def sourceOrder (tokens : List Token) : Contract where
  keeps := State.IsOrdered tokens
  refuses d s := s.IsNext tokens d

/-- The current token is one of the text. -/
theorem State.IsOrdered.current_mem {s : State} (h : s.IsOrdered tokens) :
    s.cursor.current ∈ tokens := by
  rw [← h.allTokens, Cursor.allTokens_eq]
  exact List.mem_append_right _ (Cursor.current_mem _)

/-- To report in order is a condition on what is reported. -/
theorem sourceOrder_reporting (htokens : Token.InOrder tokens) : (sourceOrder tokens).Reporting where
  skip_one hs _ := hs.skip htokens 1
  same hs ht hcursor := hs.same ht hcursor
  refuses_same {d s t} hs ht hcursor := by
    refine ⟨hs.state.same ht hcursor, hs.located, ?_, ?_⟩
    · rw [ht.diagnostics]
      exact hs.behind
    · rw [hcursor]
      exact hs.ahead
  refuses_current {d s} hs hd := by
    refine ⟨hs, hd.isLocated hs.current_mem, ?_, ?_⟩
    · rw [hd.span_eq]
      exact hs.behind
    · exact Nat.le_of_eq (congrArg Span.start hd.span_eq)
  refuses_passed {s} expected hs hend := by
    have hskip := hs.skip htokens 1
    have horder : Token.InOrder s.cursor.allTokens := by
      rw [hs.allTokens]
      exact htokens
    exact ⟨hskip, (Blames.unexpected expected).isLocated hs.current_mem, hs.behind,
      Cursor.start_le_skip horder 1⟩
  -- A literal may be several tokens: its diagnostic reaches from the first of them to the last.
  refuses_literal {s} literal reason n hs hend ht := by
    have horder : Token.InOrder s.cursor.allTokens := by
      rw [hs.allTokens]
      exact htokens
    obtain ⟨t, hmem, hspan, hstart, hstop⟩ := Cursor.previousSpan_between horder hend n
    rw [hs.allTokens] at hmem
    have hprevious : (s.skip (n + 1)).cursor.previousSpan = t.span := hspan
    rw [hprevious]
    have hfirst : (s.cursor.current.span.merge t.span).start = s.cursor.current.span.start :=
      Nat.min_eq_left hstart
    refine ⟨ht, ⟨⟨_, hs.current_mem, hfirst⟩, ?_, ?_⟩, ?_, ?_⟩
    · rcases Nat.le_total s.cursor.current.span.stop t.span.stop with hle | hle
      · exact ⟨t, hmem, Nat.max_eq_right hle⟩
      · exact ⟨_, hs.current_mem, Nat.max_eq_left hle⟩
    · rintro (hkind | hkind) <;> cases hkind
    · intro e he
      show e.span.start ≤ (s.cursor.current.span.merge t.span).start
      rw [hfirst]
      exact hs.behind e he
    · show (s.cursor.current.span.merge t.span).start ≤ _
      rw [hfirst]
      exact Cursor.start_le_skip horder (n + 1)
  report {d s} hs hfatal hrecover := by
    rw [report_apply]
    split
    · exact hs.state.same ⟨rfl, rfl, rfl⟩ rfl
    · next hnew =>
      have hreported := hs.reported hnew
      split
      -- Without room for it, the report is that there are too many, at the current token.
      · refine ⟨hreported, ?_, hreported.behind, Nat.le_refl _⟩
        refine ⟨⟨_, hreported.current_mem, rfl⟩, ⟨_, hreported.current_mem, rfl⟩, ?_⟩
        rintro (hkind | hkind) <;> cases hkind
      · exact hreported

/-- Every combination of rules that report in order does. -/
theorem sourceOrder_lawful (htokens : Token.InOrder tokens) : (sourceOrder tokens).Lawful :=
  (sourceOrder_reporting htokens).lawful

/-- A parse starts with its diagnostics in order. -/
theorem isOrdered_ofTokens [Time.Library] {last : Token} (h : tokens.getLast? = some last)
    (hend : last.isEnd = true) (settings : Settings) :
    (State.ofTokens tokens settings).IsOrdered tokens :=
  ⟨Cursor.allTokens_ofTokens h hend, nofun, List.Pairwise.nil, rfl, nofun⟩

/-! ## Parses that stop at the first error -/

/-- Nothing is reported where nothing is recovered from. -/
def silence : Contract where
  keeps s := s.settings.recover = false ∧ s.diagnostics = []
  refuses _ s := s.settings.recover = false ∧ s.diagnostics = []

/-- To report nothing is a condition on what is reported. -/
theorem silence_reporting : silence.Reporting where
  skip_one hs _ := hs
  same hs ht _ := ⟨(congrArg Settings.recover ht.settings).trans hs.1, ht.diagnostics.trans hs.2⟩
  refuses_same hs ht _ :=
    ⟨(congrArg Settings.recover ht.settings).trans hs.1, ht.diagnostics.trans hs.2⟩
  refuses_current hs _ := hs
  refuses_passed _ hs _ := hs
  refuses_literal _ _ _ _ _ ht := ht
  report hs _ hrecover := by
    rw [hs.1] at hrecover
    cases hrecover

/-- Every combination of rules that report nothing does. -/
theorem silence_lawful : silence.Lawful := silence_reporting.lawful

end Grammar

open SearchSql.Grammar

/-- Every diagnostic of a text is about its tokens, and the diagnostics are in source order, each
behind the one before. Only the last, if it is fatal, may start where the one before it does. -/
theorem parse_inSourceOrder [Time.Library] (text : String) (settings : Settings) :
    (∀ d ∈ (parse text settings).diagnostics, d.IsLocated (Token.tokenize text)) ∧
      Diagnostic.InSourceOrder (parse text settings).diagnostics := by
  have hends := (sourceOrder_lawful (Token.inOrder_tokenize text)).runRoot
    (isOrdered_ofTokens (Token.tokenize_tiles text).1 rfl settings)
  have hfuel := runRoot_ne_outOfFuel (Token.tokenize text) settings
  unfold parse parseTokens
  cases hrun : runRoot (Token.tokenize text) settings with
  | ok statement t =>
    rw [hrun] at hends
    have ht : t.IsOrdered (Token.tokenize text) := hends
    refine ⟨?_, .inl ?_⟩
    · intro d hd
      exact ht.located d (List.mem_reverse.1 hd)
    · exact List.pairwise_reverse.2 ht.order
  | error e t =>
    cases e with
    | outOfFuel => exact absurd hrun (hfuel t)
    | rejected d =>
      rw [hrun] at hends
      have ht : t.IsNext (Token.tokenize text) d := hends
      refine ⟨?_, ?_⟩
      · intro e he
        rcases List.mem_cons.1 (List.mem_reverse.1 he) with rfl | he
        · exact ht.located
        · exact ht.state.located e he
      · show Diagnostic.InSourceOrder (d :: t.diagnostics).reverse
        rw [List.reverse_cons]
        cases hrecover : settings.recover with
        | true =>
          -- What ends a parse that recovers is fatal.
          refine .inr ⟨_, d, rfl, Diagnostic.isFatal_iff.1 (isFatal_of_runRoot hrecover hrun), ?_, ?_⟩
          · exact List.pairwise_reverse.2 ht.state.order
          · intro e he
            exact ht.behind e (List.mem_reverse.1 he)
        | false =>
          have hsilent := silence_lawful.runRoot
            (show silence.keeps (State.ofTokens (Token.tokenize text) settings) from ⟨hrecover, rfl⟩)
          rw [hrun] at hsilent
          have hnil : t.diagnostics = [] := hsilent.2
          rw [hnil]
          exact .inl (List.pairwise_singleton _ _)

end SearchSql
