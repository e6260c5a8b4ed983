import Mathlib.Data.List.TakeWhile
import SearchSql.Proofs.Cutting
import SearchSql.Proofs.Modes
import SearchSql.Proofs.QueryLikeness
import SearchSql.Time.Reading

/-!
# A statement can be cut out of its text

The span of a statement covers its tokens from the first to the last, and what it covers parses to
the same statement further to the left (`parseStrict_slice`).

Two facts make this up. A text can be cut behind the last token of a statement, since no word follows
there (`tokensFrom_cut`); and the tokens of the part are those of the whole, moved
(`tokensFrom_add`), so that they look alike to a parser (`shifting`).
-/

set_option autoImplicit false

namespace SearchSql

/-- The span moved to the right. -/
def Span.shift (distance : Nat) (s : Span) : Span := ⟨s.start + distance, s.stop + distance⟩

/-- The span moved to the left. -/
def Span.unshift (distance : Nat) (s : Span) : Span := ⟨s.start - distance, s.stop - distance⟩

/-- The view in which only places are changed, by `f`. -/
def View.moved (f : Span → Span) : View :=
  ⟨f, fun name => { name with span := f name.span }, fun text => text⟩

/-- A view that moves places lawfully is lawful: places are all that it changes. -/
theorem View.lawful_moved {f : Span → Span} (h : ∀ s t : Span, f (s.merge t) = (f s).merge (f t)) :
    (View.moved f).Lawful where
  merge := h
  bare _ _ := rfl
  quoted _ _ := rfl
  upper _ := rfl
  dot _ := rfl
  minus _ := rfl
  join words := by simp only [moved, List.map_id']
  readSigned _ := rfl
  readUnsigned _ := rfl
  readReal _ := rfl

/-- A merged span moves as the spans do that it is merged from. -/
theorem Span.shift_merge (distance : Nat) (s t : Span) :
    (s.merge t).shift distance = (s.shift distance).merge (t.shift distance) := by
  simp only [shift, merge, Nat.add_min_add_right, Nat.add_max_add_right]

/-- Moved to the right and back, a statement is what it was. -/
theorem Statement.view_shift_unshift (distance : Nat) (s : Statement) :
    (s.view (.moved (Span.shift distance))).view (.moved (Span.unshift distance)) = s := by
  rw [Statement.view_view]
  have hcomp : (View.moved (Span.unshift distance)).comp (View.moved (Span.shift distance)) =
      View.id := by
    simp only [View.comp, View.moved, View.id, Span.shift, Span.unshift, Nat.add_sub_cancel]
  rw [hcomp, Statement.view_id]

namespace Grammar

open SearchSql.Grammar.Parser

/-! ## Statements further to the left -/

/-- Runs that stop at the first error, of which the second reads the tokens further to the right. The
comparison ends where a statement may end. -/
def shifting (distance : Nat) : Likeness where
  view := .moved (Span.shift distance)
  ends kind := kind == .endOfInput || kind == .symbol .semicolon
  borders _ _ := True
  log s _ := s.settings.recover = false
  refused _ t _ t' := t.SameFrame t' ∧ t.settings.recover = false

variable {distance : Nat}

open Likeness

/-- The comparison ends where a statement may end, and nowhere else. -/
theorem endKinds_shifting : EndKinds (shifting distance).ends where
  endOfInput := rfl
  eq_or_eq h := by simpa [shifting, IsEndKind] using h

/-- To read a statement further to the right is respected by all parsers. -/
theorem lawful_shifting : (shifting distance).Lawful where
  view := View.lawful_moved (Span.shift_merge distance)
  ends := endKinds_shifting
  log_same h hs _ := (congrArg Settings.recover hs.settings).trans h
  refused_frame h := h.1
  refused_same h hframe hs _ _ _ := ⟨hframe, (congrArg Settings.recover hs.settings).trans h.2⟩
  refused_matching hs _ := ⟨hs.frame, hs.log⟩
  malformedLiteral kind text fault span hs := by
    have hstrict : _ = false := hs.log
    rw [malformedLiteral_of_strict hstrict, malformedLiteral_of_strict (hs.frame.settings ▸ hstrict)]
    exact .refused ⟨hs.frame, hstrict⟩

/-- Both statements are at a boundary or neither is. -/
theorem atBoundary_linked {s s' : State} (h : (shifting distance).Linked s s') :
    s'.atBoundary = s.atBoundary := by
  have hkind {inside : Bool} {t t' : Token} (hseen : (shifting distance).Seen t t') :
      isBoundary inside t'.kind = isBoundary inside t.kind := by
    cases hseen with
    | inSight _ => exact isBoundary_view inside t.kind
    | atEnd ht ht' _ =>
      rw [isBoundary_of_isEndKind _ (endKinds_shifting.eq_or_eq ht),
        isBoundary_of_isEndKind _ (endKinds_shifting.eq_or_eq ht')]
  unfold State.atBoundary
  rw [h.frame.subqueries]
  exact hkind (h.seen lawful_shifting)

/-- Without recovery, failed clauses end both runs, and clauses end in front of the same tokens. -/
theorem statementLawful_shifting : (shifting distance).StatementLawful where
  toLawful := lawful_shifting
  recover {α β front f p q} hp hq h := by
    intro s s' hs hfront
    have hstops : s.isRecovering = false := notRecovering_of_strict hs.log
    have hstops' : s'.isRecovering = false := notRecovering_of_strict (hs.frame.settings ▸ hs.log)
    have hends := h s s' hs hfront
    generalize hr : p s = r at hends
    generalize hr' : q s' = r' at hends
    -- A strict parse recovers from nothing, so each run ends as the parser does.
    cases hends with
    | ok a ht =>
      have hok : recover p s = .ok (some a) _ := (recover_eq_ok_iff hp hstops).2 ⟨a, hr, rfl⟩
      have hok' : recover q s' = .ok (some (f a)) _ :=
        (recover_eq_ok_iff hq hstops').2 ⟨f a, hr', rfl⟩
      rw [hok, hok']
      exact .ok (some a) ht
    | refused hrefused =>
      rw [recover_of_error hp hstops hr, recover_of_error hq hstops' hr']
      exact .refused hrefused
    | exhausted =>
      rw [recover_of_error hp hstops hr, recover_of_error hq hstops' hr']
      exact .exhausted
  clauseEnd := by
    intro s s' hs _
    unfold clauseEnd
    rw [get_bind_apply, get_bind_apply, atBoundary_linked hs]
    cases s.atBoundary with
    | true => exact .ok () hs
    | false =>
      simp only [Bool.not_false, if_true]
      rw [current_bind_apply, current_bind_apply, passOver_apply (notRecovering_of_strict hs.log),
        passOver_apply (notRecovering_of_strict (hs.frame.settings ▸ hs.log))]
      exact .refused ⟨hs.frame, hs.log⟩
  adjacent s t := by
    rw [Bool.eq_iff_iff, beq_iff_eq, beq_iff_eq]
    exact Nat.add_right_cancel_iff.symm

/-! ## Where a statement ends -/

/-- A parser whose result has a span from `start` to the token taken last. -/
def Spans {α : Type} (start : Span) (span : α → Span) (p : Parser α) : Prop :=
  ∀ s t a, p s = .ok a t → span a = start.merge t.cursor.previousSpan

/-- A node may be finished by a later parser. -/
theorem Spans.bind {α β : Type} {start : Span} {span : β → Span} {p : Parser α} {f : α → Parser β}
    (h : ∀ a, Spans start span (f a)) : Spans start span (p >>= f) := by
  intro s t b heq
  obtain ⟨a, u, -, hrest⟩ := bind_eq_ok_iff.1 heq
  exact h a u t b hrest

/-- A node that is made of a span from its start ends with the token taken last. -/
theorem spans_spanFrom {α : Type} (start : Span) {span : α → Span} {make : Span → α}
    (h : ∀ s, span (make s) = s) : Spans start span (spanFrom start >>= fun s => pure (make s)) := by
  rintro s t a heq
  rw [spanFrom_bind_apply] at heq
  obtain ⟨rfl, rfl⟩ := pure_eq_ok_iff.1 heq
  exact h _

/-- A parser of something that starts with a word and has the span of its tokens. -/
theorem span_of_keyword_bind {α : Type} {word : Keyword} {span : α → Span} {f : Span → Parser α}
    (h : ∀ start, Spans start span (f start)) {s t : State} {a : α}
    (heq : (keyword word >>= f) s = .ok a t) :
    s.cursor.current.isEnd = false ∧
      span a = s.cursor.current.span.merge t.cursor.previousSpan := by
  obtain ⟨start, u, hword, hrest⟩ := bind_eq_ok_iff.1 heq
  obtain ⟨hkind, rfl, rfl⟩ := keyword_eq_ok_iff.1 hword
  exact ⟨isEnd_eq_false (hkind ▸ nofun), h _ _ _ _ hrest⟩

/-- A query stands from its first token to the token taken last. -/
theorem span_of_queryRule {call : Callee} {s t : State} {q : Query}
    (h : queryRule call s = .ok q t) :
    q.span = s.cursor.current.span.merge t.cursor.previousSpan := by
  rw [queryRule_eq] at h
  refine (span_of_keyword_bind (fun start => ?_) h).2
  exact .bind fun _ => .bind fun _ => .bind fun _ => .bind fun _ => .bind fun _ => .bind fun _ =>
    .bind fun _ => .bind fun _ => .bind fun _ => .bind fun _ => spans_spanFrom start fun _ => rfl

/-- The span of a statement covers the tokens from the first to the last. -/
theorem span_of_statementRule {s t : State} {st : Statement} {fuel : Nat} (hfuel : fuel ≠ 0)
    (h : statementRule (derive fuel) s = .ok st t) :
    st.span = s.cursor.current.span.merge t.cursor.previousSpan := by
  obtain ⟨fuel, rfl⟩ := Nat.exists_eq_succ_of_ne_zero hfuel
  unfold statementRule at h
  rw [current_bind_apply] at h
  generalize hcurrent : s.cursor.current = token at h
  rw [← hcurrent]
  obtain ⟨kind, text, span⟩ := token
  cases kind with
  | keyword word =>
    cases word with
    | SELECT =>
      obtain ⟨q, hq, rfl⟩ := map_eq_ok_iff.1 h
      exact span_of_queryRule hq
    | SHOW =>
      refine (span_of_keyword_bind (fun start => ?_) h).2
      exact .bind fun _ => .bind fun _ => spans_spanFrom start fun _ => rfl
    | DESCRIBE =>
      refine (span_of_keyword_bind (fun start => ?_) h).2
      exact .bind fun _ => .bind fun _ => .bind fun _ => spans_spanFrom start fun _ => rfl
    | _ => cases h
  | _ => cases h

/-! ## Runs of the whole input -/

/-- The state behind a semicolon, if there is one. -/
def State.behindSemicolon (s : State) : State :=
  if s.cursor.current.kind = .symbol .semicolon then s.skip 1 else s

/-- Without recovery the input is a statement, perhaps a semicolon, and nothing else. -/
theorem rootRule_eq_ok_iff {call : Callee} (h : Steady (call .query)) {s t : State}
    (hs : s.isRecovering = false) {found : Option Statement} :
    rootRule call s = .ok found t ↔
      ∃ u, optionalStatement call s = .ok found u ∧ u.behindSemicolon = t ∧
        t.cursor.current.isEnd = true := by
  have hend {u : State} {statement : Option Statement} (hu : s.Leads u) :
      (takeSymbol .semicolon >>= fun _ => inputEnd >>= fun _ => (pure statement : Parser _)) u =
          .ok found t ↔
        statement = found ∧ u.behindSemicolon = t ∧ t.cursor.current.isEnd = true := by
    have hlast {v : State} (hv : v.isRecovering = false) :
        (inputEnd >>= fun _ => (pure statement : Parser _)) v = .ok found t ↔
          statement = found ∧ v = t ∧ t.cursor.current.isEnd = true := by
      rw [bind_apply, inputEnd_apply hv]
      cases hisEnd : v.cursor.current.isEnd with
      | true =>
        rw [if_pos rfl, pure_eq_ok_iff]
        exact ⟨fun ⟨hfound, hvt⟩ => ⟨hfound, hvt, hvt ▸ hisEnd⟩, fun ⟨hfound, hvt, _⟩ => ⟨hfound, hvt⟩⟩
      | false =>
        rw [if_neg nofun]
        refine ⟨nofun, fun ⟨_, hvt, htEnd⟩ => ?_⟩
        rw [hvt, htEnd] at hisEnd
        cases hisEnd
    have hstops : u.isRecovering = false := hu.isRecovering.trans hs
    rw [takeSymbol_bind_apply]
    unfold State.behindSemicolon
    split
    · exact hlast hstops
    · exact hlast hstops
  unfold rootRule
  rw [bind_eq_ok_iff]
  constructor
  · rintro ⟨statement, u, hstatement, hrest⟩
    obtain ⟨rfl, hlast⟩ := (hend ((steady_optionalStatement h).leads hstatement)).1 hrest
    exact ⟨u, hstatement, hlast⟩
  · rintro ⟨u, hstatement, hlast⟩
    exact ⟨found, u, hstatement,
      (hend ((steady_optionalStatement h).leads hstatement)).2 ⟨rfl, hlast⟩⟩

/-- Where a statement is found without an error, its rule has read it. -/
theorem statementRule_of_optionalStatement {call : Callee} (h : Steady (call .query)) {s u : State}
    (hs : s.isRecovering = false) {st : Statement}
    (heq : optionalStatement call s = .ok (some st) u) :
    ¬IsEndKind s.cursor.current.kind ∧ statementRule call s = .ok st u := by
  have hrun (hr : recover (statementRule call) s = .ok (some st) u) :
      statementRule call s = .ok st u := by
    obtain ⟨st', hst, hfound⟩ := (recover_eq_ok_iff (steady_statementRule h) hs).1 hr
    rw [Option.some.inj hfound]
    exact hst
  unfold optionalStatement at heq
  rw [current_bind_apply] at heq
  generalize s.cursor.current = token at heq ⊢
  obtain ⟨kind, text, span⟩ := token
  cases kind with
  | endOfInput => cases heq
  | symbol sign =>
    cases sign with
    | semicolon => cases heq
    | _ => exact ⟨(by rintro (hkind | hkind) <;> cases hkind), hrun heq⟩
  | _ => exact ⟨(by rintro (hkind | hkind) <;> cases hkind), hrun heq⟩

/-! ## Token lists that are moved -/

/-- Tokens with the end behind them are all ahead. -/
theorem Cursor.ofTokens_append (tokens : List Token) {last : Token} (h : last.isEnd = true) :
    Cursor.ofTokens (tokens ++ [last]) = ⟨[], tokens, last, h⟩ := by
  unfold Cursor.ofTokens
  simp [h]

variable {settings : Settings} {ts cs : List Token} {e e' : Token}

/-- Tokens that are seen by the comparison do not end it. -/
theorem not_ends_of_inSight (hsight : inSight (shifting distance).ends ts =
    cs.map (Token.view (shifting distance).view)) {t : Token} (ht : t ∈ cs) :
    (shifting distance).ends t.kind = false := by
  have hmem : t.view (shifting distance).view ∈ inSight (shifting distance).ends ts :=
    hsight ▸ List.mem_map_of_mem ht
  have hview (k : TokenKind) : (shifting distance).ends (k.view (shifting distance).view) =
      (shifting distance).ends k := by
    cases k <;> rfl
  have hnot := List.mem_takeWhile_imp hmem
  rw [show (t.view (shifting distance).view).kind = t.kind.view _ from rfl, hview] at hnot
  simpa using hnot

/-- The same tokens further to the left are looked at alike. -/
theorem linked_ofTokens [Time.Library] (he : e.isEnd = true) (he' : e'.isEnd = true) (hne : cs ≠ [])
    (hsight : inSight (shifting distance).ends ts = cs.map (Token.view (shifting distance).view)) :
    (shifting distance).Linked (State.ofTokens (cs ++ [e']) { settings with recover := false })
      (State.ofTokens (ts ++ [e]) { settings with recover := false }) := by
  have hcs : inSight (shifting distance).ends cs = cs := by
    refine List.takeWhile_eq_self_iff.2 fun t ht => ?_
    rw [not_ends_of_inSight hsight ht]
    rfl
  refine ⟨⟨rfl, rfl, rfl, rfl, rfl, rfl⟩, trivial, ?_, ?_, ?_, rfl⟩
  · show inSight _ (Cursor.ofTokens (ts ++ [e])).ahead =
      (inSight _ (Cursor.ofTokens (cs ++ [e'])).ahead).map _
    rw [Cursor.ofTokens_append ts he, Cursor.ofTokens_append cs he']
    show inSight _ ts = (inSight _ cs).map _
    rw [hcs, hsight]
  · show (Cursor.ofTokens (ts ++ [e])).position = (Cursor.ofTokens (cs ++ [e'])).position
    rw [Cursor.ofTokens_append ts he, Cursor.ofTokens_append cs he']
    rfl
  · show (Cursor.ofTokens (ts ++ [e])).previousSpan =
      Span.shift distance (Cursor.ofTokens (cs ++ [e'])).previousSpan
    rw [Cursor.ofTokens_append ts he, Cursor.ofTokens_append cs he']
    cases cs with
    | nil => exact absurd rfl hne
    | cons c cs =>
      obtain ⟨rest, hrest⟩ : ∃ rest, ts = c.view (shifting distance).view :: rest := by
        have hprefix := List.takeWhile_prefix (l := ts) fun t => !(shifting distance).ends t.kind
        rw [show ts.takeWhile _ = _ from hsight] at hprefix
        obtain ⟨rest, hrest⟩ := hprefix
        exact ⟨_, hrest.symm⟩
      rw [hrest]
      rfl

/-- There is nothing ahead of a cursor whose token is of a kind that none ahead is of. -/
theorem ahead_eq_nil {p : Token → Bool} {c : Cursor} (h : ∀ t ∈ c.ahead, p t = false)
    (hend : p c.current = true) : c.ahead = [] := by
  obtain ⟨passed, ahead, closing, hclosing⟩ := c
  cases ahead with
  | nil => rfl
  | cons t ts =>
    have ht : p t = true := hend
    rw [h t (List.mem_cons_self ..)] at ht
    cases ht

/-- What a cursor in a list has passed and has ahead is the list without its last token. -/
theorem passed_append_ahead {c : Cursor} {tokens : List Token} {last : Token}
    (h : c.allTokens = tokens ++ [last]) :
    c.passed.reverse ++ c.ahead = tokens ∧ c.closing = last := by
  obtain ⟨htokens, hlast⟩ := List.append_inj' h rfl
  exact ⟨htokens, (List.cons.inj hlast).1⟩

/-- Behind a statement that is read to the end there is at most one semicolon. -/
theorem ahead_of_behindSemicolon {s : State} (h : ∀ t ∈ s.cursor.ahead, t.isEnd = false)
    (hend : s.behindSemicolon.cursor.current.isEnd = true) :
    s.cursor.ahead = [] ∨ ∃ t, t.kind = .symbol .semicolon ∧ s.cursor.ahead = [t] := by
  unfold State.behindSemicolon at hend
  obtain ⟨⟨passed, ahead, closing, hclosing⟩, _, _, _, _, _, _, _, _⟩ := s
  cases ahead with
  | nil => exact .inl rfl
  | cons t ts =>
    have ht : t.isEnd = false := h t (List.mem_cons_self ..)
    split at hend
    · next hkind =>
      have hadvance : Cursor.advance ⟨passed, t :: ts, closing, hclosing⟩ =
          ⟨t :: passed, ts, closing, hclosing⟩ := by
        simp [Cursor.advance, ht]
      have hbehind : (Cursor.advance ⟨passed, t :: ts, closing, hclosing⟩).current.isEnd = true :=
        hend
      rw [hadvance] at hbehind
      have hnil : ts = [] := ahead_eq_nil (p := Token.isEnd) (c := ⟨t :: passed, ts, closing, hclosing⟩)
        (fun u hu => h u (List.mem_cons_of_mem t hu)) hbehind
      exact .inr ⟨t, hkind, congrArg (t :: ·) hnil⟩
    · exact .inl (ahead_eq_nil h hend)

/-- A parser that has come to the end of what can be seen has read the same tokens as on the other
list, moved. -/
theorem ends_of_behindSemicolon {s : State} (h : s.behindSemicolon.cursor.current.isEnd = true) :
    (shifting distance).ends s.cursor.current.kind = true := by
  unfold State.behindSemicolon at h
  split at h
  · next hkind =>
    rw [hkind]
    rfl
  · rw [eq_of_beq (show (_ == TokenKind.endOfInput) = true from h)]
    rfl

/-- A token list is a statement if reading it comes to the end, or to a semicolon at the end. -/
theorem parseTokensStrict_eq_ok_iff_ends [Time.Library] {tokens : List Token} {found : Statement} :
    parseTokensStrict tokens settings = .ok found ↔
      ∃ u, optionalStatement (derive (fuelFor settings))
          (State.ofTokens tokens { settings with recover := false }) = .ok (some found) u ∧
        u.behindSemicolon.cursor.current.isEnd = true := by
  refine parseTokensStrict_eq_ok.trans ?_
  have hstops : (State.ofTokens tokens { settings with recover := false }).isRecovering = false :=
    notRecovering_of_strict rfl
  have hroot {t : State} : rootRule (derive (fuelFor settings)) _ = .ok (some found) t ↔ _ :=
    rootRule_eq_ok_iff (steady_derive (fuelFor settings) .query) hstops
  constructor
  · rintro ⟨t, ht⟩
    obtain ⟨u, hu, rfl, hend⟩ := hroot.1 ht
    exact ⟨u, hu, hend⟩
  · rintro ⟨u, hu, hend⟩
    exact ⟨_, hroot.2 ⟨u, hu, rfl, hend⟩⟩

theorem fuelFor_ne_zero (settings : Settings) : fuelFor settings ≠ 0 := nofun

/-- A statement has a token. -/
theorem inSight_ne_nil [Time.Library] (he : e.isEnd = true) {found : Statement}
    (h : parseTokensStrict (ts ++ [e]) settings = .ok found) :
    inSight (shifting distance).ends ts ≠ [] := by
  obtain ⟨u, hu, -⟩ := parseTokensStrict_eq_ok_iff_ends.1 h
  obtain ⟨hfirst, -⟩ := statementRule_of_optionalStatement (steady_derive (fuelFor settings) .query)
    (notRecovering_of_strict rfl) hu
  refine fun hnil => hfirst (endKinds_shifting.eq_or_eq
    ((sight_eq_nil_iff (L := shifting distance) lawful_shifting _).1 ?_))
  show inSight _ (Cursor.ofTokens (ts ++ [e])).ahead = []
  rw [Cursor.ofTokens_append ts he]
  exact hnil

/-- When both readings have come to the end of what can be seen, the first list is passed, and of the
second what is out of sight is ahead. -/
theorem passed_of_linked {s s' u u' : State} (hs : s.cursor.allTokens = cs ++ [e'])
    (hu : s.Leads u) (hu' : s'.Leads u') (hahead : s.cursor.ahead = cs)
    (hs' : s'.cursor.allTokens = ts ++ [e])
    (hsight : inSight (shifting distance).ends ts = cs.map (Token.view (shifting distance).view))
    (hlinked : (shifting distance).Linked u u')
    (hend : (shifting distance).ends u'.cursor.current.kind = true) :
    u.cursor.passed = cs.reverse ∧ u.cursor.current = e' ∧
      ts = cs.map (Token.view (shifting distance).view) ++ u'.cursor.ahead := by
  obtain ⟨hpassed, hclosing⟩ := passed_append_ahead (hu.allTokens.trans hs)
  obtain ⟨hpassed', -⟩ := passed_append_ahead (hu'.allTokens.trans hs')
  have hends : (shifting distance).ends u.cursor.current.kind = true := by
    rw [← sight_eq_nil_iff lawful_shifting, ← List.map_eq_nil_iff, ← hlinked.sight,
      sight_eq_nil_iff lawful_shifting]
    exact hend
  -- At the end of its sight the second run has passed all that the first can pass.
  have hnil : u.cursor.ahead = [] :=
    ahead_eq_nil (p := fun t => (shifting distance).ends t.kind)
      (fun t ht => not_ends_of_inSight hsight (hahead ▸ hu.ahead.subset ht)) hends
  rw [hnil, List.append_nil, List.reverse_eq_iff] at hpassed
  refine ⟨hpassed, ?_, ?_⟩
  · unfold Cursor.current
    rw [hnil, ← hclosing]
    rfl
  · have hsplit := (List.takeWhile_append_dropWhile
      (p := fun t : Token => !(shifting distance).ends t.kind) (l := ts)).symm
    rw [show ts.takeWhile _ = _ from hsight] at hsplit
    have hlength : u'.cursor.passed.reverse.length =
        (cs.map (Token.view (shifting distance).view)).length := by
      rw [List.length_reverse, List.length_map]
      exact hlinked.position.trans ((congrArg List.length hpassed).trans List.length_reverse)
    rw [← (List.append_inj (hpassed'.trans hsplit) hlength).1, hpassed']

/-- A token list that is a statement, perhaps with a semicolon behind it, is the same statement
without the semicolon and further to the left. -/
theorem parseTokensStrict_slice [Time.Library] (he : e.isEnd = true) (he' : e'.isEnd = true)
    (hts : ∀ t ∈ ts, t.isEnd = false)
    (hsight : inSight (shifting distance).ends ts = cs.map (Token.view (shifting distance).view))
    {found : Statement} (h : parseTokensStrict (ts ++ [e]) settings = .ok found) :
    ∃ st first last, parseTokensStrict (cs ++ [e']) settings = .ok st ∧
      found = st.view (shifting distance).view ∧
      cs.head? = some first ∧ cs.getLast? = some last ∧ st.span = first.span.merge last.span ∧
      ∃ tail, ts = cs.map (Token.view (shifting distance).view) ++ tail ∧
        (tail = [] ∨ ∃ t, t.kind = .symbol .semicolon ∧ tail = [t]) := by
  have hne : cs ≠ [] := by
    rintro rfl
    have hinSight : inSight (shifting distance).ends ts ≠ [] := inSight_ne_nil he h
    exact hinSight hsight
  obtain ⟨u', hu', hend⟩ := parseTokensStrict_eq_ok_iff_ends.1 h
  have hsteady := steady_derive (fuelFor settings) .query
  have hlinked : (shifting distance).Linked
      (State.ofTokens (cs ++ [e']) { settings with recover := false })
      (State.ofTokens (ts ++ [e]) { settings with recover := false }) :=
    linked_ofTokens he he' hne hsight
  generalize hs' : State.ofTokens (ts ++ [e]) { settings with recover := false } = s' at hu' hlinked
  generalize hs : State.ofTokens (cs ++ [e']) { settings with recover := false } = s at hlinked
  have hcursor : s.cursor = ⟨[], cs, e', he'⟩ := hs ▸ Cursor.ofTokens_append cs he'
  have hcursor' : s'.cursor = ⟨[], ts, e, he⟩ := hs' ▸ Cursor.ofTokens_append ts he
  -- The statement is read from the slice as from the text, since both show the same tokens.
  have hlike : (shifting distance).Like false (Option.map (Statement.view (shifting distance).view))
      (optionalStatement (derive (fuelFor settings)))
      (optionalStatement (derive (fuelFor settings))) :=
    like_optionalStatement statementLawful_shifting
      ⟨steady_derive _, steady_derive _, like_derive statementLawful_shifting.toQueryLawful _⟩
      (steady_statementRule hsteady) (steady_statementRule hsteady)
  have hends := hlike s s' hlinked nofun
  rw [show optionalStatement (derive (fuelFor settings)) s' = _ from hu'] at hends
  generalize hr : optionalStatement (derive (fuelFor settings)) s = r at hends
  generalize hfound : some found = found' at hends
  cases hends with
  | @ok found₀ u _ hu =>
    obtain ⟨st, rfl, hst⟩ := Option.map_eq_some_iff.1 hfound.symm
    have hleads : s.Leads u := (steady_optionalStatement hsteady).leads hr
    have hleads' : s'.Leads u' := (steady_optionalStatement hsteady).leads hu'
    -- Both runs stop behind the same token, the last one in sight.
    obtain ⟨hpassed, hcurrent, htail⟩ := passed_of_linked (by rw [hcursor]; rfl) hleads hleads'
      (by rw [hcursor]) (by rw [hcursor']; rfl) hsight hu (ends_of_behindSemicolon hend)
    have hbehind : u.behindSemicolon = u := by
      unfold State.behindSemicolon
      rw [if_neg (by rw [hcurrent, eq_of_beq he']; nofun)]
    obtain ⟨first, rest, rfl⟩ := List.exists_cons_of_ne_nil hne
    have hlast := List.getLast?_eq_some_getLast hne
    generalize (first :: rest).getLast hne = last at hlast
    refine ⟨st, first, last, parseTokensStrict_eq_ok_iff_ends.2 ⟨u, ?_, ?_⟩, hst.symm, rfl, hlast,
      ?_, _, htail, ahead_of_behindSemicolon (fun t ht => hts t ?_) hend⟩
    · rw [hs]
      exact hr
    · rw [hbehind, hcurrent]
      exact he'
    · rw [span_of_statementRule (fuelFor_ne_zero settings) (statementRule_of_optionalStatement hsteady
        (hs ▸ notRecovering_of_strict rfl) hr).2, hcursor]
      rw [← List.head?_reverse, ← hpassed, List.head?_eq_some_iff] at hlast
      obtain ⟨more, hmore⟩ := hlast
      unfold Cursor.previousSpan
      rw [hmore]
      rfl
    · rw [htail]
      exact List.mem_append_right _ ht

end Grammar

/-! ## Parts of a text -/

open Token Text Grammar

/-- No word ends a statement. -/
theorem isEndKind_ne_bareKind {k : TokenKind} (h : IsEndKind k) (word : String) :
    k ≠ bareKind word := by
  rintro rfl
  unfold bareKind at h
  split at h <;> obtain h | h := h <;> cases h

/-- Behind what is in sight there is no word. -/
theorem exists_behind_inSight (ts : List Token) {e : Token} (he : e.isEnd = true) :
    ∃ t ∈ (ts.dropWhile (fun t => !(shifting 0).ends t.kind) ++ [e]).head?,
      ∀ word, t.kind ≠ bareKind word := by
  have hhead := List.head?_dropWhile_not (fun t : Token => !(shifting 0).ends t.kind) ts
  cases hrest : ts.dropWhile fun t : Token => !(shifting 0).ends t.kind with
  | nil => exact ⟨e, rfl, isEndKind_ne_bareKind (.inl (eq_of_beq he))⟩
  | cons t rest =>
    rw [hrest] at hhead
    have hends : (shifting 0).ends t.kind = true := by simpa using hhead
    exact ⟨t, rfl, isEndKind_ne_bareKind (endKinds_shifting.eq_or_eq hends)⟩

/-- Tokens in the order of a text are covered by the places of the first and the last. -/
theorem merge_of_pairwise {body rest : List Token} {first last : Token} (hrest : rest ≠ [])
    (h : (body ++ rest).Pairwise fun t u => t.span.start < t.span.stop ∧ t.span.stop ≤ u.span.start)
    (hfirst : body.head? = some first) (hlast : body.getLast? = some last) :
    first.span.merge last.span = ⟨first.span.start, last.span.stop⟩ := by
  obtain ⟨ts, rfl⟩ := List.head?_eq_some_iff.1 hfirst
  obtain ⟨us, hus⟩ := List.getLast?_eq_some_iff.1 hlast
  obtain ⟨r, rs, rfl⟩ := List.exists_cons_of_ne_nil hrest
  have hnonempty : last.span.start < last.span.stop := by
    rw [hus, List.append_assoc] at h
    exact ((List.pairwise_cons.1 (List.pairwise_append.1 h).2.1).1 r (List.mem_cons_self ..)).1
  cases us with
  | nil =>
    obtain ⟨rfl, -⟩ := List.cons.inj hus
    simp only [Span.merge, Nat.min_self, Nat.max_self]
  | cons u us =>
    obtain ⟨rfl, rfl⟩ := List.cons.inj hus
    obtain ⟨hle, hle'⟩ := (List.pairwise_cons.1 h).1 last
      (List.mem_append_left _ (List.mem_append_right _ (List.mem_singleton_self last)))
    simp only [Span.merge, Span.mk.injEq]
    omega

/-- The text of a statement, which its span covers, is cut out of the text around it: its tokens are
those of the whole text in front of an optional semicolon, moved. -/
theorem tokenize_slice {text : String} {body rest : List Token} {first last : Token}
    (h : tokenize text = body ++ rest) (hrest : ∃ t ∈ rest.head?, ∀ word, t.kind ≠ bareKind word)
    (hfirst : body.head? = some first) (hlast : body.getLast? = some last) :
    ∃ src cs e, Span.slice ⟨first.span.start, last.span.stop⟩ text = some src ∧
      tokenize src = cs ++ [e] ∧ e.isEnd = true ∧
      body = cs.map (Token.view (.moved (Span.shift first.span.start))) := by
  obtain ⟨front, back, happend, hfront, -, hstop⟩ := tokensFrom_cut h
    (hrest.imp fun _ ht => ⟨ht.1, .inl ht.2⟩)
  obtain ⟨ts, rfl⟩ := List.head?_eq_some_iff.1 hfirst
  -- The slice starts behind the gap in front of the first token and stops where the last one does.
  have hstart : first.span.start = 0 + byteLength (gap front).1 := start_tokensFrom hfront
  rw [stopOf, hlast] at hstop
  have hstop' : last.span.stop = 0 + byteLength front := hstop
  have htokens := tokensFrom_gap 0 front
  rw [← hstart, ← Nat.zero_add first.span.start, tokensFrom_add, hfront] at htokens
  obtain ⟨cs, es, hcs, hbody, hend⟩ := List.map_eq_append_iff.1 htokens
  obtain ⟨e, rfl, he⟩ := List.map_eq_singleton_iff.1 hend
  refine ⟨String.ofList (gap front).2, cs, e, ?_, ?_, ?_, ?_⟩
  · have hslice := Span.slice_append (gap front).1 (gap front).2 back
    rw [← List.append_assoc, gap_append, ← happend, String.ofList_toList] at hslice
    rw [hstart, hstop', Nat.zero_add, Nat.zero_add]
    rw [← byteLength_append, gap_append] at hslice
    exact hslice
  · unfold tokenize
    rw [String.toList_ofList]
    exact hcs
  · exact beq_iff_eq.2 (congrArg Token.kind he)
  · rw [← hbody]
    refine List.map_congr_left fun t _ => ?_
    obtain ⟨kind, _, _⟩ := t
    cases kind <;> rfl

/-- A statement as seen stands where it is seen to stand. -/
theorem Statement.span_view (V : View) (s : Statement) : (s.view V).span = V.span s.span := by
  cases s with
  | select query =>
    cases query
    simp only [view, span, Query.view]
  | _ => rfl

/-- The span of a statement covers its tokens from the first to the last, behind which there is at
most a semicolon. What it covers is the same statement further to the left. -/
theorem parseStrict_slice [Time.Library] {text : String} {settings : Settings} {s : Statement}
    (h : parseStrict text settings = .ok s) :
    ∃ body tail first last, tokenize text = body ++ tail ∧
      (tail.map Token.kind = [.endOfInput] ∨
        tail.map Token.kind = [.symbol .semicolon, .endOfInput]) ∧
      body.head? = some first ∧ body.getLast? = some last ∧
      s.span = ⟨first.span.start, last.span.stop⟩ ∧
      ∃ src s', s.span.slice text = some src ∧ parseStrict src settings = .ok s' ∧
        s' = s.view (.moved (Span.unshift s.span.start)) ∧
        s = s'.view (.moved (Span.shift s.span.start)) := by
  obtain ⟨hlast, hlexemes, hpairwise, -⟩ := tokenize_tiles text
  obtain ⟨ts, hts⟩ := List.getLast?_eq_some_iff.1 hlast
  generalize hend : (⟨.endOfInput, "", ⟨text.utf8ByteSize, text.utf8ByteSize⟩⟩ : Token) = e at hts
  have hisEnd : e.isEnd = true := hend ▸ rfl
  rw [hts, List.dropLast_concat] at hlexemes
  rw [hts] at hpairwise
  have hnotEnd : ∀ t ∈ ts, t.isEnd = false := fun t ht => isEnd_eq_false (hlexemes t ht).1
  -- The text in sight of the parser ends in front of the last semicolon; the slice is cut there.
  have hparse : parseTokensStrict (ts ++ [e]) settings = .ok s := hts ▸ h
  have hsplit := List.takeWhile_append_dropWhile
    (p := fun t : Token => !(shifting 0).ends t.kind) (l := ts)
  have hne : inSight (shifting 0).ends ts ≠ [] := inSight_ne_nil hisEnd hparse
  generalize hbody : inSight (shifting 0).ends ts = body at hne
  rw [show ts.takeWhile _ = body from hbody] at hsplit
  have htext : tokenize text =
      body ++ (ts.dropWhile (fun t => !(shifting 0).ends t.kind) ++ [e]) := by
    rw [hts, ← List.append_assoc, hsplit]
  have hfirst := List.head?_eq_some_head hne
  have hlast := List.getLast?_eq_some_getLast hne
  generalize body.head hne = first at hfirst
  generalize body.getLast hne = last at hlast
  obtain ⟨src, cs, e', hslice, hcs, he', hview⟩ :=
    tokenize_slice htext (exists_behind_inSight ts hisEnd) hfirst hlast
  have hsight : inSight (shifting first.span.start).ends ts =
      cs.map (Token.view (shifting first.span.start).view) := hbody.trans hview
  -- The tokens of the slice are those of the text, moved to its start, so its parse is the same
  -- one moved.
  obtain ⟨st, first', last', hst, rfl, hfirst', hlast', hspan, tail, htail, hshape⟩ :=
    parseTokensStrict_slice hisEnd he' hnotEnd hsight hparse
  -- The statement reaches from its first token to its last, which are in order.
  have hcovers : (st.view (shifting first.span.start).view).span =
      ⟨first.span.start, last.span.stop⟩ := by
    have hmoved := congrArg (List.head? · |>.map Token.span) hview
    have hmoved' := congrArg (List.getLast? · |>.map Token.span) hview
    simp only [List.head?_map, List.getLast?_map, hfirst, hlast, hfirst', hlast', Option.map_some,
      Option.some.injEq] at hmoved hmoved'
    rw [Statement.span_view, hspan]
    show Span.shift _ _ = _
    rw [Span.shift_merge, show first'.span.shift first.span.start = first.span from hmoved.symm,
      show last'.span.shift first.span.start = last.span from hmoved'.symm]
    rw [← hsplit, List.append_assoc] at hpairwise
    exact merge_of_pairwise (by simp) hpairwise hfirst hlast
  refine ⟨body, tail ++ [e], first, last, ?_, ?_, hfirst, hlast, hcovers, src, st, ?_, ?_, ?_, ?_⟩
  · rw [hts, htail, ← List.append_assoc, hview]
    rfl
  · obtain rfl | ⟨t, ht, rfl⟩ := hshape
    · exact .inl (congrArg (fun k => [k]) (eq_of_beq hisEnd))
    · exact .inr (congrArg₂ (fun k k' => [k, k']) ht (eq_of_beq hisEnd))
  · rw [hcovers]
    exact hslice
  · unfold parseStrict
    rw [hcs]
    exact hst
  · rw [hcovers]
    exact (Statement.view_shift_unshift _ st).symm
  · rw [hcovers]
    rfl

/-- A statement with comments around it and a semicolon behind it is cut out and read again. -/
theorem parseStrict_slice_commented :
    ∃ s src s', parseStrict "/* é */ SELECT 1, t.x FROM t -- all\n;" Settings.standard = .ok s ∧
      s.span.slice "/* é */ SELECT 1, t.x FROM t -- all\n;" = some src ∧
      parseStrict src Settings.standard = .ok s' ∧
      s' = s.view (.moved (Span.unshift s.span.start)) ∧
      s = s'.view (.moved (Span.shift s.span.start)) := by
  have hok : (parseStrict "/* é */ SELECT 1, t.x FROM t -- all\n;" Settings.standard).isOk = true := by
    decide +kernel
  cases h : parseStrict "/* é */ SELECT 1, t.x FROM t -- all\n;" Settings.standard with
  | error e =>
    rw [h] at hok
    cases hok
  | ok s =>
    obtain ⟨_, _, _, _, _, _, _, _, _, src, s', hslice, hparse, hleft, hright⟩ := parseStrict_slice h
    exact ⟨s, src, s', rfl, hslice, hparse, hleft, hright⟩

end SearchSql
