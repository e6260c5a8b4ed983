import SearchSql.Proofs.CatalogueReading
import SearchSql.Proofs.PatternSlices
import SearchSql.Time.Reading

/-!
# Catalogue statements read again

In a text, the tokens that spell a pattern without quotes cover the part of the text that the pattern
is. Written again, the pattern is spelled by tokens again, if by others. So a catalogue statement is
read again from the text that writes it (`parse_patterns`).
-/

set_option autoImplicit false

namespace SearchSql

open Text Token
open Grammar (isPatternPiece plainPattern)

/-! ## Writing patterns -/

/-- Whether what is written for the pattern is read as the pattern. -/
def Pattern.Rereads : Pattern → Prop
  | .quoted _ => True
  | .plain value => value ≠ "" ∧ ReadsAsPieces value.toList

/-- What is written for a pattern lexes to tokens that spell it, in front of everything that starts
where tokens stop. -/
theorem Pattern.Rereads.exists_tokens {p : Pattern} (h : p.Rereads) (offset : Nat)
    {back : List Char} (hback : Stops back) :
    ∃ ts, tokensFrom offset (p.render.toList ++ back) =
        ts ++ tokensFrom (offset + byteLength p.render.toList) back ∧
      ∀ next : Token, (isPatternPiece next.kind = true →
        next.span.start ≠ offset + byteLength p.render.toList) → p.SpelledBy ts next := by
  cases p with
  -- Between quotes the pattern is one string; without them it is a row of pieces with no gap.
  | quoted value =>
    have hhead : back.head? ≠ some quoteMark := hback.head_ne (by decide)
    obtain ⟨body, hbody, hlexeme⟩ := lexeme_quoted value hhead
    refine ⟨[⟨.string value, String.ofList (Text.quoted value).toList,
      ⟨offset, offset + byteLength (Text.quoted value).toList⟩⟩], ?_, fun _ _ => .quoted rfl⟩
    rw [hbody] at hlexeme
    show tokensFrom offset ((Text.quoted value).toList ++ back) =
      _ ++ tokensFrom (offset + byteLength (Text.quoted value).toList) back
    rw [hbody, List.cons_append, tokensFrom_lexeme (c := quoteMark) rfl, hlexeme]
    rfl
  | plain value =>
    obtain ⟨hvalue, hreads⟩ := h
    obtain ⟨pieces, hare, htokens⟩ := hreads offset back hback
    have htext := hare.text
    rw [String.ofList_toList] at htext
    refine ⟨pieces, htokens, fun next hnext => ?_⟩
    have hne : pieces ≠ [] := by
      rintro rfl
      exact hvalue htext.symm
    obtain ⟨t, ts, rfl⟩ := List.exists_cons_of_ne_nil hne
    have hstop := hare.stop
    -- The first piece needs no neighbour in front, so the row starts with it.
    have hfirst : plainPattern none (t :: ts) = t :: ts := by
      have hadjacent := hare.adjacent
      rw [plainPattern] at hadjacent ⊢
      split at hadjacent
      · next hpiece =>
        rw [if_pos (by simp [(Bool.and_eq_true_iff.1 hpiece).1]), (List.cons.inj hadjacent).2]
      · cases hadjacent
    rw [← htext]
    refine .plain hfirst (htext ▸ hvalue) ?_
    rw [stopOf_cons] at hstop ⊢
    rw [hstop]
    exact hnext

/-- A pattern is written behind reserved words. -/
theorem Pattern.Rereads.exists_phrased {p : Pattern} (h : p.Rereads) (words : List Keyword)
    (offset : Nat) {back : List Char} (hback : Stops back) :
    ∃ us ts, us.map Token.kind = words.map TokenKind.keyword ∧
      tokensFrom offset ((phrase words ++ p.render).toList ++ back) =
        us ++ (ts ++ tokensFrom (offset + byteLength (phrase words ++ p.render).toList) back) ∧
      ∀ next : Token, (isPatternPiece next.kind = true →
        next.span.start ≠ offset + byteLength (phrase words ++ p.render).toList) →
          p.SpelledBy ts next := by
  rw [String.toList_append, byteLength_append, ← Nat.add_assoc, List.append_assoc]
  obtain ⟨us, hus, hwords⟩ := tokensFrom_phrase words offset (p.render.toList ++ back)
  obtain ⟨ts, hts, hspelled⟩ := h.exists_tokens (offset + byteLength (phrase words).toList) hback
  exact ⟨us, ts, hus, by rw [hwords, hts], hspelled⟩

theorem tokensFrom_empty (offset : Nat) : tokensFrom offset [] = [endOfInput offset] := by
  rw [tokensFrom_nil (by simp [gap])]
  simp [gap]

/-- What is written for a pattern behind the words of a statement is spelled as that statement. -/
theorem Statement.Spelled.of_start (first : Keyword) {p : Pattern} (hp : p.Rereads) :
    ∃ us ts e, us.map Token.kind = [.keyword first, .keyword .TABLES, .keyword .LIKE] ∧
      tokenize (phrase [first, .TABLES, .LIKE] ++ p.render) = us ++ ts ++ [e] ∧ e.isEnd = true ∧
      p.SpelledBy ts e := by
  obtain ⟨us, ts, hus, htokens, hspelled⟩ :=
    hp.exists_phrased [first, .TABLES, .LIKE] 0 stops_nil
  rw [List.append_nil, tokensFrom_empty, ← List.append_assoc] at htokens
  exact ⟨us, ts, _, hus, htokens, rfl, hspelled _ fun hpiece => by cases hpiece⟩

theorem phrase_showTables : phrase [.SHOW, .TABLES, .LIKE] = "SHOW TABLES LIKE " := rfl

theorem phrase_describe : phrase [.DESCRIBE, .TABLES, .LIKE] = "DESCRIBE TABLES LIKE " := rfl

theorem phrase_columns : " " ++ phrase [.COLUMNS, .LIKE] = " COLUMNS LIKE " := rfl

/-- A list of tables is written as its words and its pattern. -/
theorem Statement.render_showTables (tables : NameFilter) (span : Span) :
    (Statement.showTables tables span).render =
      phrase [.SHOW, .TABLES, .LIKE] ++ tables.pattern.render := by
  rw [phrase_showTables]
  rfl

/-- A description of tables is written as its words and its pattern. -/
theorem Statement.render_describe (tables : NameFilter) (span : Span) :
    (Statement.describe tables none span).render =
      phrase [.DESCRIBE, .TABLES, .LIKE] ++ tables.pattern.render := by
  rw [phrase_describe]
  exact String.append_empty

/-- A description of columns is written with both of its patterns. -/
theorem Statement.render_describeColumns (tables columns : NameFilter) (span : Span) :
    (Statement.describe tables (some columns) span).render =
      phrase [.DESCRIBE, .TABLES, .LIKE] ++ tables.pattern.render ++
        (" " ++ (phrase [.COLUMNS, .LIKE] ++ columns.pattern.render)) := by
  have hassoc : " " ++ (phrase [.COLUMNS, .LIKE] ++ columns.pattern.render) =
      " " ++ phrase [.COLUMNS, .LIKE] ++ columns.pattern.render := String.append_assoc.symm
  rw [phrase_describe, hassoc, phrase_columns]
  rfl

/-- The text that is written for a catalogue statement lexes to tokens that spell it. -/
theorem Statement.exists_tokens {st : Statement} (hne : st.patterns ≠ [])
    (h : ∀ p ∈ st.patterns, p.Rereads) :
    ∃ ts e, tokenize st.render = ts ++ [e] ∧ e.isEnd = true ∧
      st.Spelled Pattern.SpelledBy ts e := by
  cases st with
  | select query => exact absurd rfl hne
  | showTables tables span =>
    obtain ⟨us, ts, e, hus, htokens, he, hspelled⟩ :=
      Statement.Spelled.of_start .SHOW (h tables.pattern List.mem_cons_self)
    rw [render_showTables]
    exact ⟨us ++ ts, e, htokens, he, .showTables hus hspelled⟩
  | describe tables columns span =>
    have htables := h tables.pattern List.mem_cons_self
    cases columns with
    | none =>
      obtain ⟨us, ts, e, hus, htokens, he, hspelled⟩ :=
        Statement.Spelled.of_start .DESCRIBE htables
      rw [render_describe]
      refine ⟨us ++ ts, e, htokens, he, .describe hus hspelled ?_⟩
      rw [eq_of_beq he]
      exact TokenKind.noConfusion
    | some c =>
      have hcolumns := h c.pattern (by simp [patterns])
      -- The word behind the first pattern stands behind a space.
      obtain ⟨us, ts, hus, htokens, hspelled⟩ := htables.exists_phrased [.DESCRIBE, .TABLES, .LIKE] 0
        (stops_cons (c := ' ') (by decide) (phrase [.COLUMNS, .LIKE] ++ c.pattern.render).toList)
      rw [render_describeColumns]
      generalize phrase [.DESCRIBE, .TABLES, .LIKE] ++ tables.pattern.render = first at *
      obtain ⟨vs, ts', hvs, htokens', hspelled'⟩ :=
        hcolumns.exists_phrased [.COLUMNS, .LIKE] (0 + byteLength first.toList + 1) stops_nil
      obtain ⟨column, _, rfl, hcolumn, hvs⟩ := List.map_eq_cons_iff.1 hvs
      obtain ⟨like, rfl, hlike⟩ := List.map_eq_singleton_iff.1 hvs
      generalize phrase [.COLUMNS, .LIKE] ++ c.pattern.render = second at *
      rw [List.append_nil, tokensFrom_empty] at htokens'
      have hspace := tokensFrom_blank (c := ' ') (by decide) (0 + byteLength first.toList) second.toList
      rw [show (' ' : Char).utf8Size = 1 from rfl, htokens'] at hspace
      have hstart := start_tokensFrom hspace
      rw [gap_of_blank (by decide), byteLength_cons] at hstart
      rw [hspace] at htokens
      have hlast := hspelled' (endOfInput (0 + byteLength first.toList + 1 + byteLength second.toList))
        fun hpiece => by cases hpiece
      refine ⟨us ++ (ts ++ column :: like :: ts'), _, ?_, rfl, .describeColumns hus
        (hspelled column fun _ => ?_) hcolumn hlike hlast⟩
      · have htext : (first ++ (" " ++ second)).toList = first.toList ++ ' ' :: second.toList := by simp
        rw [tokenize, htext, htokens]
        simp only [List.append_assoc, List.cons_append, List.nil_append]
      · rw [hstart, show (' ' : Char).utf8Size = 1 from rfl]
        omega

/-! ## Patterns in a text -/

/-- The tokens that may be pieces of a pattern written without quotes: names, numbers, four signs, and
the reserved words that may stand for a name. -/
inductive PatternPiece : TokenKind → Prop where
  | name {value : String} : PatternPiece (.name value)
  | integer : PatternPiece .integer
  | real : PatternPiece .real
  | percent : PatternPiece (.symbol .percent)
  | minus : PatternPiece (.symbol .minus)
  | star : PatternPiece (.symbol .star)
  | dot : PatternPiece (.symbol .dot)
  | word {word : Keyword} :
      word ∈ [.FIRST, .LAST, .TABLES, .COLUMNS, .DATE, .TIME, .TIMESTAMP, .DATETIME] →
        PatternPiece (.keyword word)

/-- A token is taken for a piece if it may be one. -/
theorem patternPiece_iff {kind : TokenKind} : PatternPiece kind ↔ isPatternPiece kind = true := by
  constructor
  · intro h
    cases h with
    | word hword =>
      simp only [List.mem_cons, List.not_mem_nil, or_false] at hword
      rcases hword with rfl | rfl | rfl | rfl | rfl | rfl | rfl | rfl
      all_goals rfl
    | _ => rfl
  · intro h
    unfold isPatternPiece at h
    split at h
    · exact .name
    · exact .integer
    · exact .real
    · exact .percent
    · exact .minus
    · exact .star
    · exact .dot
    · unfold Keyword.isNameLike at h
      split at h
      all_goals first
        | exact .word (by decide)
        | cases h
    · cases h

/-- Whether the pattern is what the tokens say, which stand in the text in front of the token `next`:
the value of a string, or the part of the text that is covered by pieces with nothing between them,
inside which no gap starts, and which end at a gap or in front of a token that is no piece. -/
inductive Pattern.ReadIn (text : String) : Pattern → List Token → Token → Prop where
  | quoted {value : String} {t next : Token} (h : t.kind = .string value) :
      ReadIn text (.quoted value) [t] next
  | plain {value : String} {pieces : List Token} {first last next : Token}
      (hfirst : pieces.head? = some first) (hlast : pieces.getLast? = some last)
      (hkinds : ∀ t ∈ pieces, PatternPiece t.kind)
      (hadjacent : pieces.IsChain fun t u => t.span.stop = u.span.start)
      (hslice : Span.slice ⟨first.span.start, last.span.stop⟩ text = some value)
      (hgapless : Gapless value.toList)
      (hnext : PatternPiece next.kind → next.span.start ≠ last.span.stop) :
      ReadIn text (.plain value) pieces next

/-- In a text, tokens that spell a pattern are what it is read in, and it is read again from what is
written for it. -/
theorem Pattern.SpelledBy.readIn {p : Pattern} {text : String} {before ts rest : List Token}
    {next : Token} (h : p.SpelledBy ts next)
    (htext : tokenize text = before ++ (ts ++ next :: rest)) :
    p.ReadIn text ts next ∧ p.Rereads := by
  cases h with
  | quoted hkind => exact ⟨.quoted hkind, trivial⟩
  | plain hpieces hvalue hnext =>
    have hne : ts ≠ [] := by
      rintro rfl
      exact hvalue rfl
    obtain ⟨first, more, rfl⟩ := List.exists_cons_of_ne_nil hne
    have hlast := List.getLast?_eq_some_getLast hne
    obtain ⟨hslice, hgapless, hreads⟩ :=
      pieces_slice htext (List.cons_ne_nil next rest) hpieces rfl hlast
    rw [stopOf, hlast] at hnext
    have hkinds := Grammar.isPatternPiece_of_mem none (first :: more)
    rw [hpieces] at hkinds
    refine ⟨.plain rfl hlast (fun t ht => patternPiece_iff.2 (hkinds t ht))
      (isChain_of_plainPattern hpieces) hslice hgapless (fun hpiece => ?_), hvalue, hreads⟩
    exact hnext (patternPiece_iff.1 hpiece)

/-- The patterns of a catalogue statement are read in the text that the statement is read from. -/
theorem Statement.Spelled.readIn {st : Statement} {text : String} {ts rest : List Token}
    {next : Token} (h : st.Spelled Pattern.SpelledBy ts next)
    (htext : tokenize text = ts ++ next :: rest) :
    st.Spelled (Pattern.ReadIn text) ts next ∧ ∀ p ∈ st.patterns, p.Rereads := by
  cases h with
  | showTables hwords htables =>
    rw [List.append_assoc] at htext
    obtain ⟨hread, hrereads⟩ := htables.readIn htext
    refine ⟨.showTables hwords hread, fun p hp => ?_⟩
    rwa [List.mem_singleton.1 hp]
  | describe hwords htables hnext =>
    rw [List.append_assoc] at htext
    obtain ⟨hread, hrereads⟩ := htables.readIn htext
    refine ⟨.describe hwords hread hnext, fun p hp => ?_⟩
    rwa [List.mem_singleton.1 hp]
  | @describeColumns words pieces pieces' column like _ _ _ _ hwords htables hcolumn hlike hcolumns =>
    have hfirst : tokenize text = words ++ (pieces ++ column :: (like :: pieces' ++ next :: rest)) := by
      rw [htext]
      simp
    have hsecond : tokenize text =
        words ++ (pieces ++ [column, like]) ++ (pieces' ++ next :: rest) := by
      rw [htext]
      simp
    obtain ⟨hread, hrereads⟩ := htables.readIn hfirst
    obtain ⟨hread', hrereads'⟩ := hcolumns.readIn hsecond
    refine ⟨.describeColumns hwords hread hcolumn hlike hread', fun p hp => ?_⟩
    rcases List.mem_cons.1 hp with rfl | hp
    · exact hrereads
    · rwa [List.mem_singleton.1 hp]

/-- Moving a statement changes none of its patterns. -/
theorem Statement.patterns_view (st : Statement) :
    (st.view .placeless).patterns = st.patterns := by
  have hpattern (p : Pattern) : p.view .placeless = p := by cases p <;> rfl
  cases st with
  | select query => rfl
  | showTables tables span => simp [view, patterns, NameFilter.view, hpattern]
  | describe tables columns span =>
    cases columns <;> simp [view, patterns, NameFilter.view, hpattern]

namespace Grammar

open SearchSql.Grammar.Parser

/-- What a rule gives that is recovered from, it gives itself. -/
theorem of_recover {α : Type} {p : Parser α} {s t : State} {a : α}
    (h : recover p s = .ok (some a) t) : p s = .ok a t := by
  unfold recover at h
  cases hrun : p s with
  | ok b u =>
    rw [hrun] at h
    cases h
    rfl
  | error e u =>
    rw [hrun] at h
    cases e with
    | outOfFuel => cases h
    | rejected d =>
      obtain ⟨_, v, -, hnone⟩ := bind_eq_ok_iff.1 h
      cases (pure_eq_ok_iff.1 hnone).1

/-- A statement that a parse finds is read by the rule of statements from the start of the tokens. -/
theorem statementRule_of_runRoot [Time.Library] {tokens : List Token} {settings : Settings}
    {st : Statement} {t : State} (h : runRoot tokens settings = .ok (some st) t) :
    ∃ u, statementRule (derive (fuelFor settings)) (State.ofTokens tokens settings) = .ok st u := by
  obtain ⟨found, u, hu, h⟩ := bind_eq_ok_iff.1 h
  obtain ⟨_, v, -, h⟩ := bind_eq_ok_iff.1 h
  obtain ⟨_, w, -, h⟩ := bind_eq_ok_iff.1 h
  obtain ⟨rfl, -⟩ := pure_eq_ok_iff.1 h
  refine ⟨u, ?_⟩
  unfold optionalStatement at hu
  rw [current_bind_apply] at hu
  generalize (State.ofTokens tokens settings).cursor.current = token at hu
  obtain ⟨kind, text, span⟩ := token
  cases kind with
  | endOfInput => cases hu
  | symbol sign =>
    cases sign with
    | semicolon => cases hu
    | _ => exact of_recover hu
  | _ => exact of_recover hu

/-- A statement that is read is read where it may be missing. -/
theorem optionalStatement_of_statementRule {call : Callee} {s t : State} {st : Statement}
    (h : statementRule call s = .ok st t) : optionalStatement call s = .ok (some st) t := by
  have hrecover : recover (statementRule call) s = .ok (some st) t := by
    unfold recover
    rw [h]
  unfold statementRule at h
  unfold optionalStatement
  rw [current_bind_apply] at h ⊢
  generalize s.cursor.current = token at h ⊢
  obtain ⟨kind, text, span⟩ := token
  cases kind with
  | endOfInput => cases h
  | symbol sign =>
    cases sign with
    | semicolon => cases h
    | _ => exact hrecover
  | _ => exact hrecover

/-- Tokens that spell a catalogue statement are parsed as that statement. -/
theorem parseTokensStrict_of_spelled [Time.Library] {st : Statement} {ts : List Token} {e : Token}
    (h : st.Spelled Pattern.SpelledBy ts e) (he : e.isEnd = true) (settings : Settings) :
    ∃ st', parseTokensStrict (ts ++ [e]) settings = .ok st' ∧
      st'.view .placeless = st.view .placeless := by
  generalize hs : State.ofTokens (ts ++ [e]) { settings with recover := false } = s
  have hleft : s.cursor.left = ts ++ [e] := by
    rw [← hs]
    exact Cursor.left_ofTokens ts he
  obtain ⟨st', t, hrun, ht, hview⟩ :=
    statementRule_of_spelled (derive (fuelFor settings)) h hleft
  have hend : t.cursor.current.isEnd = true := by rwa [Cursor.current_of_left ht]
  refine ⟨st', parseTokensStrict_eq_ok_iff_ends.2 ⟨t, ?_, ?_⟩, hview⟩
  · rw [hs]
    exact optionalStatement_of_statementRule hrun
  · unfold State.behindSemicolon
    rwa [if_neg (by rw [eq_of_beq hend]; exact TokenKind.noConfusion)]

end Grammar

/-- A catalogue statement that is found in a text is spelled by tokens of the text. -/
theorem exists_spelled_of_runRoot [Time.Library] {text : String} {settings : Settings}
    {st : Statement}
    {t : Grammar.State} (h : Grammar.runRoot (tokenize text) settings = .ok (some st) t)
    (hpatterns : st.patterns ≠ []) :
    ∃ ts next rest, tokenize text = ts ++ next :: rest ∧ st.Spelled Pattern.SpelledBy ts next := by
  obtain ⟨u, hu⟩ := Grammar.statementRule_of_runRoot h
  obtain ⟨ts, hts, hspelled⟩ := Grammar.spelled_of_statementRule hu hpatterns
  obtain ⟨rest, hrest⟩ := u.cursor.exists_current_cons
  obtain ⟨lexed, hlexed⟩ := List.getLast?_eq_some_iff.1 (tokenize_tiles text).1
  refine ⟨ts, _, rest, ?_, hspelled⟩
  rw [← show u.cursor.left = _ from hrest, ← hts, hlexed]
  exact (Cursor.left_ofTokens lexed rfl).symm

/-- A catalogue statement whose patterns are read again is read again. -/
theorem Statement.exists_again [Time.Library] {st : Statement} (hpatterns : st.patterns ≠ [])
    (h : ∀ p ∈ st.patterns, p.Rereads) (settings : Settings) :
    ∃ st', parseStrict st.render settings = .ok st' ∧
      st'.view .placeless = st.view .placeless := by
  obtain ⟨us, e, hus, he, hagain⟩ := Statement.exists_tokens hpatterns h
  obtain ⟨st', hst', hview⟩ := Grammar.parseTokensStrict_of_spelled hagain he settings
  refine ⟨st', ?_, hview⟩
  unfold parseStrict
  rw [hus, hst']

/-- A catalogue statement that is found in a text, with or without recovery, is read there from its
words and its patterns. A pattern without quotes is a part of the text that could not be longer. From
the text that writes the statement, it is read again with the same patterns. -/
theorem parse_patterns [Time.Library] {text : String} {settings : Settings} {st : Statement}
    (h : (parse text settings).statement = some st ∨ parseStrict text settings = .ok st)
    (hpatterns : st.patterns ≠ []) :
    (∃ ts next rest, tokenize text = ts ++ next :: rest ∧
        st.Spelled (Pattern.ReadIn text) ts next) ∧
      ∀ settings', ∃ st', parseStrict st.render settings' = .ok st' ∧ st'.patterns = st.patterns ∧
        st'.view .placeless = st.view .placeless := by
  obtain ⟨settings, t, ht⟩ :
      ∃ settings t, Grammar.runRoot (tokenize text) settings = .ok (some st) t := by
    rcases h with h | h
    · exact ⟨_, parseTokens_statement_eq_some.1 h⟩
    · exact ⟨_, parseTokensStrict_eq_ok.1 h⟩
  obtain ⟨ts, next, rest, htext, hspelled⟩ := exists_spelled_of_runRoot ht hpatterns
  obtain ⟨hread, hrereads⟩ := hspelled.readIn htext
  refine ⟨⟨ts, next, rest, htext, hread⟩, fun settings' => ?_⟩
  obtain ⟨st', hst', hview⟩ := Statement.exists_again hpatterns hrereads settings'
  refine ⟨st', hst', ?_, hview⟩
  rw [← Statement.patterns_view st', hview, Statement.patterns_view]

/-- In front of a reserved word, the number and the dot are two pieces. Written at the end of the
statement they are one. -/
theorem parse_patterns_cut :
    ∃ text st, text = "DESCRIBE TABLES LIKE a%-1.e COLUMNS LIKE 1.FROM" ∧
      (parse text Settings.standard).statement = some st ∧
      st.patterns = [.plain "a%-1.e", .plain "1."] ∧
      (∃ ts next rest, tokenize text = ts ++ next :: rest ∧
        st.Spelled (Pattern.ReadIn text) ts next) ∧
      ∃ st', parseStrict st.render Settings.standard = .ok st' ∧
        st'.patterns = [.plain "a%-1.e", .plain "1."] := by
  have hfound : (parse "DESCRIBE TABLES LIKE a%-1.e COLUMNS LIKE 1.FROM"
      Settings.standard).statement.any
        (fun st => st.patterns = [.plain "a%-1.e", .plain "1."]) = true := by decide +kernel
  obtain ⟨st, hst, hcheck⟩ := (Option.any_eq_true _ _).1 hfound
  have hpatterns := of_decide_eq_true hcheck
  obtain ⟨hread, hagain⟩ := parse_patterns (.inl hst) (hpatterns ▸ List.cons_ne_nil _ _)
  obtain ⟨st', hst', hsame, -⟩ := hagain Settings.standard
  exact ⟨_, st, rfl, hst, hpatterns, hread, st', hst', hsame.trans hpatterns⟩

end SearchSql
