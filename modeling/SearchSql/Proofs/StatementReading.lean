import SearchSql.Proofs.PatternText
import SearchSql.Proofs.QueryReading
import SearchSql.Proofs.Slices

/-!
# What statements are read from

A statement is read from tokens that stand for its outline, up to the end of the input or a semicolon
(`parseTokensStrict_denotes`), and can be read back from the text that writes it
(`Statement.writes_render`).
-/

set_option autoImplicit false

namespace SearchSql

open Token
open Grammar (isPatternPiece plainPattern)

/-! ## Passing several tokens -/

/-- The cursor behind the first tokens that are ahead. -/
theorem Cursor.skip_append {c : Cursor} {ts rest : List Token} (h : c.ahead = ts ++ rest)
    (hend : ∀ t ∈ ts, t.isEnd = false) :
    (c.skip ts.length).passed = ts.reverse ++ c.passed ∧ (c.skip ts.length).ahead = rest := by
  induction ts generalizing c with
  | nil => exact ⟨rfl, h⟩
  | cons t ts ih =>
    obtain ⟨passed, ahead, closing, hclosing⟩ := c
    obtain rfl : ahead = t :: (ts ++ rest) := h
    have ht := hend t List.mem_cons_self
    have hadvance : Cursor.advance ⟨passed, t :: (ts ++ rest), closing, hclosing⟩ =
        ⟨t :: passed, ts ++ rest, closing, hclosing⟩ := by simp [Cursor.advance, ht]
    show (Cursor.skip ts.length (Cursor.advance _)).passed = _ ∧
      (Cursor.skip ts.length (Cursor.advance _)).ahead = _
    rw [hadvance, List.reverse_cons, List.append_assoc]
    exact ih rfl fun u hu => hend u (List.mem_cons_of_mem t hu)

/-! ## Legible statements -/

/-- Whether what is written for the pattern lexes to the tokens of its outline. -/
def Pattern.Legible : Pattern → Prop
  | .quoted _ => True
  | .plain value => Lexes value (tokensOf value.toList).dropLast

/-- Whether what is written for the statement can be read back. -/
def Statement.Legible : Statement → Prop
  | .select query => SearchSql.Legible query.outline
  | .showTables tables _ => tables.pattern.Legible
  | .describe tables columns _ => tables.pattern.Legible ∧ ∀ c ∈ columns, c.pattern.Legible

/-- Tokens taken over as they are are written as they are. -/
theorem writtenTokens_verbatim (ts : List Token) :
    writtenTokens (ts.map fun t => .mark (.verbatim t)) = ts := by
  induction ts with
  | nil => rfl
  | cons t ts ih =>
    rw [List.map_cons, writtenTokens_cons_mark, ih]
    rfl

/-- A legible pattern is written as its outline says. -/
theorem Pattern.writes_render {p : Pattern} (h : p.Legible) : Writes p.render p.outline := by
  cases p with
  | quoted value => exact lexes_string value
  | plain value => exact .of_lexes h (writtenTokens_verbatim _)

/-- A statement that can be read back is written with the tokens of its outline. -/
theorem Statement.writes_render {s : Statement} (h : s.Legible) : Writes s.render s.outline := by
  cases s with
  | select query => exact query.writes_render h
  | showTables tables span =>
    have hopen := opens_words "SHOW TABLES LIKE " [.SHOW, .TABLES, .LIKE] rfl
    exact .of_lexes (hopen.lexes_append (Pattern.writes_render h)) (by simp [outline])
  | describe tables columns span =>
    have hopen := opens_words "DESCRIBE TABLES LIKE " [.DESCRIBE, .TABLES, .LIKE] rfl
    have htables := hopen.lexes_append (Pattern.writes_render h.1)
    cases columns with
    | none => exact .of_lexes (htables.append trails_nil) (by simp [outline])
    | some c =>
      have hcolumns := trails_phrased (Pattern.writes_render (h.2 c rfl)) " COLUMNS LIKE "
        [.COLUMNS, .LIKE] rfl
      exact .of_lexes (htables.append hcolumns) (by simp [outline])

/-- The text of a statement that can be read back consists of the tokens of its outline. -/
theorem Statement.tokensOf_render {s : Statement} (h : s.Legible) :
    tokensOf s.render.toList = writtenTokens s.outline ++ [ending] := by
  have hlexes := Statement.writes_render h [] stops_nil
  rwa [List.append_nil, tokensOf_nil] at hlexes

namespace Grammar

open SearchSql.Grammar.Parser

variable {T : List Token} {items : List Item} {text : String} {s t : State}

/-! ## Patterns -/

/-- Whether a pattern without quotes that is followed by the token is read again from its text: the
token is no word, or else it is a piece, which stands behind a gap. -/
def EndsPattern (u : Token) : Prop :=
  (∀ word, u.kind ≠ bareKind word) ∨ isPatternPiece u.kind = true

/-- A pattern without quotes is the text of its pieces, of which there is one at least. -/
theorem plainPatternAt_eq_ok {p : Pattern} (h : plainPatternAt s.cursor s = .ok p t) :
    ∃ pieces, pieces = plainPattern none s.cursor.ahead ∧
      String.join (pieces.map Token.text) ≠ "" ∧
      p = .plain (String.join (pieces.map Token.text)) ∧ t = s.skip pieces.length := by
  unfold plainPatternAt at h
  dsimp only at h
  rw [skip_bind_apply] at h
  cases hempty : (String.join ((plainPattern none s.cursor.ahead).map Token.text)).isEmpty with
  | true =>
    rw [hempty] at h
    cases h
  | false =>
    rw [hempty, if_neg Bool.false_ne_true] at h
    injection h with hp ht
    refine ⟨_, rfl, ?_, hp.symm, ht.symm⟩
    intro hnone
    rw [hnone] at hempty
    cases hempty

/-- A pattern is a string, or consists of pieces. -/
theorem pattern_eq_ok {p : Pattern} (h : pattern s = .ok p t) :
    (∃ value, s.cursor.current.kind = .string value ∧ p = .quoted value ∧ t = s.skip 1) ∨
      ∃ pieces, pieces = plainPattern none s.cursor.ahead ∧
        String.join (pieces.map Token.text) ≠ "" ∧
        p = .plain (String.join (pieces.map Token.text)) ∧ t = s.skip pieces.length := by
  unfold pattern at h
  rw [current_bind_apply] at h
  generalize s.cursor.current = u at h ⊢
  obtain ⟨kind, text, span⟩ := u
  cases kind with
  | string value =>
    injection h with hp ht
    exact .inl ⟨value, rfl, hp.symm, ht.symm⟩
  | _ => exact .inr (plainPatternAt_eq_ok h)

/-- No piece of a pattern is the end of the input. -/
theorem isEnd_of_piece {u : Token} (h : isPatternPiece u.kind = true) : u.isEnd = false := by
  refine isEnd_eq_false fun hend => ?_
  rw [hend] at h
  cases h

/-- A pattern consists of pieces. -/
theorem isPatternPiece_of_mem (stop : Option Nat) (tokens : List Token) :
    ∀ t ∈ plainPattern stop tokens, isPatternPiece t.kind = true := by
  induction tokens generalizing stop with
  | nil => exact fun _ ht => absurd ht List.not_mem_nil
  | cons u us ih =>
    unfold plainPattern
    split
    · next h =>
      rintro t (_ | ⟨_, ht⟩)
      · exact (Bool.and_eq_true_iff.1 h).1
      · exact ih _ t ht
    · exact fun _ ht => absurd ht List.not_mem_nil

theorem marks_verbatim (ts : List Token) :
    marks (ts.map fun t => .mark (.verbatim t)) = ts.map Mark.verbatim := by
  simp [marks, Item.mark?, List.filterMap_map, Function.comp_def]

/-- Tokens taken over as they are stand for themselves. -/
theorem denotes_verbatim {library : Time.Library} (ts : List Token) :
    List.Forall₂ (Mark.Denotes library) ts ((ts.map placeless).map Mark.verbatim) := by
  induction ts with
  | nil => exact .nil
  | cons t ts ih => exact .cons ⟨rfl, rfl⟩ ih

/-- The cursor behind the pieces of a pattern, and what they are in the text. -/
theorem pieces_spec {c : Cursor} {pieces : List Token}
    (hpieces : pieces = plainPattern none c.ahead) (hne : pieces ≠ []) :
    (c.skip pieces.length).passed = pieces.reverse ++ c.passed ∧
      plainPattern none pieces = pieces ∧
      (EndsPattern (c.skip pieces.length).current →
        (∀ word, (c.skip pieces.length).current.kind ≠ bareKind word) ∨
          (c.skip pieces.length).current.span.start ≠ stopOf 0 pieces) := by
  have hpiece : ∀ u ∈ pieces, isPatternPiece u.kind = true :=
    hpieces ▸ isPatternPiece_of_mem none c.ahead
  obtain ⟨first, more, rfl⟩ := List.exists_cons_of_ne_nil hne
  obtain ⟨ahead, hahead⟩ : ∃ ahead, c.ahead = first :: ahead := by
    obtain ⟨rest, hrest⟩ := Grammar.plainPattern_prefix none c.ahead
    rw [← hpieces] at hrest
    exact ⟨_, hrest.symm⟩
  rw [hahead, plainPattern_none] at hpieces
  obtain ⟨rest, hsplit, hagain, hrest⟩ := plainPattern_spec first.span.start (first :: ahead)
  rw [← hpieces] at hsplit hagain hrest
  obtain ⟨hpassed, hleft⟩ :=
    Cursor.skip_append (hahead.trans hsplit) fun u hu => isEnd_of_piece (hpiece u hu)
  -- Behind the pieces stands no piece, or one with a gap in front.
  refine ⟨hpassed, (plainPattern_none first more).trans hagain, Or.imp id fun hkind => ?_⟩
  generalize c.skip (first :: more).length = d at hleft hkind ⊢
  cases rest with
  | nil =>
    have hclosing : d.current = d.closing := by rw [Cursor.current, hleft, List.headD_nil]
    rw [hclosing] at hkind
    exact absurd ((isEnd_of_piece hkind).symm.trans d.closing_isEnd) Bool.false_ne_true
  | cons u rest =>
    have hcurrent : d.current = u := by rw [Cursor.current, hleft, List.headD_cons]
    rw [hcurrent] at hkind ⊢
    exact hrest u rfl hkind

/-- A pattern is read from the tokens that it is written with. -/
theorem At.pattern (hs : At T items s) (hT : T = tokenize text) {p : Pattern}
    (h : pattern s = .ok p t) (hnext : EndsPattern t.cursor.current) :
    At T (items ++ p.outline) t ∧ p.Legible := by
  rcases pattern_eq_ok h with ⟨value, hkind, rfl, rfl⟩ | ⟨pieces, hpieces, htext, rfl, rfl⟩
  · refine ⟨?_, trivial⟩
    exact hs.take (isEnd_eq_false (hkind ▸ nofun)) trivial fun _ _ => hkind
  · have hne : pieces ≠ [] := by
      rintro rfl
      exact htext rfl
    obtain ⟨hpassed, hagain, hends⟩ := pieces_spec hpieces hne
    obtain ⟨more, hmore⟩ := (s.cursor.skip pieces.length).exists_current_cons
    have hall := (Cursor.allTokens_skip pieces.length s.cursor).trans hs.allTokens
    have htext : tokenize text = s.cursor.passed.reverse ++
        (pieces ++ (s.cursor.skip pieces.length).current :: more) := by
      rw [← hT, ← hall, Cursor.allTokens, hpassed, List.append_assoc, hmore, List.reverse_append,
        List.reverse_reverse, List.append_assoc]
    obtain ⟨htokens, hlexes⟩ := lexes_pieces htext hne hagain (hends hnext)
    -- The text of the pieces is scanned as the same pieces, which makes the pattern legible.
    have hpieces' := congrArg List.dropLast htokens
    rw [List.dropLast_concat] at hpieces'
    refine ⟨⟨hs.strict, hall, legible_append.2 ⟨hs.legible, ?_⟩, fun hplain hdots => ?_⟩, ?_⟩
    · rintro i hi
      obtain ⟨u, -, rfl⟩ := List.mem_map.1 hi
      trivial
    · have hsub := List.subset_append_left items
        (Pattern.plain (String.join (pieces.map Token.text))).outline
      rw [State.skip_cursor, hpassed, List.reverse_append, List.reverse_reverse, marks_append]
      refine List.rel_append (hs.denotes (hplain.mono hsub) (hdots.mono hsub)) ?_
      rw [Pattern.outline, hpieces', marks_verbatim]
      exact denotes_verbatim pieces
    · rw [Pattern.Legible, hpieces']
      exact hlexes

/-- A pattern behind `LIKE` is read back from its outline. -/
theorem At.likePattern (hs : At T items s) (hT : T = tokenize text) {p : Pattern}
    (h : likePattern s = .ok p t) (hnext : EndsPattern t.cursor.current) :
    At T (items ++ .keyword .LIKE :: p.outline) t ∧ p.Legible := by
  obtain ⟨_, u, hu, h⟩ := bind_eq_ok_iff.1 h
  have hlike : At T (items ++ [.keyword .LIKE]) u := by
    have hread : Reads T Anywhere [] _ _ := reads_keyword .LIKE
    exact hread items s _ u (by simpa using hs) trivial hu
  simpa using hlike.pattern hT h hnext

/-- A filter for names is a pattern behind `LIKE`. -/
theorem nameFilter_eq_ok {f : NameFilter} (h : nameFilter s = .ok f t) :
    likePattern s = .ok f.pattern t := by
  unfold nameFilter at h
  rw [current_bind_apply] at h
  obtain ⟨p, u, hu, h⟩ := bind_eq_ok_iff.1 h
  injection h with hf ht
  rw [← hf, ← ht]
  exact hu

/-- What is read about columns, if anything is. -/
theorem columnFilter_eq_ok {c : Option NameFilter} (h : columnFilter s = .ok c t) :
    (c = none ∧ s = t ∧ s.cursor.current.kind ≠ .keyword .COLUMNS) ∨
      ∃ f, c = some f ∧ s.cursor.current.kind = .keyword .COLUMNS ∧
        likePattern (s.skip 1) = .ok f.pattern t := by
  unfold columnFilter at h
  rw [atKeyword_bind_apply] at h
  cases hkind : s.cursor.current.kind == .keyword .COLUMNS with
  | false =>
    rw [hkind, if_neg Bool.false_ne_true] at h
    injection h with hc ht
    exact .inl ⟨hc.symm, ht, beq_eq_false_iff_ne.1 hkind⟩
  | true =>
    rw [hkind, if_pos rfl] at h
    obtain ⟨start, u, hu, h⟩ := bind_eq_ok_iff.1 h
    obtain ⟨p, v, hv, h⟩ := bind_eq_ok_iff.1 h
    injection hu with hstart hu
    injection h with hc ht
    obtain rfl : s.skip 1 = u := hu
    exact .inr ⟨_, hc.symm, eq_of_beq hkind, ht ▸ hv⟩

/-! ## Statements -/

/-- A list of tables is read back from its outline. -/
theorem At.showTables (hs : At T items s) (hT : T = tokenize text) {st : Statement}
    (h : showTables s = .ok st t) (hnext : EndsPattern t.cursor.current) :
    At T (items ++ st.outline) t ∧ st.Legible := by
  obtain ⟨start, u, hu, h⟩ := bind_eq_ok_iff.1 h
  obtain ⟨_, v, hv, h⟩ := bind_eq_ok_iff.1 h
  obtain ⟨tables, w, hw, h⟩ := bind_eq_ok_iff.1 h
  injection h with hst ht
  subst hst ht
  have hwords : At T (items ++ [.keyword .SHOW, .keyword .TABLES]) v := by
    have hread : Reads T Anywhere [] _ _ := (reads_keyword .SHOW).bind fun _ => reads_keyword .TABLES
    exact hread items s _ v (by simpa using hs) trivial (bind_eq_ok_iff.2 ⟨_, u, hu, hv⟩)
  obtain ⟨hat, hlegible⟩ := hwords.likePattern hT (nameFilter_eq_ok hw) hnext
  exact ⟨by simpa [Statement.outline] using hat, hlegible⟩

/-- A description is read back from its outline. -/
theorem At.describe (hs : At T items s) (hT : T = tokenize text) {st : Statement}
    (h : describe s = .ok st t) (hnext : EndsPattern t.cursor.current) :
    At T (items ++ st.outline) t ∧ st.Legible := by
  obtain ⟨start, u, hu, h⟩ := bind_eq_ok_iff.1 h
  obtain ⟨_, v, hv, h⟩ := bind_eq_ok_iff.1 h
  obtain ⟨tables, w, hw, h⟩ := bind_eq_ok_iff.1 h
  obtain ⟨columns, x, hx, h⟩ := bind_eq_ok_iff.1 h
  injection h with hst ht
  subst hst ht
  have hwords : At T (items ++ [.keyword .DESCRIBE, .keyword .TABLES]) v := by
    have hread : Reads T Anywhere [] _ _ :=
      (reads_keyword .DESCRIBE).bind fun _ => reads_keyword .TABLES
    exact hread items s _ v (by simpa using hs) trivial (bind_eq_ok_iff.2 ⟨_, u, hu, hv⟩)
  rcases columnFilter_eq_ok hx with ⟨rfl, rfl, -⟩ | ⟨f, rfl, hcolumns, hx⟩
  · obtain ⟨hat, hlegible⟩ := hwords.likePattern hT (nameFilter_eq_ok hw) hnext
    exact ⟨by simpa [Statement.outline] using hat, hlegible, nofun⟩
  · -- The word for columns may be a piece itself, so the pattern ends at a gap.
    have hpiece : EndsPattern w.cursor.current := .inr (by rw [hcolumns]; rfl)
    obtain ⟨hat, hlegible⟩ := hwords.likePattern hT (nameFilter_eq_ok hw) hpiece
    have hword := hat.take (m := .keyword .COLUMNS) (isEnd_of_keyword hcolumns) trivial
      fun _ _ => hcolumns
    obtain ⟨hat', hlegible'⟩ := hword.likePattern hT hx hnext
    refine ⟨by simpa [Statement.outline] using hat', hlegible, ?_⟩
    rintro c ⟨⟩
    exact hlegible'

/-- A statement is read from tokens that stand for its outline, if no word follows. -/
theorem At.statementRule {fuel : Nat} (hs : At T [] s) (hT : T = tokenize text) {st : Statement}
    (h : statementRule (derive fuel) s = .ok st t)
    (hnext : ∀ word, t.cursor.current.kind ≠ bareKind word) :
    At T st.outline t ∧ st.Legible := by
  have hends : EndsPattern t.cursor.current := .inl hnext
  unfold Grammar.statementRule at h
  rw [current_bind_apply] at h
  generalize s.cursor.current = u at h
  obtain ⟨kind, text, span⟩ := u
  cases kind with
  | keyword word =>
    cases word with
    | SELECT =>
      obtain ⟨q, v, hv, h⟩ := bind_eq_ok_iff.1 h
      obtain ⟨rfl, rfl⟩ := pure_eq_ok_iff.1 h
      have hscanned : Scanned T := hT ▸ scanned_tokenize _
      have hquery : At T q.outline v :=
        allRead_derive hscanned fuel .query [] s q v hs trivial hv
      exact ⟨hquery, hquery.legible⟩
    | SHOW => simpa using hs.showTables hT h hends
    | DESCRIBE => simpa using hs.describe hT h hends
    | _ => cases h
  | _ => cases h

/-- The run of a text starts in front of everything. -/
theorem At.start [Time.Library] {ts : List Token} {e : Token} (he : e.isEnd = true)
    (settings : Settings) :
    At (ts ++ [e]) [] (State.ofTokens (ts ++ [e]) { settings with recover := false }) := by
  have hcursor := Cursor.ofTokens_append ts he
  refine ⟨rfl, ?_, nofun, fun _ _ => ?_⟩
  · exact congrArg Cursor.allTokens hcursor
  · rw [show (State.ofTokens (ts ++ [e]) { settings with recover := false }).cursor = _ from hcursor]
    exact .nil

end Grammar

open Grammar

/-- A text that is read as a statement can be read back from the text that writes the statement. If
it is plainly spelled, its tokens stand for the outline of the statement one by one. -/
theorem parseStrict_denotes [library : Time.Library] {text : String} {settings : Settings}
    {found : Statement} (h : parseStrict text settings = .ok found) :
    found.Legible ∧ SearchSql.Legible found.outline ∧
      (PlainSpelling (tokenize text) found.outline → DotsBare found.outline →
        List.Forall₂ (Mark.Denotes library) (tokenize text)
          (marks found.outline ++ [.ending])) := by
  obtain ⟨hlast, hlexemes, -, -⟩ := tokenize_tiles text
  obtain ⟨ts, hts⟩ := List.getLast?_eq_some_iff.1 hlast
  generalize hend : (⟨.endOfInput, "", ⟨text.utf8ByteSize, text.utf8ByteSize⟩⟩ : Token) = e at hts
  have hisEnd : e.isEnd = true := hend ▸ rfl
  rw [hts, List.dropLast_concat] at hlexemes
  have hnotEnd : ∀ t ∈ ts, t.isEnd = false := fun t ht => isEnd_eq_false (hlexemes t ht).1
  obtain ⟨u, hu, hends⟩ := parseTokensStrict_eq_ok_iff_ends.1 h
  rw [hts] at hu
  obtain ⟨-, hstatement⟩ := statementRule_of_optionalStatement
    (steady_derive (fuelFor settings) .query) (notRecovering_of_strict rfl) hu
  have hshape : (shifting 0).ends u.cursor.current.kind = true := ends_of_behindSemicolon hends
  have hkind := endKinds_shifting.eq_or_eq hshape
  obtain ⟨hat, hlegible⟩ := (At.start hisEnd settings).statementRule hts.symm hstatement
    (isEndKind_ne_bareKind hkind)
  refine ⟨hlegible, hat.legible, fun hplain hdots => ?_⟩
  rw [hts] at hplain ⊢
  -- There is no semicolon, so the run has come to the end.
  have hcurrent : u.cursor.current.isEnd = true := by
    rcases hkind with hkind | hkind
    · exact beq_iff_eq.2 hkind
    · exact absurd hkind (hplain.noSemicolon _ hat.mem)
  obtain ⟨hpassed, -⟩ := List.append_inj' hat.allTokens rfl
  have hahead : u.cursor.ahead = [] := ahead_eq_nil (p := Token.isEnd)
    (fun t ht => hnotEnd t (hpassed ▸ List.mem_append_right _ ht)) hcurrent
  rw [hahead, List.append_nil] at hpassed
  have hlibrary : u.library = library :=
    ((steady_optionalStatement (steady_derive (fuelFor settings) .query)).leads hu).library
  rw [← hpassed, ← hlibrary]
  exact List.rel_append (hat.denotes hplain hdots) (.cons (eq_of_beq hisEnd) .nil)

end SearchSql
