import SearchSql.Proofs.Retelling
import SearchSql.Proofs.StatementReading

/-!
# What catalogue statements are read from

A pattern is read from the tokens that spell it, and from no fewer (`pattern_eq_ok_iff`). So a
catalogue statement is read from its words and the tokens that spell its patterns
(`spelled_of_statementRule`), and wherever such tokens stand, it is read (`statementRule_of_spelled`).
-/

set_option autoImplicit false

namespace SearchSql

open Text Token
open Grammar (isPatternPiece plainPattern)

/-! ## The tokens that are left -/

namespace Cursor

variable {c : Cursor} {u : Token} {ts rest : List Token}

/-- The tokens from the cursor on, the closing one included. -/
def left (c : Cursor) : List Token := c.ahead ++ [c.closing]

theorem current_of_left (h : c.left = u :: rest) : c.current = u := by
  obtain ⟨more, hmore⟩ := c.exists_current_cons
  exact (List.cons.inj (hmore.symm.trans h)).1

/-- At its start a parse has all tokens left. -/
theorem left_ofTokens (tokens : List Token) {e : Token} (he : e.isEnd = true) :
    (Cursor.ofTokens (tokens ++ [e])).left = tokens ++ [e] := by
  rw [Grammar.Cursor.ofTokens_append tokens he]
  rfl

theorem closing_skip (n : Nat) (c : Cursor) : (c.skip n).closing = c.closing := by
  induction n generalizing c with
  | zero => rfl
  | succ n ih => exact (ih c.advance).trans c.closing_advance

/-- Passing over tokens leaves those behind them. -/
theorem left_skip (h : c.left = ts ++ rest) (hrest : rest ≠ []) (hend : ∀ t ∈ ts, t.isEnd = false) :
    (c.skip ts.length).left = rest := by
  obtain ⟨more, e, rfl⟩ : ∃ more e, rest = more ++ [e] :=
    ⟨rest.dropLast, rest.getLast hrest, (List.dropLast_concat_getLast hrest).symm⟩
  unfold left at h
  rw [← List.append_assoc] at h
  obtain ⟨hahead, hclosing⟩ := List.append_inj' h rfl
  obtain ⟨-, hleft⟩ := Cursor.skip_append hahead hend
  rw [left, hleft, closing_skip, (List.cons.inj hclosing).1]

/-- Taking the token under the cursor leaves those behind it. -/
theorem left_take (h : c.current.isEnd = false) : c.left = c.current :: (c.skip 1).left := by
  obtain ⟨passed, ahead, closing, hclosing⟩ := c
  cases ahead with
  | nil => exact absurd (h.symm.trans hclosing) Bool.false_ne_true
  | cons t ts =>
    have ht : t.isEnd = false := h
    show t :: (ts ++ [closing]) = t :: (Cursor.advance ⟨passed, t :: ts, closing, hclosing⟩).left
    simp [Cursor.advance, ht, left]

/-- Behind the first token the others are left. -/
theorem left_skip_one (h : c.left = u :: rest) (hrest : rest ≠ []) (hu : u.isEnd = false) :
    (c.skip 1).left = rest := by
  have hleft : c.left = [u] ++ rest := h
  exact left_skip hleft hrest fun t ht => by rwa [List.mem_singleton.1 ht]

end Cursor

/-! ## What spells a pattern -/

/-- Whether the tokens, in front of the token `next`, spell the pattern: they are a string, or pieces
with nothing between them that end in front of `next`. -/
inductive Pattern.SpelledBy : Pattern → List Token → Token → Prop where
  | quoted {value : String} {t next : Token} (h : t.kind = .string value) :
      SpelledBy (.quoted value) [t] next
  | plain {pieces : List Token} {next : Token} (hpieces : plainPattern none pieces = pieces)
      (htext : String.join (pieces.map Token.text) ≠ "")
      (hnext : isPatternPiece next.kind = true → next.span.start ≠ stopOf 0 pieces) :
      SpelledBy (.plain (String.join (pieces.map Token.text))) pieces next

/-- Pieces are followed by a token that is no piece, or behind a gap. -/
theorem plainPattern_append {offset : Nat} {pieces rest : List Token} {next : Token}
    (hpieces : plainPattern (some offset) pieces = pieces)
    (hnext : isPatternPiece next.kind = true → next.span.start ≠ stopOf offset pieces) :
    plainPattern (some offset) (pieces ++ next :: rest) = pieces := by
  induction pieces generalizing offset with
  | nil =>
    rw [List.nil_append, plainPattern, if_neg]
    intro hpiece
    obtain ⟨hkind, hstart⟩ := Bool.and_eq_true_iff.1 hpiece
    exact hnext hkind (eq_of_beq hstart).symm
  | cons t ts ih =>
    rw [plainPattern] at hpieces
    split at hpieces
    · next hpiece =>
      rw [List.cons_append, plainPattern, if_pos hpiece,
        ih (List.cons.inj hpieces).2 (by rwa [stopOf_cons] at hnext)]
    · cases hpieces

/-- The end of the input belongs to no pattern. -/
theorem plainPattern_closing {e : Token} (he : e.isEnd = true) (stop : Option Nat)
    (tokens : List Token) : plainPattern stop (tokens ++ [e]) = plainPattern stop tokens := by
  have hpiece : isPatternPiece e.kind = false := by
    rw [eq_of_beq he]
    rfl
  induction tokens generalizing stop with
  | nil => simp [plainPattern, hpiece]
  | cons t ts ih => rw [List.cons_append, plainPattern, plainPattern, ih]

/-- No token that spells a pattern is the end of the input. -/
theorem Pattern.SpelledBy.not_end {p : Pattern} {ts : List Token} {next : Token}
    (h : p.SpelledBy ts next) : ∀ t ∈ ts, t.isEnd = false := by
  cases h with
  | quoted h =>
    intro t ht
    rw [List.mem_singleton.1 ht]
    exact Grammar.isEnd_eq_false (by rw [h]; exact TokenKind.noConfusion)
  | plain hpieces _ _ =>
    intro t ht
    exact Grammar.isEnd_of_piece (Grammar.isPatternPiece_of_mem none _ t (hpieces.symm ▸ ht))

/-- The patterns of a statement. -/
def Statement.patterns : Statement → List Pattern
  | .select _ => []
  | .showTables tables _ => [tables.pattern]
  | .describe tables columns _ => tables.pattern :: (columns.map NameFilter.pattern).toList

/-- Whether the tokens, in front of the token `next`, are those of the catalogue statement: its words,
and for each pattern some tokens that `R` says it stands for, with the token behind them. -/
inductive Statement.Spelled (R : Pattern → List Token → Token → Prop) :
    Statement → List Token → Token → Prop where
  | showTables {words pieces : List Token} {next : Token} {tables : NameFilter} {span : Span}
      (hwords : words.map Token.kind = [.keyword .SHOW, .keyword .TABLES, .keyword .LIKE])
      (htables : R tables.pattern pieces next) :
      Spelled R (.showTables tables span) (words ++ pieces) next
  | describe {words pieces : List Token} {next : Token} {tables : NameFilter} {span : Span}
      (hwords : words.map Token.kind = [.keyword .DESCRIBE, .keyword .TABLES, .keyword .LIKE])
      (htables : R tables.pattern pieces next) (hnext : next.kind ≠ .keyword .COLUMNS) :
      Spelled R (.describe tables none span) (words ++ pieces) next
  | describeColumns {words pieces pieces' : List Token} {column like next : Token}
      {tables columns : NameFilter} {span : Span}
      (hwords : words.map Token.kind = [.keyword .DESCRIBE, .keyword .TABLES, .keyword .LIKE])
      (htables : R tables.pattern pieces column) (hcolumn : column.kind = .keyword .COLUMNS)
      (hlike : like.kind = .keyword .LIKE) (hcolumns : R columns.pattern pieces' next) :
      Spelled R (.describe tables (some columns) span)
        (words ++ (pieces ++ column :: like :: pieces')) next

namespace Grammar

open SearchSql.Grammar.Parser

variable {s t : State} {ts rest : List Token} {next : Token} {p : Pattern}

/-! ## Reading patterns -/

/-- Pieces in a row are read as their pattern. -/
theorem plainPatternAt_of_pieces (hleft : s.cursor.left = ts ++ next :: rest)
    (hpieces : plainPattern none ts = ts) (htext : String.join (ts.map Token.text) ≠ "")
    (hnext : isPatternPiece next.kind = true → next.span.start ≠ stopOf 0 ts) :
    plainPatternAt s.cursor s =
      .ok (.plain (String.join (ts.map Token.text))) (s.skip ts.length) := by
  have hfound : plainPattern none s.cursor.ahead = ts := by
    rw [← plainPattern_closing s.cursor.closing_isEnd, show s.cursor.ahead ++ _ = _ from hleft]
    cases ts with
    | nil => exact absurd rfl htext
    | cons u us =>
      rw [List.cons_append, plainPattern_none]
      rw [plainPattern_none] at hpieces
      exact plainPattern_append hpieces (by rwa [stopOf_cons] at hnext ⊢)
  unfold plainPatternAt
  dsimp only
  rw [hfound, skip_bind_apply, if_neg]
  · rfl
  · rwa [String.isEmpty_iff]

/-- The pieces that stand ahead spell a pattern in front of the token behind them. -/
theorem spelledBy_of_pieces (hts : ts = plainPattern none s.cursor.ahead)
    (htext : String.join (ts.map Token.text) ≠ "") :
    s.cursor.left = ts ++ (s.skip ts.length).cursor.left ∧
      (Pattern.plain (String.join (ts.map Token.text))).SpelledBy ts
        (s.skip ts.length).cursor.current := by
  have hne : ts ≠ [] := by
    rintro rfl
    exact htext rfl
  obtain ⟨u, us, rfl⟩ := List.exists_cons_of_ne_nil hne
  have hpieces := isPatternPiece_of_mem none s.cursor.ahead
  rw [← hts] at hpieces
  have hstart : plainPattern (some u.span.start) s.cursor.left = u :: us := by
    obtain ⟨rest, hrest⟩ := plainPattern_prefix none s.cursor.ahead
    rw [← hts] at hrest
    rw [Cursor.left, plainPattern_closing s.cursor.closing_isEnd, ← hrest, List.cons_append,
      ← plainPattern_none, ← List.cons_append, hrest, ← hts]
  obtain ⟨rest, hsplit, hagain, hnext⟩ := plainPattern_spec u.span.start s.cursor.left
  rw [hstart] at hsplit hagain hnext
  cases rest with
  | nil =>
    -- The pieces cannot be everything that is left: the closing token is none.
    have hclosing : s.cursor.closing ∈ u :: us := by
      rw [List.append_nil] at hsplit
      rw [← hsplit]
      exact List.mem_append_right _ (List.mem_singleton_self _)
    have hend := isEnd_of_piece (hpieces _ hclosing)
    exact absurd (hend.symm.trans s.cursor.closing_isEnd) Bool.false_ne_true
  | cons next rest =>
    have hleft : (s.skip (u :: us).length).cursor.left = next :: rest :=
      Cursor.left_skip hsplit (List.cons_ne_nil next rest) fun v hv => isEnd_of_piece (hpieces v hv)
    rw [Cursor.current_of_left hleft, hleft]
    refine ⟨hsplit, .plain ((plainPattern_none u us).trans hagain) htext ?_⟩
    rw [stopOf_cons] at hnext ⊢
    exact hnext next rfl

/-- A pattern is read from the tokens that spell it, and from no other. -/
theorem pattern_eq_ok_iff :
    pattern s = .ok p t ↔
      ∃ ts, s.cursor.left = ts ++ t.cursor.left ∧ p.SpelledBy ts t.cursor.current ∧
        t = s.skip ts.length := by
  constructor
  · intro h
    rcases pattern_eq_ok h with ⟨value, hkind, rfl, rfl⟩ | ⟨pieces, hpieces, htext, rfl, rfl⟩
    · have hend : s.cursor.current.isEnd = false :=
        isEnd_eq_false (by rw [hkind]; exact TokenKind.noConfusion)
      exact ⟨[s.cursor.current], Cursor.left_take hend, .quoted hkind, rfl⟩
    · obtain ⟨hleft, hspelled⟩ := spelledBy_of_pieces hpieces htext
      exact ⟨pieces, hleft, hspelled, rfl⟩
  · rintro ⟨ts, hleft, hspelled, rfl⟩
    obtain ⟨rest, hrest⟩ := (s.skip ts.length).cursor.exists_current_cons
    rw [show (s.skip ts.length).cursor.left = _ from hrest] at hleft
    generalize (s.skip ts.length).cursor.current = next at *
    unfold pattern
    rw [current_bind_apply]
    -- A string is a pattern by itself; another token starts a row of pieces.
    cases hspelled with
    | quoted hkind =>
      rw [Cursor.current_of_left hleft]
      simp only [hkind]
      rfl
    | plain hpieces htext hnext =>
      have hplain := plainPatternAt_of_pieces hleft hpieces htext hnext
      obtain ⟨u, us, rfl⟩ : ∃ u us, ts = u :: us :=
        List.exists_cons_of_ne_nil (by rintro rfl; exact htext rfl)
      have hpiece := isPatternPiece_of_mem none _ u (hpieces.symm ▸ List.mem_cons_self)
      rw [Cursor.current_of_left hleft]
      obtain ⟨kind, text, span⟩ := u
      cases kind with
      | string value => cases hpiece
      | _ => exact hplain

/-! ## Reading catalogue statements -/

/-- A reserved word that is read was the first token left. -/
theorem left_of_keyword {word : Keyword} {span : Span} (h : keyword word s = .ok span t) :
    ∃ u, u.kind = .keyword word ∧ s.cursor.left = u :: t.cursor.left := by
  obtain ⟨hkind, -, rfl⟩ := keyword_eq_ok_iff.1 h
  exact ⟨_, hkind, Cursor.left_take (isEnd_of_keyword hkind)⟩

/-- A reserved word that is left first is read. -/
theorem keyword_of_left {word : Keyword} {u : Token} (hkind : u.kind = .keyword word)
    (hleft : s.cursor.left = u :: rest) (hrest : rest ≠ []) :
    keyword word s = .ok u.span (s.skip 1) ∧ (s.skip 1).cursor.left = rest := by
  have hcurrent := Cursor.current_of_left hleft
  refine ⟨keyword_eq_ok_iff.2 ⟨hcurrent ▸ hkind, by rw [hcurrent], rfl⟩, ?_⟩
  exact Cursor.left_skip_one hleft hrest (isEnd_of_keyword hkind)

/-- A pattern that is read was spelled by the tokens behind `LIKE`. -/
theorem left_of_likePattern (h : likePattern s = .ok p t) :
    ∃ u ts, u.kind = .keyword .LIKE ∧ s.cursor.left = u :: (ts ++ t.cursor.left) ∧
      p.SpelledBy ts t.cursor.current := by
  obtain ⟨_, v, hword, hpattern⟩ := bind_eq_ok_iff.1 h
  obtain ⟨u, hkind, hu⟩ := left_of_keyword hword
  obtain ⟨ts, hts, hspelled, -⟩ := pattern_eq_ok_iff.1 hpattern
  exact ⟨u, ts, hkind, hts ▸ hu, hspelled⟩

/-- A pattern that is spelled behind `LIKE` is read. -/
theorem likePattern_of_left {u : Token} (hkind : u.kind = .keyword .LIKE)
    (hleft : s.cursor.left = u :: (ts ++ next :: rest)) (hp : p.SpelledBy ts next) :
    ∃ t, likePattern s = .ok p t ∧ t.cursor.left = next :: rest := by
  obtain ⟨hword, hts⟩ := keyword_of_left hkind hleft (by simp)
  have ht : ((s.skip 1).skip ts.length).cursor.left = next :: rest :=
    Cursor.left_skip hts (List.cons_ne_nil next rest) hp.not_end
  refine ⟨(s.skip 1).skip ts.length, ?_, ht⟩
  unfold likePattern
  rw [bind_of_ok hword]
  refine pattern_eq_ok_iff.2 ⟨ts, hts.trans (by rw [ht]), ?_, rfl⟩
  rwa [Cursor.current_of_left ht]

/-- A filter for names that is read was spelled behind `LIKE`. -/
theorem left_of_nameFilter {f : NameFilter} (h : nameFilter s = .ok f t) :
    ∃ u ts, u.kind = .keyword .LIKE ∧ s.cursor.left = u :: (ts ++ t.cursor.left) ∧
      f.pattern.SpelledBy ts t.cursor.current := left_of_likePattern (nameFilter_eq_ok h)

/-- A filter for names that is spelled behind `LIKE` is read. -/
theorem nameFilter_of_left {u : Token} (hkind : u.kind = .keyword .LIKE)
    (hleft : s.cursor.left = u :: (ts ++ next :: rest)) (hp : p.SpelledBy ts next) :
    ∃ f t, nameFilter s = .ok f t ∧ f.pattern = p ∧ t.cursor.left = next :: rest := by
  obtain ⟨t, ht, hrest⟩ := likePattern_of_left hkind hleft hp
  refine ⟨⟨p, s.cursor.current.span.merge t.cursor.previousSpan⟩, t, ?_, rfl, hrest⟩
  unfold nameFilter
  rw [current_bind_apply, bind_of_ok ht, spanFrom_bind_apply]
  rfl

/-- A list of tables that is read was spelled. -/
theorem spelled_of_showTables {st : Statement} (h : showTables s = .ok st t) :
    ∃ ts, s.cursor.left = ts ++ t.cursor.left ∧
      st.Spelled Pattern.SpelledBy ts t.cursor.current := by
  obtain ⟨start, v, hshow, h⟩ := bind_eq_ok_iff.1 h
  obtain ⟨_, w, htables, h⟩ := bind_eq_ok_iff.1 h
  obtain ⟨tables, x, hfilter, h⟩ := bind_eq_ok_iff.1 h
  injection h with hst ht
  subst hst ht
  obtain ⟨a, ha, hleft⟩ := left_of_keyword hshow
  obtain ⟨b, hb, hleft'⟩ := left_of_keyword htables
  obtain ⟨c, ts, hc, hleft'', hspelled⟩ := left_of_nameFilter hfilter
  refine ⟨[a, b, c] ++ ts, ?_, .showTables (by simp [ha, hb, hc]) hspelled⟩
  rw [hleft, hleft', hleft'']
  rfl

/-- A description that is read was spelled. -/
theorem spelled_of_describe {st : Statement} (h : describe s = .ok st t) :
    ∃ ts, s.cursor.left = ts ++ t.cursor.left ∧
      st.Spelled Pattern.SpelledBy ts t.cursor.current := by
  obtain ⟨start, v, hdescribe, h⟩ := bind_eq_ok_iff.1 h
  obtain ⟨_, w, htables, h⟩ := bind_eq_ok_iff.1 h
  obtain ⟨tables, x, hfilter, h⟩ := bind_eq_ok_iff.1 h
  obtain ⟨columns, y, hcolumns, h⟩ := bind_eq_ok_iff.1 h
  injection h with hst ht
  subst hst ht
  obtain ⟨a, ha, hleft⟩ := left_of_keyword hdescribe
  obtain ⟨b, hb, hleft'⟩ := left_of_keyword htables
  obtain ⟨c, ts, hc, hleft'', hspelled⟩ := left_of_nameFilter hfilter
  have hwords : [a, b, c].map Token.kind = [.keyword .DESCRIBE, .keyword .TABLES, .keyword .LIKE] := by
    simp [ha, hb, hc]
  have hall : s.cursor.left = [a, b, c] ++ (ts ++ x.cursor.left) := by
    rw [hleft, hleft', hleft'']
    rfl
  rcases columnFilter_eq_ok hcolumns with ⟨rfl, rfl, hnone⟩ | ⟨f, rfl, hkind, hlike⟩
  · exact ⟨[a, b, c] ++ ts, by rw [hall, List.append_assoc], .describe hwords hspelled hnone⟩
  · obtain ⟨d, us, hd, hbehind, hspelled'⟩ := left_of_likePattern hlike
    have hcolumn := Cursor.left_take (isEnd_of_keyword hkind)
    refine ⟨_, ?_, .describeColumns hwords hspelled hkind hd hspelled'⟩
    rw [hall, hcolumn, show (x.cursor.skip 1).left = _ from hbehind]
    simp

/-- A catalogue statement is read from the tokens that spell it. -/
theorem spelled_of_statementRule {call : Callee} {st : Statement}
    (h : statementRule call s = .ok st t) (hpatterns : st.patterns ≠ []) :
    ∃ ts, s.cursor.left = ts ++ t.cursor.left ∧
      st.Spelled Pattern.SpelledBy ts t.cursor.current := by
  unfold statementRule at h
  rw [current_bind_apply] at h
  generalize s.cursor.current = u at h
  obtain ⟨kind, text, span⟩ := u
  cases kind with
  | keyword word =>
    cases word with
    | SELECT =>
      obtain ⟨q, v, -, h⟩ := bind_eq_ok_iff.1 h
      obtain ⟨rfl, -⟩ := pure_eq_ok_iff.1 h
      exact absurd rfl hpatterns
    | SHOW => exact spelled_of_showTables h
    | DESCRIBE => exact spelled_of_describe h
    | _ => cases h
  | _ => cases h

/-- The start of a catalogue statement is read from its words and from the tokens that spell its first
pattern. -/
theorem tables_of_left {words : List Token} {word : Keyword}
    (hwords : words.map Token.kind = [.keyword word, .keyword .TABLES, .keyword .LIKE])
    (hleft : s.cursor.left = words ++ (ts ++ next :: rest)) (hp : p.SpelledBy ts next) :
    ∃ start f t, f.pattern = p ∧ t.cursor.left = next :: rest ∧
      ∀ {α : Type} (k : Span → NameFilter → Parser α),
        (keyword word >>= fun start => keyword .TABLES >>= fun _ => nameFilter >>= k start) s =
          k start f t := by
  obtain ⟨a, _, rfl, ha, hwords⟩ := List.map_eq_cons_iff.1 hwords
  obtain ⟨b, _, rfl, hb, hwords⟩ := List.map_eq_cons_iff.1 hwords
  obtain ⟨c, rfl, hc⟩ := List.map_eq_singleton_iff.1 hwords
  obtain ⟨hword, hleft⟩ := keyword_of_left ha hleft (by simp)
  obtain ⟨htables, hleft⟩ := keyword_of_left hb hleft (by simp)
  obtain ⟨f, t, hfilter, hf, ht⟩ := nameFilter_of_left hc hleft hp
  refine ⟨a.span, f, t, hf, ht, fun k => ?_⟩
  rw [bind_of_ok hword, bind_of_ok htables, bind_of_ok hfilter]

/-- Without the word `COLUMNS` there is no filter for columns. -/
theorem columnFilter_of_ne (h : s.cursor.current.kind ≠ .keyword .COLUMNS) :
    columnFilter s = .ok none s := by
  unfold columnFilter
  rw [atKeyword_bind_apply, beq_eq_false_iff_ne.2 h]
  rfl

/-- A filter for columns that is spelled is read. -/
theorem columnFilter_of_left {column like : Token} (hcolumn : column.kind = .keyword .COLUMNS)
    (hlike : like.kind = .keyword .LIKE)
    (hleft : s.cursor.left = column :: like :: (ts ++ next :: rest)) (hp : p.SpelledBy ts next) :
    ∃ f t, columnFilter s = .ok (some f) t ∧ f.pattern = p ∧ t.cursor.left = next :: rest := by
  have hkind : s.cursor.current.kind = .keyword .COLUMNS := by rw [Cursor.current_of_left hleft, hcolumn]
  have hbehind := Cursor.left_skip_one hleft (by simp) (isEnd_of_keyword hcolumn)
  obtain ⟨t, ht, hrest⟩ := likePattern_of_left (s := s.skip 1) hlike hbehind hp
  refine ⟨⟨p, s.cursor.current.span.merge t.cursor.previousSpan⟩, t, ?_, rfl, hrest⟩
  unfold columnFilter
  rw [atKeyword_bind_apply, hkind, if_pos (beq_self_eq_true _), take_bind_apply, bind_of_ok ht,
    spanFrom_bind_apply]
  rfl

/-- A filter is seen without its place as its pattern. -/
theorem nameFilter_view_placeless {f g : NameFilter} (h : f.pattern = g.pattern) :
    f.view .placeless = g.view .placeless := by
  unfold NameFilter.view
  rw [h]
  rfl

/-- From the tokens that spell a catalogue statement, it is read again, wherever they stand. -/
theorem statementRule_of_spelled (call : Callee) {st : Statement}
    (h : st.Spelled Pattern.SpelledBy ts next) (hleft : s.cursor.left = ts ++ next :: rest) :
    ∃ st' t, statementRule call s = .ok st' t ∧ t.cursor.left = next :: rest ∧
      st'.view .placeless = st.view .placeless := by
  have hword {word : Keyword} {words more : List Token}
      (hwords : words.map Token.kind = [.keyword word, .keyword .TABLES, .keyword .LIKE])
      (hleft : s.cursor.left = words ++ more) : s.cursor.current.kind = .keyword word := by
    obtain ⟨a, _, rfl, ha, -⟩ := List.map_eq_cons_iff.1 hwords
    rw [Cursor.current_of_left hleft, ha]
  unfold statementRule
  rw [current_bind_apply]
  -- Each form starts with its own word, behind which come the tables and, in the last one, the
  -- columns.
  cases h with
  | showTables hwords htables =>
    rw [List.append_assoc] at hleft
    simp only [hword hwords hleft]
    obtain ⟨start, f, t, hf, ht, hrun⟩ := tables_of_left hwords hleft htables
    refine ⟨.showTables f (start.merge t.cursor.previousSpan), t, hrun _, ht, ?_⟩
    simp only [Statement.view, nameFilter_view_placeless hf]
    rfl
  | describe hwords htables hnext =>
    rw [List.append_assoc] at hleft
    simp only [hword hwords hleft]
    obtain ⟨start, f, t, hf, ht, hrun⟩ := tables_of_left hwords hleft htables
    have hnone := columnFilter_of_ne (s := t) (by rwa [Cursor.current_of_left ht])
    refine ⟨.describe f none (start.merge t.cursor.previousSpan), t, ?_, ht, ?_⟩
    · exact (hrun _).trans (bind_of_ok hnone)
    · simp only [Statement.view, nameFilter_view_placeless hf]
      rfl
  | describeColumns hwords htables hcolumn hlike hcolumns =>
    simp only [List.append_assoc, List.cons_append] at hleft
    simp only [hword hwords hleft]
    obtain ⟨start, f, t, hf, ht, hrun⟩ := tables_of_left hwords hleft htables
    obtain ⟨g, u, hcolumn, hg, hu⟩ := columnFilter_of_left hcolumn hlike ht hcolumns
    refine ⟨.describe f (some g) (start.merge u.cursor.previousSpan), u, ?_, hu, ?_⟩
    · exact (hrun _).trans (bind_of_ok hcolumn)
    · simp only [Statement.view, Option.map_some, nameFilter_view_placeless hf,
        nameFilter_view_placeless hg]
      rfl

end Grammar

end SearchSql
