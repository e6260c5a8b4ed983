import SearchSql.Token.Scan

/-!
# Tokens tile the text

The tokens of a text and the gaps in front of them make up the text (`tiling_tokensFrom`). What a
gap may be is said by `Gap` without reference to how gaps are read: blank characters and comments,
where a comment is closed by the first mark that can close it, and only the end of the text may stand
for that mark.

All places of tokens follow: they are slices of the text, in order, and do not overlap
(`tokenize_tiles`).
-/

set_option autoImplicit false

namespace SearchSql.Token

open Text

/-- A sequence of blank characters and comments in front of the characters `rest`. -/
inductive Gap (rest : List Char) : List Char → Prop where
  | nil : Gap rest []
  | blank {c : Char} {cs : List Char} : isBlank c = true → Gap rest cs → Gap rest (c :: cs)
  /-- A comment up to the end of its line. -/
  | line {body cs : List Char} : '\n' ∉ body → (∀ c ∈ (cs ++ rest).head?, c = '\n') →
      Gap rest cs → Gap rest ('-' :: '-' :: (body ++ cs))
  /-- A comment up to the mark that closes it. -/
  | block {body cs : List Char} : ¬['*', '/'] <:+: body ++ ['*'] → Gap rest cs →
      Gap rest ('/' :: '*' :: (body ++ '*' :: '/' :: cs))
  /-- A comment that is never closed. -/
  | unclosed {body : List Char} : ¬['*', '/'] <:+: body → rest = [] →
      Gap rest ('/' :: '*' :: body)

/-- The tokens of the text `cs`, which starts at byte `offset`: a gap in front of each, the last one
being the end of the text and no other. -/
inductive Tiling : Nat → List Char → List Token → Prop where
  | ending {offset : Nat} {gap : List Char} : Gap [] gap →
      Tiling offset gap [Token.endOfInput (offset + byteLength gap)]
  | token {offset start stop : Nat} {gap text rest : List Char} {kind : TokenKind}
      {tokens : List Token} : Gap (text ++ rest) gap → text ≠ [] → kind ≠ .endOfInput →
      start = offset + byteLength gap → stop = start + byteLength text → Tiling stop rest tokens →
      Tiling offset (gap ++ (text ++ rest)) (⟨kind, String.ofList text, ⟨start, stop⟩⟩ :: tokens)

/-! ## Gaps -/

/-- A mark of two characters is not found in front of characters that do not go on with it. -/
theorem not_infix_cons {cs : List Char} {c : Char} (h : ¬['*', '/'] <:+: cs)
    (hc : ∀ es, c = '*' → cs = '/' :: es → False) : ¬['*', '/'] <:+: c :: cs := by
  intro hinfix
  obtain ⟨es, hes⟩ | htail := List.infix_cons_iff.1 hinfix
  · cases hes
    exact hc _ rfl rfl
  · exact h htail

/-- A block comment reaches to the first `*/`, or to the end where there is none. -/
theorem blockComment_spec (cs : List Char) :
    (∃ body, (blockComment cs).1 = body ++ ['*', '/'] ∧ ¬['*', '/'] <:+: body ++ ['*']) ∨
      ((blockComment cs).2 = [] ∧ ¬['*', '/'] <:+: (blockComment cs).1) := by
  fun_induction blockComment cs with
  | case1 => exact .inr ⟨rfl, by decide⟩
  | case2 cs => exact .inl ⟨[], rfl, by decide⟩
  | case3 c cs hopen ih =>
    have happend := blockComment_append cs
    obtain ⟨body, hbody, hfree⟩ | ⟨hrest, hfree⟩ := ih
    · refine .inl ⟨c :: body, by rw [hbody]; rfl, not_infix_cons hfree (fun es hc hes => ?_)⟩
      rw [hbody, List.append_cons, show body ++ ['*'] = '/' :: es from hes] at happend
      exact hopen _ hc happend.symm
    · refine .inr ⟨hrest, not_infix_cons hfree (fun es hc hes => ?_)⟩
      rw [hes] at happend
      exact hopen _ hc happend.symm

theorem head?_dropWhile_newline (cs : List Char) :
    ∀ c ∈ (cs.dropWhile (· ≠ '\n')).head?, c = '\n' := by
  intro c hc
  have h := List.head?_dropWhile_not (· ≠ '\n') cs
  rw [Option.mem_def.1 hc] at h
  simpa using h

/-- What is split off is a gap. -/
theorem gap_isGap (cs : List Char) : Gap (gap cs).2 (gap cs).1 := by
  fun_induction gap cs with
  | case1 => exact .nil
  | case2 rest line next ih =>
    refine .line ?_ ?_ ih
    · intro hmem
      have hne := List.all_takeWhile (p := (· ≠ '\n')) (l := rest)
      simpa using List.all_eq_true.1 hne _ hmem
    · rw [gap_append]
      exact head?_dropWhile_newline rest
  | case3 rest comment next ih =>
    obtain ⟨body, hbody, hfree⟩ | ⟨hrest, hfree⟩ := blockComment_spec rest
    · show Gap next.2 ('/' :: '*' :: (comment.1 ++ next.1))
      rw [show comment.1 = body ++ ['*', '/'] from hbody, List.append_assoc]
      exact .block hfree ih
    · have hnext : next = ([], []) := by
        show gap comment.2 = _
        rw [show comment.2 = [] from hrest]
        simp [gap]
      rw [hnext, List.append_nil]
      exact .unclosed hfree rfl
  | case4 c rest _ _ hblank ih => exact .blank hblank ih
  | case5 c rest _ _ hblank => exact .nil

/-! ## Lexemes -/

/-- No lexeme is the end of the text. -/
theorem lexeme_kind_ne (c : Char) (cs : List Char) : (lexeme c cs).kind ≠ .endOfInput := by
  fun_cases lexeme c cs with
  | case1 _ =>
    obtain ⟨_, h⟩ | ⟨_, h⟩ := stringLexeme_kind c cs <;> rw [h] <;> exact TokenKind.noConfusion
  | case2 _ _ =>
    obtain ⟨_, h⟩ | ⟨_, h⟩ := quotedNameLexeme_kind cs <;> rw [h] <;> exact TokenKind.noConfusion
  | case3 _ _ _ =>
    obtain h | h := numberLexeme_kind (c :: cs) <;> rw [h] <;> exact TokenKind.noConfusion
  | case4 _ _ _ _ =>
    obtain ⟨_, h⟩ | ⟨_, h⟩ := nameLexeme_kind c cs <;> rw [h] <;> exact TokenKind.noConfusion
  | case5 _ _ _ _ =>
    obtain ⟨_, h⟩ | ⟨_, h⟩ := symbolLexeme_kind c cs <;> rw [h] <;> exact TokenKind.noConfusion

/-! ## Token lists -/

/-- The tokens of a text tile it. -/
theorem tiling_tokensFrom (offset : Nat) (cs : List Char) :
    Tiling offset cs (tokensFrom offset cs) := by
  fun_induction tokensFrom offset cs with
  | case1 offset cs blank start hrest =>
    have happend := gap_append cs
    have hgap := gap_isGap cs
    rw [show (gap cs).2 = [] from hrest, List.append_nil] at happend
    rw [show (gap cs).2 = [] from hrest, happend] at hgap
    have hstart : start = offset + byteLength cs := congrArg (offset + byteLength ·) happend
    rw [hstart]
    exact .ending hgap
  | case2 offset cs blank start c rest hrest next stop ih =>
    have happend := gap_append cs
    have hgap := gap_isGap cs
    rw [show (gap cs).2 = c :: rest from hrest, ← lexeme_append c rest] at happend hgap
    rw [← happend]
    exact .token hgap (lexeme_text_ne_nil c rest) (lexeme_kind_ne c rest) rfl rfl ih

namespace Tiling

variable {offset : Nat} {cs : List Char} {tokens : List Token}

/-- The last token of a tiling is the end of the text. -/
theorem getLast?_eq (h : Tiling offset cs tokens) :
    tokens.getLast? = some (Token.endOfInput (offset + byteLength cs)) := by
  induction h with
  | ending _ => rfl
  | token _ _ _ hstart hstop _ ih =>
    rw [List.getLast?_cons, ih, hstop, hstart]
    simp only [byteLength_append, Nat.add_assoc, Option.getD_some]

/-- A tiling begins where its text does. -/
theorem le_start (h : Tiling offset cs tokens) : ∀ t ∈ tokens, offset ≤ t.span.start := by
  induction h with
  | ending _ =>
    intro t ht
    rw [List.mem_singleton.1 ht]
    exact Nat.le_add_right _ _
  | token _ _ _ hstart hstop _ ih =>
    rintro t (_ | ⟨_, ht⟩)
    · exact hstart ▸ Nat.le_add_right _ _
    · exact Nat.le_trans (by omega) (ih t ht)

/-- Every token ends before the next one starts, and none but the last is empty. -/
theorem pairwise (h : Tiling offset cs tokens) :
    tokens.Pairwise fun t u => t.span.start < t.span.stop ∧ t.span.stop ≤ u.span.start := by
  induction h with
  | ending _ => exact List.pairwise_singleton _ _
  | @token offset start stop gap text rest kind tokens _ htext _ _ hstop hrest ih =>
    refine List.pairwise_cons.2 ⟨fun u hu => ⟨?_, hrest.le_start u hu⟩, ih⟩
    obtain ⟨c, ds, rfl⟩ := List.exists_cons_of_ne_nil htext
    have hpos := Char.utf8Size_pos c
    show start < stop
    rw [hstop, byteLength_cons]
    omega

/-- All tokens but the last are not empty, none is the end of the text, and each is what the text
has at its place. -/
theorem lexemes (h : Tiling offset cs tokens) (front : List Char)
    (hfront : byteLength front = offset) : ∀ t ∈ tokens.dropLast, t.kind ≠ .endOfInput ∧
      t.text ≠ "" ∧ t.span.slice (String.ofList (front ++ cs)) = some t.text := by
  induction h generalizing front with
  | ending _ => nofun
  | @token offset start stop gap text rest kind tokens _ htext hkind hstart hstop hrest ih =>
    have hne : tokens ≠ [] := by
      intro hnil
      have hlast := hrest.getLast?_eq
      rw [hnil] at hlast
      cases hlast
    rw [List.dropLast_cons_of_ne_nil hne]
    rintro t (_ | ⟨_, ht⟩)
    · refine ⟨hkind, fun hempty => htext (String.ofList_injective hempty), ?_⟩
      have hslice := Span.slice_append (front ++ gap) text rest
      rw [byteLength_append, hfront, ← hstart, ← hstop, List.append_assoc] at hslice
      exact hslice
    · have hbytes : byteLength (front ++ (gap ++ text)) = stop := by
        simp only [byteLength_append]
        omega
      have hinner := ih (front ++ (gap ++ text)) hbytes t ht
      simpa only [List.append_assoc] using hinner

end Tiling

theorem byteLength_toList (source : String) : byteLength source.toList = source.utf8ByteSize := by
  have hlist (cs : List Char) : byteLength cs = (String.ofList cs).utf8ByteSize := by
    induction cs with
    | nil => rfl
    | cons c cs ih =>
      rw [byteLength_cons, ih, String.ofList_cons, String.utf8ByteSize_append,
        String.utf8ByteSize_singleton]
  rw [hlist, String.ofList_toList]

/-- The tokens of a text tile it. The last one, and no other, is the end of the text; every other
token is not empty and is what the text has at its place; and the places are in order. -/
theorem tokenize_tiles (source : String) :
    (tokenize source).getLast? = some ⟨.endOfInput, "", ⟨source.utf8ByteSize, source.utf8ByteSize⟩⟩ ∧
      (∀ t ∈ (tokenize source).dropLast, t.kind ≠ .endOfInput ∧ t.text ≠ "" ∧
        t.span.slice source = some t.text) ∧
      (tokenize source).Pairwise
        (fun t u => t.span.start < t.span.stop ∧ t.span.stop ≤ u.span.start) ∧
      Tiling 0 source.toList (tokenize source) := by
  have h : Tiling 0 source.toList (tokenize source) := tiling_tokensFrom 0 source.toList
  refine ⟨?_, ?_, h.pairwise, h⟩
  · rw [h.getLast?_eq, Nat.zero_add, byteLength_toList]
    rfl
  · have hlexemes := h.lexemes [] rfl
    rw [List.nil_append, String.ofList_toList] at hlexemes
    exact hlexemes

/-- The tokens of a text are those that are in it and, behind them, the end of the input. -/
theorem tokenize_eq_concat (source : String) :
    ∃ front e, tokenize source = front ++ [e] ∧ e.isEnd = true ∧
      ∀ t ∈ front, t.isEnd = false ∧ t.span.slice source = some t.text := by
  obtain ⟨hlast, hlexemes, -⟩ := tokenize_tiles source
  obtain ⟨front, hfront⟩ := List.getLast?_eq_some_iff.1 hlast
  rw [hfront, List.dropLast_concat] at hlexemes
  exact ⟨front, _, hfront, rfl, fun t ht =>
    ⟨beq_eq_false_iff_ne.2 (hlexemes t ht).1, (hlexemes t ht).2.2⟩⟩

end SearchSql.Token
