import SearchSql.Proofs.PatternText

/-!
# Where tokens end

A value that is written between quotes is one token with this value, whatever is in it, and what is
written behind it stays what it is (`tokenize_delimited`).

Every reader of a lexeme looks a character or two beyond it, so what is written behind a token can
change it. A space cannot: a lexeme is read again in front of whatever starts where tokens stop
(`lexeme_apart`). Only a string or a quoted name that is never closed would go on, and that one is the
last of its text. So the texts of the tokens, with a space between each two of them, have the same
tokens (`tokenize_spaced`).
-/

set_option autoImplicit false

namespace SearchSql.Token

open Text

/-! ## Values between quotes -/

/-- The tokens of a text that starts with one token are that token and those of the text behind it. -/
theorem tokenize_append {text suffix : String} {t : Token}
    (h : tokensOf (text.toList ++ suffix.toList) = t :: tokensOf suffix.toList) :
    ∃ first rest, tokenize (text ++ suffix) = first :: rest ∧ first.kind = t.kind ∧
      first.text = t.text ∧ rest.map placeless = (tokenize suffix).map placeless := by
  rw [← String.toList_append] at h
  obtain ⟨first, rest, htokens, rfl, hrest⟩ := List.map_eq_cons_iff.1 h
  exact ⟨first, rest, htokens, rfl, rfl, hrest⟩

/-- A string as it is written is one token with its value, unless another quote follows; and so is a
name between backticks that has characters, unless another backtick follows. What is written behind
has the tokens that it has alone. -/
theorem tokenize_delimited :
    (∀ value suffix : String, suffix.toList.head? ≠ some quoteMark →
      ∃ first rest, tokenize (quoted value ++ suffix) = first :: rest ∧
        first.kind = .string value ∧ first.text = quoted value ∧
          rest.map placeless = (tokenize suffix).map placeless) ∧
      ∀ value suffix : String, value ≠ "" → suffix.toList.head? ≠ some backtick →
        ∃ first rest, tokenize (backticked value ++ suffix) = first :: rest ∧
          first.kind = .quotedName value ∧ first.text = backticked value ∧
            rest.map placeless = (tokenize suffix).map placeless :=
  ⟨fun value _ hsuffix => tokenize_append (tokensOf_string value hsuffix),
    fun _ _ hvalue hsuffix => tokenize_append (tokensOf_backticked hvalue hsuffix)⟩

/-- A quote and backslashes at the end of a value do not reach what is written behind it. -/
theorem tokenize_delimited_backslash :
    (" -- '".toList.head? ≠ some quoteMark ∧
      ∃ first rest, tokenize (quoted "a'\\\\" ++ " -- '") = first :: rest ∧
        first.kind = .string "a'\\\\" ∧ first.text = "'a''\\\\\\\\'" ∧
          rest.map placeless = (tokenize " -- '").map placeless) ∧
      ".b".toList.head? ≠ some backtick ∧
        ∃ first rest, tokenize (backticked "a b\\" ++ ".b") = first :: rest ∧
          first.kind = .quotedName "a b\\" ∧ first.text = backticked "a b\\" ∧
            rest.map placeless = (tokenize ".b").map placeless :=
  ⟨⟨by decide, tokenize_delimited.1 "a'\\\\" " -- '" (by decide)⟩,
    by decide, tokenize_delimited.2 "a b\\" ".b" (by decide) (by decide)⟩

/-! ## Lexemes behind which tokens stop -/

section Apart

variable {c mark : Char} {cs ds back : List Char}

/-- What is between two marks is read again in front of everything but another mark, if it was
closed. -/
theorem quotedBody_apart {escapable : Char → Bool}
    (hrest : (quotedBody mark escapable cs).rest ≠ []) (hback : back.head? ≠ some mark) :
    quotedBody mark escapable ((quotedBody mark escapable cs).text ++ back) =
      ⟨(quotedBody mark escapable cs).value, (quotedBody mark escapable cs).text, back⟩ := by
  have hclosing : quotedBody mark escapable (mark :: back) = ⟨some [], [mark], back⟩ := by
    cases back with
    | nil => simp [quotedBody]
    | cons b bs =>
      have hb : b ≠ mark := fun heq => hback (congrArg some heq)
      simp [quotedBody, hb]
  fun_induction quotedBody mark escapable cs with
  | case1 => exact absurd rfl hrest
  | case2 => exact absurd rfl hrest
  | case3 => exact absurd rfl hrest
  | case4 cs body ih =>
    simp [quotedBody, body, ih hrest]
  | case5 d cs hd => exact hclosing
  | case6 c d cs hmark hescape body ih =>
    simp only [List.cons_append, quotedBody, if_neg hmark, if_pos hescape, ih hrest, body]
  | case7 c d cs hmark hescape body ih =>
    obtain ⟨text, htext⟩ := quotedBody_text_cons mark escapable d cs
    have hbody := ih hrest
    simp only [body] at hbody ⊢
    rw [htext] at hbody ⊢
    simp only [List.cons_append, quotedBody, hmark, hescape, if_false] at hbody ⊢
    rw [hbody]

/-- A string is read again where tokens stop, if it was closed. -/
theorem stringLexeme_apart (hmark : c = quoteMark ∨ c = doubleMark) (hback : Stops back)
    (hrest : (stringLexeme c cs).rest ≠ []) (hds : c :: ds = (stringLexeme c cs).text) :
    stringLexeme c (ds ++ back) =
      ⟨(stringLexeme c cs).kind, (stringLexeme c cs).text, back⟩ := by
  have hne : back.head? ≠ some c := by
    rcases hmark with rfl | rfl <;> exact hback.head_ne (by decide)
  have hinner : ds = (quotedBody c isEscapable cs).text := (List.cons.inj hds).2
  have hbody : quotedBody c isEscapable (ds ++ back) = _ := hinner ▸ quotedBody_apart hrest hne
  rw [stringLexeme, hbody, hinner]
  rfl

/-- A quoted name is read again where tokens stop, if it was closed. -/
theorem quotedNameLexeme_apart (hback : Stops back) (hrest : (quotedNameLexeme cs).rest ≠ [])
    (hds : c :: ds = (quotedNameLexeme cs).text) :
    quotedNameLexeme (ds ++ back) =
      ⟨(quotedNameLexeme cs).kind, (quotedNameLexeme cs).text, back⟩ := by
  have hinner : ds = (quotedBody backtick (fun _ => false) cs).text := (List.cons.inj hds).2
  have hbody : quotedBody backtick (fun _ => false) (ds ++ back) = _ :=
    hinner ▸ quotedBody_apart hrest (hback.head_ne (by decide))
  rw [quotedNameLexeme, hbody, hinner]
  rfl

/-- A lexeme is read again where tokens stop. One that reaches to the end of the text may be a string
or a quoted name that is not closed, behind which nothing can be written. -/
theorem lexeme_apart (hback : Stops back) (hlast : (lexeme c cs).rest = [] → back = [])
    (hds : c :: ds = (lexeme c cs).text) :
    lexeme c (ds ++ back) = ⟨(lexeme c cs).kind, (lexeme c cs).text, back⟩ := by
  have halone : lexeme c ds = ⟨(lexeme c cs).kind, (lexeme c cs).text, []⟩ := by
    have hwhole : c :: ds = (lexeme c cs).text ++ [] := by
      rw [List.append_nil]
      exact hds
    exact lexeme_cut rfl (fun _ => nofun) hwhole
  by_cases hend : back = []
  · rw [hend, List.append_nil]
    exact halone
  have hrest : (lexeme c cs).rest ≠ [] := mt hlast hend
  by_cases hmark : c = quoteMark ∨ c = doubleMark
  · have hlexeme (es : List Char) : lexeme c es = stringLexeme c es := if_pos hmark
    rw [hlexeme] at hrest hds ⊢
    rw [hlexeme]
    exact stringLexeme_apart hmark hback hrest hds
  by_cases htick : c = backtick
  · have hlexeme (es : List Char) : lexeme c es = quotedNameLexeme es := by
      rw [lexeme, if_neg hmark, if_pos htick]
    rw [hlexeme] at hrest hds ⊢
    rw [hlexeme]
    exact quotedNameLexeme_apart hback hrest hds
  · rw [lexeme_extend (not_or.1 hmark) htick hback, halone]
    rfl

/-- Where a lexeme starts, none of its own characters makes a gap of its first one. -/
theorem startsGap_apart (h : startsGap c cs = false) (hback : Stops back)
    (hds : c :: ds = (lexeme c cs).text) : startsGap c (ds ++ back) = false := by
  refine startsGap_extend ?_ hback
  have hcs : cs = ds ++ (lexeme c cs).rest := (List.cons.inj (show c :: cs = c :: ds ++ _ by
    rw [hds, lexeme_append])).2
  cases ds with
  | cons d ds =>
    rw [hcs] at h
    exact h
  | nil =>
    simp only [startsGap, Bool.or_eq_false_iff] at h ⊢
    exact ⟨⟨h.1.1, by simp⟩, by simp⟩

end Apart

/-! ## Token lists -/

/-- The texts of the tokens, without that of the end of the input. -/
def written (tokens : List Token) : List String :=
  (tokens.filter fun t => !t.isEnd).map Token.text

/-- The texts of the tokens with a space between each two of them have the same tokens. -/
theorem tokensOf_spaced (offset : Nat) (cs : List Char) :
    tokensOf (" ".intercalate (written (tokensFrom offset cs))).toList =
      (tokensFrom offset cs).map placeless := by
  fun_induction tokensFrom offset cs with
  | case1 offset cs blank start hrest => exact tokensOf_nil
  | case2 offset cs blank start c rest hrest next stop ih =>
    have hkind : next.kind ≠ .endOfInput := lexeme_kind_ne c rest
    obtain ⟨ds, hds⟩ : ∃ ds, next.text = c :: ds := by
      have happend := lexeme_append c rest
      cases htext : next.text with
      | nil => exact absurd htext (lexeme_text_ne_nil c rest)
      | cons d ds =>
        rw [show (lexeme c rest).text = _ from htext] at happend
        exact ⟨ds, by rw [(List.cons.inj happend).1]⟩
    have hstart : startsGap c rest = false := by
      have hgap := gap_again cs
      rw [show (gap cs).2 = c :: rest from hrest] at hgap
      exact not_startsGap_of_gap (congrArg Prod.fst hgap)
    -- In front of what may follow it, the first token is read again.
    have hfirst (back : List Char) (hback : Stops back) (hlast : next.rest = [] → back = []) :
        tokensOf (next.text ++ back) =
          ⟨next.kind, String.ofList next.text, default⟩ :: tokensOf back := by
      rw [hds, List.cons_append, tokensOf_lexeme (startsGap_apart hstart hback hds.symm),
        lexeme_apart hback hlast hds.symm]
      exact hds ▸ rfl
    have hwritten : written (⟨next.kind, String.ofList next.text, ⟨start, stop⟩⟩ ::
        tokensFrom stop next.rest) =
          String.ofList next.text :: written (tokensFrom stop next.rest) := by
      have hend : (next.kind == TokenKind.endOfInput) = false := beq_eq_false_iff_ne.2 hkind
      simp [written, isEnd, hend]
    rw [hwritten, List.map_cons, ← ih]
    cases htexts : written (tokensFrom stop next.rest) with
    | nil =>
      have halone := hfirst [] stops_nil fun _ => rfl
      rw [List.append_nil] at halone
      rw [String.intercalate_singleton, String.toList_ofList, halone]
      rfl
    | cons text texts =>
      have hmore : next.rest = [] → ' ' :: (" ".intercalate (text :: texts)).toList = [] := by
        intro hnil
        rw [hnil, tokensFrom_nil (by simp [gap])] at htexts
        cases htexts
      rw [String.intercalate_cons_cons, String.toList_append, String.toList_append,
        String.toList_ofList, List.append_assoc]
      exact (hfirst _ (stops_cons (by decide) _) hmore).trans (congrArg _ (tokensOf_space _))

/-- Tokens are told apart by spaces alone: the texts of the tokens of a text, with a space between
each two of them, have tokens of the same kinds and texts. -/
theorem tokenize_spaced (source : String) :
    (tokenize (" ".intercalate (written (tokenize source)))).map
        (fun t => (t.kind, t.text)) =
      (tokenize source).map fun t => (t.kind, t.text) := by
  have h := congrArg (List.map fun t => (t.kind, t.text)) (tokensOf_spaced 0 source.toList)
  simp only [tokensOf, List.map_map] at h
  exact h

end SearchSql.Token
