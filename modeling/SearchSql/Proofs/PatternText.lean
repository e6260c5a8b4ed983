import SearchSql.Proofs.Cutting
import SearchSql.Proofs.Writing

/-!
# Patterns without quotes

A pattern without quotes is the text of tokens with nothing between them. That text lexes to the same
tokens when it is written somewhere else (`lexes_pieces`): a token of such a kind does not run into a
character behind which tokens stop.
-/

set_option autoImplicit false

namespace SearchSql

open Text Token
open Grammar (isPatternPiece plainPattern)

/-! ## Lexemes in front of more text -/

section Extend

variable {c : Char} {cs back : List Char}

/-- Behind its first character, a number has only digits and what belongs to fractions and
exponents. -/
theorem numberLexeme_text (cs : List Char) :
    ∀ d ∈ (numberLexeme cs).text, d ∉ stopChars := by
  -- No stop character is a digit, a point, a sign or the letter of an exponent.
  have hdigit {d : Char} (h : d.isDigit = true) : d ∉ stopChars := by
    intro hmem
    have hnone := List.all_eq_true.1 (show stopChars.all (fun c => !c.isDigit) = true by decide) d hmem
    simp [h] at hnone
  have hrun {ds : List Char} : ∀ d ∈ ds.takeWhile Char.isDigit, d ∉ stopChars := fun d hd =>
    hdigit (List.all_eq_true.1 List.all_takeWhile d hd)
  have hnil : ∀ d ∈ ([] : List Char), d ∉ stopChars := fun _ hd => absurd hd List.not_mem_nil
  have hfraction (ds : List Char) : ∀ d ∈ (fraction ds).1, d ∉ stopChars := by
    unfold fraction
    split
    · split
      · exact hnil
      · rintro d (_ | ⟨_, hd⟩)
        · decide
        · exact hrun d hd
    · exact hnil
  have hsign (ds : List Char) : ∀ d ∈ (exponentSign ds).1, d ∉ stopChars := by
    unfold exponentSign
    split
    · simp [stopChars]
    · simp [stopChars]
    · exact hnil
  have hexponent (ds : List Char) : ∀ d ∈ (exponent ds).1, d ∉ stopChars := by
    fun_cases exponent ds with
    | case1 => exact hnil
    | case2 e ds signed hmark =>
      rintro d (_ | ⟨_, hd⟩)
      · rcases hmark.1 with rfl | rfl <;> decide
      · rcases List.mem_append.1 hd with hd | hd
        · exact hsign ds d hd
        · exact hrun d hd
    | case3 => exact hnil
  intro d hd
  simp only [numberLexeme, List.mem_append] at hd
  rcases hd with (hd | hd) | hd
  · exact hrun d hd
  · exact hfraction _ d hd
  · exact hexponent _ d hd

/-- Behind its first character, a word, a number or a symbol has no character that stops a token. -/
theorem lexeme_tail (hquote : c ≠ quoteMark ∧ c ≠ doubleMark) (htick : c ≠ backtick) :
    ∀ d ∈ (lexeme c cs).text.tail, d ∉ stopChars := by
  fun_cases lexeme c cs with
  | case1 h => exact absurd h (not_or.2 hquote)
  | case2 _ h => exact absurd h htick
  | case3 _ _ _ => exact fun d hd => numberLexeme_text _ d (List.mem_of_mem_tail hd)
  | case4 _ _ _ _ =>
    intro d hd hmem
    have hpart := List.all_eq_true.1 (List.all_takeWhile (p := isNamePart) (l := cs)) d hd
    have hnone := List.all_eq_true.1 (show stopChars.all (fun c => !isNamePart c) = true by decide) d hmem
    simp [hpart] at hnone
  | case5 _ _ _ _ =>
    fun_cases symbolLexeme c cs with
    | case1 => exact fun _ hd => absurd hd List.not_mem_nil
    | case2 d ds sign h =>
      rintro _ (_ | ⟨_, ⟨⟩⟩) hmem
      unfold doubleSymbol? at h
      split at h
      all_goals cases h
      all_goals exact absurd hmem (by decide)
    | case3 d ds h => exact fun _ hd => absurd hd List.not_mem_nil

/-- A lexeme is read again in front of more text, if that starts where tokens stop. -/
theorem lexeme_extend (hquote : c ≠ quoteMark ∧ c ≠ doubleMark) (htick : c ≠ backtick)
    (hback : Stops back) :
    lexeme c (cs ++ back) =
      ⟨(lexeme c cs).kind, (lexeme c cs).text, (lexeme c cs).rest ++ back⟩ := by
  -- No lexeme reaches beyond a stop character, as none of its later characters is one.
  obtain ⟨front, hfront⟩ : ∃ front, (lexeme c (cs ++ back)).rest = front ++ back := by
    cases back with
    | nil => exact ⟨_, (List.append_nil _).symm⟩
    | cons b bs =>
      have happend := lexeme_append c (cs ++ b :: bs)
      have htail : ∀ d ∈ (lexeme c (cs ++ b :: bs)).text.tail, d ∉ stopChars :=
        lexeme_tail hquote htick
      cases htext : (lexeme c (cs ++ b :: bs)).text with
      | nil => exact absurd htext (lexeme_text_ne_nil _ _)
      | cons d ds =>
        rw [htext] at happend htail
        rcases List.append_eq_append_iff.1 (List.cons.inj happend).2 with
          ⟨es, hcs, hrest⟩ | ⟨es, hds, hrest⟩
        · exact ⟨es, hrest⟩
        · cases es with
          | nil => exact ⟨[], hrest.symm⟩
          | cons e es =>
            obtain ⟨rfl, -⟩ := List.cons.inj hrest
            refine absurd (hback b rfl) (htail b ?_)
            rw [hds]
            simp
  have hdot : front = ['.'] → back.head?.any isAlphabetic = false := by
    intro _
    cases back with
    | nil => rfl
    | cons b bs => exact hback.head (p := isAlphabetic) (by decide) b rfl
  have hds : c :: cs = (lexeme c (cs ++ back)).text ++ front := by
    have happend := lexeme_append c (cs ++ back)
    rw [hfront, ← List.append_assoc, ← List.cons_append] at happend
    exact (List.append_cancel_right happend).symm
  rw [lexeme_cut hfront (fun _ => hdot) hds, ← hfront]

end Extend

/-! ## Texts of pieces -/

theorem not_startsGap_of_gap {c : Char} {cs : List Char} (h : (gap (c :: cs)).1 = []) :
    startsGap c cs = false := by
  cases hstarts : startsGap c cs with
  | false => rfl
  | true =>
    simp only [startsGap, Bool.or_eq_true, Bool.and_eq_true, beq_iff_eq] at hstarts
    rcases hstarts with (hblank | ⟨rfl, hline⟩) | ⟨rfl, hblock⟩
    · rw [gap_of_blank hblank] at h
      cases h
    · obtain ⟨ds, rfl⟩ := List.head?_eq_some_iff.1 hline
      rw [gap] at h
      cases h
    · obtain ⟨ds, rfl⟩ := List.head?_eq_some_iff.1 hblock
      rw [gap] at h
      cases h

/-- What starts no gap starts none in front of more text, if that starts where tokens stop. -/
theorem startsGap_extend {c : Char} {cs back : List Char} (h : startsGap c cs = false)
    (hback : Stops back) : startsGap c (cs ++ back) = false := by
  cases cs with
  | cons d ds => exact h
  | nil =>
    have hline := hback.head_ne (c := '-') (by decide)
    have hblock := hback.head_ne (c := '*') (by decide)
    simp only [startsGap, Bool.or_eq_false_iff] at h ⊢
    refine ⟨⟨h.1.1, ?_⟩, ?_⟩
    · simp [hline]
    · simp [hblock]

/-- A piece of a pattern starts neither with a quote nor with a backtick. -/
theorem not_quoted_of_piece {c : Char} {cs : List Char}
    (h : isPatternPiece (lexeme c cs).kind = true) :
    (c ≠ quoteMark ∧ c ≠ doubleMark) ∧ c ≠ backtick := by
  revert h
  fun_cases lexeme c cs with
  | case1 _ => obtain ⟨_, h⟩ | ⟨_, h⟩ := stringLexeme_kind c cs <;> rw [h] <;> rintro ⟨⟩
  | case2 _ _ => obtain ⟨_, h⟩ | ⟨_, h⟩ := quotedNameLexeme_kind cs <;> rw [h] <;> rintro ⟨⟩
  | case3 hquote htick _ => exact fun _ => ⟨not_or.1 hquote, htick⟩
  | case4 hquote htick _ _ => exact fun _ => ⟨not_or.1 hquote, htick⟩
  | case5 hquote htick _ _ => exact fun _ => ⟨not_or.1 hquote, htick⟩

theorem byteLength_eq_zero {cs : List Char} (h : byteLength cs = 0) : cs = [] := by
  cases cs with
  | nil => rfl
  | cons c cs =>
    have hpos := c.utf8Size_pos
    rw [byteLength_cons] at h
    omega

/-- A text of pieces with nothing between them consists of their texts, and lexes to them in front of
everything that starts where tokens stop. -/
theorem tokensFrom_pieces {pieces : List Token} {u : Token} {offset : Nat} {cs : List Char}
    (h : tokensFrom offset cs = pieces ++ [u]) (hpieces : plainPattern (some offset) pieces = pieces)
    (hend : stopOf offset pieces = offset + byteLength cs) :
    String.join (pieces.map Token.text) = String.ofList cs ∧
      ∀ back, Stops back → tokensFrom offset (cs ++ back) =
        pieces ++ tokensFrom (offset + byteLength cs) back := by
  induction pieces generalizing offset cs with
  | nil =>
    have hnil : cs = [] := byteLength_eq_zero (by rw [stopOf_nil] at hend; omega)
    subst hnil
    exact ⟨rfl, fun _ _ => rfl⟩
  | cons t ts ih =>
    cases hgap : (gap cs).2 with
    | nil =>
      rw [tokensFrom_nil hgap] at h
      have hlength := congrArg List.length h
      simp at hlength
    | cons c ds =>
      have happend := gap_append cs
      rw [tokensFrom_cons hgap, List.cons_append] at h
      obtain ⟨ht, htail⟩ := List.cons.inj h
      rw [plainPattern] at hpieces
      split at hpieces
      · next hpiece =>
        obtain ⟨hkind, hstart⟩ := Bool.and_eq_true_iff.1 hpiece
        have hts := (List.cons.inj hpieces).2
        have hplace : t.span.start = offset := (eq_of_beq hstart).symm
        rw [← ht] at hkind hplace
        -- The piece starts where the text does, so there is no gap in front of it.
        have hnone : (gap cs).1 = [] := byteLength_eq_zero (by simp only at hplace; omega)
        rw [hnone, hgap, List.nil_append] at happend
        subst happend
        obtain ⟨hquote, htick⟩ := not_quoted_of_piece hkind
        have hlexeme := lexeme_append c ds
        have hbytes := byteLength_append (lexeme c ds).text (lexeme c ds).rest
        rw [hlexeme] at hbytes
        rw [← ht] at hts hend
        rw [stopOf_cons] at hend
        simp only [hnone, byteLength_nil, Nat.add_zero] at hts hend htail
        obtain ⟨hjoin, hextend⟩ := ih htail hts (by rw [hend, hbytes, Nat.add_assoc])
        refine ⟨?_, fun back hback => ?_⟩
        · rw [List.map_cons, String.join_cons, hjoin, ← ht, ← String.ofList_append, hlexeme]
        · have hstarts := startsGap_extend (not_startsGap_of_gap hnone) hback
          have hgap' := gap_of_not_startsGap hstarts
          have htext : lexeme c (ds ++ back) =
              ⟨(lexeme c ds).kind, (lexeme c ds).text, (lexeme c ds).rest ++ back⟩ :=
            lexeme_extend hquote htick hback
          rw [List.cons_append, tokensFrom_cons (congrArg Prod.snd hgap'), hgap']
          simp only [htext, byteLength_nil, Nat.add_zero]
          rw [hextend back hback, hbytes, ← Nat.add_assoc, ← ht, hnone]
          rfl
      · cases hpieces

/-! ## Pieces in a list of tokens -/

/-- The pieces of a pattern are followed by a token that is no piece, or behind a gap. -/
theorem plainPattern_spec (offset : Nat) (tokens : List Token) :
    ∃ rest, tokens = plainPattern (some offset) tokens ++ rest ∧
      plainPattern (some offset) (plainPattern (some offset) tokens) =
        plainPattern (some offset) tokens ∧
      ∀ u ∈ rest.head?, isPatternPiece u.kind = true →
        u.span.start ≠ stopOf offset (plainPattern (some offset) tokens) := by
  induction tokens generalizing offset with
  | nil => exact ⟨[], rfl, rfl, nofun⟩
  | cons t ts ih =>
    cases hpiece : isPatternPiece t.kind && Option.all (· == t.span.start) (some offset) with
    | true =>
      obtain ⟨rest, hsplit, hagain, hnext⟩ := ih t.span.stop
      have hcons : plainPattern (some offset) (t :: ts) =
          t :: plainPattern (some t.span.stop) ts := by rw [plainPattern, hpiece, if_pos rfl]
      rw [hcons]
      refine ⟨rest, by rw [List.cons_append, ← hsplit], ?_, by rwa [stopOf_cons]⟩
      rw [plainPattern, hpiece, if_pos rfl, hagain]
    | false =>
      have hnil : plainPattern (some offset) (t :: ts) = [] := by
        rw [plainPattern, hpiece, if_neg Bool.false_ne_true]
      rw [hnil]
      refine ⟨t :: ts, rfl, rfl, ?_⟩
      rintro u ⟨⟩ hkind hstart
      rw [hkind, show t.span.start = offset from hstart] at hpiece
      simp at hpiece

/-- The first piece may stand anywhere. -/
theorem plainPattern_none (t : Token) (ts : List Token) :
    plainPattern none (t :: ts) = plainPattern (some t.span.start) (t :: ts) := by
  rw [plainPattern, plainPattern]
  simp

/-- The tokens behind some of the tokens of a text are those of a text behind them. -/
theorem tokensFrom_suffix {before after : List Token} {offset : Nat} {cs : List Char}
    (h : tokensFrom offset cs = before ++ after) (hne : after ≠ []) :
    ∃ front back, cs = front ++ back ∧ tokensFrom (offset + byteLength front) back = after := by
  induction before generalizing offset cs with
  | nil => exact ⟨[], cs, rfl, h⟩
  | cons t before ih =>
    cases hgap : (gap cs).2 with
    | nil =>
      rw [tokensFrom_nil hgap] at h
      have hnil := (List.append_eq_nil_iff.1 (List.cons.inj h).2.symm).2
      exact absurd hnil hne
    | cons c rest =>
      rw [tokensFrom_cons hgap] at h
      obtain ⟨front, back, hrest, hback⟩ := ih (List.cons.inj h).2
      refine ⟨(gap cs).1 ++ ((lexeme c rest).text ++ front), back, ?_, ?_⟩
      · rw [List.append_assoc, List.append_assoc, ← hrest, lexeme_append, ← hgap, gap_append]
      · simpa only [byteLength_append, Nat.add_assoc] using hback

/-- The pieces of a pattern in a text lex again from their own text, if no word follows directly. -/
theorem lexes_pieces {text : String} {before pieces rest : List Token} {u : Token}
    (h : tokenize text = before ++ (pieces ++ u :: rest)) (hne : pieces ≠ [])
    (hpieces : plainPattern none pieces = pieces)
    (hnext : (∀ word, u.kind ≠ bareKind word) ∨ u.span.start ≠ stopOf 0 pieces) :
    tokensOf (String.join (pieces.map Token.text)).toList = pieces.map placeless ++ [ending] ∧
      Lexes (String.join (pieces.map Token.text)) (pieces.map placeless) := by
  obtain ⟨_, back, -, hback⟩ := tokensFrom_suffix h (by simp)
  obtain ⟨t, ts, rfl⟩ := List.exists_cons_of_ne_nil hne
  -- In front of the first piece the text is cut off, with the gap.
  have hstart := start_tokensFrom hback
  rw [← tokensFrom_gap, ← hstart] at hback
  have hstop : stopOf t.span.start (t :: ts) = stopOf 0 (t :: ts) := by
    rw [stopOf_cons, stopOf_cons]
  obtain ⟨front, _, -, hfront, -, hend⟩ := tokensFrom_cut hback ⟨u, rfl, hstop ▸ hnext⟩
  obtain ⟨hjoin, hextend⟩ := tokensFrom_pieces hfront (plainPattern_none t ts ▸ hpieces) hend
  have hplaceless := map_placeless_tokensFrom t.span.start front
  rw [hfront, List.map_append] at hplaceless
  rw [hjoin, Lexes, String.toList_ofList]
  refine ⟨hplaceless.symm, fun cs hcs => ?_⟩
  rw [← map_placeless_tokensFrom t.span.start, hextend cs hcs, List.map_append,
    map_placeless_tokensFrom]

end SearchSql
