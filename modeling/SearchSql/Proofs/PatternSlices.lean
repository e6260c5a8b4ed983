import SearchSql.Proofs.NumberText
import SearchSql.Proofs.PatternText

/-!
# Patterns without quotes as parts of a text

The pieces of a pattern without quotes have nothing between them, so that together they are a part of
the text they are read from, inside which no gap starts (`pieces_in_text`).

Written somewhere else, this part may group into other tokens: a number and a dot in front of a word
are one number once the word is gone (`lexeme_point`). These are pieces of a pattern again, with
nothing between them (`ReadsAsPieces`).
-/

set_option autoImplicit false

namespace SearchSql

open Text Token
open Grammar (isPatternPiece plainPattern)

-- Whether a text is a reserved word is looked up nowhere here: kinds are compared as they stand.
attribute [local irreducible] bareKind

/-! ## One token after another -/

/-- Where no gap starts the next lexeme is the first token. -/
theorem tokensFrom_lexeme {c : Char} {cs : List Char} (h : startsGap c cs = false) (offset : Nat) :
    tokensFrom offset (c :: cs) =
      ⟨(lexeme c cs).kind, String.ofList (lexeme c cs).text,
          ⟨offset, offset + byteLength (lexeme c cs).text⟩⟩ ::
        tokensFrom (offset + byteLength (lexeme c cs).text) (lexeme c cs).rest := by
  have hgap := gap_of_not_startsGap h
  rw [tokensFrom_cons (congrArg Prod.snd hgap), hgap]
  rfl

/-- A blank in front only moves the tokens. -/
theorem tokensFrom_blank {c : Char} (h : isBlank c = true) (offset : Nat) (cs : List Char) :
    tokensFrom offset (c :: cs) = tokensFrom (offset + c.utf8Size) cs := by
  have hgap : gap (c :: cs) = (c :: (gap cs).1, (gap cs).2) := gap_of_blank h
  have hbytes : offset + byteLength (gap (c :: cs)).1 =
      offset + c.utf8Size + byteLength (gap cs).1 := by
    rw [hgap, byteLength_cons, Nat.add_assoc]
  have hrest : (gap (c :: cs)).2 = (gap cs).2 := by rw [hgap]
  cases hcs : (gap cs).2 with
  | nil => rw [tokensFrom_nil (hrest.trans hcs), tokensFrom_nil hcs, hbytes]
  | cons d ds => rw [tokensFrom_cons (hrest.trans hcs), tokensFrom_cons hcs, hbytes]

/-- A reserved word with a space behind it is one token. -/
theorem tokensFrom_word (word : Keyword) (offset : Nat) (cs : List Char) :
    ∃ t, t.kind = .keyword word ∧
      tokensFrom offset (word.text.toList ++ ' ' :: cs) =
        t :: tokensFrom (offset + byteLength (word.text ++ " ").toList) cs := by
  have hword := isBareForm_keyword word
  have hkind := bareKind_keyword word
  rw [String.toList_append, byteLength_append, ← Nat.add_assoc]
  rw [← String.ofList_toList (s := word.text)] at hkind
  cases hchars : word.text.toList with
  | nil =>
    rw [hchars] at hword
    cases hword
  | cons c rest =>
    rw [hchars] at hword hkind
    have hspace : ∀ d ∈ (' ' :: cs).head?, Text.isNamePart d = false := by
      rintro _ ⟨⟩
      decide
    have hlexeme := lexeme_of_isBareForm hword hspace
    rw [List.cons_append, tokensFrom_lexeme (startsGap_of_isBareForm hword _), hlexeme,
      tokensFrom_blank (by decide)]
    exact ⟨⟨bareKind (String.ofList (c :: rest)), _, _⟩, hkind, rfl⟩

/-- Reserved words with a space behind each are as many tokens. -/
theorem tokensFrom_phrase (words : List Keyword) (offset : Nat) (cs : List Char) :
    ∃ ts, ts.map Token.kind = words.map TokenKind.keyword ∧
      tokensFrom offset ((phrase words).toList ++ cs) =
        ts ++ tokensFrom (offset + byteLength (phrase words).toList) cs := by
  induction words generalizing offset with
  | nil => exact ⟨[], rfl, rfl⟩
  | cons word words ih =>
    obtain ⟨t, ht, hword⟩ := tokensFrom_word word offset ((phrase words).toList ++ cs)
    obtain ⟨ts, hts, hwords⟩ := ih (offset + byteLength (word.text ++ " ").toList)
    refine ⟨t :: ts, by rw [List.map_cons, List.map_cons, ht, hts], ?_⟩
    rw [phrase, String.toList_append, byteLength_append, ← Nat.add_assoc, List.cons_append, ← hwords,
      ← hword]
    simp

/-- What starts no gap starts none if the text is cut off somewhere behind it. -/
theorem startsGap_cut {c : Char} {cs back : List Char} (h : startsGap c (cs ++ back) = false) :
    startsGap c cs = false := by
  cases cs with
  | cons d ds => exact h
  | nil =>
    simp only [startsGap, Bool.or_eq_false_iff] at h
    simp [startsGap, h.1.1]

/-! ## A number that takes a dot -/

section Number

variable {c : Char} {cs ds back : List Char}

/-- An integer consists of digits. -/
theorem digits_of_integer (h : (lexeme c cs).kind = .integer) :
    (lexeme c cs).text.all Char.isDigit = true := by
  revert h
  fun_cases lexeme c cs with
  | case1 =>
    obtain ⟨_, h⟩ | ⟨_, h⟩ := stringLexeme_kind c cs <;> rw [h] <;> exact TokenKind.noConfusion
  | case2 =>
    obtain ⟨_, h⟩ | ⟨_, h⟩ := quotedNameLexeme_kind cs <;> rw [h] <;> exact TokenKind.noConfusion
  | case3 =>
    simp only [numberLexeme]
    split
    · next hnone =>
      obtain ⟨hpart, hpower⟩ := Bool.and_eq_true_iff.1 hnone
      rw [List.isEmpty_iff.1 hpart, List.isEmpty_iff.1 hpower, List.append_nil, List.append_nil]
      exact fun _ => List.all_takeWhile
    · exact TokenKind.noConfusion
  | case4 =>
    obtain ⟨_, h⟩ | ⟨_, h⟩ := nameLexeme_kind c cs <;> rw [h] <;> exact TokenKind.noConfusion
  | case5 =>
    obtain ⟨_, h⟩ | ⟨_, h⟩ := symbolLexeme_kind c cs <;> rw [h] <;> exact TokenKind.noConfusion

/-- Where the text behind an integer and a dot is cut off, the dot belongs to the number. -/
theorem lexeme_point (h : (lexeme c cs).kind = .integer)
    (hds : c :: ds = (lexeme c cs).text ++ ['.']) :
    lexeme c ds = ⟨.real, c :: ds, []⟩ := by
  have hdigits := digits_of_integer h
  have hc : c.isDigit = true := by
    cases htext : (lexeme c cs).text with
    | nil => exact absurd htext (lexeme_text_ne_nil c cs)
    | cons d es =>
      rw [htext] at hds hdigits
      rw [(List.cons.inj hds).1]
      exact (Bool.and_eq_true_iff.1 hdigits).1
  rw [lexeme_digit hc, hds, numberLexeme_run hdigits (by simp)]
  simp [fraction, exponent]

end Number

/-! ## Pieces again -/

/-- Pieces with nothing between them that make up the text `cs`, which starts at byte `offset`. -/
structure ArePieces (offset : Nat) (cs : List Char) (pieces : List Token) : Prop where
  text : String.join (pieces.map Token.text) = String.ofList cs
  adjacent : plainPattern (some offset) pieces = pieces
  stop : stopOf offset pieces = offset + byteLength cs

theorem arePieces_nil (offset : Nat) : ArePieces offset [] [] := ⟨rfl, rfl, rfl⟩

/-- A piece in front of pieces is one of them. -/
theorem ArePieces.cons {kind : TokenKind} (hkind : isPatternPiece kind = true) {offset : Nat}
    {cs ds : List Char} {pieces : List Token}
    (h : ArePieces (offset + byteLength cs) ds pieces) :
    ArePieces offset (cs ++ ds)
      (⟨kind, String.ofList cs, ⟨offset, offset + byteLength cs⟩⟩ :: pieces) where
  text := by rw [List.map_cons, String.join_cons, h.text, ← String.ofList_append]
  adjacent := by
    rw [plainPattern, if_pos (by simp [hkind]), h.adjacent]
  stop := by
    rw [stopOf_cons, h.stop, byteLength_append, Nat.add_assoc]

/-- Whether the text lexes to pieces with nothing between them wherever it is written, in front of
everything that starts where tokens stop. -/
def ReadsAsPieces (cs : List Char) : Prop :=
  ∀ offset back, Stops back → ∃ pieces, ArePieces offset cs pieces ∧
    tokensFrom offset (cs ++ back) = pieces ++ tokensFrom (offset + byteLength cs) back

theorem readsAsPieces_nil : ReadsAsPieces [] := fun offset _ _ => ⟨[], arePieces_nil offset, rfl⟩

section Again

variable {c : Char} {cs ds front back : List Char}

/-- Characters read as pieces if the first lexeme is one and the others are. -/
theorem readsAsPieces_of_lexeme (hkind : isPatternPiece (lexeme c cs).kind = true)
    (hgap : startsGap c cs = false) (hrest : ReadsAsPieces (lexeme c cs).rest) :
    ReadsAsPieces (c :: cs) := by
  intro offset back hback
  obtain ⟨hquote, htick⟩ := not_quoted_of_piece hkind
  have hextend : lexeme c (cs ++ back) =
      ⟨(lexeme c cs).kind, (lexeme c cs).text, (lexeme c cs).rest ++ back⟩ :=
    lexeme_extend hquote htick hback
  have happend := lexeme_append c cs
  obtain ⟨pieces, hpieces, htokens⟩ :=
    hrest (offset + byteLength (lexeme c cs).text) back hback
  refine ⟨_, happend ▸ hpieces.cons hkind, ?_⟩
  rw [List.cons_append, tokensFrom_lexeme (startsGap_extend hgap hback), hextend, ← happend]
  simp only [htokens, byteLength_append, Nat.add_assoc, List.cons_append]

/-- The first piece of a text is read again from the pieces of the text alone, together with a dot
behind it where that stands in front of a letter. -/
theorem ReadsAsPieces.behind (hkind : isPatternPiece (lexeme c cs).kind = true)
    (hgap : startsGap c cs = false) (hsplit : (lexeme c cs).rest = front ++ back)
    (h : ReadsAsPieces front) : ReadsAsPieces ((lexeme c cs).text ++ front) := by
  obtain ⟨ds, hds⟩ := exists_text_cons c cs front
  have hcs := eq_append_of_rest hsplit hds
  have hgap' : startsGap c ds = false := startsGap_cut (hcs ▸ hgap)
  rw [← hds]
  by_cases hpoint : (lexeme c cs).kind = .integer ∧ front = ['.']
  · obtain ⟨hinteger, rfl⟩ := hpoint
    have hlexeme := lexeme_point hinteger hds
    refine readsAsPieces_of_lexeme (by rw [hlexeme]; rfl) hgap' ?_
    rw [hlexeme]
    exact readsAsPieces_nil
  · have hlexeme := lexeme_cut hsplit (fun hinteger hfront => absurd ⟨hinteger, hfront⟩ hpoint) hds
    refine readsAsPieces_of_lexeme (by rwa [hlexeme]) hgap' ?_
    rw [hlexeme]
    exact h

end Again

/-! ## No gap inside -/

/-- Whether no gap starts anywhere in the text: it has no blank character and no comment. -/
def Gapless : List Char → Prop
  | [] => True
  | c :: cs => startsGap c cs = false ∧ Gapless cs

/-- Whether no gap starts with the character, whatever follows. -/
def startsNoGap (c : Char) : Bool := !isBlank c && c != '-' && c != '/'

/-- What starts no gap starts none before any text. -/
theorem startsGap_of_startsNoGap {c : Char} (h : startsNoGap c = true) (cs : List Char) :
    startsGap c cs = false := by
  simp only [startsNoGap, Bool.and_eq_true, Bool.not_eq_true', bne_iff_ne] at h
  simp [startsGap, h.1.1, h.1.2, h.2]

theorem isBlank_of_isNumeric {c : Char} (h : isNumeric c = true) : isBlank c = false := by
  cases hblank : isBlank c with
  | false => rfl
  | true =>
    have hnumeric : inRanges numericRanges c.toNat = false :=
      inRanges_disjoint (by decide +kernel) hblank
    have hdigit : c.isDigit = false := by
      rw [← Bool.not_eq_true]
      exact fun hdigit => Bool.false_ne_true ((isBlank_of_isDigit hdigit).symm.trans hblank)
    simp [isNumeric, hdigit, hnumeric] at h

/-- No part of a name starts a gap. -/
theorem startsNoGap_of_isNamePart {c : Char} (h : isNamePart c = true) : startsNoGap c = true := by
  have hminus : c ≠ '-' := by
    rintro rfl
    exact absurd h (by decide)
  have hslash : c ≠ '/' := by
    rintro rfl
    exact absurd h (by decide)
  have hblank : isBlank c = false := by
    unfold isNamePart at h
    rcases Bool.or_eq_true_iff.1 h with h | h
    · rcases Bool.or_eq_true_iff.1 h with h | h
      · exact isBlank_of_isNameStart (by simp [isNameStart, h])
      · exact isBlank_of_isNumeric h
    · rw [eq_of_beq h]
      decide
  simp [startsNoGap, hblank, hminus, hslash]

/-- No digit starts a gap. -/
theorem startsNoGap_of_isDigit {c : Char} (h : c.isDigit = true) : startsNoGap c = true := by
  have hminus : c ≠ '-' := isDigit_ne h (by decide)
  have hslash : c ≠ '/' := isDigit_ne h (by decide)
  simp [startsNoGap, isBlank_of_isDigit h, hminus, hslash]

section Gapless

variable {c : Char} {cs ds es : List Char}

theorem Gapless.cons (hc : startsNoGap c = true) (h : Gapless cs) : Gapless (c :: cs) :=
  ⟨startsGap_of_startsNoGap hc cs, h⟩

/-- Characters that start no gap may stand in front of gapless ones. -/
theorem Gapless.append_left (hds : ∀ d ∈ ds, startsNoGap d = true) (h : Gapless es) :
    Gapless (ds ++ es) := by
  induction ds with
  | nil => exact h
  | cons d ds ih =>
    exact (ih fun e he => hds e (List.mem_cons_of_mem d he)).cons (hds d List.mem_cons_self)

theorem Gapless.takeWhile_digits (cs : List Char) (h : Gapless es) :
    Gapless (cs.takeWhile Char.isDigit ++ es) :=
  h.append_left fun d hd =>
    startsNoGap_of_isDigit (List.all_eq_true.1 List.all_takeWhile d hd)

/-- A fraction in front of gapless characters leaves them gapless. -/
theorem Gapless.fraction (cs : List Char) (h : Gapless es) : Gapless ((fraction cs).1 ++ es) := by
  fun_cases Token.fraction cs with
  | case1 => exact h
  | case2 ds => exact (h.takeWhile_digits ds).cons (c := '.') (by decide)
  | case3 => exact h

/-- The sign of an exponent stands in front of a digit. -/
theorem Gapless.exponentSign (cs : List Char) {d : Char} (hd : d.isDigit = true)
    (h : Gapless (d :: ds)) : Gapless ((exponentSign cs).1 ++ d :: ds) := by
  have hne : d ≠ '-' := isDigit_ne hd (by decide)
  fun_cases Token.exponentSign cs with
  | case1 => exact h.cons (c := '+') (by decide)
  | case2 => exact ⟨by simp [startsGap, hne]; decide, h⟩
  | case3 => exact h

/-- An exponent in front of gapless characters leaves them gapless. -/
theorem Gapless.exponent (cs : List Char) (h : Gapless es) : Gapless ((exponent cs).1 ++ es) := by
  fun_cases Token.exponent cs with
  | case1 => exact h
  | case2 e ds signed hmark =>
    have he : startsNoGap e = true := by rcases hmark.1 with rfl | rfl <;> decide
    obtain ⟨d, hd, hdigit⟩ := (Option.any_eq_true _ _).1 hmark.2
    obtain ⟨rest, hrest⟩ := List.head?_eq_some_iff.1 hd
    have hdigits := h.takeWhile_digits signed.2
    rw [hrest, List.takeWhile_cons, if_pos hdigit, List.cons_append] at hdigits
    have hsign := hdigits.exponentSign ds hdigit
    show Gapless (e :: (signed.1 ++ signed.2.takeWhile Char.isDigit ++ es))
    rw [List.append_assoc, hrest, List.takeWhile_cons, if_pos hdigit]
    exact hsign.cons he
  | case3 => exact h

/-- A number in front of gapless characters leaves them gapless. -/
theorem Gapless.numberLexeme (cs : List Char) (h : Gapless es) :
    Gapless ((numberLexeme cs).text ++ es) := by
  simp only [Token.numberLexeme, List.append_assoc]
  exact ((h.exponent _).fraction _).takeWhile_digits cs

/-- No gap starts inside a piece of a pattern, or at the end of it if none does behind it. -/
theorem Gapless.behind (hkind : isPatternPiece (lexeme c cs).kind = true) (h : Gapless es)
    (hds : c :: ds = (lexeme c cs).text ++ es) (hgap : startsGap c ds = false) :
    Gapless (c :: ds) := by
  obtain ⟨hquote, htick⟩ := not_quoted_of_piece hkind
  rw [hds]
  -- What a piece is decides what it is made of: digits, parts of a name, or a sign.
  fun_cases lexeme c cs with
  | case1 h' => exact absurd h' (not_or.2 hquote)
  | case2 _ h' => exact absurd h' htick
  | case3 => exact h.numberLexeme (c :: cs)
  | case4 _ _ _ hstart =>
    refine ⟨startsGap_of_isNameStart hstart _, h.append_left fun d hd => ?_⟩
    exact startsNoGap_of_isNamePart (List.all_eq_true.1 List.all_takeWhile d hd)
  | case5 hmark _ hnumber hstart =>
    have hlexeme : lexeme c cs = symbolLexeme c cs := by
      rw [lexeme, if_neg hmark, if_neg htick, if_neg hnumber, if_neg hstart]
    rw [hlexeme] at hkind hds
    revert hkind hds
    fun_cases symbolLexeme c cs with
    | case1 =>
      intro _ hds
      obtain ⟨-, rfl⟩ := List.cons.inj hds
      exact ⟨hgap, h⟩
    | case2 d rest sign hsign =>
      intro hkind
      unfold doubleSymbol? at hsign
      split at hsign
      all_goals
        cases hsign
        try cases hkind
    | case3 =>
      intro _ hds
      obtain ⟨-, rfl⟩ := List.cons.inj hds
      exact ⟨hgap, h⟩

end Gapless

/-! ## Pieces in a text -/

/-- The pieces at the start of a text make up a part of it inside which no gap starts, and which is
read as pieces again wherever it is written. -/
theorem pieces_in_text {pieces rest : List Token} {offset : Nat} {cs : List Char}
    (h : tokensFrom offset cs = pieces ++ rest) (hrest : rest ≠ [])
    (hpieces : plainPattern (some offset) pieces = pieces) :
    ∃ front back, cs = front ++ back ∧ ArePieces offset front pieces ∧ Gapless front ∧
      ReadsAsPieces front := by
  induction pieces generalizing offset cs with
  | nil => exact ⟨[], cs, rfl, arePieces_nil offset, trivial, readsAsPieces_nil⟩
  | cons t ts ih =>
    cases hgap : (gap cs).2 with
    | nil =>
      rw [tokensFrom_nil hgap] at h
      have hnil := (List.append_eq_nil_iff.1 (List.cons.inj h).2.symm).2
      exact absurd hnil hrest
    | cons c ds =>
      have happend := gap_append cs
      rw [tokensFrom_cons hgap, List.cons_append] at h
      obtain ⟨rfl, htail⟩ := List.cons.inj h
      rw [plainPattern] at hpieces
      split at hpieces
      · next hpiece =>
        obtain ⟨hkind, hstart⟩ := Bool.and_eq_true_iff.1 hpiece
        -- The piece starts where the text does, so there is no gap in front of it.
        have hplace : offset = offset + byteLength (gap cs).1 := eq_of_beq hstart
        have hnone : (gap cs).1 = [] := byteLength_eq_zero (by omega)
        rw [hnone, hgap, List.nil_append] at happend
        subst happend
        have hstarts := not_startsGap_of_gap hnone
        have hts := (List.cons.inj hpieces).2
        simp only [hnone, byteLength_nil, Nat.add_zero] at htail hts ⊢
        obtain ⟨front, back, hsplit, hare, hgapless, hreads⟩ := ih htail hts
        obtain ⟨es, hes⟩ := exists_text_cons c ds front
        have hgap' : startsGap c es = false := startsGap_cut (eq_append_of_rest hsplit hes ▸ hstarts)
        refine ⟨(lexeme c ds).text ++ front, back, ?_, hare.cons hkind, ?_, ?_⟩
        · rw [List.append_assoc, ← hsplit, lexeme_append]
        · rw [← hes]
          exact hgapless.behind hkind hes hgap'
        · exact hreads.behind hkind hstarts hsplit
      · cases hpieces

/-- Pieces of a pattern follow each other without a gap. -/
theorem isChain_of_plainPattern {pieces : List Token} {stop : Option Nat}
    (h : plainPattern stop pieces = pieces) :
    pieces.IsChain fun t u => t.span.stop = u.span.start := by
  induction pieces generalizing stop with
  | nil => exact .nil
  | cons t ts ih =>
    have hts : plainPattern (some t.span.stop) ts = ts := by
      rw [plainPattern] at h
      split at h
      · exact (List.cons.inj h).2
      · cases h
    refine List.isChain_cons.2 ⟨fun u hu => ?_, ih hts⟩
    obtain ⟨us, rfl⟩ := List.head?_eq_some_iff.1 hu
    rw [plainPattern] at hts
    split at hts
    · next hpiece => exact eq_of_beq (Bool.and_eq_true_iff.1 hpiece).2
    · cases hts

/-- The text of the pieces of a pattern is the part of the text that they cover. No gap starts inside
it, and it is read as pieces again wherever it is written. -/
theorem pieces_slice {text : String} {before pieces rest : List Token} {first last : Token}
    (h : tokenize text = before ++ (pieces ++ rest)) (hrest : rest ≠ [])
    (hpieces : plainPattern none pieces = pieces) (hfirst : pieces.head? = some first)
    (hlast : pieces.getLast? = some last) :
    Span.slice ⟨first.span.start, last.span.stop⟩ text =
        some (String.join (pieces.map Token.text)) ∧
      Gapless (String.join (pieces.map Token.text)).toList ∧
      ReadsAsPieces (String.join (pieces.map Token.text)).toList := by
  obtain ⟨ts, rfl⟩ := List.head?_eq_some_iff.1 hfirst
  obtain ⟨before', behind, htext, hbehind⟩ := tokensFrom_suffix h (List.cons_ne_nil first _)
  -- The part starts behind the gap in front of the first piece.
  have hstart := start_tokensFrom hbehind
  rw [← tokensFrom_gap, ← hstart] at hbehind
  obtain ⟨front, back, hsplit, hare, hgapless, hreads⟩ :=
    pieces_in_text hbehind hrest (plainPattern_none first ts ▸ hpieces)
  rw [hare.text, String.toList_ofList]
  refine ⟨?_, hgapless, hreads⟩
  have hstop := hare.stop
  rw [stopOf, hlast] at hstop
  have hparts : text = String.ofList (before' ++ (gap behind).1 ++ (front ++ back)) := by
    rw [← hsplit, List.append_assoc, gap_append, ← htext, String.ofList_toList]
  have hslice := Span.slice_append (before' ++ (gap behind).1) front back
  rw [byteLength_append] at hslice
  rw [hparts, show last.span.stop = _ from hstop, hstart, Nat.zero_add]
  exact hslice

end SearchSql
