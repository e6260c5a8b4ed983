import Mathlib.Data.List.Chain
import SearchSql.Proofs.Outline
import SearchSql.Proofs.Tiling

/-!
# Spellings

Tokens that were read from a text have kinds and texts that belong together (`scanned_tokenize`).

A text may spell a tree in other ways than the written form does: it may leave out the word in front
of an alias, write a comparison as two tokens, or swap the numbers of a limit. A spelling is plain if
it makes use of none of these.
-/

set_option autoImplicit false

namespace SearchSql

/-! ## Tokens of a text -/

/-- The kind of a token belongs to its text. -/
structure Token.Sound (t : Token) : Prop where
  name {value : String} : t.kind = .name value → t.text = value ∧ IsName value
  quotedName {value : String} : t.kind = .quotedName value → value ≠ ""
  keyword {word : Keyword} : t.kind = .keyword word →
    bareKind t.text = .keyword word ∧ Ident.isBareForm t.text.toList = true
  /-- A number starts with a digit or a point. -/
  number : t.kind.isNumber = true → ∃ c cs, t.text.toList = c :: cs ∧ (c.isDigit = true ∨ c = '.')

/-- Tokens as they are read from a text: each is sound, and their places are in order. -/
structure Scanned (tokens : List Token) : Prop where
  sound : ∀ t ∈ tokens, t.Sound
  ordered : tokens.Pairwise fun t u => t.span.start < t.span.stop ∧ t.span.stop ≤ u.span.start

namespace Token

/-- A token whose kind says nothing about its text. -/
theorem sound_of_kind {t : Token} (hname : t.kind.isNameLike = false)
    (hkeyword : t.kind.keyword? = none) (hnumber : t.kind.isNumber = false) : t.Sound where
  name h := by
    rw [h] at hname
    cases hname
  quotedName h := by
    rw [h] at hname
    cases hname
  keyword h := by
    rw [h] at hkeyword
    cases hkeyword
  number h := by
    rw [hnumber] at h
    cases h

/-- A bare word that is a name has its own text as its value and is no reserved word. -/
theorem bareKind_eq_name {text value : String} (h : bareKind text = .name value) :
    text = value ∧ Keyword.ofText? text = none := by
  unfold bareKind at h
  split at h
  · cases h
  · next hnone => exact ⟨TokenKind.name.inj h, hnone⟩

/-- A bare word is a sound token. -/
theorem sound_nameLexeme {c : Char} {cs : List Char} (h : Text.isNameStart c = true) (span : Span) :
    (⟨(nameLexeme c cs).kind, String.ofList (nameLexeme c cs).text, span⟩ : Token).Sound := by
  unfold nameLexeme
  dsimp only
  have hform : Ident.isBareForm (String.ofList (c :: cs.takeWhile Text.isNamePart)).toList = true := by
    rw [String.toList_ofList]
    simp only [Ident.isBareForm, h, Bool.true_and]
    exact List.all_takeWhile
  generalize String.ofList (c :: cs.takeWhile Text.isNamePart) = text at hform ⊢
  generalize hkind : bareKind text = kind
  refine ⟨fun hname => ?_, fun hquoted => ?_, fun hkeyword => ⟨hkind.trans hkeyword, hform⟩,
    fun hnumber => ?_⟩
  · obtain ⟨htext, hnone⟩ := bareKind_eq_name (hkind.trans hname)
    exact ⟨htext, htext ▸ ⟨hform, hnone⟩⟩
  · obtain ⟨word, hword⟩ | ⟨name, hname⟩ := bareKind_cases text
    · cases hquoted.symm.trans (hkind.symm.trans hword)
    · cases hquoted.symm.trans (hkind.symm.trans hname)
  · obtain ⟨word, hword⟩ | ⟨name, hname⟩ := bareKind_cases text
    · cases hkind.symm.trans hword
      cases hnumber
    · cases hkind.symm.trans hname
      cases hnumber

/-- A symbol is a sound token. -/
theorem sound_symbol {c : Char} {cs : List Char} (text : String) (span : Span) :
    (⟨(symbolLexeme c cs).kind, text, span⟩ : Token).Sound := by
  obtain ⟨sign, h⟩ | ⟨fault, h⟩ := symbolLexeme_kind c cs
  · exact sound_of_kind (congrArg _ h) (congrArg _ h) (congrArg _ h)
  · exact sound_of_kind (congrArg _ h) (congrArg _ h) (congrArg _ h)

/-- The kind of every lexeme belongs to its text. -/
theorem sound_lexeme (c : Char) (cs : List Char) (span : Span) :
    (⟨(lexeme c cs).kind, String.ofList (lexeme c cs).text, span⟩ : Token).Sound := by
  -- One case for each branch of the scanner.
  fun_cases lexeme c cs with
  | case1 _ =>
    obtain ⟨value, h⟩ | ⟨fault, h⟩ := stringLexeme_kind c cs
    · exact sound_of_kind (congrArg _ h) (congrArg _ h) (congrArg _ h)
    · exact sound_of_kind (congrArg _ h) (congrArg _ h) (congrArg _ h)
  | case2 _ _ =>
    unfold quotedNameLexeme
    dsimp only
    generalize (quotedBody Text.backtick (fun _ => false) cs).value = value
    rcases value with _ | _ | ⟨d, ds⟩
    · exact sound_of_kind rfl rfl rfl
    · exact sound_of_kind rfl rfl rfl
    · refine ⟨fun h => ?_, ?_, fun h => ?_, fun h => ?_⟩
      · cases h
      · rintro _ ⟨⟩ hempty
        exact absurd (congrArg String.toList hempty) (by simp)
      · cases h
      · cases h
  | case3 _ _ h =>
    have hkind {k : TokenKind} (hk : (numberLexeme (c :: cs)).kind = k) :
        k = .integer ∨ k = .real := hk ▸ numberLexeme_kind (c :: cs)
    refine ⟨fun hname => ?_, fun hname => ?_, fun hkeyword => ?_, fun _ => ?_⟩
    · rcases hkind hname with heq | heq <;> cases heq
    · rcases hkind hname with heq | heq <;> cases heq
    · rcases hkind hkeyword with heq | heq <;> cases heq
    · have happend := numberLexeme_append (c :: cs)
      obtain ⟨d, ds, htext⟩ := List.exists_cons_of_ne_nil (numberLexeme_text_ne_nil h)
      rw [htext, List.cons_append] at happend
      obtain ⟨rfl, -⟩ := List.cons.inj happend
      refine ⟨d, ds, by rw [htext, String.toList_ofList], ?_⟩
      exact h.imp_right And.left
  | case4 _ _ _ h => exact sound_nameLexeme h span
  | case5 _ _ _ _ => exact sound_symbol _ span

/-- The end of the input is a sound token. -/
theorem sound_endOfInput (offset : Nat) : (endOfInput offset).Sound := sound_of_kind rfl rfl rfl

/-- Every token of a text is sound. -/
theorem sound_tokensFrom (offset : Nat) (cs : List Char) : ∀ t ∈ tokensFrom offset cs, t.Sound := by
  fun_induction tokensFrom offset cs with
  | case1 offset cs blank start hrest =>
    intro t ht
    rw [List.mem_singleton.1 ht]
    exact sound_endOfInput start
  | case2 offset cs blank start c rest hrest next stop ih =>
    rintro t (_ | ⟨_, ht⟩)
    · exact sound_lexeme c rest _
    · exact ih t ht

end Token

/-- The tokens of a text are as read from a text. -/
theorem scanned_tokenize (text : String) : Scanned (Token.tokenize text) where
  sound := Token.sound_tokensFrom 0 text.toList
  ordered := (Token.tokenize_tiles text).2.2.1

/-! ## Plain spellings -/

/-- Whether two tokens in a row are one comparison that is written apart. -/
def isSplitComparison : TokenKind → TokenKind → Bool
  | .symbol .lt, .symbol .eq | .symbol .lt, .symbol .gt | .symbol .gt, .symbol .eq => true
  | _, _ => false

/-- Whether among `tokens` the part that is recalled is written as the written form has it: `AS`
stands in front of the alias, there is no plus sign in the number, nor a minus sign if it is zero and
an integer, no boost stands directly behind its field, and there is no comma in the limit. A
relevance function with named arguments is never plain, since these may be in either order. -/
def Remark.Plain (tokens : List Token) : Remark → Prop
  | .alias name => ∀ t u, [t, u] <:+: tokens → u.span.start = name.span.start → t.kind = .keyword .AS
  | .number zero span => ∀ t ∈ tokens, span.contains t.span = true →
      t.kind ≠ .symbol .plus ∧ (zero = true → t.kind ≠ .symbol .minus)
  | .boost field => ∀ t u, [t, u] <:+: tokens → field.contains t.span = true → u.kind.isNumber = false
  | .limit span => ∀ t ∈ tokens, span.contains t.span = true → t.kind ≠ .symbol .comma
  | .named => False
  | .ident _ | .qualified _ | .malformed => True

/-- Whether `tokens` spell the tree with the given outline as its written form does. -/
structure PlainSpelling (tokens : List Token) (items : List Item) : Prop where
  comparisons : ∀ t u, [t, u] <:+: tokens → isSplitComparison t.kind u.kind = false
  noBrace : ∀ t ∈ tokens, t.kind ≠ .symbol .leftBrace
  noSemicolon : ∀ t ∈ tokens, t.kind ≠ .symbol .semicolon
  /-- No name between backticks starts with a dot. -/
  noQuotedDot : ∀ t ∈ tokens, ∀ value, t.kind = .quotedName value → value.toList.head? ≠ some '.'
  remarks : ∀ r ∈ remarks items, r.Plain tokens

/-- Whether every name with a dot in front is written bare. Otherwise the word behind the dot means
something else inside an expression. -/
def DotsBare (items : List Item) : Prop :=
  ∀ name, .ident name ∈ remarks items → name.value.toList.head? = some '.' → name.isBare = true

/-! ## Spellings can be checked -/

/-- A list is a chain of a relation exactly if the relation holds of all neighbours. -/
theorem isChain_iff_forall_neighbours {α : Type} {p : α → α → Prop} {xs : List α} :
    xs.IsChain p ↔ ∀ x y, [x, y] <:+: xs → p x y := by
  rw [List.isChain_iff_forall_rel_of_append_cons_cons]
  constructor
  · rintro h x y ⟨before, after, rfl⟩
    have happend : before ++ [x, y] ++ after = before ++ x :: y :: after := by simp
    exact h happend
  · rintro h x y before after rfl
    exact h x y ⟨before, after, by simp⟩

instance (tokens : List Token) (r : Remark) : Decidable (r.Plain tokens) :=
  match r with
  | .alias _ | .boost _ => decidable_of_iff _ isChain_iff_forall_neighbours
  | .number zero span => inferInstanceAs (Decidable (∀ t ∈ tokens, span.contains t.span = true →
      t.kind ≠ .symbol .plus ∧ (zero = true → t.kind ≠ .symbol .minus)))
  | .limit span => inferInstanceAs (Decidable (∀ t ∈ tokens, span.contains t.span = true →
      t.kind ≠ .symbol .comma))
  | .named => isFalse id
  | .ident _ | .qualified _ | .malformed => isTrue trivial

/-- Whether a token is a name between backticks that starts with a dot. -/
def TokenKind.isQuotedDot : TokenKind → Bool
  | .quotedName value => value.toList.head? == some '.'
  | _ => false

/-- A token is no quoted dot if and only if no name between backticks that it may be begins with a
dot. -/
theorem TokenKind.isQuotedDot_eq_false_iff {k : TokenKind} :
    k.isQuotedDot = false ↔ ∀ value, k = .quotedName value → value.toList.head? ≠ some '.' := by
  constructor
  · rintro h value rfl heq
    simp [isQuotedDot, heq] at h
  · intro h
    unfold isQuotedDot
    split
    · next value => simpa using h value rfl
    · rfl

instance (tokens : List Token) (items : List Item) : Decidable (PlainSpelling tokens items) :=
  decidable_of_iff
    (tokens.IsChain (fun t u => isSplitComparison t.kind u.kind = false) ∧
      (∀ t ∈ tokens, t.kind ≠ .symbol .leftBrace ∧ t.kind ≠ .symbol .semicolon ∧
        t.kind.isQuotedDot = false) ∧
      ∀ r ∈ remarks items, r.Plain tokens) <| by
  constructor
  · rintro ⟨hcomparisons, hkinds, hremarks⟩
    exact ⟨isChain_iff_forall_neighbours.1 hcomparisons, fun t ht => (hkinds t ht).1,
      fun t ht => (hkinds t ht).2.1,
      fun t ht => TokenKind.isQuotedDot_eq_false_iff.1 (hkinds t ht).2.2, hremarks⟩
  · rintro ⟨hcomparisons, hbrace, hsemicolon, hdot, hremarks⟩
    exact ⟨isChain_iff_forall_neighbours.2 hcomparisons, fun t ht => ⟨hbrace t ht, hsemicolon t ht,
      TokenKind.isQuotedDot_eq_false_iff.2 (hdot t ht)⟩, hremarks⟩

/-- The identifiers that an outline recalls. -/
def identifiers (items : List Item) : List Ident :=
  (remarks items).filterMap fun
    | .ident name => some name
    | _ => none

instance (items : List Item) : Decidable (DotsBare items) :=
  decidable_of_iff (∀ name ∈ identifiers items,
    name.value.toList.head? = some '.' → name.isBare = true) <| by
  have hmem (name : Ident) : name ∈ identifiers items ↔ .ident name ∈ remarks items := by
    unfold identifiers
    rw [List.mem_filterMap]
    constructor
    · rintro ⟨r, hr, heq⟩
      cases r with
      | ident other => exact Option.some.inj heq ▸ hr
      | _ => cases heq
    · exact fun h => ⟨_, h, rfl⟩
  simp only [hmem]
  exact Iff.rfl

end SearchSql
