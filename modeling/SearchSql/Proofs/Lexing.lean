import SearchSql.Token.Scan
import SearchSql.Tree.Rendering

/-!
# Texts and their tokens

`tokensOf` gives the tokens of a text without their places. Where the text of a token ends depends on
what is written behind it, so a text is said to lex to some tokens (`Lexes`) if it does so in front
of every text at which a token stops. A text behind which anything may stand `Opens` another.

The lemmas say what the words, names, strings and symbols that trees are written with lex to.
-/

set_option autoImplicit false

namespace SearchSql

/-- The token without its place. -/
def Token.placeless (t : Token) : Token := { t with span := default }

namespace Token

@[simp] theorem placeless_kind (t : Token) : t.placeless.kind = t.kind := rfl
@[simp] theorem placeless_text (t : Token) : t.placeless.text = t.text := rfl

/-- The reserved word as a token without a place. -/
def ofKeyword (word : Keyword) : Token := ⟨.keyword word, word.text, default⟩

/-- The symbol as a token without a place. -/
def ofSymbol (sign : Symbol) : Token := ⟨.symbol sign, sign.text, default⟩

/-- The bare name as a token without a place. -/
def ofName (name : String) : Token := ⟨.name name, name, default⟩

/-- The quoted name with the given value as a token without a place. -/
def ofQuotedName (value : String) : Token := ⟨.quotedName value, Text.backticked value, default⟩

/-- The string with the given value as a token without a place. -/
def ofString (value : String) : Token := ⟨.string value, Text.quoted value, default⟩

/-- The end of the input without a place. -/
def ending : Token := ⟨.endOfInput, "", default⟩

/-- The tokens of a text without their places, the end of the input included. -/
def tokensOf (cs : List Char) : List Token := (tokensFrom 0 cs).map placeless

/-- Behind the last gap stands the end of the input. -/
theorem tokensFrom_nil {offset : Nat} {cs : List Char} (h : (gap cs).2 = []) :
    tokensFrom offset cs = [endOfInput (offset + Text.byteLength (gap cs).1)] := by
  unfold tokensFrom
  dsimp only
  split
  · rfl
  · next heq => cases heq.symm.trans h

/-- Behind any other gap stands a lexeme, with the tokens of the rest behind it. -/
theorem tokensFrom_cons {offset : Nat} {cs : List Char} {c : Char} {rest : List Char}
    (h : (gap cs).2 = c :: rest) :
    tokensFrom offset cs =
      ⟨(lexeme c rest).kind, String.ofList (lexeme c rest).text,
          ⟨offset + Text.byteLength (gap cs).1,
            offset + Text.byteLength (gap cs).1 + Text.byteLength (lexeme c rest).text⟩⟩ ::
        tokensFrom (offset + Text.byteLength (gap cs).1 + Text.byteLength (lexeme c rest).text)
          (lexeme c rest).rest := by
  conv => lhs; unfold tokensFrom
  dsimp only
  split
  · next heq => cases heq.symm.trans h
  · next heq =>
    obtain ⟨rfl, rfl⟩ := List.cons.inj (heq.symm.trans h)
    rfl

/-- The tokens of a text that starts further behind are further behind. -/
theorem tokensFrom_add (offset distance : Nat) (cs : List Char) :
    tokensFrom (offset + distance) cs =
      (tokensFrom offset cs).map fun t =>
        { t with span := ⟨t.span.start + distance, t.span.stop + distance⟩ } := by
  fun_induction tokensFrom offset cs with
  | case1 offset cs blank start hrest =>
    rw [tokensFrom_nil hrest]
    simp [endOfInput, Span.point, start, blank, Nat.add_right_comm]
  | case2 offset cs blank start c rest hrest next stop ih =>
    rw [tokensFrom_cons hrest, List.map_cons, ← ih]
    simp [start, stop, next, blank, Nat.add_right_comm]

/-- Without their places, the tokens of a text do not depend on where it starts. -/
theorem map_placeless_tokensFrom (offset : Nat) (cs : List Char) :
    (tokensFrom offset cs).map placeless = tokensOf cs := by
  unfold tokensOf
  rw [← Nat.zero_add offset, tokensFrom_add, List.map_map]
  rfl

/-- The empty text has no token but the end. -/
@[simp] theorem tokensOf_nil : tokensOf [] = [ending] := by
  unfold tokensOf
  rw [tokensFrom_nil (by simp [gap])]
  rfl

/-- Whether a gap starts with `c`, in front of `cs`. -/
def startsGap (c : Char) (cs : List Char) : Bool :=
  Text.isBlank c || (c == '-' && cs.head? == some '-') || (c == '/' && cs.head? == some '*')

/-- Where no gap starts, the gap is empty. -/
theorem gap_of_not_startsGap {c : Char} {cs : List Char} (h : startsGap c cs = false) :
    gap (c :: cs) = ([], c :: cs) := by
  simp only [startsGap, Bool.or_eq_false_iff, Bool.and_eq_false_iff] at h
  obtain ⟨⟨hblank, hline⟩, hblock⟩ := h
  unfold gap
  split
  · next heq => cases heq
  · next rest heq =>
    obtain ⟨rfl, rfl⟩ := List.cons.inj heq
    simp at hline
  · next rest heq =>
    obtain ⟨rfl, rfl⟩ := List.cons.inj heq
    simp at hblock
  · next c' rest _ _ heq =>
    obtain ⟨rfl, rfl⟩ := List.cons.inj heq
    rw [if_neg (by simp [hblank])]

/-- A blank is passed with the gap behind it. -/
theorem gap_of_blank {c : Char} {cs : List Char} (h : Text.isBlank c = true) :
    gap (c :: cs) = (c :: (gap cs).1, (gap cs).2) := by
  have hline : c ≠ '-' := by
    rintro rfl
    exact absurd h (by decide)
  have hblock : c ≠ '/' := by
    rintro rfl
    exact absurd h (by decide)
  conv => lhs; unfold gap
  split
  · next heq => cases heq
  · next heq => exact absurd (List.cons.inj heq).1 hline
  · next heq => exact absurd (List.cons.inj heq).1 hblock
  · next c' rest _ _ heq =>
    obtain ⟨rfl, rfl⟩ := List.cons.inj heq
    rw [if_pos h]

/-- The first token of a text, by what is behind its first gap. -/
theorem tokensOf_eq (cs : List Char) :
    tokensOf cs =
      match (gap cs).2 with
      | [] => [ending]
      | c :: rest =>
          ⟨(lexeme c rest).kind, String.ofList (lexeme c rest).text, default⟩ ::
            tokensOf (lexeme c rest).rest := by
  unfold tokensOf
  split
  · next h =>
    rw [tokensFrom_nil h]
    rfl
  · next h =>
    rw [tokensFrom_cons h, List.map_cons, map_placeless_tokensFrom]
    rfl

/-- A blank in front makes no difference. -/
theorem tokensOf_blank {c : Char} (h : Text.isBlank c = true) (cs : List Char) :
    tokensOf (c :: cs) = tokensOf cs := by
  rw [tokensOf_eq, tokensOf_eq, gap_of_blank h]

/-- Where no gap starts, a text starts with a lexeme. -/
theorem tokensOf_lexeme {c : Char} {cs : List Char} (h : startsGap c cs = false) :
    tokensOf (c :: cs) =
      ⟨(lexeme c cs).kind, String.ofList (lexeme c cs).text, default⟩ ::
        tokensOf (lexeme c cs).rest := by
  rw [tokensOf_eq, gap_of_not_startsGap h]

@[simp] theorem tokensOf_space (cs : List Char) : tokensOf (' ' :: cs) = tokensOf cs :=
  tokensOf_blank (by decide) cs

/-! ## Where tokens stop -/

/-- The characters that are written directly behind a token that would otherwise go on. -/
def stopChars : List Char := [' ', ',', '(', ')', ']']

/-- Whether a token stops in front of the text. -/
def Stops (cs : List Char) : Prop := ∀ c ∈ cs.head?, c ∈ stopChars

theorem stops_nil : Stops [] := nofun

/-- A token stops in front of each of these characters. -/
theorem stops_cons {c : Char} (h : c ∈ stopChars) (cs : List Char) : Stops (c :: cs) := by
  rintro d ⟨⟩
  exact h

/-- What no stop satisfies, the text behind a token does not start with. -/
theorem Stops.head {cs : List Char} (h : Stops cs) {p : Char → Bool}
    (hp : stopChars.all (fun c => !p c) = true) : ∀ c ∈ cs.head?, p c = false := by
  intro c hc
  have hall := List.all_eq_true.1 hp c (h c hc)
  simpa using hall

/-- In front of no other character need a token stop. -/
theorem Stops.head_ne {cs : List Char} (h : Stops cs) {c : Char} (hc : c ∉ stopChars) :
    cs.head? ≠ some c := fun heq => hc (h c heq)

/-- A word stops there. -/
theorem Stops.namePart {cs : List Char} (h : Stops cs) :
    ∀ c ∈ cs.head?, Text.isNamePart c = false := h.head (by decide)

/-- So does a number. -/
theorem Stops.digit {cs : List Char} (h : Stops cs) : ∀ c ∈ cs.head?, c.isDigit = false :=
  h.head (by decide)

/-- A run of characters with a property ends where the property does. -/
theorem takeWhile_run {p : Char → Bool} {xs ys : List Char} (hxs : xs.all p = true)
    (hys : ∀ c ∈ ys.head?, p c = false) : (xs ++ ys).takeWhile p = xs := by
  rw [List.takeWhile_append_of_pos fun c hc => List.all_eq_true.1 hxs c hc]
  cases ys with
  | nil => simp
  | cons y ys => simp [hys y rfl]

/-- All characters with a property are dropped, and no others. -/
theorem dropWhile_run {p : Char → Bool} {xs ys : List Char} (hxs : xs.all p = true)
    (hys : ∀ c ∈ ys.head?, p c = false) : (xs ++ ys).dropWhile p = ys := by
  rw [List.dropWhile_append_of_pos fun c hc => List.all_eq_true.1 hxs c hc]
  cases ys with
  | nil => rfl
  | cons y ys => simp [hys y rfl]

/-! ## Words and names -/

/-- What starts a name is nothing that does not. -/
theorem isNameStart_ne {c d : Char} (h : Text.isNameStart c = true)
    (hd : Text.isNameStart d = false) : c ≠ d := by
  rintro rfl
  exact absurd (h.symm.trans hd) nofun

/-- No digit starts a name. -/
theorem isDigit_of_isNameStart {c : Char} (h : Text.isNameStart c = true) : c.isDigit = false := by
  cases hdigit : c.isDigit with
  | false => rfl
  | true =>
    have halpha := isAlphabetic_eq_false_of_isDigit hdigit
    simp only [Text.isNameStart, halpha, Bool.false_or, Bool.or_eq_true, beq_iff_eq] at h
    obtain rfl | rfl := h
    · exact absurd hdigit (by decide)
    · exact absurd hdigit (by decide)

/-- A character that starts a name starts a word. -/
theorem lexeme_bare {c : Char} (h : Text.isNameStart c = true) (cs : List Char) :
    lexeme c cs = nameLexeme c cs := by
  have hquote : c ≠ Text.quoteMark := isNameStart_ne h (by decide)
  have hdouble : c ≠ Text.doubleMark := isNameStart_ne h (by decide)
  have hbacktick : c ≠ Text.backtick := isNameStart_ne h (by decide)
  have hdot : c ≠ '.' := isNameStart_ne h (by decide)
  simp [lexeme, hquote, hdouble, hbacktick, hdot, isDigit_of_isNameStart h, h]

/-- Ranges that are apart have no number in common. -/
theorem inRanges_disjoint {ranges ranges' : List (Nat × Nat)}
    (h : ranges.all (fun r => ranges'.all fun r' => r.2 < r'.1 || r'.2 < r.1) = true) {n : Nat}
    (hn : Text.inRanges ranges n = true) : Text.inRanges ranges' n = false := by
  obtain ⟨r, hr, hin⟩ := List.any_eq_true.1 hn
  refine List.any_eq_false.2 fun r' hr' hin' => ?_
  have hdisjoint := List.all_eq_true.1 (List.all_eq_true.1 h r hr) r' hr'
  simp only [Bool.and_eq_true, decide_eq_true_eq] at hin hin'
  simp only [Bool.or_eq_true, decide_eq_true_eq] at hdisjoint
  omega

/-- A letter is no blank character. -/
theorem isBlank_of_isNameStart {c : Char} (h : Text.isNameStart c = true) :
    Text.isBlank c = false := by
  cases hblank : Text.isBlank c with
  | false => rfl
  | true =>
    have halphabetic : Text.inRanges Text.alphabeticRanges c.toNat = false :=
      inRanges_disjoint (by decide +kernel) hblank
    have hletters : Text.inRanges [(65, 90), (97, 122)] c.toNat = false :=
      inRanges_disjoint (by decide) hblank
    have halpha : c.isAlpha = false := by
      simp only [Text.inRanges, List.any_cons, List.any_nil, Bool.or_false, Bool.or_eq_false_iff,
        Bool.and_eq_false_iff, decide_eq_false_iff_not] at hletters
      show (decide ('A'.val ≤ c.val ∧ c.val ≤ 'Z'.val) ||
        decide ('a'.val ≤ c.val) && decide (c.val ≤ 'z'.val)) = false
      simp only [UInt32.le_iff_toNat_le]
      simp
      have htoNat : c.val.toNat = c.toNat := rfl
      omega
    simp only [Text.isNameStart, Text.isAlphabetic, halpha, halphabetic, ite_self, Bool.false_or,
      Bool.or_eq_true, beq_iff_eq] at h
    obtain rfl | rfl := h
    · exact absurd hblank (by decide)
    · exact absurd hblank (by decide)

/-- No gap starts with a character that starts a name. -/
theorem startsGap_of_isNameStart {c : Char} (h : Text.isNameStart c = true) (cs : List Char) :
    startsGap c cs = false := by
  have hblank := isBlank_of_isNameStart h
  have hminus : c ≠ '-' := isNameStart_ne h (by decide)
  have hslash : c ≠ '/' := isNameStart_ne h (by decide)
  simp [startsGap, hblank, hminus, hslash]

/-- The characters of a bare name are one lexeme, up to where it stops. -/
theorem lexeme_of_isBareForm {c : Char} {rest cs : List Char}
    (h : Ident.isBareForm (c :: rest) = true) (hcs : ∀ d ∈ cs.head?, Text.isNamePart d = false) :
    lexeme c (rest ++ cs) = ⟨bareKind (String.ofList (c :: rest)), c :: rest, cs⟩ := by
  obtain ⟨hc, hrest⟩ := Bool.and_eq_true_iff.1 h
  rw [lexeme_bare hc]
  simp only [nameLexeme]
  rw [takeWhile_run hrest hcs, dropWhile_run hrest hcs]

/-- Nor with the first of a bare name. -/
theorem startsGap_of_isBareForm {c : Char} {rest : List Char}
    (h : Ident.isBareForm (c :: rest) = true) (cs : List Char) : startsGap c cs = false :=
  startsGap_of_isNameStart (Bool.and_eq_true_iff.1 h).1 cs

/-- A bare name in front of a character that ends it is read as one token. -/
theorem tokensOf_bare {name : String} (h : Ident.isBareForm name.toList = true) {cs : List Char}
    (hcs : ∀ c ∈ cs.head?, Text.isNamePart c = false) :
    tokensOf (name.toList ++ cs) = ⟨bareKind name, name, default⟩ :: tokensOf cs := by
  obtain ⟨chars, rfl⟩ : ∃ chars, name = String.ofList chars := ⟨name.toList, by simp⟩
  rw [String.toList_ofList] at h ⊢
  cases chars with
  | nil => cases h
  | cons c rest =>
    rw [List.cons_append, tokensOf_lexeme (startsGap_of_isBareForm h _), lexeme_of_isBareForm h hcs]

/-- The word of a keyword is read as the keyword. -/
theorem bareKind_keyword (word : Keyword) : bareKind word.text = .keyword word := by
  cases word <;> rfl

/-- It has the form of a bare name. -/
theorem isBareForm_keyword (word : Keyword) : Ident.isBareForm word.text.toList = true := by
  cases word <;> rfl

/-- A keyword in front of a character that ends it is read as itself. -/
theorem tokensOf_keyword (word : Keyword) {cs : List Char}
    (hcs : ∀ c ∈ cs.head?, Text.isNamePart c = false) :
    tokensOf (word.text.toList ++ cs) = ofKeyword word :: tokensOf cs := by
  rw [tokensOf_bare (isBareForm_keyword word) hcs, bareKind_keyword]
  rfl

/-- Whether the text is a name when it is written bare. -/
def IsName (name : String) : Prop :=
  Ident.isBareForm name.toList = true ∧ Keyword.ofText? name = none

instance (name : String) : Decidable (IsName name) := inferInstanceAs (Decidable (_ ∧ _))

/-- A name that is written bare is read as itself. -/
theorem tokensOf_name {name : String} (h : IsName name) {cs : List Char}
    (hcs : ∀ c ∈ cs.head?, Text.isNamePart c = false) :
    tokensOf (name.toList ++ cs) = ofName name :: tokensOf cs := by
  rw [tokensOf_bare h.1 hcs]
  unfold bareKind
  rw [h.2]
  rfl

/-! ## Symbols -/

theorem text_of_singleSymbol {c : Char} {sign : Symbol} (h : singleSymbol? c = some sign) :
    sign.text = String.ofList [c] := by
  unfold singleSymbol? at h
  split at h
  all_goals
    cases h
    try rfl

/-- A sign of one character is read as itself, but for a point in front of a digit. -/
theorem lexeme_symbol {c : Char} {sign : Symbol} (h : singleSymbol? c = some sign) {cs : List Char}
    (hdot : c = '.' → ∀ d ∈ cs.head?, d.isDigit = false) : lexeme c cs = symbolLexeme c cs := by
  have hpoint : ¬(c = '.' ∧ cs.head?.any Char.isDigit = true) := by
    rintro ⟨hc, hany⟩
    have hhead := hdot hc
    cases cs with
    | nil => simp at hany
    | cons d ds => simp [hhead d rfl] at hany
  unfold singleSymbol? at h
  split at h
  all_goals cases h
  all_goals
    unfold lexeme
    rw [if_neg (by decide), if_neg (by decide), if_neg (not_or_intro (by decide) hpoint),
      if_neg (by decide)]

/-- A symbol of one character is a token where no longer one fits. -/
theorem tokensOf_symbol {c : Char} {sign : Symbol} (h : singleSymbol? c = some sign)
    {cs : List Char} (hgap : startsGap c cs = false)
    (hdot : c = '.' → ∀ d ∈ cs.head?, d.isDigit = false)
    (hdouble : ∀ d ∈ cs.head?, doubleSymbol? c d = none) :
    tokensOf (c :: cs) = ofSymbol sign :: tokensOf cs := by
  have hsingle : symbolLexeme c cs = ⟨.symbol sign, [c], cs⟩ := by
    have hkind : singleKind c = .symbol sign := by
      unfold singleKind
      rw [h]
    cases cs with
    | nil => simp only [symbolLexeme, singleLexeme, hkind]
    | cons d ds => simp only [symbolLexeme, hdouble d rfl, singleLexeme, hkind]
  rw [tokensOf_lexeme hgap, lexeme_symbol h hdot, hsingle, ofSymbol, text_of_singleSymbol h]

/-! ## Strings and quoted names -/

/-- What is between two marks reads back, if what would end it too early is doubled. -/
theorem quotedBody_doubling {mark : Char} {escapable special : Char → Bool}
    (hmark : special mark = true)
    (hspecial : ∀ c, special c = true → c ≠ mark → c = '\\' ∧ escapable c = true)
    (hplain : ∀ c d, special c = false → ¬(c = '\\' ∧ escapable d = true)) (value : List Char)
    {rest : List Char} (hrest : rest.head? ≠ some mark) :
    quotedBody mark escapable (Text.doubling special value ++ mark :: rest) =
      ⟨some value, Text.doubling special value ++ [mark], rest⟩ := by
  -- By induction on the value: a special character is written behind a mark that escapes it.
  induction value with
  | nil =>
    cases rest with
    | nil => simp [quotedBody]
    | cons d ds =>
      have hd : d ≠ mark := fun heq => hrest (by simp [heq])
      simp [quotedBody, hd]
  | cons c cs ih =>
    cases hc : special c with
    | true =>
      by_cases heq : c = mark
      · simp [heq, hmark, quotedBody, ih]
      · obtain ⟨hslash, hescapable⟩ := hspecial c hc heq
        rw [hslash] at hc hescapable heq ⊢
        simp [hc, quotedBody, heq, hescapable, ih]
    | false =>
      have heq : c ≠ mark := by
        rintro rfl
        exact absurd (hmark.symm.trans hc) nofun
      obtain ⟨d, ds, hd⟩ : ∃ d ds, Text.doubling special cs ++ mark :: rest = d :: ds := by
        cases h : Text.doubling special cs ++ mark :: rest with
        | nil => simp at h
        | cons d ds => exact ⟨d, ds, rfl⟩
      have hnot := hplain c d hc
      simp only [Text.doubling_cons, hc, Bool.false_eq_true, if_false, List.nil_append,
        List.cons_append]
      rw [hd] at ih ⊢
      simp only [quotedBody, heq, if_false, hnot, ih]
      rfl

/-- A quoted string is one lexeme. -/
theorem lexeme_quoted (value : String) {cs : List Char} (hcs : cs.head? ≠ some Text.quoteMark) :
    ∃ body, (Text.quoted value).toList = Text.quoteMark :: body ∧
      lexeme Text.quoteMark (body ++ cs) = ⟨.string value, (Text.quoted value).toList, cs⟩ := by
  have hbody : quotedBody Text.quoteMark isEscapable
      (Text.doubling (fun c => c == Text.quoteMark || c == '\\') value.toList ++
        Text.quoteMark :: cs) = _ :=
    quotedBody_doubling (by decide) (fun c hc hne => by simp_all [isEscapable])
      (fun c d hc => by simp_all) value.toList hcs
  have hlexeme : ∀ ds, lexeme Text.quoteMark ds = stringLexeme Text.quoteMark ds := fun _ => rfl
  unfold Text.quoted
  rw [String.toList_ofList]
  refine ⟨_, rfl, ?_⟩
  rw [List.append_assoc, List.singleton_append, hlexeme, stringLexeme, hbody]
  simp [stringKind]

/-- A quoted text is read as a string with the value that was quoted, unless a quote follows. -/
theorem tokensOf_string (value : String) {cs : List Char} (hcs : cs.head? ≠ some Text.quoteMark) :
    tokensOf ((Text.quoted value).toList ++ cs) = ofString value :: tokensOf cs := by
  obtain ⟨body, hbody, hlexeme⟩ := lexeme_quoted value hcs
  rw [hbody, List.cons_append, tokensOf_lexeme (c := Text.quoteMark) rfl, hlexeme,
    String.ofList_toList]
  rfl

/-- A name in backticks is read as a quoted name with that value. -/
theorem tokensOf_backticked {value : String} (hvalue : value ≠ "") {cs : List Char}
    (hcs : cs.head? ≠ some Text.backtick) :
    tokensOf ((Text.backticked value).toList ++ cs) = ofQuotedName value :: tokensOf cs := by
  have hbody : quotedBody Text.backtick (fun _ => false)
      (Text.doubling (· == Text.backtick) value.toList ++ Text.backtick :: cs) = _ :=
    quotedBody_doubling (by decide) (fun c hc hne => by simp_all) (fun c d hc => by simp)
      value.toList hcs
  unfold Text.backticked
  rw [String.toList_ofList, List.cons_append, List.append_assoc, List.singleton_append,
    tokensOf_lexeme (c := Text.backtick) rfl]
  have hlexeme : ∀ ds, lexeme Text.backtick ds = quotedNameLexeme ds := fun _ => rfl
  rw [hlexeme, quotedNameLexeme, hbody]
  cases hchars : value.toList with
  | nil => exact absurd (String.toList_eq_nil_iff.1 hchars) hvalue
  | cons c rest =>
    simp only [quotedNameKind, ofQuotedName, Text.backticked]
    rw [← hchars, String.ofList_toList]

/-! ## Texts in a row -/

end Token

open Token

/-- The text lexes to `tokens` whatever is written behind it. -/
def Opens (text : String) (tokens : List Token) : Prop :=
  ∀ cs, tokensOf (text.toList ++ cs) = tokens ++ tokensOf cs

/-- The text lexes to `tokens` where a token stops behind it. -/
def Lexes (text : String) (tokens : List Token) : Prop :=
  ∀ cs, Stops cs → tokensOf (text.toList ++ cs) = tokens ++ tokensOf cs

/-- The text may stand behind others: it is empty or starts where a token stops. -/
def Trails (text : String) (tokens : List Token) : Prop :=
  Lexes text tokens ∧ ∀ cs, Stops cs → Stops (text.toList ++ cs)

variable {a b : String} {as bs : List Token}

/-- A text that lexes alike in front of anything does so where a token stops. -/
theorem Opens.lexes (h : Opens a as) : Lexes a as := fun cs _ => h cs

/-- Texts that lex alike in front of anything do so one behind the other. -/
theorem Opens.append (ha : Opens a as) (hb : Opens b bs) : Opens (a ++ b) (as ++ bs) := by
  intro cs
  rw [String.toList_append, List.append_assoc, ha, hb, List.append_assoc]

/-- The last of them may need a place where a token stops. -/
theorem Opens.lexes_append (ha : Opens a as) (hb : Lexes b bs) : Lexes (a ++ b) (as ++ bs) := by
  intro cs hcs
  rw [String.toList_append, List.append_assoc, ha, hb cs hcs, List.append_assoc]

/-- A text that may stand behind others stands where a token stops. -/
theorem Lexes.append (ha : Lexes a as) (hb : Trails b bs) : Lexes (a ++ b) (as ++ bs) := by
  intro cs hcs
  rw [String.toList_append, List.append_assoc, ha _ (hb.2 cs hcs), hb.1 cs hcs, List.append_assoc]

/-- Texts that may stand behind others may stand behind each other. -/
theorem Trails.append (ha : Trails a as) (hb : Trails b bs) : Trails (a ++ b) (as ++ bs) := by
  refine ⟨ha.1.append hb, fun cs hcs => ?_⟩
  rw [String.toList_append, List.append_assoc]
  exact ha.2 _ (hb.2 cs hcs)

theorem trails_nil : Trails "" [] := ⟨fun _ _ => rfl, fun _ h => h⟩

/-- A text that starts with a stop may stand behind others. -/
theorem Lexes.trails {c : Char} (hc : c ∈ stopChars) {text : String}
    (h : Lexes (String.ofList [c] ++ text) bs) : Trails (String.ofList [c] ++ text) bs := by
  refine ⟨h, fun cs _ => ?_⟩
  rw [String.toList_append, String.toList_ofList]
  exact stops_cons hc _

theorem opens_nil : Opens "" [] := fun _ => rfl

theorem opens_space : Opens " " [] := tokensOf_space

/-- Whether a symbol is a token whatever follows: it is part of no longer symbol and starts neither a
number nor a comment. -/
def Symbol.isFree : Symbol → Bool
  | .leftParen | .rightParen | .leftBracket | .rightBracket | .comma => true
  | .caret | .eq | .star | .percent | .plus => true
  | _ => false

/-- A sign that is part of no longer one is read as itself in front of anything. -/
theorem opens_symbol (sign : Symbol) (h : sign.isFree = true) :
    Opens sign.text [ofSymbol sign] := by
  intro cs
  cases sign
  case leftParen => exact tokensOf_symbol (c := '(') rfl rfl nofun fun _ _ => rfl
  case rightParen => exact tokensOf_symbol (c := ')') rfl rfl nofun fun _ _ => rfl
  case leftBracket => exact tokensOf_symbol (c := '[') rfl rfl nofun fun _ _ => rfl
  case rightBracket => exact tokensOf_symbol (c := ']') rfl rfl nofun fun _ _ => rfl
  case comma => exact tokensOf_symbol (c := ',') rfl rfl nofun fun _ _ => rfl
  case caret => exact tokensOf_symbol (c := '^') rfl rfl nofun fun _ _ => rfl
  case eq => exact tokensOf_symbol (c := '=') rfl rfl nofun fun _ _ => rfl
  case star => exact tokensOf_symbol (c := '*') rfl rfl nofun fun _ _ => rfl
  case percent => exact tokensOf_symbol (c := '%') rfl rfl nofun fun _ _ => rfl
  case plus => exact tokensOf_symbol (c := '+') rfl rfl nofun fun _ _ => rfl
  all_goals cases h

/-- In front of a space, every symbol is a token. -/
theorem opens_symbol_space (sign : Symbol) : Opens (sign.text ++ " ") [ofSymbol sign] := by
  intro cs
  rw [String.toList_append, List.append_assoc]
  show tokensOf (sign.text.toList ++ ' ' :: cs) = ofSymbol sign :: tokensOf cs
  rw [← tokensOf_space cs]
  cases sign
  case minus => exact tokensOf_symbol (c := '-') rfl rfl nofun (by simp [doubleSymbol?])
  case slash => exact tokensOf_symbol (c := '/') rfl rfl nofun (by simp [doubleSymbol?])
  case lt => exact tokensOf_symbol (c := '<') rfl rfl nofun (by simp [doubleSymbol?])
  case gt => exact tokensOf_symbol (c := '>') rfl rfl nofun (by simp [doubleSymbol?])
  case leftBrace => exact tokensOf_symbol (c := '\x7b') rfl rfl nofun fun _ _ => rfl
  case rightBrace => exact tokensOf_symbol (c := '\x7d') rfl rfl nofun fun _ _ => rfl
  case semicolon => exact tokensOf_symbol (c := ';') rfl rfl nofun fun _ _ => rfl
  case dot => exact tokensOf_symbol (c := '.') rfl rfl (by simp) fun _ _ => rfl
  case notEq => exact tokensOf_lexeme (c := '!') rfl
  case ltEq => exact tokensOf_lexeme (c := '<') rfl
  case gtEq => exact tokensOf_lexeme (c := '>') rfl
  all_goals exact opens_symbol _ rfl _

/-- What stops a token may be followed by anything if it may itself. -/
theorem Lexes.opens (ha : Lexes a as) (hb : Opens b bs) (hstop : ∀ cs, Stops (b.toList ++ cs)) :
    Opens (a ++ b) (as ++ bs) := by
  intro cs
  rw [String.toList_append, List.append_assoc, ha _ (hstop cs), hb, List.append_assoc]

/-- A token stops in front of a space. -/
theorem Lexes.space (ha : Lexes a as) : Opens (a ++ " ") as := by
  have h := ha.opens opens_space fun cs => stops_cons (c := ' ') (by decide) cs
  rwa [List.append_nil] at h

/-- It stops in front of an opening parenthesis. -/
theorem Lexes.paren (ha : Lexes a as) : Opens (a ++ "(") (as ++ [ofSymbol .leftParen]) :=
  ha.opens (b := "(") (opens_symbol .leftParen rfl) fun cs => stops_cons (c := '(') (by decide) cs

/-- It stops in front of a closing parenthesis. -/
theorem trails_rightParen : Trails ")" [ofSymbol .rightParen] :=
  ⟨(opens_symbol .rightParen rfl).lexes,
    fun cs _ => stops_cons (c := ')') (by decide) cs⟩

/-- A reserved word is read as itself where a token stops. -/
theorem lexes_keyword (word : Keyword) : Lexes word.text [ofKeyword word] :=
  fun _ hcs => tokensOf_keyword word hcs.namePart

/-- So is a quoted text. -/
theorem lexes_string (value : String) : Lexes (Text.quoted value) [ofString value] :=
  fun _ hcs => tokensOf_string value (hcs.head_ne (by decide))

/-- Reserved words with a space behind each. -/
def phrase : List Keyword → String
  | [] => ""
  | word :: words => word.text ++ " " ++ phrase words

/-- Reserved words with spaces behind them are read as themselves. -/
theorem opens_phrase (words : List Keyword) : Opens (phrase words) (words.map ofKeyword) := by
  induction words with
  | nil => exact opens_nil
  | cons word words ih => exact (lexes_keyword word).space.append ih

/-- Reserved words with a space on either side of each. -/
theorem opens_space_phrase (words : List Keyword) :
    Opens (" " ++ phrase words) (words.map ofKeyword) := opens_space.append (opens_phrase words)

/-- The text is read in front of reserved words that are written behind it. -/
theorem Lexes.words (ha : Lexes a as) (words : List Keyword) :
    Opens (a ++ (" " ++ phrase words)) (as ++ words.map ofKeyword) := by
  rw [← String.append_assoc]
  exact ha.space.append (opens_phrase words)

end SearchSql
