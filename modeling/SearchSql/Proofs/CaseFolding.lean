import SearchSql.Proofs.Cutting
import SearchSql.Proofs.Sight

/-!
# Texts that differ in the case of letters

Putting the ASCII letters of a text into upper case moves no token: every reader takes as much of the
one text as of the other (`lexeme_raised`). What a token is does not change either, except that the
value of a name or a string is in upper case as well.

So two texts that differ only in the case of letters outside of strings, quoted names and invalid
tokens have the same tokens up to the case of their words (`view_tokenize`).
-/

set_option autoImplicit false

namespace SearchSql

namespace Text

/-- The characters with the ASCII letters among them in upper case. -/
abbrev raise (cs : List Char) : List Char := cs.map Char.toUpper

/-- Only ASCII letters are changed. -/
theorem toUpper_of_le {c : Char} (h : 128 ≤ c.toNat) : c.toUpper = c := by
  unfold Char.toUpper
  refine dif_neg fun hletter => ?_
  simp only [UInt32.le_iff_toNat_le] at hletter
  have hnat : c.toNat = c.val.toNat := rfl
  simp at hletter
  omega

/-- What is the same of an ASCII letter in both cases does not depend on the case of letters. -/
theorem caseless_of_ascii {α : Type} {p : Char → α}
    (h : ∀ n < 128, p (Char.ofNat n).toUpper = p (Char.ofNat n)) : p ∘ Char.toUpper = p := by
  funext c
  by_cases hc : c.toNat < 128
  · have hascii := h c.toNat hc
    rwa [Char.ofNat_toNat] at hascii
  · exact congrArg p (toUpper_of_le (Nat.le_of_not_lt hc))

theorem caseless_isDigit : Char.isDigit ∘ Char.toUpper = Char.isDigit :=
  caseless_of_ascii (by decide)

/-- The case of an ASCII letter does not matter to what it is: a letter, a part of a name, and so
on. -/
theorem caseless_isAlphabetic : isAlphabetic ∘ Char.toUpper = isAlphabetic :=
  caseless_of_ascii (by decide)

theorem caseless_isBlank : isBlank ∘ Char.toUpper = isBlank := caseless_of_ascii (by decide)

theorem caseless_isNameStart : isNameStart ∘ Char.toUpper = isNameStart :=
  caseless_of_ascii (by decide)

theorem caseless_isNamePart : isNamePart ∘ Char.toUpper = isNamePart :=
  caseless_of_ascii (by decide)

/-- What starts no name has no case. -/
theorem toUpper_of_not_isNameStart {c : Char} (h : isNameStart c = false) : c.toUpper = c := by
  by_cases hc : c.toNat < 128
  · have hascii : ∀ n < 128, isNameStart (Char.ofNat n) = false →
        (Char.ofNat n).toUpper = Char.ofNat n := by decide
    have := hascii c.toNat hc
    rw [Char.ofNat_toNat] at this
    exact this h
  · exact toUpper_of_le (Nat.le_of_not_lt hc)

/-- A letter has as many bytes in upper case. -/
theorem utf8Size_toUpper (c : Char) : c.toUpper.utf8Size = c.utf8Size := by
  by_cases hc : c.toNat < 128
  · have hascii : ∀ n < 128, (Char.ofNat n).toUpper.utf8Size = (Char.ofNat n).utf8Size := by decide
    have := hascii c.toNat hc
    rwa [Char.ofNat_toNat] at this
  · rw [toUpper_of_le (Nat.le_of_not_lt hc)]

/-- So has a text. -/
@[simp] theorem byteLength_raise (cs : List Char) : byteLength (raise cs) = byteLength cs := by
  unfold byteLength
  rw [List.map_map]
  exact congrArg List.sum (congrArg (List.map · cs) (funext utf8Size_toUpper))

/-- A character other than a letter is the upper case of itself alone. -/
theorem toUpper_eq_iff {c d : Char}
    (h : ∀ n < 128, (Char.ofNat n).toUpper = d ↔ Char.ofNat n = d) : c.toUpper = d ↔ c = d := by
  by_cases hc : c.toNat < 128
  · have := h c.toNat hc
    rwa [Char.ofNat_toNat] at this
  · rw [toUpper_of_le (Nat.le_of_not_lt hc)]

/-- The mark of an exponent may be written in both cases. -/
theorem toUpper_eq_exponent {c : Char} :
    (c.toUpper = 'e' ∨ c.toUpper = 'E') ↔ (c = 'e' ∨ c = 'E') := by
  have h := caseless_of_ascii (p := fun c => decide (c = 'e' ∨ c = 'E')) (by decide)
  exact decide_eq_decide.1 (congrFun h c)

/-- All characters with a property that is blind to case are taken from both texts. -/
theorem takeWhile_raise {p : Char → Bool} (hp : p ∘ Char.toUpper = p) (cs : List Char) :
    (raise cs).takeWhile p = raise (cs.takeWhile p) := by
  rw [raise, List.takeWhile_map, hp]

/-- They are dropped from both. -/
theorem dropWhile_raise {p : Char → Bool} (hp : p ∘ Char.toUpper = p) (cs : List Char) :
    (raise cs).dropWhile p = raise (cs.dropWhile p) := by
  rw [raise, List.dropWhile_map, hp]

theorem head?_raise {p : Char → Bool} (hp : p ∘ Char.toUpper = p) (cs : List Char) :
    (raise cs).head?.any p = cs.head?.any p := by
  cases cs with
  | nil => rfl
  | cons c cs => exact congrFun hp c

end Text

/-- The kind with the value of a name or a string in upper case. -/
def TokenKind.raised : TokenKind → TokenKind
  | .string value => .string (Text.upper value)
  | .name value => .name (Text.upper value)
  | .quotedName value => .quotedName (Text.upper value)
  | kind => kind

/-- The token with its text and the value of its kind in upper case. -/
def Token.raised (t : Token) : Token := ⟨t.kind.raised, Text.upper t.text, t.span⟩

namespace Token

open Text

/-! ## Gaps -/

/-- A comment ends at the same place in upper case. -/
theorem blockComment_raise (cs : List Char) :
    blockComment (raise cs) = (raise (blockComment cs).1, raise (blockComment cs).2) := by
  fun_induction blockComment cs with
  | case1 => rfl
  | case2 cs => rfl
  | case3 c cs hclose ih =>
    have hclose' : ∀ ds, c.toUpper = '*' → raise cs = '/' :: ds → False := by
      intro ds hc hcs
      cases cs with
      | nil => cases hcs
      | cons d cs =>
        obtain ⟨hd, -⟩ := List.cons.inj hcs
        rw [toUpper_eq_iff (by decide)] at hc hd
        exact hclose cs hc (congrArg (· :: cs) hd)
    rw [show raise (c :: cs) = c.toUpper :: raise cs from rfl, blockComment, ih]
    · rfl
    · exact hclose'

/-- So does a gap. -/
theorem gap_raise (cs : List Char) : gap (raise cs) = (raise (gap cs).1, raise (gap cs).2) := by
  have hline : (fun c : Char => decide (c ≠ '\n')) ∘ Char.toUpper = fun c => decide (c ≠ '\n') :=
    caseless_of_ascii (by decide)
  -- Marks of comments and blanks are no letters, so gaps start and end at the same places.
  fun_induction gap cs with
  | case1 => simp [gap]
  | case2 rest line next ih =>
    rw [show raise ('-' :: '-' :: rest) = '-' :: '-' :: raise rest from rfl, gap]
    simp only [takeWhile_raise hline, dropWhile_raise hline, ih, next, line, raise, List.map_cons,
      List.map_append]
    rfl
  | case3 rest comment next ih =>
    rw [show raise ('/' :: '*' :: rest) = '/' :: '*' :: raise rest from rfl, gap]
    simp only [blockComment_raise, ih, next, comment, raise, List.map_cons, List.map_append]
    rfl
  | case4 c rest _ _ hblank ih =>
    have hblank' : isBlank c.toUpper = true := (congrFun caseless_isBlank c).trans hblank
    rw [show raise (c :: rest) = c.toUpper :: raise rest from rfl, gap_of_blank hblank', ih]
    rfl
  | case5 c rest hline hblock hblank =>
    show gap (c.toUpper :: raise rest) = ([], c.toUpper :: raise rest)
    refine gap_of_not_startsGap ?_
    have hblank' : isBlank c.toUpper = false :=
      (congrFun caseless_isBlank c).trans (Bool.eq_false_iff.2 hblank)
    cases rest with
    | nil => simp [startsGap, hblank']
    | cons d rest =>
      have hline' : ¬(c = '-' ∧ d = '-') := fun h => hline rest h.1 (by rw [h.2])
      have hblock' : ¬(c = '/' ∧ d = '*') := fun h => hblock rest h.1 (by rw [h.2])
      simpa [startsGap, hblank', toUpper_eq_iff (d := '-') (by decide),
        toUpper_eq_iff (d := '/') (by decide), toUpper_eq_iff (d := '*') (by decide)]
        using ⟨not_and.1 hline', not_and.1 hblock'⟩

/-! ## Lexemes -/

/-- So does what stands between quotes, if the quote has no case. -/
theorem quotedBody_raise {mark : Char} {escapable : Char → Bool}
    (hmark : ∀ c : Char, c.toUpper = mark ↔ c = mark)
    (hescapable : escapable ∘ Char.toUpper = escapable) (cs : List Char) :
    quotedBody mark escapable (raise cs) =
      ⟨(quotedBody mark escapable cs).value.map raise, raise (quotedBody mark escapable cs).text,
        raise (quotedBody mark escapable cs).rest⟩ := by
  have hslash (c : Char) : c.toUpper = '\\' ↔ c = '\\' := toUpper_eq_iff (by decide)
  have hescape (c d : Char) : (c.toUpper = '\\' ∧ escapable d.toUpper = true) ↔
      (c = '\\' ∧ escapable d = true) := by
    rw [hslash, show escapable d.toUpper = escapable d from congrFun hescapable d]
  fun_induction quotedBody mark escapable cs with
  | case1 => rfl
  | case2 => simp [quotedBody, (hmark _).2 rfl]
  | case3 c hc => simp [quotedBody, hmark, hc]
  | case4 cs body ih =>
    simp only [raise, List.map_cons, quotedBody, (hmark mark).2 rfl, if_true]
    rw [ih]
    simp [Function.comp_def, body, (hmark mark).2 rfl]
  | case5 d cs hd => simp [quotedBody, hmark, hd, (hmark mark).2 rfl]
  | case6 c d cs hc hslashed body ih =>
    rw [show raise (c :: d :: cs) = c.toUpper :: d.toUpper :: raise cs from rfl, quotedBody,
      if_neg (mt (hmark c).1 hc), if_pos ((hescape c d).2 hslashed), ih]
    simp [Function.comp_def, body]
  | case7 c d cs hc hslashed body ih =>
    simp only [raise, List.map_cons, quotedBody, hmark, hc, hescape, hslashed, if_false] at ih ⊢
    rw [ih]
    simp [Function.comp_def, body]

/-- So does a fraction. -/
theorem fraction_raise (cs : List Char) :
    fraction (raise cs) = (raise (fraction cs).1, raise (fraction cs).2) := by
  cases cs with
  | nil => rfl
  | cons c cs =>
    by_cases hc : c = '.'
    · subst hc
      rw [show raise ('.' :: cs) = '.' :: raise cs from rfl, fraction, fraction,
        head?_raise caseless_isAlphabetic]
      split
      · rfl
      · simp only [takeWhile_raise caseless_isDigit, dropWhile_raise caseless_isDigit]
        rfl
    · rw [fraction_of_ne hc, show raise (c :: cs) = c.toUpper :: raise cs from rfl,
        fraction_of_ne (mt (toUpper_eq_iff (by decide)).1 hc)]
      rfl

theorem exponentSign_raise (cs : List Char) :
    exponentSign (raise cs) = (raise (exponentSign cs).1, raise (exponentSign cs).2) := by
  cases cs with
  | nil => rfl
  | cons c cs =>
    by_cases hplus : c = '+'
    · subst hplus
      rfl
    · by_cases hminus : c = '-'
      · subst hminus
        rfl
      · simp [exponentSign, hplus, hminus, toUpper_eq_iff (d := '+') (by decide),
          toUpper_eq_iff (d := '-') (by decide)]

/-- So does an exponent, since its letter may be of either case. -/
theorem exponent_raise (cs : List Char) :
    exponent (raise cs) = (raise (exponent cs).1, raise (exponent cs).2) := by
  cases cs with
  | nil => rfl
  | cons e cs =>
    rw [show raise (e :: cs) = e.toUpper :: raise cs from rfl, exponent, exponent]
    simp only [exponentSign_raise, head?_raise caseless_isDigit, toUpper_eq_exponent]
    split
    · simp only [takeWhile_raise caseless_isDigit, dropWhile_raise caseless_isDigit, raise,
        List.map_cons, List.map_append]
    · rfl

/-- A number has no letters outside of its exponent. -/
theorem numberLexeme_raise (cs : List Char) :
    numberLexeme (raise cs) =
      ⟨(numberLexeme cs).kind.raised, raise (numberLexeme cs).text,
        raise (numberLexeme cs).rest⟩ := by
  have hkind : (numberLexeme cs).kind.raised = (numberLexeme cs).kind := by
    unfold numberLexeme
    dsimp only
    split <;> rfl
  rw [hkind]
  simp only [numberLexeme, takeWhile_raise caseless_isDigit, dropWhile_raise caseless_isDigit,
    fraction_raise, exponent_raise, raise, List.isEmpty_map, List.map_append]

/-- The second character of a sign is no letter. -/
theorem doubleSymbol?_toUpper (c d : Char) : doubleSymbol? c d.toUpper = doubleSymbol? c d := by
  by_cases heq : d = '='
  · rw [heq]
    rfl
  by_cases hgt : d = '>'
  · rw [hgt]
    rfl
  simp [doubleSymbol?, heq, hgt, toUpper_eq_iff (d := '=') (by decide),
    toUpper_eq_iff (d := '>') (by decide)]

/-- The first character of a symbol is no letter, and the second one is looked up among symbols. -/
theorem symbolLexeme_raise {c : Char} (hc : isNameStart c = false) (cs : List Char) :
    symbolLexeme c (raise cs) =
      ⟨(symbolLexeme c cs).kind.raised, raise (symbolLexeme c cs).text,
        raise (symbolLexeme c cs).rest⟩ := by
  have hupper : c.toUpper = c := toUpper_of_not_isNameStart hc
  have hsingle : (singleKind c).raised = singleKind c := by
    unfold singleKind
    split <;> rfl
  cases cs with
  | nil => simp [symbolLexeme, singleLexeme, hupper, hsingle]
  | cons d cs =>
    simp only [raise, List.map_cons, symbolLexeme, doubleSymbol?_toUpper]
    split
    · next sign hsign =>
      have hd : d.toUpper = d := by
        unfold doubleSymbol? at hsign
        split at hsign
        all_goals first | rfl | cases hsign
      simp [hupper, hd, TokenKind.raised]
    · simp [singleLexeme, hupper, hsingle]

theorem upper_ofList (cs : List Char) : upper (String.ofList cs) = String.ofList (raise cs) := by
  unfold upper
  rw [String.toList_ofList]

/-- The value of a string is raised with its text. -/
theorem stringKind_raise (value : Option (List Char)) :
    stringKind (value.map raise) = (stringKind value).raised := by
  cases value with
  | none => rfl
  | some value => exact congrArg TokenKind.string (upper_ofList value).symm

/-- So is the value of a quoted name. -/
theorem quotedNameKind_raise (value : Option (List Char)) :
    quotedNameKind (value.map raise) = (quotedNameKind value).raised := by
  rcases value with - | _ | ⟨c, value⟩
  · rfl
  · rfl
  · exact congrArg TokenKind.quotedName (upper_ofList (c :: value)).symm

/-- A word in upper case is the same reserved word, or the name in upper case. -/
theorem bareKind_upper (text : String) : bareKind (upper text) = (bareKind text).raised := by
  have hword : Keyword.ofText? (upper text) = Keyword.ofText? text := by
    simp only [Keyword.ofText?, findSpelling, upper_upper]
  unfold bareKind
  rw [hword]
  cases Keyword.ofText? text <;> rfl

/-- The lexeme of a text in upper case is the lexeme of the text, in upper case. -/
theorem lexeme_raise (c : Char) (cs : List Char) :
    lexeme c.toUpper (raise cs) =
      ⟨(lexeme c cs).kind.raised, raise (lexeme c cs).text, raise (lexeme c cs).rest⟩ := by
  -- Marks, the dot and digits are their own capitals, and no other character has them as its
  -- capital.
  have hquote : ∀ c : Char, c.toUpper = quoteMark ↔ c = quoteMark :=
    fun c => toUpper_eq_iff (by decide)
  have hdouble : ∀ c : Char, c.toUpper = doubleMark ↔ c = doubleMark :=
    fun c => toUpper_eq_iff (by decide)
  have htick : ∀ c : Char, c.toUpper = backtick ↔ c = backtick :=
    fun c => toUpper_eq_iff (by decide)
  have hdot : c.toUpper = '.' ↔ c = '.' := toUpper_eq_iff (by decide)
  have hdigit : c.toUpper.isDigit = c.isDigit := congrFun caseless_isDigit c
  have hname : isNameStart c.toUpper = isNameStart c := congrFun caseless_isNameStart c
  have hescapable : isEscapable ∘ Char.toUpper = isEscapable := caseless_of_ascii (by decide)
  simp only [lexeme, hquote, hdouble, htick, hdot, hdigit, hname, head?_raise caseless_isDigit]
  split
  · next hmark =>
    have hsame : c.toUpper = c := by
      rcases hmark with rfl | rfl <;> rfl
    have hmark' : ∀ d : Char, d.toUpper = c ↔ d = c := by
      rcases hmark with rfl | rfl
      · exact hquote
      · exact hdouble
    simp only [hsame, stringLexeme, quotedBody_raise hmark' hescapable, stringKind_raise, raise,
      List.map_cons]
  split
  · next hmark =>
    have hnone : (fun _ : Char => false) ∘ Char.toUpper = fun _ => false := rfl
    simp only [quotedNameLexeme, quotedBody_raise htick hnone, quotedNameKind_raise, raise,
      List.map_cons]
    rw [(htick backtick).2 rfl]
  split
  · exact numberLexeme_raise (c :: cs)
  split
  · simp only [nameLexeme, takeWhile_raise caseless_isNamePart, dropWhile_raise caseless_isNamePart,
      raise, List.map_cons]
    rw [← List.map_cons, ← raise, ← upper_ofList, bareKind_upper]
  · next hstart =>
    have hstart : isNameStart c = false := Bool.eq_false_iff.2 hstart
    rw [toUpper_of_not_isNameStart hstart, symbolLexeme_raise hstart]

/-! ## Token lists -/

/-- The tokens of a text in upper case are its tokens in upper case, at the same places. -/
theorem tokensFrom_raise (offset : Nat) (cs : List Char) :
    tokensFrom offset (raise cs) = (tokensFrom offset cs).map raised := by
  fun_induction tokensFrom offset cs with
  | case1 offset cs blank start hrest =>
    have hgap := gap_raise cs
    rw [show (gap cs).2 = [] from hrest] at hgap
    rw [tokensFrom_nil (congrArg Prod.snd hgap), hgap, byteLength_raise]
    rfl
  | case2 offset cs blank start c rest hrest next stop ih =>
    have hgap := gap_raise cs
    rw [show (gap cs).2 = c :: rest from hrest] at hgap
    rw [tokensFrom_cons (congrArg Prod.snd hgap), hgap, lexeme_raise]
    simp only [byteLength_raise, List.map_cons]
    rw [show tokensFrom _ (raise (lexeme c rest).rest) = _ from ih]
    simp only [raised, upper_ofList]
    rfl

end Token

end SearchSql
