import SearchSql.Proofs.NumberText

/-!
# Number tokens and the numbers that are read from them

Tokens are cut from the text by one grammar, and numbers are read from their texts by another. They
agree: an integer token is a run of digits (`Token.isNumeral_tokenize`), so that its value is exact or
beyond the range, and no other fault is met (`readSigned_digits`, `readUnsigned_digits`); and a real
token is written as the reader of real numbers asks (`readDecimal_isSome_iff`), so that it denotes a
number, if not a finite one (`readReal_decimal`).
-/

set_option autoImplicit false

namespace SearchSql

open Token

-- Whether a text is a reserved word is looked up nowhere here: kinds are compared as they stand.
attribute [local irreducible] bareKind

namespace Number

/-! ## How real numbers are written -/

/-- Digits with a point among or beside them. On one side of the point there may be none. -/
inductive IsMantissa : List Char → Prop where
  | whole {ds : List Char} : IsDigits ds → IsMantissa ds
  | point {ds fs : List Char} :
      IsDigits ds → fs.all Char.isDigit = true → IsMantissa (ds ++ '.' :: fs)
  | fraction {ds fs : List Char} :
      ds.all Char.isDigit = true → IsDigits fs → IsMantissa (ds ++ '.' :: fs)

/-- An exponent, which may be left out. -/
inductive IsPower : List Char → Prop where
  | none : IsPower []
  | digits {e : Char} {sign ds : List Char} : e = 'e' ∨ e = 'E' →
      sign = [] ∨ sign = ['+'] ∨ sign = ['-'] → IsDigits ds → IsPower (e :: (sign ++ ds))

/-- A real number without its sign. -/
def IsDecimal (cs : List Char) : Prop := ∃ m p, IsMantissa m ∧ IsPower p ∧ cs = m ++ p

/-- Digits alone are a real number. -/
theorem IsDigits.isDecimal {ds : List Char} (h : IsDigits ds) : IsDecimal ds :=
  ⟨ds, [], .whole h, .none, (List.append_nil ds).symm⟩

/-- An exponent is empty or starts with its letter. -/
theorem IsPower.head {p : List Char} (h : IsPower p) :
    p.head? = Option.none ∨ p.head? = some 'e' ∨ p.head? = some 'E' := by
  cases h with
  | none => exact .inl rfl
  | digits he _ _ => exact .inr (he.imp (congrArg some) (congrArg some))

/-- Digits have no sign in front. -/
theorem splitSign_digits {ds : List Char} (h : IsDigits ds) : splitSign ds = (false, ds) := by
  obtain ⟨hne, hall⟩ := h
  unfold splitSign
  split
  · exact absurd hall (by simp)
  · exact absurd hall (by simp)
  · rfl

/-- An exponent can be read if and only if it has the form of one. -/
theorem readExponent_isSome_iff (p : List Char) : (readExponent p).isSome = true ↔ IsPower p := by
  constructor
  · intro h
    cases p with
    | nil => exact .none
    | cons e cs =>
      simp only [readExponent] at h
      split at h
      · next hpower =>
        obtain ⟨he, hne, hall⟩ := hpower
        -- The sign of an exponent is either of two, or missing.
        have hsign : ∃ sign, (sign = [] ∨ sign = ['+'] ∨ sign = ['-']) ∧
            cs = sign ++ (splitSign cs).2 := by
          unfold splitSign
          split
          · exact ⟨_, .inr (.inr rfl), rfl⟩
          · exact ⟨_, .inr (.inl rfl), rfl⟩
          · exact ⟨_, .inl rfl, rfl⟩
        obtain ⟨sign, hsign, hcs⟩ := hsign
        rw [hcs]
        exact .digits he hsign ⟨hne, hall⟩
      · cases h
  · intro h
    cases h with
    | none => rfl
    | digits he hsign hds =>
      next e sign ds =>
      have hsplit : (splitSign (sign ++ ds)).2 = ds := by
        obtain rfl | rfl | rfl := hsign
        · rw [List.nil_append, splitSign_digits hds]
        · rfl
        · rfl
      simp only [readExponent, hsplit]
      rw [if_pos ⟨he, hds.1, hds.2⟩]
      rfl

/-- In front of an exponent there is no fraction. -/
theorem splitFraction_power {p : List Char} (h : IsPower p) : splitFraction p = ([], p) := by
  unfold splitFraction
  split
  · rcases h.head with hhead | hhead | hhead <;> cases hhead
  · rfl

/-- No exponent starts with a digit. -/
theorem IsPower.head_digit {p : List Char} (h : IsPower p) : ∀ c ∈ p.head?, c.isDigit = false := by
  intro c hc
  rcases h.head with hhead | hhead | hhead
  · rw [hhead] at hc
    cases hc
  · rw [hhead] at hc
    obtain rfl := Option.some.inj hc
    decide
  · rw [hhead] at hc
    obtain rfl := Option.some.inj hc
    decide

/-- The reader of real numbers reads what is written as one, and nothing else. -/
theorem readDecimal_isSome_iff (cs : List Char) : (readDecimal cs).isSome = true ↔ IsDecimal cs := by
  constructor
  -- What is read is split at the point and at the exponent, each of which may be missing.
  · intro h
    have happend : cs.takeWhile Char.isDigit ++ cs.dropWhile Char.isDigit = cs :=
      List.takeWhile_append_dropWhile
    have hwhole : (cs.takeWhile Char.isDigit).all Char.isDigit = true := List.all_takeWhile
    unfold readDecimal at h
    dsimp only at h
    generalize cs.takeWhile Char.isDigit = ds at happend hwhole h
    generalize cs.dropWhile Char.isDigit = rest at happend h
    rw [← happend]
    split at h
    · cases h
    next hsome =>
    rw [Option.isSome_map, readExponent_isSome_iff] at h
    unfold splitFraction at h hsome
    split at h
    · next fs =>
      have hfs : (fs.takeWhile Char.isDigit).all Char.isDigit = true := List.all_takeWhile
      refine ⟨ds ++ '.' :: fs.takeWhile Char.isDigit, _, ?_, h, ?_⟩
      · by_cases hds : ds = []
        · refine .fraction hwhole ⟨fun hnil => hsome ?_, hfs⟩
          simp [hds, hnil]
        · exact .point ⟨hds, hwhole⟩ hfs
      · simp [List.takeWhile_append_dropWhile]
    · refine ⟨ds, rest, .whole ⟨fun hnil => hsome ?_, hwhole⟩, h, rfl⟩
      simp [hnil]
  -- Each form is split again at the same places, since a digit run ends in front of what is no
  -- digit.
  · rintro ⟨m, p, hm, hp, rfl⟩
    have hpower := (readExponent_isSome_iff p).2 hp
    have hdigit := hp.head_digit
    cases hm with
    | whole hds =>
      simp only [readDecimal]
      rw [takeWhile_run hds.2 hdigit, dropWhile_run hds.2 hdigit, splitFraction_power hp]
      simp [hds.1, hpower]
    | point hds hfs =>
      next ds fs =>
      simp only [readDecimal, List.append_assoc, List.cons_append]
      rw [takeWhile_run hds.2 (by simp), dropWhile_run hds.2 (by simp)]
      simp only [splitFraction]
      rw [takeWhile_run hfs hdigit, dropWhile_run hfs hdigit]
      simp [hds.1, hpower]
    | fraction hds hfs =>
      next ds fs =>
      simp only [readDecimal, List.append_assoc, List.cons_append]
      rw [takeWhile_run hds (by simp), dropWhile_run hds (by simp)]
      simp only [splitFraction]
      rw [takeWhile_run hfs.2 hdigit, dropWhile_run hfs.2 hdigit]
      simp [hfs.1, hpower]

/-! ## What is read from digits -/

/-- Digits that denote too much are beyond the limit. -/
theorem readDigits_of_lt {limit : Nat} (beyond : IntegerFault) {value : Nat} {cs : List Char}
    (hdigits : cs.all Char.isDigit = true) (hvalue : value ≤ limit)
    (h : limit < digitsValue value cs) : readDigits limit beyond value cs = .error beyond := by
  induction cs generalizing value with
  | nil => exact absurd h (Nat.not_lt.2 hvalue)
  | cons c cs ih =>
    simp only [List.all_cons, Bool.and_eq_true] at hdigits
    simp only [readDigits, hdigits.1, if_true]
    split
    · rfl
    · next hnext => exact ih hdigits.2 (Nat.not_lt.1 hnext) h

/-- The value of digits, if it is within the limit. -/
theorem readMagnitude_digits {ds : List Char} (h : IsDigits ds) (limit : Nat)
    (beyond : IntegerFault) :
    readMagnitude limit beyond ds =
      if digitsValue 0 ds ≤ limit then .ok (digitsValue 0 ds) else .error beyond := by
  obtain ⟨hne, hall⟩ := h
  have hread : readMagnitude limit beyond ds = readDigits limit beyond 0 ds := by
    unfold readMagnitude
    split
    · exact absurd rfl hne
    · rfl
  rw [hread]
  split
  · next hle => exact readDigits_of_le beyond 0 hall hle
  · next hlt => exact readDigits_of_lt beyond hall (Nat.zero_le limit) (Nat.not_le.1 hlt)

/-- Digits are read as their value, if an unsigned word of 64 bits holds it. -/
theorem readUnsigned_digits {text : String} (h : IsDigits text.toList) :
    readUnsigned text =
      if digitsValue 0 text.toList < unsignedBound then .ok (digitsValue 0 text.toList)
      else .error .tooLarge := by
  have hread : readUnsigned text = readMagnitude (unsignedBound - 1) .tooLarge text.toList := by
    unfold readUnsigned
    split
    · next heq => exact absurd heq h.1
    · next cs heq => exact absurd (heq ▸ h.2) (by simp)
    · rfl
  rw [hread, readMagnitude_digits h]
  have hbound : 0 < unsignedBound := by decide
  by_cases hlt : digitsValue 0 text.toList < unsignedBound
  · rw [if_pos hlt, if_pos (by omega)]
  · rw [if_neg hlt, if_neg (by omega)]

/-- The text of a number behind its sign. A plus sign is left out. -/
def signedText (negative : Bool) (text : String) : String := if negative then "-" ++ text else text

/-- The integer that digits denote behind a sign. -/
def signedValue (negative : Bool) (digits : List Char) : Int :=
  if negative then -(digitsValue 0 digits : Int) else digitsValue 0 digits

/-- Digits behind a sign are read as the value with the sign, if a signed word of 64 bits holds it.
-/
theorem readSigned_digits (negative : Bool) {text : String} (h : IsDigits text.toList) :
    readSigned (signedText negative text) =
      if signedValue negative text.toList < -signedBound then .error .tooSmall
      else if signedBound ≤ signedValue negative text.toList then .error .tooLarge
      else .ok (signedValue negative text.toList) := by
  have hbound : 0 < signedBound := by decide
  cases negative with
  | true =>
    have hchars : (signedText true text).toList = '-' :: text.toList := by
      rw [signedText, if_pos rfl, String.toList_append]
      rfl
    -- Behind a minus sign the size may be one greater.
    have hread : readSigned (signedText true text) =
        (readMagnitude signedBound .tooSmall text.toList).map fun n : Nat => -(n : Int) := by
      unfold readSigned
      rw [hchars]
      cases hread : readMagnitude signedBound .tooSmall text.toList with
      | ok n =>
        simp only [hread]
        rfl
      | error fault =>
        simp only [hread]
        rfl
    rw [hread, readMagnitude_digits h]
    simp only [signedValue, if_true]
    by_cases hle : digitsValue 0 text.toList ≤ signedBound
    · rw [if_pos hle, if_neg (by omega), if_neg (by omega)]
      rfl
    · rw [if_neg hle, if_pos (by omega)]
      rfl
  | false =>
    have hread : readSigned (signedText false text) =
        (readMagnitude (signedBound - 1) .tooLarge text.toList).map Int.ofNat := by
      unfold readSigned
      rw [signedText, if_neg nofun]
      split
      · next heq => exact absurd heq h.1
      · next cs heq => exact absurd (heq ▸ h.2) (by simp)
      · next cs heq => exact absurd (heq ▸ h.2) (by simp)
      · rfl
    rw [hread, readMagnitude_digits h]
    simp only [signedValue, Bool.false_eq_true, if_false]
    by_cases hle : digitsValue 0 text.toList ≤ signedBound - 1
    · rw [if_pos hle, if_neg (by omega), if_neg (by omega)]
      rfl
    · rw [if_neg hle, if_neg (by omega), if_pos (by omega)]
      rfl

/-- A real number without its sign starts with a digit or its point. -/
theorem IsDecimal.head {cs : List Char} (h : IsDecimal cs) :
    ∃ c ds, cs = c :: ds ∧ (c.isDigit = true ∨ c = '.') := by
  obtain ⟨m, p, hm, -, rfl⟩ := h
  have hdigits {ds : List Char} (hds : IsDigits ds) (rest : List Char) :
      ∃ c es, ds ++ rest = c :: es ∧ (c.isDigit = true ∨ c = '.') := by
    obtain ⟨c, es, heq, hc⟩ := hds.head rest
    exact ⟨c, es, heq, .inl hc⟩
  cases hm with
  | whole hds => exact hdigits hds p
  | point hds _ =>
    rw [List.append_assoc]
    exact hdigits hds _
  | @fraction ds fs hds _ =>
    cases ds with
    | nil => exact ⟨'.', fs ++ p, rfl, .inr rfl⟩
    | cons d ds =>
      exact ⟨d, ds ++ '.' :: fs ++ p, rfl, .inl (List.all_eq_true.1 hds d List.mem_cons_self)⟩

/-- The sign can be told from the number behind it. -/
theorem splitSign_signedText (negative : Bool) {text : String} (h : IsDecimal text.toList) :
    splitSign (signedText negative text).toList = (negative, text.toList) := by
  cases negative with
  | true =>
    rw [signedText, if_pos rfl, String.toList_append]
    rfl
  | false =>
    obtain ⟨c, ds, heq, hc⟩ := h.head
    have hsign : c ≠ '-' ∧ c ≠ '+' := by
      rcases hc with hc | rfl
      · exact ⟨isDigit_ne hc (by decide), isDigit_ne hc (by decide)⟩
      · decide
    rw [signedText, if_neg nofun, heq]
    unfold splitSign
    split
    · next hminus => exact absurd (List.cons.inj hminus).1 hsign.1
    · next hplus => exact absurd (List.cons.inj hplus).1 hsign.2
    · rfl

/-- What is written as a real number denotes one. The only fault is that it is not finite. -/
theorem readReal_decimal (negative : Bool) {text : String} (h : IsDecimal text.toList) :
    ∃ mantissa exponent, readDecimal text.toList = some (mantissa, exponent) ∧
      readReal (signedText negative text) =
        if (Binary64.ofDecimal negative mantissa exponent).isFinite then
          .ok (Binary64.ofDecimal negative mantissa exponent)
        else .error .outOfRange := by
  obtain ⟨⟨mantissa, exponent⟩, hread⟩ :=
    Option.isSome_iff_exists.1 ((readDecimal_isSome_iff text.toList).2 h)
  refine ⟨mantissa, exponent, hread, ?_⟩
  have hne : (signedText negative text).isEmpty = false := by
    obtain ⟨c, ds, heq, -⟩ := h.head
    rw [Bool.eq_false_iff]
    intro hempty
    have hnil : (signedText negative text).toList = [] := by
      rw [String.isEmpty_iff.1 hempty]
      rfl
    unfold signedText at hnil
    split at hnil <;> simp [heq] at hnil
  unfold readReal
  rw [hne, splitSign_signedText negative h]
  dsimp only
  rw [hread]
  rfl

end Number

/-! ## The texts of number tokens -/

open Number

namespace Token

/-- A point is followed by the digits that belong to it. -/
theorem fraction_eq (cs : List Char) :
    (fraction cs).1 = [] ∨ ∃ fs, fs.all Char.isDigit = true ∧ (fraction cs).1 = '.' :: fs := by
  fun_cases fraction cs with
  | case1 => exact .inl rfl
  | case2 => exact .inr ⟨_, List.all_takeWhile, rfl⟩
  | case3 => exact .inl rfl

/-- What the scanner takes for an exponent is one. -/
theorem isPower_exponent (cs : List Char) : IsPower (exponent cs).1 := by
  fun_cases exponent cs with
  | case1 => exact .none
  | case2 e cs signed h =>
    have hsign : signed.1 = [] ∨ signed.1 = ['+'] ∨ signed.1 = ['-'] := by
      show (exponentSign cs).1 = [] ∨ (exponentSign cs).1 = ['+'] ∨ (exponentSign cs).1 = ['-']
      fun_cases exponentSign cs with
      | case1 => exact .inr (.inl rfl)
      | case2 => exact .inr (.inr rfl)
      | case3 => exact .inl rfl
    refine .digits h.1 hsign ⟨?_, List.all_takeWhile⟩
    obtain ⟨he, hdigit⟩ := h
    cases hrest : signed.2 with
    | nil => simp [hrest] at hdigit
    | cons d ds =>
      have hd : d.isDigit = true := by simpa [hrest] using hdigit
      simp [hd]
  | case3 => exact .none

/-- An integer token is a run of digits, and a real token is written as a real number. -/
structure IsNumeral (t : Token) : Prop where
  integer : t.kind = .integer → IsDigits t.text.toList
  real : t.kind = .real → IsDecimal t.text.toList

/-- A token that is no number need not be written as one. -/
theorem isNumeral_of_kind {t : Token} (h : t.kind.isNumber = false) : t.IsNumeral := by
  constructor
  · intro hkind
    rw [hkind] at h
    cases h
  · intro hkind
    rw [hkind] at h
    cases h

/-- What the scanner takes for a number is written as one. -/
theorem isNumeral_numberLexeme {c : Char} {cs : List Char} (span : Span)
    (h : c.isDigit = true ∨ (c = '.' ∧ cs.head?.any Char.isDigit = true)) :
    (⟨(numberLexeme (c :: cs)).kind, String.ofList (numberLexeme (c :: cs)).text, span⟩ :
      Token).IsNumeral := by
  have hwhole : ((c :: cs).takeWhile Char.isDigit).all Char.isDigit = true := List.all_takeWhile
  have hpart := fraction_eq ((c :: cs).dropWhile Char.isDigit)
  have hpower := isPower_exponent (fraction ((c :: cs).dropWhile Char.isDigit)).2
  -- Without digits in front of it, the point has digits behind it.
  have hstart : (c :: cs).takeWhile Char.isDigit ≠ [] ∨
      ∃ fs, IsDigits fs ∧ (fraction ((c :: cs).dropWhile Char.isDigit)).1 = '.' :: fs := by
    rcases h with h | ⟨rfl, h⟩
    · exact .inl (by simp [h])
    · obtain ⟨d, ds, rfl⟩ : ∃ d ds, cs = d :: ds := by
        cases cs with
        | nil => simp at h
        | cons d ds => exact ⟨d, ds, rfl⟩
      have hd : d.isDigit = true := by simpa using h
      refine .inr ⟨(d :: ds).takeWhile Char.isDigit, ⟨by simp [hd], List.all_takeWhile⟩, ?_⟩
      simp [fraction, isAlphabetic_eq_false_of_isDigit hd]
  simp only [numberLexeme]
  generalize (c :: cs).takeWhile Char.isDigit = ds at hwhole hstart ⊢
  generalize (fraction ((c :: cs).dropWhile Char.isDigit)).1 = part at hpart hstart ⊢
  generalize (exponent (fraction ((c :: cs).dropWhile Char.isDigit)).2).1 = power at hpower ⊢
  constructor
  · intro hkind
    rw [String.toList_ofList]
    cases part with
    | cons p ps => simp at hkind
    | nil =>
      cases power with
      | cons p ps => simp at hkind
      | nil =>
        rw [List.append_nil, List.append_nil]
        refine ⟨?_, hwhole⟩
        rcases hstart with hne | ⟨fs, -, heq⟩
        · exact hne
        · cases heq
  · intro _
    rw [String.toList_ofList]
    refine ⟨ds ++ part, power, ?_, hpower, rfl⟩
    rcases hstart with hne | ⟨fs, hfs, rfl⟩
    · obtain rfl | ⟨fs, hfs, rfl⟩ := hpart
      · rw [List.append_nil]
        exact .whole ⟨hne, hwhole⟩
      · exact .point ⟨hne, hwhole⟩ hfs
    · exact .fraction hwhole hfs

/-- Every token of a text that is a number is written as one. -/
theorem isNumeral_lexeme (c : Char) (cs : List Char) (span : Span) :
    (⟨(lexeme c cs).kind, String.ofList (lexeme c cs).text, span⟩ : Token).IsNumeral := by
  fun_cases lexeme c cs with
  | case1 _ =>
    obtain ⟨value, h⟩ | ⟨fault, h⟩ := stringLexeme_kind c cs
    · exact isNumeral_of_kind (congrArg TokenKind.isNumber h)
    · exact isNumeral_of_kind (congrArg TokenKind.isNumber h)
  | case2 _ _ =>
    obtain ⟨name, h⟩ | ⟨fault, h⟩ := quotedNameLexeme_kind cs
    · exact isNumeral_of_kind (congrArg TokenKind.isNumber h)
    · exact isNumeral_of_kind (congrArg TokenKind.isNumber h)
  | case3 _ _ h => exact isNumeral_numberLexeme span h
  | case4 _ _ _ _ =>
    obtain ⟨word, h⟩ | ⟨name, h⟩ := nameLexeme_kind c cs
    · exact isNumeral_of_kind (congrArg TokenKind.isNumber h)
    · exact isNumeral_of_kind (congrArg TokenKind.isNumber h)
  | case5 _ _ _ _ =>
    obtain ⟨sign, h⟩ | ⟨fault, h⟩ := symbolLexeme_kind c cs
    · exact isNumeral_of_kind (congrArg TokenKind.isNumber h)
    · exact isNumeral_of_kind (congrArg TokenKind.isNumber h)

/-- The tokens of a text are numerals where they are numbers. -/
theorem isNumeral_tokenize (text : String) : ∀ t ∈ tokenize text, t.IsNumeral := by
  suffices h : ∀ (offset : Nat) (cs : List Char), ∀ t ∈ tokensFrom offset cs, t.IsNumeral from
    h 0 text.toList
  intro offset cs
  fun_induction tokensFrom offset cs with
  | case1 offset cs blank start hrest =>
    intro t ht
    rw [List.mem_singleton.1 ht]
    exact isNumeral_of_kind rfl
  | case2 offset cs blank start c rest hrest next stop ih =>
    rintro t (_ | ⟨_, ht⟩)
    · exact isNumeral_lexeme c rest _
    · exact ih t ht

end Token

end SearchSql
