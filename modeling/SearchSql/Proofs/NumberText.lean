import SearchSql.Proofs.Lexing

/-!
# Numbers as they are written

A number is written as one token, with the sign in front of it as another. The integers of the range
that is read are read back from their decimal form (`readSigned_toString`, `readUnsigned_toString`),
and every layout writes real numbers in a form that lexes to a number (`lexes_layout`).
-/

set_option autoImplicit false

namespace SearchSql

open Token

/-! ## Numerals -/

theorem isDigit_ne {c d : Char} (h : c.isDigit = true) (hd : d.isDigit = false) : c ≠ d := by
  rintro rfl
  exact absurd (h.symm.trans hd) nofun

/-- A digit is no blank character. -/
theorem isBlank_of_isDigit {c : Char} (h : c.isDigit = true) : Text.isBlank c = false := by
  cases hblank : Text.isBlank c with
  | false => rfl
  | true =>
    have hdigits : Text.inRanges [(48, 57)] c.toNat = false :=
      inRanges_disjoint (by decide) hblank
    simp only [Char.isDigit, Bool.and_eq_true, decide_eq_true_eq, ge_iff_le,
      UInt32.le_iff_toNat_le] at h
    have hrange : 48 ≤ c.toNat ∧ c.toNat ≤ 57 := h
    simp [Text.inRanges, hrange] at hdigits

/-- No gap starts with a digit. -/
theorem startsGap_of_isDigit {c : Char} (h : c.isDigit = true) (cs : List Char) :
    startsGap c cs = false := by
  have hminus : c ≠ '-' := isDigit_ne h (by decide)
  have hslash : c ≠ '/' := isDigit_ne h (by decide)
  simp [startsGap, isBlank_of_isDigit h, hminus, hslash]

/-- A digit starts a number. -/
theorem lexeme_digit {c : Char} (h : c.isDigit = true) (cs : List Char) :
    lexeme c cs = numberLexeme (c :: cs) := by
  have hquote : c ≠ Text.quoteMark := isDigit_ne h (by decide)
  have hdouble : c ≠ Text.doubleMark := isDigit_ne h (by decide)
  have hbacktick : c ≠ Text.backtick := isDigit_ne h (by decide)
  simp [lexeme, hquote, hdouble, hbacktick, h]

/-- A run of digits as one may be written: not empty. -/
def IsDigits (ds : List Char) : Prop := ds ≠ [] ∧ ds.all Char.isDigit = true

/-- Decimal digits are digits, and there is at least one. -/
theorem isDigits_toDigits (n : Nat) : IsDigits (Nat.toDigits 10 n) :=
  ⟨Nat.toDigits_ne_nil, List.all_eq_true.2 fun _ h =>
    Nat.isDigit_of_mem_toDigits (by decide) (by decide) h⟩

/-- The token of a numeral with the given fraction and exponent. -/
theorem tokensOf_numeral {ds : List Char} (part power rest : List Char) (hds : IsDigits ds)
    (hhead : ∀ c ∈ (part ++ (power ++ rest)).head?, c.isDigit = false)
    (hpart : fraction (part ++ (power ++ rest)) = (part, power ++ rest))
    (hpower : exponent (power ++ rest) = (power, rest)) :
    tokensOf (ds ++ part ++ power ++ rest) =
      ⟨if part.isEmpty && power.isEmpty then .integer else .real, String.ofList (ds ++ part ++ power),
        default⟩ :: tokensOf rest := by
  have hlexeme : numberLexeme (ds ++ part ++ power ++ rest) =
      ⟨if part.isEmpty && power.isEmpty then .integer else .real, ds ++ part ++ power, rest⟩ := by
    simp only [numberLexeme, List.append_assoc]
    rw [takeWhile_run hds.2 hhead, dropWhile_run hds.2 hhead, hpart, hpower]
  obtain ⟨hne, hall⟩ := hds
  cases ds with
  | nil => exact absurd rfl hne
  | cons d ds =>
    have hd : d.isDigit = true := List.all_eq_true.1 hall d List.mem_cons_self
    simp only [List.cons_append] at hlexeme ⊢
    rw [tokensOf_lexeme (startsGap_of_isDigit hd _), lexeme_digit hd, hlexeme]

/-- Without a point, there is no fraction. -/
theorem fraction_of_head {cs : List Char} (h : cs.head? ≠ some '.') : fraction cs = ([], cs) := by
  unfold fraction
  split
  · exact absurd rfl h
  · rfl

/-- A point with digits behind it is a fraction. -/
theorem fraction_digits {fs rest : List Char} (hfs : IsDigits fs)
    (hrest : ∀ c ∈ rest.head?, c.isDigit = false) :
    fraction ('.' :: fs ++ rest) = ('.' :: fs, rest) := by
  obtain ⟨hne, hall⟩ := hfs
  have hhead : ¬(fs ++ rest).head?.any Text.isAlphabetic = true := by
    cases fs with
    | nil => exact absurd rfl hne
    | cons f fs =>
      have hf : f.isDigit = true := List.all_eq_true.1 hall f List.mem_cons_self
      simp [isAlphabetic_eq_false_of_isDigit hf]
  show fraction ('.' :: (fs ++ rest)) = _
  rw [fraction, if_neg hhead, takeWhile_run hall hrest, dropWhile_run hall hrest]

/-- Where a token stops, no exponent starts. -/
theorem exponent_of_stops {rest : List Char} (h : Stops rest) : exponent rest = ([], rest) := by
  cases rest with
  | nil => rfl
  | cons c cs =>
    have hlower : c ≠ 'e' := fun heq => h.head_ne (by decide) (congrArg some heq)
    have hupper : c ≠ 'E' := fun heq => h.head_ne (by decide) (congrArg some heq)
    simp [exponent, hlower, hupper]

/-- The sign of an exponent as it may be written. -/
def IsSign (cs : List Char) : Prop := cs = [] ∨ cs = ['-']

/-- An exponent is read up to its last digit. -/
theorem exponent_digits {sign es rest : List Char} (hsign : IsSign sign) (hes : IsDigits es)
    (hrest : ∀ c ∈ rest.head?, c.isDigit = false) :
    exponent ('e' :: (sign ++ es) ++ rest) = ('e' :: (sign ++ es), rest) := by
  obtain ⟨hne, hall⟩ := hes
  have hsigned : exponentSign (sign ++ (es ++ rest)) = (sign, es ++ rest) := by
    obtain rfl | rfl := hsign
    · cases es with
      | nil => exact absurd rfl hne
      | cons e es =>
        have he : e.isDigit = true := List.all_eq_true.1 hall e List.mem_cons_self
        have hplus : e ≠ '+' := isDigit_ne he (by decide)
        have hminus : e ≠ '-' := isDigit_ne he (by decide)
        simp only [List.nil_append, List.cons_append]
        unfold exponentSign
        split
        · next heq => exact absurd (List.cons.inj heq).1 hplus
        · next heq => exact absurd (List.cons.inj heq).1 hminus
        · rfl
    · rfl
  have hhead : (es ++ rest).head?.any Char.isDigit = true := by
    cases es with
    | nil => exact absurd rfl hne
    | cons e es => simpa using List.all_eq_true.1 hall e List.mem_cons_self
  show exponent ('e' :: ((sign ++ es) ++ rest)) = _
  rw [List.append_assoc]
  simp only [exponent, hsigned, hhead, true_or, and_self, if_true]
  rw [takeWhile_run hall hrest, dropWhile_run hall hrest]

/-- The token of an unsigned number. -/
def numberToken (kind : TokenKind) (cs : List Char) : Token := ⟨kind, String.ofList cs, default⟩

/-- Digits are read as an integer. -/
theorem lexes_digits {ds : List Char} (hds : IsDigits ds) :
    Lexes (String.ofList ds) [numberToken .integer ds] := by
  intro cs hcs
  have h := tokensOf_numeral [] [] cs hds hcs.digit
    (fraction_of_head (hcs.head_ne (by decide))) (exponent_of_stops hcs)
  simpa [numberToken] using h

/-- Digits with a fraction are read as a real number. -/
theorem lexes_point {ds fs : List Char} (hds : IsDigits ds) (hfs : IsDigits fs) :
    Lexes (String.ofList (ds ++ '.' :: fs)) [numberToken .real (ds ++ '.' :: fs)] := by
  intro cs hcs
  have h := tokensOf_numeral ('.' :: fs) [] cs hds (by simp)
    (fraction_digits hfs hcs.digit) (exponent_of_stops hcs)
  simpa [numberToken] using h

/-- Digits with an exponent are read as a real number, with a fraction or without. -/
theorem lexes_power {ds part sign es : List Char} (hds : IsDigits ds)
    (hpart : part = [] ∨ ∃ fs, IsDigits fs ∧ part = '.' :: fs) (hsign : IsSign sign)
    (hes : IsDigits es) :
    Lexes (String.ofList (ds ++ part ++ 'e' :: (sign ++ es)))
      [numberToken .real (ds ++ part ++ 'e' :: (sign ++ es))] := by
  intro cs hcs
  have hexponent := exponent_digits hsign hes hcs.digit
  have hletter : ∀ c ∈ ('e' :: (sign ++ es) ++ cs).head?, c.isDigit = false := by simp
  rw [String.toList_ofList]
  obtain rfl | ⟨fs, hfs, rfl⟩ := hpart
  · exact tokensOf_numeral [] _ cs hds hletter (fraction_of_head (by simp)) hexponent
  · rw [tokensOf_numeral ('.' :: fs) _ cs hds (by simp) (fraction_digits hfs hletter) hexponent]
    rfl

/-! ## Integers -/

open Number

/-- The value of digits is the one that the library gives. -/
theorem digitsValue_eq (value : Nat) (cs : List Char) :
    digitsValue value cs = Nat.ofDigitChars 10 cs value := by
  induction cs generalizing value with
  | nil => rfl
  | cons c cs ih =>
    rw [Nat.ofDigitChars_cons, Nat.mul_comm]
    exact ih _

/-- The decimal digits of a number have its value. -/
theorem digitsValue_toDigits (n : Nat) : digitsValue 0 (Nat.toDigits 10 n) = n := by
  rw [digitsValue_eq, Nat.ofDigitChars_ten_toDigits]

/-- Zeros in front count for nothing. -/
theorem digitsValue_zeros (n : Nat) (ds : List Char) :
    digitsValue 0 (List.replicate n '0' ++ ds) = digitsValue 0 ds := by
  induction n with
  | zero => rfl
  | succ n ih => exact ih

/-- Further digits do not make a value smaller. -/
theorem le_digitsValue (value : Nat) (cs : List Char) : value ≤ digitsValue value cs := by
  induction cs generalizing value with
  | nil => exact Nat.le_refl value
  | cons c cs ih =>
    have h := ih (value * 10 + digitValue c)
    show value ≤ digitsValue (value * 10 + digitValue c) cs
    omega

/-- Digits are read if what they denote is in the range. -/
theorem readDigits_of_le {limit : Nat} (beyond : IntegerFault) (value : Nat) {cs : List Char}
    (hdigits : cs.all Char.isDigit = true) (h : digitsValue value cs ≤ limit) :
    readDigits limit beyond value cs = .ok (digitsValue value cs) := by
  induction cs generalizing value with
  | nil => rfl
  | cons c cs ih =>
    simp only [List.all_cons, Bool.and_eq_true] at hdigits
    have hnext : ¬limit < value * 10 + digitValue c :=
      Nat.not_lt.2 (Nat.le_trans (le_digitsValue _ cs) h)
    simp only [readDigits, hdigits.1, if_true, hnext, if_false]
    exact ih _ hdigits.2 h

/-- What is read is in the range. -/
theorem le_of_readDigits {limit : Nat} {beyond : IntegerFault} {cs : List Char} {value n : Nat}
    (hvalue : value ≤ limit) (h : readDigits limit beyond value cs = .ok n) : n ≤ limit := by
  induction cs generalizing value with
  | nil =>
    cases h
    exact hvalue
  | cons c cs ih =>
    simp only [readDigits] at h
    split at h
    · split at h
      · cases h
      · next hle => exact ih (Nat.not_lt.1 hle) h
    · cases h

/-- A number within the limit is read from its digits. -/
theorem readMagnitude_toDigits {limit n : Nat} (beyond : IntegerFault) (h : n ≤ limit) :
    readMagnitude limit beyond (Nat.toDigits 10 n) = .ok n := by
  have hread := readDigits_of_le beyond 0 (isDigits_toDigits n).2
    ((digitsValue_toDigits n).symm ▸ h)
  rw [digitsValue_toDigits] at hread
  unfold readMagnitude
  split
  · next heq => exact absurd heq Nat.toDigits_ne_nil
  · exact hread

/-- What is read is within the limit. -/
theorem le_of_readMagnitude {limit n : Nat} {beyond : IntegerFault} {cs : List Char}
    (h : readMagnitude limit beyond cs = .ok n) : n ≤ limit := by
  unfold readMagnitude at h
  split at h
  · cases h
  · exact le_of_readDigits (Nat.zero_le limit) h

/-- The values that are read without a sign are in the range. -/
theorem lt_of_readUnsigned {text : String} {n : Nat} (h : readUnsigned text = .ok n) :
    n < unsignedBound := by
  have hle : n ≤ unsignedBound - 1 := by
    unfold readUnsigned at h
    split at h
    · cases h
    · exact le_of_readMagnitude h
    · exact le_of_readMagnitude h
  simp only [unsignedBound] at hle ⊢
  omega

/-- A number of the range is read back from its decimal form. -/
theorem readUnsigned_toString {n : Nat} (h : n < unsignedBound) :
    readUnsigned (toString n) = .ok n := by
  have hle : n ≤ unsignedBound - 1 := by omega
  have hread := readMagnitude_toDigits .tooLarge hle
  obtain ⟨hne, hall⟩ := isDigits_toDigits n
  unfold readUnsigned
  rw [Nat.toString_eq_repr, Nat.toList_repr]
  split
  · next heq => exact absurd heq hne
  · next cs heq =>
    rw [heq] at hall
    exact absurd hall (by simp)
  · exact hread

/-- A result in another form was a result before. -/
theorem ok_of_map {ε α β : Type} {x : Except ε α} {f : α → β} {b : β} (h : x.map f = .ok b) :
    ∃ a, x = .ok a ∧ f a = b := by
  cases x with
  | error e => cases h
  | ok a => exact ⟨a, rfl, Except.ok.inj h⟩

/-- The values that are read with a sign are in the range. -/
theorem range_of_readSigned {text : String} {n : Int} (h : readSigned text = .ok n) :
    -signedBound ≤ n ∧ n < signedBound := by
  have hplain {m : Nat} (hm : m ≤ signedBound - 1) (heq : Int.ofNat m = n) :
      -signedBound ≤ n ∧ n < signedBound := by
    simp only [signedBound] at hm ⊢
    simp only [Int.ofNat_eq_natCast] at heq
    omega
  unfold readSigned at h
  split at h
  · cases h
  · next cs _ =>
    cases hread : readMagnitude signedBound .tooSmall cs with
    | error fault =>
      rw [hread] at h
      cases h
    | ok m =>
      have hle := le_of_readMagnitude hread
      rw [hread] at h
      have heq : -(m : Int) = n := Except.ok.inj h
      simp only [signedBound] at hle ⊢
      omega
  · obtain ⟨m, h, heq⟩ := ok_of_map h
    exact hplain (le_of_readMagnitude h) heq
  · obtain ⟨m, h, heq⟩ := ok_of_map h
    exact hplain (le_of_readMagnitude h) heq

/-- An integer of the range is read back from its decimal form. -/
theorem readSigned_toString {n : Int} (h : -signedBound ≤ n ∧ n < signedBound) :
    readSigned (toString n) = .ok n := by
  simp only [signedBound] at h
  -- The size of a negative number may be one greater than that of the others.
  cases n with
  | ofNat m =>
    have hle : m ≤ 2 ^ 63 - 1 := by
      have h2 := h.2
      simp only [Int.ofNat_eq_natCast] at h2
      omega
    have hread := readMagnitude_toDigits .tooLarge hle
    have hall := (isDigits_toDigits m).2
    show readSigned (Nat.repr m) = _
    unfold readSigned
    rw [Nat.toList_repr]
    split
    · next heq => exact absurd heq Nat.toDigits_ne_nil
    · next cs heq => exact absurd (heq ▸ hall) (by simp)
    · next cs heq => exact absurd (heq ▸ hall) (by simp)
    · simp only [signedBound, hread]
      rfl
  | negSucc m =>
    have hle : m + 1 ≤ 2 ^ 63 := by omega
    have hread := readMagnitude_toDigits .tooSmall hle
    have hchars : ("-" ++ Nat.repr (m + 1)).toList = '-' :: Nat.toDigits 10 (m + 1) := by
      rw [String.toList_append, Nat.toList_repr]
      rfl
    show readSigned ("-" ++ Nat.repr (m + 1)) = _
    unfold readSigned
    rw [hchars]
    simp only [signedBound, hread]
    rfl

/-! ## Written numbers -/

/-- The kind of an unsigned number: an integer if it has nothing but digits. -/
def numeralKind (cs : List Char) : TokenKind := if cs.all Char.isDigit then .integer else .real

/-- The token of an unsigned number of the kind that its characters show. -/
def numeralToken (cs : List Char) : Token := numberToken (numeralKind cs) cs

/-- The characters are an unsigned number. -/
structure IsNumeral (cs : List Char) : Prop where
  head : ∃ c ds, cs = c :: ds ∧ c.isDigit = true
  lexes : Lexes (String.ofList cs) [numeralToken cs]

/-- A numeral is a number, of whichever kind. -/
theorem isNumber_numeralKind (cs : List Char) : (numeralKind cs).isNumber = true := by
  unfold numeralKind
  split <;> rfl

/-- A numeral with anything but digits is a real number. -/
theorem numeralKind_of_mem {c : Char} {cs : List Char} (h : c ∈ cs) (hc : c.isDigit = false) :
    numeralKind cs = .real := by
  refine if_neg fun hall => ?_
  have hdigit := List.all_eq_true.1 hall c h
  rw [hc] at hdigit
  cases hdigit

/-- Digits begin with a digit. -/
theorem IsDigits.head {ds : List Char} (h : IsDigits ds) (cs : List Char) :
    ∃ c es, ds ++ cs = c :: es ∧ c.isDigit = true := by
  obtain ⟨hne, hall⟩ := h
  cases ds with
  | nil => exact absurd rfl hne
  | cons d ds => exact ⟨d, ds ++ cs, rfl, List.all_eq_true.1 hall d List.mem_cons_self⟩

/-- Digits are a numeral, as are digits with a fraction or with an exponent. -/
theorem isNumeral_digits {ds : List Char} (h : IsDigits ds) : IsNumeral ds := by
  refine ⟨by simpa using h.head [], ?_⟩
  rw [numeralToken, numeralKind, if_pos h.2]
  exact lexes_digits h

theorem isNumeral_point {ds fs : List Char} (hds : IsDigits ds) (hfs : IsDigits fs) :
    IsNumeral (ds ++ '.' :: fs) := by
  refine ⟨hds.head _, ?_⟩
  rw [numeralToken, numeralKind_of_mem (c := '.') (by simp) (by decide)]
  exact lexes_point hds hfs

theorem isNumeral_power {ds part sign es : List Char} (hds : IsDigits ds)
    (hpart : part = [] ∨ ∃ fs, IsDigits fs ∧ part = '.' :: fs) (hsign : IsSign sign)
    (hes : IsDigits es) : IsNumeral (ds ++ part ++ 'e' :: (sign ++ es)) := by
  refine ⟨?_, ?_⟩
  · rw [List.append_assoc]
    exact hds.head _
  · rw [numeralToken, numeralKind_of_mem (c := 'e') (by simp) (by decide)]
    exact lexes_power hds hpart hsign hes

/-- The tokens of a number with its sign. -/
def signedTokens (negative : Bool) (cs : List Char) : List Token :=
  if negative then [ofSymbol .minus, numeralToken cs] else [numeralToken cs]

/-- A sign in front of a number is a token of its own. -/
theorem IsNumeral.lexes_signed {ds : List Char} (h : IsNumeral ds) (negative : Bool) :
    Lexes (String.ofList ((if negative then ['-'] else []) ++ ds)) (signedTokens negative ds) := by
  cases negative with
  | false => exact h.lexes
  | true =>
    intro cs hcs
    have hlexes := h.lexes cs hcs
    rw [String.toList_ofList] at hlexes ⊢
    obtain ⟨c, es, rfl, hc⟩ := h.head
    have hminus : c ≠ '-' := isDigit_ne hc (by decide)
    have hgap : startsGap '-' (c :: es ++ cs) = false := by
      simp [startsGap, hminus]
      decide
    show tokensOf ('-' :: (c :: es ++ cs)) = _
    rw [tokensOf_symbol (c := '-') rfl hgap (absurd · (by decide)) (by simp [doubleSymbol?]), hlexes]
    rfl

/-- The tokens of an integer. -/
def integerTokens (n : Int) : List Token := signedTokens (n < 0) (Nat.toDigits 10 n.natAbs)

/-- An integer is written as its sign and its digits. -/
theorem toString_eq_signed (n : Int) :
    toString n = String.ofList ((if n < 0 then ['-'] else []) ++ Nat.toDigits 10 n.natAbs) := by
  cases n with
  | ofNat m =>
    rw [if_neg (by simp)]
    rfl
  | negSucc m =>
    rw [if_pos (Int.negSucc_lt_zero m), String.ofList_append]
    rfl

/-- A written integer is read as its sign and its digits. -/
theorem lexes_integer (n : Int) : Lexes (toString n) (integerTokens n) := by
  have h := (isNumeral_digits (isDigits_toDigits n.natAbs)).lexes_signed (decide (n < 0))
  rw [toString_eq_signed]
  simpa [integerTokens] using h

/-- A written count is read as a single number. -/
theorem lexes_count (n : Nat) : Lexes (toString n) [numeralToken (Nat.toDigits 10 n)] :=
  (isNumeral_digits (isDigits_toDigits n)).lexes

/-! ## Layouts of real numbers -/

/-- Zeros in front of digits are digits. -/
theorem isDigits_replicate_append {ds : List Char} (h : IsDigits ds) (n : Nat) :
    IsDigits (List.replicate n '0' ++ ds) := by
  refine ⟨by simp [h.1], ?_⟩
  rw [List.all_append, h.2, Bool.and_true]
  simp

theorem isDigits_append_replicate {ds : List Char} (h : IsDigits ds) (n : Nat) :
    IsDigits (ds ++ List.replicate n '0') := by
  refine ⟨by simp [h.1], ?_⟩
  rw [List.all_append, h.2, Bool.true_and]
  simp

theorem isDigits_zero : IsDigits ['0'] := ⟨by simp, by decide⟩

/-- Both parts of a run of digits are such runs, if neither is empty. -/
theorem IsDigits.split {ds es : List Char} (h : IsDigits (ds ++ es)) (hds : ds ≠ []) (hes : es ≠ []) :
    IsDigits ds ∧ IsDigits es := by
  have hall := h.2
  rw [List.all_append, Bool.and_eq_true] at hall
  exact ⟨⟨hds, hall.1⟩, hes, hall.2⟩

/-- The first digit and those behind it. -/
theorem IsDigits.head_tail {d e : Char} {rest : List Char} (h : IsDigits (d :: e :: rest)) :
    IsDigits [d] ∧ IsDigits (e :: rest) :=
  IsDigits.split h nofun nofun

/-- The digits in front of a point among them and those behind it. -/
theorem IsDigits.split_at {ds : List Char} (h : IsDigits ds) {n : Nat} (hpos : 0 < n)
    (hlt : n < ds.length) : IsDigits (ds.take n) ∧ IsDigits (ds.drop n) := by
  apply IsDigits.split
  · rw [List.take_append_drop]
    exact h
  · intro hnil
    have hlength := congrArg List.length hnil
    rw [List.length_take, List.length_nil] at hlength
    omega
  · intro hnil
    have hlength := congrArg List.length hnil
    rw [List.length_drop, List.length_nil] at hlength
    omega

/-- A number whose point is placed among its digits lexes to one token. -/
theorem isNumeral_positional (layout : Layout) {ds : List Char} (h : IsDigits ds) (point : Int) :
    IsNumeral (layout.positional ds point) := by
  unfold Layout.positional
  split
  · exact isNumeral_point isDigits_zero (isDigits_replicate_append h _)
  · split
    · cases layout.wholePoint with
      | true => exact isNumeral_point (isDigits_append_replicate h _) isDigits_zero
      | false => simpa using isNumeral_digits (isDigits_append_replicate h (point.toNat - ds.length))
    · have hparts := h.split_at (n := point.toNat) (by omega) (by omega)
      exact isNumeral_point hparts.1 hparts.2

/-- The scientific layout of digits is a numeral. -/
theorem isNumeral_scientific {ds : List Char} (h : IsDigits ds) (point : Int) :
    IsNumeral (Layout.scientific ds point) := by
  have hsign : IsSign (if point - 1 < 0 then ['-'] else []) := by
    unfold IsSign
    split
    · exact .inr rfl
    · exact .inl rfl
  have hes := isDigits_toDigits (point - 1).natAbs
  unfold Layout.scientific
  rw [toString_eq_signed, String.toList_ofList]
  match ds, h with
  | [], h => exact absurd rfl h.1
  | [d], h => simpa using isNumeral_power h (.inl rfl) hsign hes
  | d :: e :: rest, h =>
    obtain ⟨hd, hfs⟩ := h.head_tail
    simpa using isNumeral_power hd (.inr ⟨_, hfs, rfl⟩) hsign hes

/-- A real number without its sign lexes to one token. -/
theorem isNumeral_magnitude (layout : Layout) (x : Binary64) : IsNumeral (layout.magnitude x) := by
  unfold Layout.magnitude
  split
  · cases layout.wholePoint with
    | true => exact isNumeral_point isDigits_zero isDigits_zero
    | false => exact isNumeral_digits isDigits_zero
  · dsimp only
    split
    · exact isNumeral_positional layout (isDigits_toDigits _) _
    · exact isNumeral_scientific (isDigits_toDigits _) _

/-- Where whole numbers keep a point, every number shows that it is real. -/
theorem numeralKind_magnitude {layout : Layout} (h : layout.wholePoint = true) (x : Binary64) :
    numeralKind (layout.magnitude x) = .real := by
  have hpoint {cs : List Char} (hmem : '.' ∈ cs) : numeralKind cs = .real :=
    numeralKind_of_mem hmem (by decide)
  unfold Layout.magnitude
  split
  · exact hpoint (by simp)
  · dsimp only
    split
    · refine hpoint ?_
      unfold Layout.positional
      split
      · simp
      · split
        · simp
        · simp
    · exact numeralKind_of_mem (c := 'e') (by simp [Layout.scientific]) (by decide)

/-- Every layout writes a real number so that it lexes to a number with its sign in front. -/
theorem lexes_layout (layout : Layout) (x : Binary64) :
    Lexes (layout.text x) (signedTokens x.negative (layout.magnitude x)) :=
  (isNumeral_magnitude layout x).lexes_signed x.negative

end SearchSql
