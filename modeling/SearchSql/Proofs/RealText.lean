import SearchSql.Number.Notation
import SearchSql.Proofs.NumberLexemes
import SearchSql.Proofs.ShortestDigits

/-!
# Real numbers read back from their text

Wherever a layout places the point, what it writes denotes the decimal that it was given
(`reads_positional`, `reads_scientific`). As this is one that the number covers, every finite number is
read back from its text, in every layout (`readReal_text`).
-/

set_option autoImplicit false

namespace SearchSql.Number

open Token

/-! ## The values of digits -/

theorem digitsValue_append (value : Nat) (ds es : List Char) :
    digitsValue value (ds ++ es) = digitsValue (digitsValue value ds) es :=
  List.foldl_append

/-- Each zero behind multiplies by ten. -/
theorem digitsValue_append_zeros (value n : Nat) :
    digitsValue value (List.replicate n '0') = value * 10 ^ n := by
  induction n generalizing value with
  | zero => simp [digitsValue]
  | succ n ih =>
    have hnext : digitsValue value (List.replicate (n + 1) '0') =
        digitsValue (value * 10) (List.replicate n '0') := rfl
    rw [hnext, ih, Nat.pow_succ]
    ring

/-! ## What characters denote -/

/-- Whether the characters are read as the rational `q`. -/
def Reads (cs : List Char) (q : ℚ) : Prop :=
  ∃ (m : Nat) (e : Int), readDecimal cs = some (m, e) ∧ (m : ℚ) * 10 ^ e = q

/-- What stands behind the letter of an exponent is a sign and digits. -/
theorem readExponent_of_split {cs ds : List Char} (negative : Bool)
    (hsplit : splitSign cs = (negative, ds)) (hds : IsDigits ds) :
    readExponent ('e' :: cs) =
      some (if negative then -(digitsValue 0 ds : Int) else digitsValue 0 ds) := by
  simp only [readExponent, hsplit]
  rw [if_pos ⟨.inl trivial, hds.1, hds.2⟩]

/-- An exponent is read back from its decimal form. -/
theorem readExponent_toString (n : Int) : readExponent ('e' :: (toString n).toList) = some n := by
  have hdigits := isDigits_toDigits n.natAbs
  rw [toString_eq_signed, String.toList_ofList]
  by_cases hneg : n < 0
  · rw [if_pos hneg, readExponent_of_split true rfl hdigits, digitsValue_toDigits,
      if_pos rfl]
    congr 1
    omega
  · rw [if_neg hneg, List.nil_append, readExponent_of_split false (splitSign_digits hdigits) hdigits,
      digitsValue_toDigits, if_neg nofun]
    congr 1
    omega

/-- Digits without a point, and an exponent. -/
theorem readDecimal_whole {ds power : List Char} {k : Int} (hds : IsDigits ds)
    (hpower : readExponent power = some k) :
    readDecimal (ds ++ power) = some (digitsValue 0 ds, k) := by
  have hstop : IsPower power :=
    (readExponent_isSome_iff power).1 (Option.isSome_iff_exists.2 ⟨k, hpower⟩)
  unfold readDecimal
  rw [takeWhile_run hds.2 hstop.head_digit, dropWhile_run hds.2 hstop.head_digit,
    splitFraction_power hstop]
  simp [hds.1, hpower]

/-- Digits on both sides of a point, and an exponent. -/
theorem readDecimal_point {ds fs power : List Char} {k : Int} (hds : IsDigits ds) (hfs : IsDigits fs)
    (hpower : readExponent power = some k) :
    readDecimal (ds ++ '.' :: fs ++ power) = some (digitsValue 0 (ds ++ fs), k - fs.length) := by
  have hstop : IsPower power :=
    (readExponent_isSome_iff power).1 (Option.isSome_iff_exists.2 ⟨k, hpower⟩)
  unfold readDecimal
  rw [List.append_assoc, takeWhile_run hds.2 (by simp), dropWhile_run hds.2 (by simp)]
  simp only [List.cons_append, splitFraction]
  rw [takeWhile_run hfs.2 hstop.head_digit, dropWhile_run hfs.2 hstop.head_digit]
  simp [hds.1, hpower]

/-! ## Layouts -/

theorem readExponent_nil : readExponent [] = some 0 := rfl

/-- Zeros behind the digits count as places, and one behind the point changes nothing. -/
theorem reads_whole (layout : Layout) {ds : List Char} (hds : IsDigits ds) (zeros : Nat) :
    Reads (ds ++ List.replicate zeros '0' ++ (if layout.wholePoint then ['.', '0'] else []))
      (digitsValue 0 ds * (10 : ℚ) ^ (zeros : Int)) := by
  have hzeros := isDigits_append_replicate hds zeros
  have hvalue : digitsValue 0 (ds ++ List.replicate zeros '0') = digitsValue 0 ds * 10 ^ zeros := by
    rw [digitsValue_append, digitsValue_append_zeros]
  rw [zpow_natCast]
  cases layout.wholePoint with
  | true =>
    have hread := readDecimal_point hzeros isDigits_zero readExponent_nil
    rw [List.append_nil] at hread
    refine ⟨_, _, hread, ?_⟩
    have hshift : digitsValue (digitsValue 0 ds * 10 ^ zeros) ['0'] =
        digitsValue 0 ds * 10 ^ zeros * 10 := rfl
    rw [digitsValue_append, hvalue, hshift]
    push_cast
    simp
  | false =>
    have hread := readDecimal_whole hzeros readExponent_nil
    refine ⟨_, _, hread, ?_⟩
    rw [hvalue]
    push_cast
    simp

/-- Digits with a point among them, or with zeros up to it. -/
theorem reads_positional (layout : Layout) {ds : List Char} (hds : IsDigits ds) (point : Int) :
    Reads (layout.positional ds point) (digitsValue 0 ds * (10 : ℚ) ^ (point - ds.length)) := by
  unfold Layout.positional
  split
  · next hpoint =>
    -- Zeros stand between the point and the digits.
    have hread := readDecimal_point isDigits_zero
      (isDigits_replicate_append hds (-point).toNat) readExponent_nil
    rw [List.append_nil] at hread
    refine ⟨_, _, hread, ?_⟩
    have hvalue : digitsValue 0 (['0'] ++ (List.replicate (-point).toNat '0' ++ ds)) =
        digitsValue 0 ds := digitsValue_zeros ((-point).toNat + 1) ds
    rw [hvalue, List.length_append, List.length_replicate]
    congr 2
    omega
  · split
    · next hpoint hwhole =>
      have hexponent : point - ds.length = ((point.toNat - ds.length : Nat) : Int) := by omega
      rw [hexponent]
      exact reads_whole layout hds _
    · next hpoint hwhole =>
      -- The point stands between two of the digits.
      have hparts := hds.split_at (n := point.toNat) (by omega) (by omega)
      have hread := readDecimal_point hparts.1 hparts.2 readExponent_nil
      rw [List.append_nil, List.take_append_drop, List.length_drop] at hread
      refine ⟨_, _, hread, ?_⟩
      congr 2
      omega

/-- Digits with a point after the first, and an exponent. -/
theorem reads_scientific {ds : List Char} (hds : IsDigits ds) (point : Int) :
    Reads (Layout.scientific ds point) (digitsValue 0 ds * (10 : ℚ) ^ (point - ds.length)) := by
  have hpower := readExponent_toString (point - 1)
  unfold Layout.scientific
  match ds, hds with
  | [], hds => exact absurd rfl hds.1
  | [d], hds => exact ⟨_, _, readDecimal_whole hds hpower, rfl⟩
  | d :: e :: rest, hds =>
    obtain ⟨hd, hrest⟩ := hds.head_tail
    have hread := readDecimal_point hd hrest hpower
    refine ⟨_, _, hread, ?_⟩
    have hexponent : point - 1 - (e :: rest).length = point - (d :: e :: rest).length := by
      rw [List.length_cons (a := d)]
      omega
    rw [hexponent]
    rfl

/-- What a layout writes for a number other than zero denotes the decimal with the shortest digits. -/
theorem reads_magnitude (layout : Layout) {x : Binary64} (hzero : x.isZero = false) :
    Reads (layout.magnitude x) (shortest x).value := by
  have hvalue : (shortest x).value =
      digitsValue 0 (Nat.toDigits 10 (shortest x).digits) *
        (10 : ℚ) ^ ((Nat.toDigits 10 (shortest x).digits).length + (shortest x).exponent -
          (Nat.toDigits 10 (shortest x).digits).length) := by
    rw [digitsValue_toDigits, add_sub_cancel_left]
    rfl
  unfold Layout.magnitude
  rw [hzero, if_neg nofun, hvalue]
  dsimp only
  split
  · exact reads_positional layout (isDigits_toDigits _) _
  · exact reads_scientific (isDigits_toDigits _) _

/-- Zero is written with the digit for it, which denotes it. -/
theorem readDecimal_zero (layout : Layout) {x : Binary64} (hzero : x.isZero = true) :
    ∃ e, readDecimal (layout.magnitude x) = some (0, e) := by
  unfold Layout.magnitude
  rw [if_pos hzero]
  cases layout.wholePoint with
  | true => exact ⟨-1, rfl⟩
  | false => exact ⟨0, rfl⟩

/-! ## Texts -/

/-- A text is the sign and the absolute value. -/
theorem layout_text (layout : Layout) (x : Binary64) :
    (if x.negative then "-" else "") ++ String.ofList (layout.magnitude x) = layout.text x := by
  rw [Layout.text, String.ofList_append]
  cases x.negative with
  | true => rfl
  | false => rfl

theorem signedText_eq (negative : Bool) (text : String) :
    signedText negative text = (if negative then "-" else "") ++ text := by
  cases negative with
  | true => rfl
  | false => exact String.empty_append.symm

/-- The decimal that a finite number is written as rounds to it. -/
theorem exists_readDecimal (layout : Layout) {x : Binary64} (hfinite : x.isFinite = true) :
    ∃ m e, readDecimal (layout.magnitude x) = some (m, e) ∧ Binary64.ofDecimal x.negative m e = x := by
  cases hzero : x.isZero with
  | true =>
    obtain ⟨e, hread⟩ := readDecimal_zero layout hzero
    have hmagnitude : x.magnitude = 0 := beq_iff_eq.1 hzero
    refine ⟨0, e, hread, ?_⟩
    unfold Binary64.ofDecimal Binary64.magnitudeOfDecimal
    rw [if_pos (.inl rfl), ← hmagnitude]
  | false =>
    obtain ⟨m, e, hread, hvalue⟩ := reads_magnitude layout hzero
    refine ⟨m, e, hread, Binary64.ofDecimal_of_covers hfinite hzero ?_⟩
    rw [hvalue]
    exact covers_shortest hzero

/-- A finite number is read back from its text. -/
theorem readReal_text (layout : Layout) {x : Binary64} (hfinite : x.isFinite = true) :
    readReal (layout.text x) = .ok x := by
  obtain ⟨m, e, hread, hvalue⟩ := exists_readDecimal layout hfinite
  have hdecimal : IsDecimal (String.ofList (layout.magnitude x)).toList := by
    rw [String.toList_ofList]
    exact (readDecimal_isSome_iff _).1 (Option.isSome_iff_exists.2 ⟨_, hread⟩)
  obtain ⟨m', e', hread', hreal⟩ := readReal_decimal x.negative hdecimal
  rw [String.toList_ofList, hread] at hread'
  obtain ⟨rfl, rfl⟩ := Prod.mk.inj (Option.some.inj hread')
  rw [signedText_eq, layout_text, hvalue, if_pos hfinite] at hreal
  exact hreal

end SearchSql.Number
