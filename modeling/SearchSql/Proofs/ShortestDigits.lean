import SearchSql.Proofs.Rounding

/-!
# The shortest digits read back

The decimal that is picked for a number lies in the interval that rounds to the number
(`covers_shortest`). A count of digits is accepted only if one of the two neighbours of the value with
that many digits is in the interval, and seventeen digits are always enough, as they are closer to one
another than the ends of the interval.
-/

set_option autoImplicit false

namespace SearchSql.Number

-- Powers of natural numbers are those of the core library, as in the definitions.
attribute [local instance (2000)] instPowNat

/-- The rational number that a decimal denotes. -/
def Decimal.value (d : Decimal) : ℚ := d.digits * 10 ^ d.exponent

/-- Taking a zero off the end and raising the exponent changes nothing. -/
theorem Decimal.value_trim (d : Decimal) : d.trim.value = d.value := by
  unfold trim
  split
  · next hzero =>
    have hdigits : d.digits = 10 * (d.digits / 10) := by omega
    have hcast : (d.digits : ℚ) = 10 * ((d.digits / 10 : Nat) : ℚ) := by exact_mod_cast hdigits
    unfold value
    rw [hcast, zpow_add_one₀ (by norm_num : (10 : ℚ) ≠ 0)]
    ring
  · rfl

/-! ## The place of the point -/

/-- A number is below the power of ten with as many zeros as it has digits. -/
theorem lt_pow_digitCount (n : Nat) : n < 10 ^ digitCount n :=
  (Nat.length_toDigits_le_iff (by decide) Nat.length_toDigits_pos).1 (le_refl _)

/-- A positive number reaches the power of ten with one zero less than it has digits. -/
theorem pow_digitCount_le {n : Nat} (h : 0 < n) : 10 ^ (digitCount n - 1) ≤ n := by
  by_contra hlt
  rcases Nat.eq_zero_or_pos (digitCount n - 1) with hone | hmore
  · rw [hone, Nat.pow_zero] at hlt
    omega
  · have hlength := (Nat.length_toDigits_le_iff (by decide : 1 < 10) hmore).2 (not_le.1 hlt)
    unfold digitCount at hlength hmore
    omega

/-- The first digit of a ratio, counted from the point, is not zero. -/
theorem pow_pointPosition_le {num den : Nat} (hnum : 0 < num) (hden : 0 < den) :
    (10 : ℚ) ^ (pointPosition num den - 1) ≤ (num : ℚ) / den := by
  have hcompare := ratio_lt_iff num hden (by decide : 0 < 10) 1
    ((digitCount num : Int) - digitCount den)
  rw [Nat.one_mul, Nat.cast_one, one_mul] at hcompare
  unfold pointPosition
  dsimp only
  split
  · next hle =>
    rw [add_sub_cancel_right]
    exact not_lt.1 fun hlt => absurd (hcompare.2 hlt) (not_lt.2 hle)
  · have hden' : (0 : ℚ) < den := Nat.cast_pos.2 hden
    have hpos : 0 < digitCount num := Nat.length_toDigits_pos
    have hnumLow : (10 : ℚ) ^ (digitCount num - 1) ≤ num := by exact_mod_cast pow_digitCount_le hnum
    have hdenHigh : (den : ℚ) ≤ 10 ^ digitCount den := by exact_mod_cast (lt_pow_digitCount den).le
    rw [le_div_iff₀ hden']
    calc (10 : ℚ) ^ ((digitCount num : Int) - digitCount den - 1) * den
        ≤ 10 ^ ((digitCount num : Int) - digitCount den - 1) * 10 ^ digitCount den := by gcongr
      _ = 10 ^ (digitCount num - 1) := by
        rw [← zpow_natCast, ← zpow_natCast, ← zpow_add₀ (by norm_num : (10 : ℚ) ≠ 0)]
        congr 1
        omega
      _ ≤ num := hnumLow

/-! ## Neighbours -/

namespace ReadBack

variable {r : ReadBack}

/-- Whether a rational is in the interval. -/
structure Contains (r : ReadBack) (q : ℚ) : Prop where
  low : (r.low : ℚ) / r.den ≤ q
  high : q ≤ (r.high : ℚ) / r.den
  inside : r.closed = false → (r.low : ℚ) / r.den < q ∧ q < (r.high : ℚ) / r.den

/-- Whether the interval is one around its value. -/
structure Around (r : ReadBack) : Prop where
  den : 0 < r.den
  low : r.low < r.value
  high : r.value < r.high

/-- The multiple of a power of ten that is next to the value and not above it. -/
def below (r : ReadBack) (e : Int) : Nat :=
  r.value * 10 ^ (-e).toNat / (r.den * 10 ^ e.toNat)

/-- Whether the lower end of the interval reaches a multiple of a power of ten from below. -/
def lowReaches (r : ReadBack) (c : Nat) (e : Int) : Bool :=
  if r.closed then r.low * 10 ^ (-e).toNat ≤ c * (r.den * 10 ^ e.toNat)
  else r.low * 10 ^ (-e).toNat < c * (r.den * 10 ^ e.toNat)

/-- Whether a multiple of a power of ten reaches the upper end of the interval from below. -/
def reachesHigh (r : ReadBack) (c : Nat) (e : Int) : Bool :=
  if r.closed then c * (r.den * 10 ^ e.toNat) ≤ r.high * 10 ^ (-e).toNat
  else c * (r.den * 10 ^ e.toNat) < r.high * 10 ^ (-e).toNat

theorem neighbour?_eq (r : ReadBack) (e : Int) : ∃ upNearer : Bool, r.neighbour? e =
    if r.reachesHigh (r.below e + 1) e && (!r.lowReaches (r.below e) e || upNearer) then
      some ⟨r.below e + 1, e⟩
    else if r.lowReaches (r.below e) e then some ⟨r.below e, e⟩
    else none := ⟨_, rfl⟩

/-- A multiple that is reached from below is inside on this side. -/
theorem lowReaches_iff (hden : 0 < r.den) (c : Nat) (e : Int) : r.lowReaches c e = true ↔
    (r.low : ℚ) / r.den ≤ c * (10 : ℚ) ^ e ∧
      (r.closed = false → (r.low : ℚ) / r.den < c * (10 : ℚ) ^ e) := by
  have hlt := ratio_lt_iff r.low hden (by decide : 0 < 10) c e
  have hgt := lt_ratio_iff r.low hden (by decide : 0 < 10) c e
  have hle := not_congr hgt
  rw [not_lt, not_lt] at hle
  push_cast at hlt hle
  unfold lowReaches
  cases r.closed with
  | true => simpa using hle
  | false =>
    simp only [Bool.false_eq_true, if_false, decide_eq_true_eq, forall_const]
    rw [hlt]
    exact ⟨fun h => ⟨h.le, h⟩, fun h => h.2⟩

/-- A multiple that reaches the upper end is inside on this side. -/
theorem reachesHigh_iff (hden : 0 < r.den) (c : Nat) (e : Int) : r.reachesHigh c e = true ↔
    c * (10 : ℚ) ^ e ≤ (r.high : ℚ) / r.den ∧
      (r.closed = false → c * (10 : ℚ) ^ e < (r.high : ℚ) / r.den) := by
  have hlt := lt_ratio_iff r.high hden (by decide : 0 < 10) c e
  have hgt := ratio_lt_iff r.high hden (by decide : 0 < 10) c e
  have hle := not_congr hgt
  rw [not_lt, not_lt] at hle
  push_cast at hlt hle
  unfold reachesHigh
  cases r.closed with
  | true => simpa using hle
  | false =>
    simp only [Bool.false_eq_true, if_false, decide_eq_true_eq, forall_const]
    rw [hlt]
    exact ⟨fun h => ⟨h.le, h⟩, fun h => h.2⟩

namespace Around

variable (h : r.Around)

include h

theorem low_lt : (r.low : ℚ) / r.den < (r.value : ℚ) / r.den :=
  div_lt_div_of_pos_right (Nat.cast_lt.2 h.low) (Nat.cast_pos.2 h.den)

theorem lt_high : (r.value : ℚ) / r.den < (r.high : ℚ) / r.den :=
  div_lt_div_of_pos_right (Nat.cast_lt.2 h.high) (Nat.cast_pos.2 h.den)

/-- The value is not below the multiple next to it. -/
theorem below_le (e : Int) : r.below e * (10 : ℚ) ^ e ≤ (r.value : ℚ) / r.den := by
  apply not_lt.1
  intro hlt
  have hlt := (ratio_lt_iff r.value h.den (by decide : 0 < 10) (r.below e) e).2 (by exact_mod_cast hlt)
  exact absurd hlt (not_lt.2 (Nat.div_mul_le_self _ _))

/-- The value is below the multiple after that. -/
theorem lt_above (e : Int) : (r.value : ℚ) / r.den < (r.below e + 1 : Nat) * (10 : ℚ) ^ e := by
  have hstep : 0 < r.den * 10 ^ e.toNat := Nat.mul_pos h.den (Nat.pow_pos (by decide))
  have hlt : r.value * 10 ^ (-e).toNat < (r.below e + 1) * (r.den * 10 ^ e.toNat) :=
    (Nat.div_lt_iff_lt_mul hstep).1 (Nat.lt_succ_self _)
  exact_mod_cast (ratio_lt_iff r.value h.den (by decide : 0 < 10) (r.below e + 1) e).1 hlt

/-- A neighbour that is accepted is in the interval. -/
theorem contains_neighbour {e : Int} {d : Decimal} (hd : r.neighbour? e = some d) :
    r.Contains d.value := by
  obtain ⟨upNearer, heq⟩ := r.neighbour?_eq e
  rw [heq] at hd
  split at hd
  · next hup =>
    obtain rfl := Option.some.inj hd
    have hhigh := (reachesHigh_iff h.den _ _).1 (Bool.and_eq_true_iff.1 hup).1
    have hlow := h.low_lt.trans (h.lt_above e)
    exact ⟨hlow.le, hhigh.1, fun hopen => ⟨hlow, hhigh.2 hopen⟩⟩
  · split at hd
    · next hdown =>
      obtain rfl := Option.some.inj hd
      have hlow := (lowReaches_iff h.den _ _).1 hdown
      have hhigh := (h.below_le e).trans_lt h.lt_high
      exact ⟨hlow.1, hhigh.le, fun hopen => ⟨hlow.2 hopen, hhigh⟩⟩
    · cases hd

/-- Where the interval is wider than the step, one of the neighbours is accepted. -/
theorem isSome_neighbour {e : Int}
    (hwide : (r.low : ℚ) / r.den + (10 : ℚ) ^ e < (r.high : ℚ) / r.den) :
    (r.neighbour? e).isSome = true := by
  obtain ⟨upNearer, heq⟩ := r.neighbour?_eq e
  rw [heq]
  cases hdown : r.lowReaches (r.below e) e with
  | true =>
    split
    · rfl
    · rfl
  | false =>
    -- The lower neighbour is at most at the lower end, so the upper one is below the upper end.
    have hbelow : (r.below e : ℚ) * 10 ^ e ≤ (r.low : ℚ) / r.den := by
      by_contra hlt
      have hlt := not_le.1 hlt
      have hreaches := (lowReaches_iff h.den (r.below e) e).2 ⟨hlt.le, fun _ => hlt⟩
      rw [hreaches] at hdown
      cases hdown
    have habove : ((r.below e + 1 : Nat) : ℚ) * 10 ^ e < (r.high : ℚ) / r.den := by
      push_cast
      linarith
    rw [(reachesHigh_iff h.den _ _).2 ⟨habove.le, fun _ => habove⟩]
    rfl

end Around

end ReadBack

/-! ## The interval of a number -/

namespace Binary64

variable {x : Binary64}

/-- The interval is computed in quarters of a unit, over a common denominator. -/
theorem quarters_eq (x : Binary64) (n : Nat) :
    ((n * 2 ^ (x.scale - 2).toNat : Nat) : ℚ) / ((2 ^ (2 - x.scale).toNat : Nat) : ℚ) =
      n / 4 * 2 ^ x.scale := by
  have hpower := zpow_eq_div 2 (x.scale - 2)
  rw [neg_sub, zpow_sub₀ (by norm_num)] at hpower
  push_cast at hpower ⊢
  rw [mul_div_assoc, ← hpower]
  ring

theorem readBack_value (x : Binary64) :
    (x.readBack.value : ℚ) / x.readBack.den = x.significand * 2 ^ x.scale := by
  refine (x.quarters_eq (4 * x.significand)).trans ?_
  push_cast
  ring

theorem readBack_high (x : Binary64) :
    (x.readBack.high : ℚ) / x.readBack.den = (x.significand + 1 / 2) * 2 ^ x.scale := by
  refine (x.quarters_eq (4 * x.significand + 2)).trans ?_
  push_cast
  ring

theorem readBack_low (h : x.isZero = false) :
    (x.readBack.low : ℚ) / x.readBack.den = (x.significand - x.lowerReach) * 2 ^ x.scale := by
  have hpos := significand_pos h
  refine (x.quarters_eq _).trans ?_
  unfold lowerReach
  split
  · rw [Nat.cast_sub (by omega)]
    push_cast
    ring
  · rw [Nat.cast_sub (by omega)]
    push_cast
    ring

/-- The interval of a number other than zero is one around its absolute value. -/
theorem around_readBack (h : x.isZero = false) : x.readBack.Around := by
  have hpos := significand_pos h
  have hunit : 0 < 2 ^ (x.scale - 2).toNat := Nat.pow_pos two_pos
  refine ⟨Nat.pow_pos two_pos, ?_, ?_⟩
  · apply Nat.mul_lt_mul_of_pos_right _ hunit
    split
    · omega
    · omega
  · apply Nat.mul_lt_mul_of_pos_right _ hunit
    omega

/-- A number covers what is in its interval. -/
theorem covers_of_contains (hzero : x.isZero = false) {q : ℚ} (h : x.readBack.Contains q) :
    x.Covers q := by
  obtain ⟨hlow, hhigh, hinside⟩ := h
  rw [readBack_low hzero] at hlow hinside
  rw [readBack_high] at hhigh hinside
  refine ⟨hlow, hhigh, fun hodd => hinside ?_⟩
  have hclosed : x.readBack.closed = decide (x.significand % 2 = 0) := rfl
  rw [hclosed, hodd]
  rfl

/-- Decimals of seventeen digits are closer to one another than the ends of the interval. -/
theorem wide_readBack (hzero : x.isZero = false) :
    (x.readBack.low : ℚ) / x.readBack.den +
        10 ^ (pointPosition x.readBack.value x.readBack.den - 17) <
      (x.readBack.high : ℚ) / x.readBack.den := by
  have haround := around_readBack hzero
  have hpoint := pow_pointPosition_le (Nat.zero_lt_of_lt haround.low) haround.den
  generalize pointPosition x.readBack.value x.readBack.den = point at hpoint ⊢
  rw [readBack_value] at hpoint
  rw [readBack_low hzero, readBack_high]
  have hpower : (0 : ℚ) < 2 ^ x.scale := zpow_pos two_pos _
  have hsplit : (10 : ℚ) ^ (point - 1) = 10 ^ 16 * 10 ^ (point - 17) := by
    rw [← zpow_natCast, ← zpow_add₀ (by norm_num : (10 : ℚ) ≠ 0)]
    congr 1
    push_cast
    ring
  rw [hsplit] at hpoint
  have hstep : (10 : ℚ) ^ (point - 17) < (x.lowerReach + 1 / 2) * 2 ^ x.scale := by
    unfold lowerReach
    split
    · next hleast =>
      -- The interval is narrower below, where the next number is only half as far away.
      rw [hleast.1] at hpoint
      push_cast at hpoint
      linarith
    · have hsignificand : x.significand < 2 ^ (53 : Nat) := by
        rcases x.scale_cases with ⟨-, hlt⟩ | ⟨-, -, -, hlt⟩
        · exact hlt
        · exact hlt
      have hbound : (x.significand : ℚ) * 2 ^ x.scale < 2 ^ (53 : Nat) * 2 ^ x.scale := by
        gcongr
        exact_mod_cast hsignificand
      norm_num at hbound hpoint ⊢
      linarith
  linarith

end Binary64

/-! ## The shortest digits -/

/-- The shortest digits of a number other than zero denote a decimal that the number covers. -/
theorem covers_shortest {x : Binary64} (hzero : x.isZero = false) :
    x.Covers (shortest x).value := by
  have haround := Binary64.around_readBack hzero
  -- Some count of digits is accepted, at the latest the greatest one.
  obtain ⟨d, hd⟩ : ∃ d, (List.range 17).findSome? (fun n => x.readBack.neighbour?
      (pointPosition x.readBack.value x.readBack.den - (n + 1 : Nat))) = some d := by
    apply Option.isSome_iff_exists.1
    rw [List.isSome_findSome?, List.any_eq_true]
    exact ⟨16, by decide, haround.isSome_neighbour (Binary64.wide_readBack hzero)⟩
  have hshortest : shortest x = d.trim := by
    unfold shortest
    dsimp only
    rw [hd]
  obtain ⟨n, -, hn⟩ := List.exists_of_findSome?_eq_some hd
  rw [hshortest, d.value_trim]
  exact Binary64.covers_of_contains hzero (haround.contains_neighbour hn)

end SearchSql.Number
