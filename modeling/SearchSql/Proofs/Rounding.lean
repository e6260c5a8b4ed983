import Mathlib.Algebra.Order.Field.Power
import Mathlib.Data.Rat.Cast.Order
import Mathlib.Tactic.FieldSimp
import Mathlib.Tactic.Linarith
import Mathlib.Tactic.NormNum
import Mathlib.Tactic.Positivity
import Mathlib.Tactic.Ring
import SearchSql.Number.Shortest

/-!
# Rounding to binary64

A finite number other than zero is the nearest one to each rational in an interval around its absolute
value (`Binary64.Covers`). The main result is that a decimal in this interval rounds to the number, in
whichever way it is written as an integer times a power of ten (`ofDecimal_of_covers`).

The interval has its ends half way to the two neighbours, and they belong to it exactly if the
significand is even. Below the least number of an exponent the neighbour is only half as far away.
-/

set_option autoImplicit false

namespace SearchSql.Number

-- Powers of natural numbers are those of the core library, as in the definitions.
attribute [local instance (2000)] instPowNat

/-! ## Ratios and powers -/

/-- A power with an integer as exponent is a ratio of two with natural numbers as exponents. -/
theorem zpow_eq_div (b : Nat) (e : Int) :
    (b : ℚ) ^ e = ((b ^ e.toNat : Nat) : ℚ) / ((b ^ (-e).toNat : Nat) : ℚ) := by
  obtain ⟨n, rfl | rfl⟩ := e.eq_nat_or_neg
  · simp
  · simp

/-- A ratio is scaled by a power through the one of its two parts that stays an integer. -/
theorem ratio_scaled (num den b : Nat) (e : Int) :
    ((num * b ^ (-e).toNat : Nat) : ℚ) / ((den * b ^ e.toNat : Nat) : ℚ) =
      (num : ℚ) / den / (b : ℚ) ^ e := by
  rw [zpow_eq_div b e]
  push_cast
  rw [div_div_eq_mul_div, div_mul_eq_mul_div, div_div]

section

variable (num : Nat) {den b : Nat} (hden : 0 < den) (hb : 0 < b) (c : Nat) (e : Int)

include hden hb

/-- A ratio is compared with a multiple of a power without dividing. -/
theorem ratio_lt_iff :
    num * b ^ (-e).toNat < c * (den * b ^ e.toNat) ↔ (num : ℚ) / den < c * (b : ℚ) ^ e := by
  have hpos : (0 : ℚ) < ((den * b ^ e.toNat : Nat) : ℚ) :=
    Nat.cast_pos.2 (Nat.mul_pos hden (Nat.pow_pos hb))
  have hpower : (0 : ℚ) < (b : ℚ) ^ e := zpow_pos (Nat.cast_pos.2 hb) e
  rw [← Nat.cast_lt (α := ℚ), Nat.cast_mul c, ← div_lt_iff₀ hpos, ratio_scaled, div_lt_iff₀ hpower]

/-- A multiple of a power is compared with a ratio without dividing. -/
theorem lt_ratio_iff :
    c * (den * b ^ e.toNat) < num * b ^ (-e).toNat ↔ c * (b : ℚ) ^ e < (num : ℚ) / den := by
  have hpos : (0 : ℚ) < ((den * b ^ e.toNat : Nat) : ℚ) :=
    Nat.cast_pos.2 (Nat.mul_pos hden (Nat.pow_pos hb))
  have hpower : (0 : ℚ) < (b : ℚ) ^ e := zpow_pos (Nat.cast_pos.2 hb) e
  rw [← Nat.cast_lt (α := ℚ), Nat.cast_mul c, ← lt_div_iff₀ hpos, ratio_scaled, lt_div_iff₀ hpower]

end

/-! ## The exponent of a ratio -/

/-- The logarithms of a ratio give its exponent up to one. -/
theorem zpow_log2_le_div {num den : Nat} (hnum : 0 < num) (hden : 0 < den) :
    (2 : ℚ) ^ ((num.log2 : Int) - den.log2 - 1) ≤ (num : ℚ) / den := by
  have hnumLow : ((2 : ℚ) ^ num.log2) ≤ num := by exact_mod_cast Nat.log2_self_le hnum.ne'
  have hdenHigh : (den : ℚ) < 2 ^ (den.log2 + 1) := by exact_mod_cast Nat.lt_log2_self
  rw [le_div_iff₀ (Nat.cast_pos.2 hden)]
  calc (2 : ℚ) ^ ((num.log2 : Int) - den.log2 - 1) * den
      ≤ (2 : ℚ) ^ ((num.log2 : Int) - den.log2 - 1) * 2 ^ (den.log2 + 1) := by gcongr
    _ = (2 : ℚ) ^ num.log2 := by
      rw [← zpow_natCast, ← zpow_natCast, ← zpow_add₀ two_ne_zero]
      congr 1
      push_cast
      ring
    _ ≤ num := hnumLow

theorem div_lt_zpow_log2 (num : Nat) {den : Nat} (hden : 0 < den) :
    (num : ℚ) / den < (2 : ℚ) ^ ((num.log2 : Int) - den.log2 + 1) := by
  have hnumHigh : (num : ℚ) < 2 ^ (num.log2 + 1) := by exact_mod_cast Nat.lt_log2_self
  have hdenLow : ((2 : ℚ) ^ den.log2) ≤ den := by exact_mod_cast Nat.log2_self_le hden.ne'
  rw [div_lt_iff₀ (Nat.cast_pos.2 hden)]
  calc (num : ℚ) < 2 ^ (num.log2 + 1) := hnumHigh
    _ = (2 : ℚ) ^ ((num.log2 : Int) - den.log2 + 1) * 2 ^ den.log2 := by
      rw [← zpow_natCast, ← zpow_natCast, ← zpow_add₀ two_ne_zero]
      congr 1
      push_cast
      ring
    _ ≤ (2 : ℚ) ^ ((num.log2 : Int) - den.log2 + 1) * den := by gcongr

/-- The exponent that is found is the one of the highest power of two that the ratio reaches. -/
theorem floorLog2_spec {num den : Nat} (hnum : 0 < num) (hden : 0 < den) :
    (2 : ℚ) ^ Binary64.floorLog2 num den ≤ (num : ℚ) / den ∧
      (num : ℚ) / den < (2 : ℚ) ^ (Binary64.floorLog2 num den + 1) := by
  unfold Binary64.floorLog2
  dsimp only
  have hcompare := ratio_lt_iff num hden two_pos 1 ((num.log2 : Int) - den.log2)
  rw [Nat.one_mul, Nat.cast_one, one_mul, Nat.cast_two] at hcompare
  split
  · next hlt =>
    refine ⟨zpow_log2_le_div hnum hden, ?_⟩
    rw [sub_add_cancel]
    exact hcompare.1 hlt
  · next hge => exact ⟨not_lt.1 fun hlt => hge (hcompare.2 hlt), div_lt_zpow_log2 num hden⟩

/-- There is only one exponent between whose powers the ratio lies. -/
theorem floorLog2_eq {num den : Nat} (hnum : 0 < num) (hden : 0 < den) {e : Int}
    (hlow : (2 : ℚ) ^ e ≤ (num : ℚ) / den) (hhigh : (num : ℚ) / den < (2 : ℚ) ^ (e + 1)) :
    Binary64.floorLog2 num den = e := by
  obtain ⟨hfloor, hnext⟩ := floorLog2_spec hnum hden
  have h₁ : Binary64.floorLog2 num den < e + 1 :=
    (zpow_lt_zpow_iff_right₀ one_lt_two).1 (hfloor.trans_lt hhigh)
  have h₂ : e < Binary64.floorLog2 num den + 1 :=
    (zpow_lt_zpow_iff_right₀ one_lt_two).1 (hlow.trans_lt hnext)
  omega

/-- A ratio below a power has a lower exponent. -/
theorem floorLog2_lt {num den : Nat} (hnum : 0 < num) (hden : 0 < den) {e : Int}
    (hhigh : (num : ℚ) / den < (2 : ℚ) ^ e) : Binary64.floorLog2 num den < e :=
  (zpow_lt_zpow_iff_right₀ one_lt_two).1 ((floorLog2_spec hnum hden).1.trans_lt hhigh)

/-! ## Nearest integers and magnitudes -/

/-- Whether `m` is the nearest integer to `r`, and the even one if two are. -/
structure IsNearest (m : Nat) (r : ℚ) : Prop where
  low : (m : ℚ) - 1 / 2 ≤ r
  high : r ≤ (m : ℚ) + 1 / 2
  inside : m % 2 = 1 → (m : ℚ) - 1 / 2 < r ∧ r < (m : ℚ) + 1 / 2

section

variable {num den m : Nat}

/-- The nearest integer to a ratio, without dividing. -/
theorem IsNearest.bounds (hden : 0 < den) (h : IsNearest m ((num : ℚ) / den)) :
    2 * (m * den) ≤ 2 * num + den ∧ 2 * num ≤ 2 * (m * den) + den := by
  have hden' : (0 : ℚ) < den := Nat.cast_pos.2 hden
  have hlow := (le_div_iff₀ hden').1 h.low
  have hhigh := (div_le_iff₀ hden').1 h.high
  have hlow : (2 : ℚ) * (m * den) ≤ 2 * num + den := by linarith
  have hhigh : (2 : ℚ) * num ≤ 2 * (m * den) + den := by linarith
  exact ⟨by exact_mod_cast hlow, by exact_mod_cast hhigh⟩

/-- An odd integer is the nearest one only inside of its bounds. -/
theorem IsNearest.bounds_of_odd (hden : 0 < den) (h : IsNearest m ((num : ℚ) / den))
    (hodd : m % 2 = 1) : 2 * (m * den) < 2 * num + den ∧ 2 * num < 2 * (m * den) + den := by
  have hden' : (0 : ℚ) < den := Nat.cast_pos.2 hden
  obtain ⟨hlow, hhigh⟩ := h.inside hodd
  rw [lt_div_iff₀ hden'] at hlow
  rw [div_lt_iff₀ hden'] at hhigh
  have hlow : (2 : ℚ) * (m * den) < 2 * num + den := by linarith
  have hhigh : (2 : ℚ) * num < 2 * (m * den) + den := by linarith
  exact ⟨by exact_mod_cast hlow, by exact_mod_cast hhigh⟩

/-- The nearest integer is found. -/
theorem roundHalfEven_of_isNearest (hden : 0 < den) (h : IsNearest m ((num : ℚ) / den)) :
    roundHalfEven num den = m := by
  obtain ⟨hlow, hhigh⟩ := h.bounds hden
  have hinside := h.bounds_of_odd hden
  have hnum : num = den * (num / den) + num % den := (Nat.div_add_mod num den).symm
  have hrest : num % den < den := Nat.mod_lt num hden
  unfold roundHalfEven
  dsimp only
  generalize num / den = whole at hnum ⊢
  generalize num % den = rest at hnum hrest ⊢
  subst hnum
  -- The nearest integer is the quotient or the next one.
  have hcases : m = whole ∨ m = whole + 1 := by
    rcases Nat.lt_trichotomy m whole with hlt | heq | hgt
    · have hle : (m + 1) * den ≤ whole * den := Nat.mul_le_mul_right den hlt
      nlinarith
    · exact .inl heq
    · rcases Nat.lt_or_ge (whole + 1) m with hlt | hge
      · have hle : (whole + 2) * den ≤ m * den := Nat.mul_le_mul_right den hlt
        nlinarith
      · exact .inr (by omega)
  rcases hcases with rfl | rfl
  · rw [if_neg]
    rintro (hover | ⟨htie, hodd⟩)
    · nlinarith
    · obtain ⟨-, h₂⟩ := hinside hodd
      nlinarith
  · rw [if_pos]
    rcases Nat.lt_or_ge den (2 * rest) with hover | hunder
    · exact .inl hover
    · have htie : 2 * rest = den := by nlinarith
      refine .inr ⟨htie, ?_⟩
      by_contra heven
      obtain ⟨h₁, -⟩ := hinside (by omega)
      nlinarith

end

/-- The magnitude of a ratio, from the exponent that it is rounded at and the nearest multiple. -/
theorem magnitudeOfRatio_eq {num den m : Nat} {e : Int} (hden : 0 < den)
    (hunit : max (Binary64.floorLog2 num den - 52) (-1074) = e)
    (h : IsNearest m ((num : ℚ) / den / (2 : ℚ) ^ e)) :
    Binary64.magnitudeOfRatio num den = (e + 1074).toNat * 2 ^ (52 : Nat) + m := by
  unfold Binary64.magnitudeOfRatio
  dsimp only
  rw [hunit, roundHalfEven_of_isNearest (Nat.mul_pos hden (Nat.pow_pos two_pos))]
  rw [ratio_scaled]
  exact_mod_cast h

/-! ## The parts of a number -/

namespace Binary64

variable {x : Binary64}

theorem magnitude_eq_fields (x : Binary64) :
    x.magnitude = x.exponentField * 2 ^ (52 : Nat) + x.magnitude % 2 ^ (52 : Nat) := by
  unfold exponentField
  omega

/-- The exponent is the least one, or the significand has its highest bit. -/
theorem scale_cases (x : Binary64) :
    (x.scale = -1074 ∧ x.significand < 2 ^ (53 : Nat)) ∨
      (-1074 < x.scale ∧ 1 < x.exponentField ∧ 2 ^ (52 : Nat) ≤ x.significand ∧
        x.significand < 2 ^ (53 : Nat)) := by
  have hfields := x.magnitude_eq_fields
  have hrest : x.magnitude % 2 ^ (52 : Nat) < 2 ^ (52 : Nat) := Nat.mod_lt _ (by decide)
  unfold scale significand
  split
  · omega
  · omega

/-- The magnitude is put together from the exponent and the significand. -/
theorem magnitude_eq (x : Binary64) :
    x.magnitude = (x.scale + 1074).toNat * 2 ^ (52 : Nat) + x.significand := by
  unfold scale significand
  split
  · simp
  · next hfield =>
    obtain ⟨n, hn⟩ := Nat.exists_eq_succ_of_ne_zero hfield
    have hexponent : (((n + 1 : Nat) : Int) - 1075 + 1074).toNat = n := by omega
    have hfields := x.magnitude_eq_fields
    rw [hn, Nat.succ_mul, Nat.add_assoc] at hfields
    rw [hn, hexponent]
    exact hfields

/-- The exponent of a finite number is bounded. -/
theorem scale_le (h : x.isFinite = true) : x.scale ≤ 971 := by
  have hlt : x.magnitude < 2047 * 2 ^ (52 : Nat) := of_decide_eq_true h
  have hfield : x.exponentField < 2047 := (Nat.div_lt_iff_lt_mul (by decide)).2 hlt
  unfold scale
  split
  · norm_num
  · omega

theorem significand_pos (h : x.isZero = false) : 0 < x.significand := by
  have hne : x.magnitude ≠ 0 := by simpa [isZero] using h
  unfold significand
  split
  · omega
  · omega

/-! ## The numbers that round to a number -/

/-- The absolute value of a finite number. -/
def value (x : Binary64) : ℚ := x.significand * 2 ^ x.scale

/-- The distance of the lower end from the value, in units of the significand: half of one, or a quarter
where the number below is only half a unit away. -/
def lowerReach (x : Binary64) : ℚ :=
  if x.significand = 2 ^ (52 : Nat) ∧ 1 < x.exponentField then 1 / 4 else 1 / 2

/-- Whether the absolute value `r` is nearer to the number than to any other, or half way to a neighbour
whose significand is odd. -/
structure Covers (x : Binary64) (r : ℚ) : Prop where
  low : (x.significand - x.lowerReach) * 2 ^ x.scale ≤ r
  high : r ≤ (x.significand + 1 / 2) * 2 ^ x.scale
  inside : x.significand % 2 = 1 →
    (x.significand - x.lowerReach) * 2 ^ x.scale < r ∧ r < (x.significand + 1 / 2) * 2 ^ x.scale

theorem lowerReach_le (x : Binary64) : x.lowerReach ≤ 1 / 2 := by
  unfold lowerReach
  split
  · norm_num
  · exact le_refl _

/-- At the exponent of the number, its significand is the nearest integer to what it covers. -/
theorem Covers.isNearest {r : ℚ} (h : x.Covers r) :
    IsNearest x.significand (r / 2 ^ x.scale) := by
  have hpower : (0 : ℚ) < 2 ^ x.scale := zpow_pos two_pos _
  have hreach := x.lowerReach_le
  refine ⟨?_, (div_le_iff₀ hpower).2 h.high, fun hodd => ⟨?_, (div_lt_iff₀ hpower).2 (h.inside hodd).2⟩⟩
  · rw [le_div_iff₀ hpower]
    exact le_trans (by gcongr) h.low
  · rw [lt_div_iff₀ hpower]
    exact lt_of_le_of_lt (by gcongr) (h.inside hodd).1

/-- What a finite number covers is below the next power of two. -/
theorem Covers.lt {r : ℚ} (h : x.Covers r) : r < 2 ^ (x.scale + 53) := by
  have hpower : (0 : ℚ) < 2 ^ x.scale := zpow_pos two_pos _
  have hsignificand : x.significand + 1 ≤ 2 ^ (53 : Nat) := by
    rcases x.scale_cases with ⟨-, hlt⟩ | ⟨-, -, -, hlt⟩
    · exact hlt
    · exact hlt
  have hsignificand : (x.significand : ℚ) + 1 ≤ 2 ^ (53 : Nat) := by exact_mod_cast hsignificand
  calc r ≤ (x.significand + 1 / 2) * 2 ^ x.scale := h.high
    _ < 2 ^ (53 : Nat) * 2 ^ x.scale := by
      gcongr
      linarith
    _ = 2 ^ (x.scale + 53) := by
      rw [zpow_add₀ two_ne_zero, mul_comm]
      norm_cast

/-- What a number other than zero covers is at least half of the least such number. -/
theorem Covers.le {r : ℚ} (hzero : x.isZero = false) (h : x.Covers r) : (2 : ℚ) ^ (-1075 : Int) ≤ r := by
  have hpos : (1 : ℚ) ≤ x.significand := by exact_mod_cast significand_pos hzero
  have hreach := x.lowerReach_le
  have hscale : -1074 ≤ x.scale := by
    rcases x.scale_cases with ⟨heq, -⟩ | ⟨hlt, -⟩
    · exact heq.ge
    · exact hlt.le
  calc (2 : ℚ) ^ (-1075 : Int) = 1 / 2 * 2 ^ (-1074 : Int) := by
        rw [show (-1075 : Int) = -1 + -1074 by norm_num, zpow_add₀ two_ne_zero, zpow_neg_one, one_div]
    _ ≤ 1 / 2 * 2 ^ x.scale := by
      gcongr
      norm_num
    _ ≤ (x.significand - x.lowerReach) * 2 ^ x.scale := by
      gcongr
      linarith
    _ ≤ r := h.low

/-- Only the least number of an exponent covers what is below all numbers of the exponent. -/
theorem Covers.least {r : ℚ} (h : x.Covers r) (hlow : r < 2 ^ (x.scale + 52))
    (hfield : 1 < x.exponentField) (hleast : 2 ^ (52 : Nat) ≤ x.significand) :
    x.significand = 2 ^ (52 : Nat) ∧ x.lowerReach = 1 / 4 := by
  have hpower : (0 : ℚ) < 2 ^ x.scale := zpow_pos two_pos _
  have hsignificand : x.significand = 2 ^ (52 : Nat) := by
    have hreach := x.lowerReach_le
    rw [zpow_add₀ two_ne_zero, mul_comm] at hlow
    have hlt : (x.significand : ℚ) - x.lowerReach < 2 ^ (52 : Int) :=
      lt_of_mul_lt_mul_right (h.low.trans_lt hlow) hpower.le
    have hlt : (x.significand : ℚ) < 2 ^ (52 : Nat) + 1 := by
      have hcast : (2 : ℚ) ^ (52 : Int) = 2 ^ (52 : Nat) := by norm_cast
      linarith
    have hlt : x.significand < 2 ^ (52 : Nat) + 1 := by exact_mod_cast hlt
    omega
  exact ⟨hsignificand, if_pos ⟨hsignificand, hfield⟩⟩

/-- Below all numbers of the exponent, what a number covers is rounded at the exponent below, and up to
the power of two, which is half a unit away and even. -/
theorem Covers.isNearest_below {r : ℚ} (h : x.Covers r) (hlow : r < 2 ^ (x.scale + 52))
    (hsignificand : x.significand = 2 ^ (52 : Nat)) (hreach : x.lowerReach = 1 / 4) :
    (2 : ℚ) ^ (x.scale + 51) ≤ r ∧ IsNearest (2 ^ (53 : Nat)) (r / 2 ^ (x.scale - 1)) := by
  have hhalf : (0 : ℚ) < 2 ^ (x.scale - 1) := zpow_pos two_pos _
  have hunit : (2 : ℚ) ^ x.scale = 2 * 2 ^ (x.scale - 1) := by
    rw [← zpow_one_add₀ two_ne_zero]
    congr 1
    ring
  have hends := h.low
  rw [hsignificand, hreach, hunit] at hends
  push_cast at hends
  have hbound : r < 2 ^ (53 : Nat) * 2 ^ (x.scale - 1) := by
    rw [zpow_add₀ two_ne_zero, hunit] at hlow
    norm_num at hlow ⊢
    linarith
  refine ⟨?_, ?_, ?_, fun hodd => absurd hodd (by decide)⟩
  · rw [show x.scale + 51 = x.scale - 1 + 52 by ring, zpow_add₀ two_ne_zero]
    norm_num at hends ⊢
    linarith
  · rw [le_div_iff₀ hhalf]
    push_cast
    linarith
  · rw [div_le_iff₀ hhalf]
    push_cast
    linarith

/-- A ratio that a number covers rounds to it. -/
theorem magnitudeOfRatio_of_covers {num den : Nat} (hnum : 0 < num) (hden : 0 < den)
    (h : x.Covers ((num : ℚ) / den)) : magnitudeOfRatio num den = x.magnitude := by
  have hhigh : (num : ℚ) / den < 2 ^ (x.scale + 52 + 1) := by
    rw [show x.scale + 52 + 1 = x.scale + 53 by ring]
    exact h.lt
  rw [x.magnitude_eq]
  by_cases hlow : (2 : ℚ) ^ (x.scale + 52) ≤ (num : ℚ) / den
  · apply magnitudeOfRatio_eq hden _ h.isNearest
    rw [floorLog2_eq hnum hden hlow hhigh]
    rcases x.scale_cases with ⟨heq, -⟩ | ⟨hlt, -⟩ <;> omega
  · have hbelow := floorLog2_lt hnum hden (not_le.1 hlow)
    rcases x.scale_cases with ⟨heq, -⟩ | ⟨hscale, hfield, hleast, -⟩
    · apply magnitudeOfRatio_eq hden _ h.isNearest
      omega
    · obtain ⟨hsignificand, hreach⟩ := h.least (not_le.1 hlow) hfield hleast
      obtain ⟨hbefore, hnearest⟩ := h.isNearest_below (not_le.1 hlow) hsignificand hreach
      have hfloor : floorLog2 num den = x.scale + 51 := by
        apply floorLog2_eq hnum hden hbefore
        rw [add_assoc]
        exact not_le.1 hlow
      rw [magnitudeOfRatio_eq hden _ hnearest]
      · omega
      · omega

/-! ## Decimals -/

/-- Three binary digits are fewer than ten values. -/
theorem lt_ten_pow (m : Nat) : m < 10 ^ (m.log2 / 3 + 1) := by
  calc m < 2 ^ (m.log2 + 1) := Nat.lt_log2_self
    _ ≤ 2 ^ (3 * (m.log2 / 3 + 1)) := Nat.pow_le_pow_right two_pos (by omega)
    _ = 8 ^ (m.log2 / 3 + 1) := Nat.pow_mul 2 3 _
    _ ≤ 10 ^ (m.log2 / 3 + 1) := Nat.pow_le_pow_left (by decide) _

/-- A decimal with so few digits in front of its point that it is taken for zero is covered by zero
only. -/
theorem Covers.not_tiny {m : Nat} {e : Int} (hzero : x.isZero = false)
    (h : x.Covers (m * (10 : ℚ) ^ e)) : ¬((m.log2 / 3 : Nat) : Int) + 2 + e < -330 := by
  intro htiny
  have hdigits : (m : ℚ) < 10 ^ (m.log2 / 3 + 1) := by exact_mod_cast lt_ten_pow m
  have hpower : (0 : ℚ) < 10 ^ e := zpow_pos (by norm_num) e
  have hbound : (10 : ℚ) ^ (-332 : Int) ≤ 2 ^ (-1075 : Int) := by
    have hpowers : 2 ^ 1075 ≤ 10 ^ 332 := by decide +kernel
    rw [zpow_neg, zpow_neg]
    exact inv_anti₀ (by positivity) (by exact_mod_cast hpowers)
  have hlt : (m : ℚ) * 10 ^ e < 2 ^ (-1075 : Int) := by
    calc (m : ℚ) * 10 ^ e < 10 ^ (m.log2 / 3 + 1) * 10 ^ e := by gcongr
      _ = 10 ^ (((m.log2 / 3 : Nat) : Int) + 1 + e) := by
        rw [← zpow_natCast, ← zpow_add₀ (by norm_num : (10 : ℚ) ≠ 0)]
        push_cast
        rfl
      _ ≤ 10 ^ (-332 : Int) := zpow_le_zpow_right₀ (by norm_num) (by omega)
      _ ≤ 2 ^ (-1075 : Int) := hbound
  exact absurd (h.le hzero) (not_le.2 hlt)

/-- A decimal with so large an exponent that it is taken for infinite is covered by no finite number. -/
theorem Covers.not_huge {m : Nat} {e : Int} (hfinite : x.isFinite = true) (hm : m ≠ 0)
    (h : x.Covers (m * (10 : ℚ) ^ e)) : ¬310 < e := by
  intro hhuge
  have hone : (1 : ℚ) ≤ m := by exact_mod_cast Nat.one_le_iff_ne_zero.2 hm
  have hpower : (0 : ℚ) < 10 ^ e := zpow_pos (by norm_num) e
  have hscale := scale_le hfinite
  have hpowers : 2 ^ 1024 ≤ 10 ^ 311 := by decide +kernel
  have hge : (2 : ℚ) ^ (x.scale + 53) ≤ m * 10 ^ e := by
    calc (2 : ℚ) ^ (x.scale + 53) ≤ 2 ^ (1024 : Int) :=
          zpow_le_zpow_right₀ one_le_two (by omega)
      _ ≤ 10 ^ (311 : Int) := by exact_mod_cast hpowers
      _ ≤ 10 ^ e := zpow_le_zpow_right₀ (by norm_num) (by omega)
      _ ≤ m * 10 ^ e := le_mul_of_one_le_left hpower.le hone
  exact absurd h.lt (not_lt.2 hge)

/-- A decimal that a finite number other than zero covers rounds to it. -/
theorem magnitudeOfDecimal_of_covers {m : Nat} {e : Int} (hfinite : x.isFinite = true)
    (hzero : x.isZero = false) (h : x.Covers (m * (10 : ℚ) ^ e)) :
    magnitudeOfDecimal m e = x.magnitude := by
  have hm : m ≠ 0 := by
    rintro rfl
    have hle := h.le hzero
    rw [Nat.cast_zero, zero_mul] at hle
    exact absurd hle (not_le.2 (zpow_pos two_pos _))
  have htiny : ¬(m = 0 ∨ ((m.log2 / 3 : Nat) : Int) + 2 + e < -330) :=
    not_or.2 ⟨hm, h.not_tiny hzero⟩
  unfold magnitudeOfDecimal
  rw [if_neg htiny, if_neg (h.not_huge hfinite hm)]
  have hratio : ((m * 10 ^ e.toNat : Nat) : ℚ) / ((10 ^ (-e).toNat : Nat) : ℚ) = m * 10 ^ e := by
    have hpower := zpow_eq_div 10 e
    push_cast at hpower ⊢
    rw [hpower, mul_div_assoc]
  apply magnitudeOfRatio_of_covers
  · exact Nat.mul_pos (Nat.pos_of_ne_zero hm) (Nat.pow_pos (by decide))
  · exact Nat.pow_pos (by decide)
  · rw [hratio]
    exact h

/-- Reading a decimal gives the finite number that covers it, with the sign in front. -/
theorem ofDecimal_of_covers {m : Nat} {e : Int} (hfinite : x.isFinite = true)
    (hzero : x.isZero = false) (h : x.Covers (m * (10 : ℚ) ^ e)) :
    ofDecimal x.negative m e = x := by
  unfold ofDecimal
  rw [magnitudeOfDecimal_of_covers hfinite hzero h]

end Binary64

end SearchSql.Number
