import Handheld.Number.Binary64
import Mathlib.Algebra.Order.Field.Power
import Mathlib.Data.Int.Log
import Mathlib.Data.Rat.Floor
import Mathlib.Tactic.Linarith
import Mathlib.Tactic.NormNum
import Mathlib.Tactic.Positivity
import Mathlib.Tactic.Ring

/-!
# Rounding to binary64

The shifts and integer quotients of `ofRatio` as rational arithmetic. The last place of a result is
worth a power of two, its significand is the nearest integer in that unit, and no binary64 number
lies between two multiples of the unit where the result is, so the result is the nearest number of
all.

* `toRat`: the value of a finite number.
* `exists_eq_mul`, `abs_toRat_lt`: which values there are.
* `toRat_ofRatio`: the place and the significand of a rounded quotient.
* `isNearest_ofRatio`, `abs_toRat_ofRatio_sub_le`: it is the nearest number, and how far away that is.
* `IsNearest.le_mul`, `IsNearest.mul_le`: to which side of a middle a value is rounded.
-/

namespace Handheld

/-! ## Units -/

/-- A power of two as the quotient of two shifted ones. -/
theorem two_zpow_eq (e : ℤ) : (2 : ℚ) ^ e = 2 ^ e.toNat / 2 ^ (-e).toNat := by
  rw [← zpow_natCast, ← zpow_natCast, ← zpow_sub₀ two_ne_zero]
  congr 1
  omega

theorem two_zpow_pos (e : ℤ) : (0 : ℚ) < 2 ^ e := zpow_pos two_pos e

theorem abs_mul_sub_mul {a b u : ℚ} (hu : 0 ≤ u) : |a * u - b * u| = |a - b| * u := by
  rw [← sub_mul, abs_mul, abs_of_nonneg hu]

/-- Two integers are a whole unit apart, so nothing is near to both. -/
theorem le_abs_sub_add_abs_sub {k m : ℤ} (hk : k ≠ m) (x : ℚ) {u : ℚ} (hu : 0 ≤ u) :
    u ≤ |k * u - x| + |m * u - x| := by
  have hone : (1 : ℚ) ≤ |((k - m : ℤ) : ℚ)| := by
    exact_mod_cast Int.one_le_abs (sub_ne_zero.2 hk)
  calc u ≤ |((k - m : ℤ) : ℚ)| * u := le_mul_of_one_le_left hu hone
    _ = |k * u - m * u| := by rw [abs_mul_sub_mul hu, Int.cast_sub]
    _ ≤ |k * u - x| + |x - m * u| := abs_sub_le _ _ _
    _ = |k * u - x| + |m * u - x| := by rw [abs_sub_comm x]

/-- An integer that is at most half a unit away is nearest among all integers. -/
theorem abs_mul_sub_le_abs {m : ℤ} {x u : ℚ} (h : |m * u - x| ≤ u / 2) (k : ℤ) :
    |m * u - x| ≤ |k * u - x| := by
  have hu : 0 ≤ u := by linarith [abs_nonneg (m * u - x)]
  by_cases hk : k = m
  · rw [hk]
  have hunit := le_abs_sub_add_abs_sub hk x hu
  linarith

section

variable {n d : Nat}

theorem quotient_pos (hn : 0 < n) (hd : 0 < d) : (0 : ℚ) < n / d :=
  div_pos (Nat.cast_pos.2 hn) (Nat.cast_pos.2 hd)

/-- A rounded quotient is within half a unit of the exact one. -/
theorem abs_roundQuotient_sub_le (hd : 0 < d) : |(roundQuotient n d : ℚ) - n / d| ≤ 1 / 2 := by
  have hpos : (0 : ℚ) < d := Nat.cast_pos.2 hd
  have habove : (2 * (roundQuotient n d * d) : ℚ) ≤ 2 * n + d := by
    exact_mod_cast two_mul_roundQuotient_le (n := n) hd
  have hbelow : (2 * n : ℚ) ≤ 2 * (roundQuotient n d * d) + d := by
    exact_mod_cast le_two_mul_roundQuotient (n := n) hd
  have hn : (n : ℚ) = n / d * d := (div_mul_cancel₀ _ hpos.ne').symm
  rw [hn] at habove hbelow
  rw [abs_le]
  constructor
  · exact le_of_mul_le_mul_right (by linarith) hpos
  · exact le_of_mul_le_mul_right (by linarith) hpos

/-- A quotient rounded to a multiple of a power of two, which is shifted to the ones first. -/
theorem abs_roundQuotient_shiftLeft_sub_le (hd : 0 < d) (e : ℤ) :
    |(roundQuotient (n <<< (-e).toNat) (d <<< e.toNat) : ℚ) * 2 ^ e - n / d| ≤ 2 ^ e / 2 := by
  have hshift : ((n <<< (-e).toNat : Nat) : ℚ) / (d <<< e.toNat : Nat) = n / d / 2 ^ e := by
    rw [two_zpow_eq, Nat.shiftLeft_eq, Nat.shiftLeft_eq]
    push_cast
    rw [div_div_div_eq]
  have hpos : 0 < d <<< e.toNat := by
    rw [Nat.shiftLeft_eq]
    positivity
  have hround := abs_roundQuotient_sub_le (n := n <<< (-e).toNat) hpos
  have hunit := two_zpow_pos e
  rw [hshift] at hround
  calc |(roundQuotient (n <<< (-e).toNat) (d <<< e.toNat) : ℚ) * 2 ^ e - n / d|
      = |(roundQuotient (n <<< (-e).toNat) (d <<< e.toNat) : ℚ) - n / d / 2 ^ e| * 2 ^ e := by
        rw [← abs_mul_sub_mul hunit.le, div_mul_cancel₀ _ hunit.ne']
    _ ≤ 1 / 2 * 2 ^ e := mul_le_mul_of_nonneg_right hround hunit.le
    _ = 2 ^ e / 2 := by ring

/-- Two shifted numbers compare as their quotient does with a power of two. -/
theorem shiftLeft_lt_shiftLeft_iff (hd : 0 < d) (e : ℤ) :
    n <<< (-e).toNat < d <<< e.toNat ↔ (n : ℚ) / d < 2 ^ e := by
  have hpos : (0 : ℚ) < d := Nat.cast_pos.2 hd
  rw [two_zpow_eq, div_lt_div_iff₀ hpos (by positivity), Nat.shiftLeft_eq, Nat.shiftLeft_eq,
    mul_comm (_ : ℚ) (d : ℚ)]
  exact_mod_cast Iff.rfl

/-- The bits of a numerator and a denominator bound those of the quotient. -/
theorem quotient_mem_Ioo_log2 (hn : 0 < n) (hd : 0 < d) :
    2 ^ ((n.log2 : ℤ) - d.log2 - 1) < (n : ℚ) / d ∧
      (n : ℚ) / d < 2 ^ ((n.log2 : ℤ) - d.log2 + 1) := by
  have hnlow : (2 : ℚ) ^ n.log2 ≤ n := by exact_mod_cast Nat.log2_self_le hn.ne'
  have hnhigh : (n : ℚ) < 2 ^ (n.log2 + 1) := by exact_mod_cast Nat.lt_log2_self (n := n)
  have hdlow : (2 : ℚ) ^ d.log2 ≤ d := by exact_mod_cast Nat.log2_self_le hd.ne'
  have hdhigh : (d : ℚ) < 2 ^ (d.log2 + 1) := by exact_mod_cast Nat.lt_log2_self (n := d)
  have hpos : (0 : ℚ) < d := Nat.cast_pos.2 hd
  have hlow : (n.log2 : ℤ) - d.log2 - 1 = (n.log2 : ℤ) - (d.log2 + 1 : Nat) := by omega
  have hhigh : (n.log2 : ℤ) - d.log2 + 1 = (n.log2 + 1 : Nat) - (d.log2 : ℤ) := by omega
  rw [hlow, hhigh, zpow_sub₀ two_ne_zero, zpow_sub₀ two_ne_zero]
  simp only [zpow_natCast]
  constructor
  · exact div_lt_div₀' hnlow hdhigh (Nat.cast_pos.2 hn) hpos
  · exact div_lt_div₀ hnhigh hdlow (by positivity) (by positivity)

theorem log2Quotient_eq (hn : 0 < n) (hd : 0 < d) : log2Quotient n d = Int.log 2 ((n : ℚ) / d) := by
  have hpos := quotient_pos hn hd
  obtain ⟨hlow, hhigh⟩ := quotient_mem_Ioo_log2 hn hd
  -- The logarithm is the greatest power of two below the quotient.
  have hle := fun k : ℤ => Int.zpow_le_iff_le_log (b := 2) one_lt_two hpos (x := k)
  have hlt := fun k : ℤ => Int.lt_zpow_iff_log_lt (b := 2) one_lt_two hpos (x := k)
  push_cast at hle hlt
  unfold log2Quotient
  simp only
  rw [hlt] at hhigh
  have hlow' := (hle _).1 hlow.le
  split
  case isTrue h =>
    rw [shiftLeft_lt_shiftLeft_iff hd, hlt] at h
    omega
  case isFalse h =>
    rw [shiftLeft_lt_shiftLeft_iff hd, hlt] at h
    omega

end

namespace Binary64

variable {x : Binary64} {n d : Nat} {r : ℚ}

/-! ## Values -/

/-- The value of a finite number. -/
def toRat (x : Binary64) : ℚ := (if x.isNegative then -1 else 1) * (x.numerator / x.denominator)

theorem numerator_div_denominator (x : Binary64) :
    (x.numerator : ℚ) / x.denominator = x.significand * 2 ^ x.scale := by
  rw [two_zpow_eq, numerator, denominator, Nat.shiftLeft_eq, Nat.shiftLeft_eq]
  push_cast
  rw [one_mul, mul_div_assoc]

theorem abs_toRat (x : Binary64) : |x.toRat| = x.significand * 2 ^ x.scale := by
  have hnonneg : (0 : ℚ) ≤ x.significand * 2 ^ x.scale := by positivity
  rw [toRat, numerator_div_denominator, abs_mul, abs_of_nonneg hnonneg]
  split <;> norm_num

theorem significand_lt (x : Binary64) : x.significand < 2 * exponentPlace := by
  have hfraction : x.fraction < exponentPlace := Nat.mod_lt _ (by decide)
  unfold significand
  split <;> omega

theorem significand_pos_iff : 0 < x.significand ↔ 0 < x.magnitude := by
  unfold significand exponent fraction exponentPlace
  split <;> omega

/-- A number is positive if its value is, unless it has none. -/
theorem isPositive_iff : x.isPositive = true ↔ x.isFinite = true ∧ 0 < x.toRat := by
  have hsign : 0 < x.toRat ↔ x.isNegative = false ∧ 0 < x.magnitude := by
    rw [toRat, numerator_div_denominator, ← significand_pos_iff]
    have hunit := two_zpow_pos x.scale
    cases x.isNegative with
    | true =>
      have hnonneg : (0 : ℚ) ≤ x.significand * 2 ^ x.scale := by positivity
      simp [hnonneg]
    | false => simp [mul_pos_iff_of_pos_right hunit]
  simp [isPositive, hsign, and_assoc]

theorem le_scale (x : Binary64) : -1074 ≤ x.scale := by
  unfold scale
  omega

theorem exists_eq_mul {e : ℤ} (he : e ≤ x.scale) : ∃ k : ℤ, |x.toRat| = k * 2 ^ e := by
  refine ⟨x.significand * 2 ^ (x.scale - e).toNat, ?_⟩
  rw [abs_toRat]
  push_cast
  rw [← zpow_natCast, Int.toNat_of_nonneg (Int.sub_nonneg.2 he), mul_assoc,
    ← zpow_add₀ two_ne_zero, sub_add_cancel]

theorem abs_toRat_lt {e : ℤ} (he : x.scale < e) : |x.toRat| < 2 ^ (e + 52) := by
  have hsignificand : (x.significand : ℚ) < 2 ^ (53 : ℤ) := by
    exact_mod_cast x.significand_lt
  calc |x.toRat| = x.significand * 2 ^ x.scale := x.abs_toRat
    _ < 2 ^ (53 : ℤ) * 2 ^ x.scale := mul_lt_mul_of_pos_right hsignificand (two_zpow_pos _)
    _ = 2 ^ (53 + x.scale) := (zpow_add₀ two_ne_zero _ _).symm
    _ ≤ 2 ^ (e + 52) := zpow_le_zpow_right₀ one_le_two (by omega)

/-- The numbers from a full significand on are multiples of its unit. -/
theorem exists_eq_mul_of_le {e : ℤ} (h : 2 ^ (e + 52) ≤ |x.toRat|) :
    ∃ k : ℤ, |x.toRat| = k * 2 ^ e :=
  exists_eq_mul (Int.not_lt.1 fun hscale => absurd (abs_toRat_lt hscale) (not_lt.2 h))

/-- There is no number between two neighbouring full significands. -/
theorem add_one_mul_le_toRat {m : Nat} {e : ℤ} (hfull : exponentPlace ≤ m)
    (h : m * 2 ^ e < x.toRat) : (m + 1) * 2 ^ e ≤ x.toRat := by
  have hunit := two_zpow_pos e
  have hpos : 0 < x.toRat := h.trans_le' (by positivity)
  have hfull' : (2 : ℚ) ^ (e + 52) ≤ m * 2 ^ e := by
    rw [zpow_add₀ two_ne_zero, mul_comm]
    refine mul_le_mul_of_nonneg_right ?_ hunit.le
    exact_mod_cast hfull
  rw [← abs_of_pos hpos] at h ⊢
  obtain ⟨k, hk⟩ := exists_eq_mul_of_le (hfull'.trans h.le)
  rw [hk] at h ⊢
  have hlt : (m : ℤ) < k := by exact_mod_cast lt_of_mul_lt_mul_right h hunit.le
  refine mul_le_mul_of_nonneg_right ?_ hunit.le
  exact_mod_cast Int.add_one_le_of_lt hlt

/-! ## The place and the significand of a rounded quotient -/

/-- The exponent of the last place of a value that is rounded. -/
def lastPlace (r : ℚ) : ℤ := max (Int.log 2 r - 52) (-1074)

theorem log_of_lt_lastPlace (h : -1074 < lastPlace r) : -1022 ≤ Int.log 2 r := by
  unfold lastPlace at h
  omega

/-- The leading bit of a value that is not too small for a full significand. -/
theorem two_zpow_lastPlace_le (hr : 0 < r) (h : -1022 ≤ Int.log 2 r) :
    2 ^ (lastPlace r + 52) ≤ r := by
  have hlog : lastPlace r + 52 = Int.log 2 r := by
    unfold lastPlace
    omega
  rw [hlog]
  exact_mod_cast Int.zpow_log_le_self (b := 2) one_lt_two hr

theorem lt_two_zpow_lastPlace (r : ℚ) : r < 2 ^ (lastPlace r + 53) := by
  have hlog : Int.log 2 r + 1 ≤ lastPlace r + 53 := by
    unfold lastPlace
    omega
  have hlt := Int.lt_zpow_succ_log_self (b := 2) one_lt_two r
  push_cast at hlt
  exact hlt.trans_le (zpow_le_zpow_right₀ one_le_two hlog)

/-- A quotient in units of its last place, rounded. -/
def roundedSignificand (n d : Nat) : Nat :=
  let e := lastPlace (n / d)
  roundQuotient (n <<< (-e).toNat) (d <<< e.toNat)

theorem magnitudeOfRatio_eq (hn : 0 < n) (hd : 0 < d) :
    magnitudeOfRatio n d =
      min ((lastPlace (n / d) + 1074).toNat * exponentPlace + roundedSignificand n d)
        infiniteMagnitude := by
  rw [magnitudeOfRatio, if_neg hn.ne', log2Quotient_eq hn hd]
  rfl

theorem abs_roundedSignificand_sub_le (hd : 0 < d) :
    |(roundedSignificand n d : ℚ) * 2 ^ lastPlace (n / d) - n / d| ≤ 2 ^ lastPlace (n / d) / 2 :=
  abs_roundQuotient_shiftLeft_sub_le hd _

theorem roundedSignificand_le (hd : 0 < d) : roundedSignificand n d ≤ 2 * exponentPlace := by
  have hunit := two_zpow_pos (lastPlace (n / d))
  have hround := (abs_le.1 (abs_roundedSignificand_sub_le (n := n) hd)).2
  have hlt := lt_two_zpow_lastPlace (n / d)
  rw [zpow_add₀ two_ne_zero] at hlt
  have hcast : (roundedSignificand n d : ℚ) < (2 * exponentPlace + 1 : Nat) := by
    refine lt_of_mul_lt_mul_right ?_ hunit.le
    norm_num [exponentPlace] at hlt ⊢
    linarith
  exact Nat.le_of_lt_succ (Nat.cast_lt.1 hcast)

theorem exponentPlace_le_roundedSignificand (hn : 0 < n) (hd : 0 < d)
    (h : -1074 < lastPlace (n / d)) : exponentPlace ≤ roundedSignificand n d := by
  have hunit := two_zpow_pos (lastPlace (n / d))
  have hround := (abs_le.1 (abs_roundedSignificand_sub_le (n := n) hd)).1
  have hle := two_zpow_lastPlace_le (quotient_pos hn hd) (log_of_lt_lastPlace h)
  rw [zpow_add₀ two_ne_zero] at hle
  have hcast : (exponentPlace : ℚ) < (roundedSignificand n d + 1 : Nat) := by
    refine lt_of_mul_lt_mul_right ?_ hunit.le
    norm_num [exponentPlace] at hle ⊢
    linarith
  exact Nat.le_of_lt_succ (Nat.cast_lt.1 hcast)

/-! ## Rounded quotients -/

/-- The number whose magnitude field is a number of exponents and a significand. The leading bit of
a full significand adds one to the exponents, and a carry out of it adds another one. -/
theorem toRat_ofMagnitude {exponents significand : Nat}
    (h : exponents * exponentPlace + significand < infiniteMagnitude)
    (hle : significand ≤ 2 * exponentPlace) (hfull : 0 < exponents → exponentPlace ≤ significand) :
    (ofMagnitude false (exponents * exponentPlace + significand)).toRat =
      significand * 2 ^ ((exponents : ℤ) - 1074) := by
  have hword : exponents * exponentPlace + significand < signPlace := h.trans (by decide)
  have hmagnitude := magnitude_ofMagnitude false hword
  have hsign := isNegative_ofMagnitude false hword
  generalize ofMagnitude false (exponents * exponentPlace + significand) = x at hmagnitude hsign
  rw [toRat, numerator_div_denominator, hsign]
  simp only [Bool.false_eq_true, if_false, one_mul]
  -- A significand without its leading bit is all that is in the field.
  obtain hsmall | hnormal | hcarry : significand < exponentPlace ∨
      (exponentPlace ≤ significand ∧ significand < 2 * exponentPlace) ∨
      significand = 2 * exponentPlace := by omega
  · obtain rfl : exponents = 0 := by omega
    have hexponent : x.exponent = 0 := by
      rw [exponent, hmagnitude, Nat.zero_mul, Nat.zero_add, Nat.div_eq_of_lt hsmall]
    have hfraction : x.fraction = significand := by
      rw [fraction, hmagnitude, Nat.zero_mul, Nat.zero_add, Nat.mod_eq_of_lt hsmall]
    rw [Binary64.significand, if_pos hexponent, hfraction, scale, hexponent]
    rfl
  · have hexponent : x.exponent = exponents + 1 := by
      unfold exponent exponentPlace at *
      omega
    have hfraction : exponentPlace + x.fraction = significand := by
      unfold fraction exponentPlace at *
      omega
    have hscale : x.scale = exponents - 1074 := by
      rw [scale, hexponent]
      omega
    rw [Binary64.significand, if_neg (by omega), hfraction, hscale]
  · have hexponent : x.exponent = exponents + 2 := by
      unfold exponent exponentPlace at *
      omega
    have hfraction : x.fraction = 0 := by
      unfold fraction exponentPlace at *
      omega
    have hscale : x.scale = exponents - 1074 + 1 := by
      rw [scale, hexponent]
      omega
    rw [Binary64.significand, if_neg (by omega), hfraction, hscale, zpow_add_one₀ two_ne_zero,
      hcarry]
    push_cast
    ring

theorem isFinite_ofMagnitude_iff {m : Nat} (h : m < signPlace) :
    (ofMagnitude false m).isFinite = true ↔ m < infiniteMagnitude := by
  rw [isFinite, exponent, magnitude_ofMagnitude false h, decide_eq_true_eq,
    Nat.div_lt_iff_lt_mul (by decide)]
  rfl

theorem magnitudeOfRatio_lt (hn : 0 < n) (hd : 0 < d) : magnitudeOfRatio n d < signPlace :=
  Nat.lt_of_le_of_lt (magnitudeOfRatio_eq hn hd ▸ Nat.min_le_right ..) (by decide)

theorem isFinite_ofRatio_iff (hn : 0 < n) (hd : 0 < d) :
    (ofRatio false n d).isFinite = true ↔
      (lastPlace (n / d) + 1074).toNat * exponentPlace + roundedSignificand n d <
        infiniteMagnitude := by
  rw [ofRatio, isFinite_ofMagnitude_iff (magnitudeOfRatio_lt hn hd), magnitudeOfRatio_eq hn hd]
  omega

/-- A quotient of which the places below the last are rounded. -/
theorem toRat_ofRatio (hn : 0 < n) (hd : 0 < d) (h : (ofRatio false n d).isFinite = true) :
    (ofRatio false n d).toRat = roundedSignificand n d * 2 ^ lastPlace (n / d) := by
  have hfield := (isFinite_ofRatio_iff hn hd).1 h
  have hplace : -1074 ≤ lastPlace (n / d) := le_max_right ..
  rw [ofRatio, magnitudeOfRatio_eq hn hd, Nat.min_eq_left hfield.le,
    toRat_ofMagnitude hfield (roundedSignificand_le hd)
      fun hpos => exponentPlace_le_roundedSignificand hn hd (by omega)]
  congr 2
  omega

/-- Quotients below the greatest power of two are rounded to finite numbers. -/
theorem isFinite_ofRatio (hn : 0 < n) (hd : 0 < d) (h : (n / d : ℚ) < 2 ^ (1023 : ℤ)) :
    (ofRatio false n d).isFinite = true := by
  have hpos := quotient_pos hn hd
  have hlog : Int.log 2 (n / d : ℚ) < 1023 :=
    (Int.lt_zpow_iff_log_lt (b := 2) one_lt_two hpos).1 (by exact_mod_cast h)
  have hplace : lastPlace (n / d) ≤ 970 := by
    unfold lastPlace
    omega
  have hsignificand := roundedSignificand_le (n := n) hd
  rw [isFinite_ofRatio_iff hn hd]
  unfold infiniteMagnitude exponentPlace at *
  omega

/-- Full significands at any place but the greatest are those of finite numbers. -/
theorem exists_toRat_eq {m : Nat} {e : ℤ} (hfull : exponentPlace ≤ m)
    (hle : m ≤ 2 * exponentPlace) (hlow : -1074 ≤ e) (hhigh : e < 971) :
    ∃ y : Binary64, y.isFinite = true ∧ y.toRat = m * 2 ^ e := by
  have hfinite : (e + 1074).toNat * exponentPlace + m < infiniteMagnitude := by
    unfold infiniteMagnitude exponentPlace at *
    omega
  refine ⟨_, (isFinite_ofMagnitude_iff (hfinite.trans (by decide))).2 hfinite, ?_⟩
  rw [toRat_ofMagnitude hfinite hle fun _ => hfull]
  congr 2
  omega

/-- A finite number that is as close to the value as any other. -/
structure IsNearest (x : Binary64) (r : ℚ) : Prop where
  isFinite : x.isFinite = true
  abs_sub_le : ∀ y : Binary64, y.isFinite = true → |x.toRat - r| ≤ |y.toRat - r|

/-- Quotients are rounded to nearest numbers. -/
theorem isNearest_ofRatio (hn : 0 < n) (hd : 0 < d) (h : (ofRatio false n d).isFinite = true) :
    (ofRatio false n d).IsNearest (n / d) := by
  refine ⟨h, fun y _ => ?_⟩
  have hpos := quotient_pos hn hd
  have hround := abs_roundedSignificand_sub_le (n := n) hd
  rw [toRat_ofRatio hn hd h]
  -- A negative number is further away than its magnitude.
  refine le_trans ?_ (abs_abs_sub_abs_le y.toRat (n / d))
  rw [abs_of_pos hpos]
  have hnearest := fun k : ℤ =>
    abs_mul_sub_le_abs (m := roundedSignificand n d) (by exact_mod_cast hround) k
  simp only [Int.cast_natCast] at hnearest
  by_cases hscale : lastPlace (n / d) ≤ y.scale
  · obtain ⟨k, hk⟩ := exists_eq_mul hscale
    rw [hk]
    exact hnearest k
  -- A number with more places is less than what the leading bit of the quotient is worth.
  · have hlow := two_zpow_lastPlace_le hpos
      (log_of_lt_lastPlace (y.le_scale.trans_lt (Int.not_le.1 hscale)))
    have hlt := abs_toRat_lt (Int.not_le.1 hscale)
    have hunit : ((2 ^ 52 : ℤ) : ℚ) * 2 ^ lastPlace (n / d) = 2 ^ (lastPlace (n / d) + 52) := by
      rw [zpow_add₀ two_ne_zero, mul_comm]
      norm_num
    refine (hnearest (2 ^ 52)).trans ?_
    rw [hunit, abs_sub_comm, abs_of_nonneg (sub_nonneg.2 hlow), abs_sub_comm,
      abs_of_nonneg (sub_nonneg.2 (hlt.le.trans hlow))]
    exact sub_le_sub_left hlt.le _

section

variable {m : Nat} {e : ℤ}

/-- A significand that begins with a one, at a place that finite numbers have. -/
structure IsFull (m : Nat) (e : ℤ) : Prop where
  le : exponentPlace ≤ m
  lt : m < 2 * exponentPlace
  low : -1074 ≤ e
  high : e < 971

/-- Values below the middle between two numbers are rounded down. -/
theorem IsNearest.le_mul (hx : x.IsNearest r) (hm : IsFull m e) (h : r < (m + 1 / 2) * 2 ^ e) :
    x.toRat ≤ m * 2 ^ e := by
  obtain ⟨y, hfinite, hy⟩ := exists_toRat_eq hm.le hm.lt.le hm.low hm.high
  have hnear := hx.abs_sub_le y hfinite
  rw [hy] at hnear
  by_contra hgt
  have hnext := add_one_mul_le_toRat hm.le (not_le.1 hgt)
  have hfar := le_abs_self (x.toRat - r)
  have hunit := two_zpow_pos e
  obtain ⟨habs, hcase⟩ | ⟨habs, hcase⟩ := abs_cases ((m : ℚ) * 2 ^ e - r) <;> linarith

/-- Values above the middle between two numbers are rounded up. -/
theorem IsNearest.mul_le (hx : x.IsNearest r) (hm : IsFull m e) (h : (m + 1 / 2) * 2 ^ e < r) :
    (m + 1) * 2 ^ e ≤ x.toRat := by
  obtain ⟨y, hfinite, hy⟩ := exists_toRat_eq (Nat.le_succ_of_le hm.le) hm.lt hm.low hm.high
  have hnear := hx.abs_sub_le y hfinite
  rw [hy] at hnear
  push_cast at hnear
  by_contra hgt
  have hlast : x.toRat ≤ m * 2 ^ e :=
    not_lt.1 fun hbetween => hgt (add_one_mul_le_toRat hm.le hbetween)
  have hfar := neg_abs_le (x.toRat - r)
  have hunit := two_zpow_pos e
  obtain ⟨habs, hcase⟩ | ⟨habs, hcase⟩ := abs_cases (((m : ℚ) + 1) * 2 ^ e - r) <;> linarith

end

/-- The relative error of a rounded quotient that is not too small for a full significand. -/
theorem abs_toRat_ofRatio_sub_le (hn : 0 < n) (hd : 0 < d)
    (hfinite : (ofRatio false n d).isFinite = true) (h : 2 ^ (-1022 : ℤ) ≤ (n / d : ℚ)) :
    |(ofRatio false n d).toRat - n / d| ≤ n / d / 2 ^ (53 : ℤ) := by
  have hpos := quotient_pos hn hd
  have hlog : -1022 ≤ Int.log 2 (n / d : ℚ) :=
    (Int.zpow_le_iff_le_log (b := 2) one_lt_two hpos).1 (by exact_mod_cast h)
  have hlow := two_zpow_lastPlace_le hpos hlog
  have hhalf : (2 : ℚ) ^ lastPlace (n / d) / 2 = 2 ^ (lastPlace (n / d) + 52) / 2 ^ (53 : ℤ) := by
    rw [zpow_add₀ two_ne_zero]
    norm_num
    ring
  rw [toRat_ofRatio hn hd hfinite]
  refine (abs_roundedSignificand_sub_le hd).trans ?_
  rw [hhalf]
  exact div_le_div_of_nonneg_right hlow (two_zpow_pos 53).le

end Binary64

end Handheld
