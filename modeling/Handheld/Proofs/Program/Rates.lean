import Handheld.Proofs.Number.Rounding
import Handheld.Proofs.Program.Outcome

/-!
# Refresh rates

Every rate is a binary64 number. One that is not positive is refused. The period of any other one is
its reciprocal, and it is the reciprocal that may be out of range: it does not fit a duration from
`2 ^ 64` seconds on, and below half a nanosecond it is rounded to nothing. Both bounds lie between
two neighbouring binary64 numbers, so they are bounds of the rate.

* `Binary64.isNearest_reciprocal`: what the reciprocal is.
* `Binary64.le_toRat_reciprocal_iff`, `Binary64.toRat_reciprocal_le_iff`: the two bounds.
* `Refresh.period_of_isPositive`: the period in terms of the reciprocal.
* `Refresh.abs_timeOf_sub_div_le`: how far it is from the exact time.
* `Refresh.period_of_rate`: the period of every rate.
-/

namespace Handheld

namespace Binary64

variable {x rate : Binary64}

/-! ## Reciprocals -/

theorem denominator_pos (x : Binary64) : 0 < x.denominator := by
  rw [denominator, Nat.shiftLeft_eq]
  positivity

theorem toRat_of_not_isNegative (h : x.isNegative = false) :
    x.toRat = x.numerator / x.denominator := by
  rw [toRat, h]
  simp

theorem toRat_pos (h : rate.isPositive = true) : 0 < rate.toRat := (isPositive_iff.1 h).2

theorem toRat_of_isPositive (h : rate.isPositive = true) :
    rate.toRat = rate.numerator / rate.denominator := by
  have hsign : rate.isNegative = false := by
    simp only [isPositive, Bool.and_eq_true, Bool.not_eq_true'] at h
    exact h.1.2
  exact toRat_of_not_isNegative hsign

theorem numerator_pos (h : rate.isPositive = true) : 0 < rate.numerator := by
  have hpos := toRat_pos h
  rw [toRat_of_isPositive h] at hpos
  refine Nat.pos_of_ne_zero fun hzero => hpos.ne' ?_
  rw [hzero, Nat.cast_zero, zero_div]

theorem denominator_div_numerator (h : rate.isPositive = true) :
    (rate.denominator / rate.numerator : ℚ) = 1 / rate.toRat := by
  rw [toRat_of_isPositive h, one_div_div]

theorem isFinite_reciprocal (h : rate.isPositive = true)
    (hlt : 1 / rate.toRat < 2 ^ (1023 : ℤ)) : rate.reciprocal.isFinite = true :=
  isFinite_ofRatio rate.denominator_pos (numerator_pos h) (by rwa [denominator_div_numerator h])

theorem isNearest_reciprocal (h : rate.isPositive = true)
    (hfinite : rate.reciprocal.isFinite = true) : rate.reciprocal.IsNearest (1 / rate.toRat) := by
  rw [← denominator_div_numerator h]
  exact isNearest_ofRatio rate.denominator_pos (numerator_pos h) hfinite

theorem toRat_reciprocal (h : rate.isPositive = true) :
    rate.reciprocal.toRat = rate.reciprocal.numerator / rate.reciprocal.denominator :=
  toRat_of_not_isNegative <| isNegative_ofMagnitude false <|
    magnitudeOfRatio_lt rate.denominator_pos (numerator_pos h)

/-- The reciprocal of a rate that is not too great has a full significand. -/
theorem abs_toRat_reciprocal_sub_le (h : rate.isPositive = true)
    (hfinite : rate.reciprocal.isFinite = true) (hslow : rate.toRat ≤ 2 * 10 ^ 9) :
    |rate.reciprocal.toRat - 1 / rate.toRat| ≤ 1 / rate.toRat / 2 ^ 53 := by
  have hinv : 1 / (2 * 10 ^ 9) ≤ 1 / rate.toRat :=
    one_div_le_one_div_of_le (toRat_pos h) hslow
  have hplace : (2 : ℚ) ^ (-1022 : ℤ) ≤ 2 ^ (-31 : ℤ) :=
    zpow_le_zpow_right₀ one_le_two (by decide)
  have hlarge : (2 : ℚ) ^ (-1022 : ℤ) ≤ 1 / rate.toRat :=
    hplace.trans (le_trans (by norm_num) hinv)
  have hseconds := abs_toRat_ofRatio_sub_le rate.denominator_pos
    (numerator_pos h) hfinite (by rwa [denominator_div_numerator h])
  rw [denominator_div_numerator h] at hseconds
  exact_mod_cast hseconds

/-- The last number below `2 ^ 64`. -/
theorem isFull_two_pow : IsFull (2 ^ 53 - 1) 11 := ⟨by decide, by decide, by decide, by decide⟩

/-- The last number below half a nanosecond, in seconds. -/
theorem isFull_halfNano : IsFull 4835703278458516 (-83) :=
  ⟨by decide, by decide, by decide, by decide⟩

/-- From `2 ^ 64` seconds on a duration does not fit. No reciprocal is rounded up to that from
below. -/
theorem le_toRat_reciprocal_iff (h : rate.isPositive = true)
    (hfinite : rate.reciprocal.isFinite = true) :
    2 ^ 64 ≤ rate.reciprocal.toRat ↔ rate.toRat ≤ 1 / 2 ^ 64 := by
  have hpos := toRat_pos h
  have hnear := isNearest_reciprocal h hfinite
  constructor
  · contrapose!
    intro hgt
    -- The next rate is a unit of its last place greater.
    have hnext : (2 ^ 52 + 1 : ℚ) * 2 ^ (-116 : ℤ) ≤ rate.toRat := by
      have hgap := add_one_mul_le_toRat (x := rate) (m := 2 ^ 52) (e := -116) (by decide)
        (by norm_num at hgt ⊢; exact hgt)
      exact_mod_cast hgap
    have hinv : 1 / rate.toRat ≤ 1 / ((2 ^ 52 + 1) * 2 ^ (-116 : ℤ)) :=
      one_div_le_one_div_of_le (by positivity) hnext
    have hle := hnear.le_mul isFull_two_pow (hinv.trans_lt (by norm_num))
    exact hle.trans_lt (by norm_num)
  · intro hle
    have hinv : 2 ^ 64 ≤ 1 / rate.toRat := (le_one_div (by positivity) hpos).2 hle
    have hge := hnear.mul_le isFull_two_pow (lt_of_lt_of_le (by norm_num) hinv)
    exact le_trans (by norm_num) hge

/-- Half a nanosecond lies between two numbers, and is closer to the upper one. -/
theorem toRat_reciprocal_le_iff (h : rate.isPositive = true)
    (hfinite : rate.reciprocal.isFinite = true) :
    rate.reciprocal.toRat ≤ 1 / (2 * 10 ^ 9) ↔ 2 * 10 ^ 9 < rate.toRat := by
  have hpos := toRat_pos h
  have hnear := isNearest_reciprocal h hfinite
  constructor
  · contrapose!
    intro hle
    have hinv : 1 / (2 * 10 ^ 9) ≤ 1 / rate.toRat := one_div_le_one_div_of_le hpos hle
    have hge := hnear.mul_le isFull_halfNano (lt_of_lt_of_le (by norm_num) hinv)
    exact lt_of_lt_of_le (by norm_num) hge
  · intro hgt
    have hnext : (8388608000000000 + 1 : ℚ) * 2 ^ (-22 : ℤ) ≤ rate.toRat := by
      have hgap := add_one_mul_le_toRat (x := rate) (m := 8388608000000000) (e := -22)
        (by decide) (by norm_num at hgt ⊢; exact hgt)
      exact_mod_cast hgap
    have hinv : 1 / rate.toRat ≤ 1 / ((8388608000000000 + 1) * 2 ^ (-22 : ℤ)) :=
      one_div_le_one_div_of_le (by positivity) hnext
    have hle := hnear.le_mul isFull_halfNano (hinv.trans_lt (by norm_num))
    exact hle.trans (by norm_num)

end Binary64

/-! ## Periods -/

theorem roundQuotient_eq_zero_iff {n d : Nat} (hd : 0 < d) :
    roundQuotient n d = 0 ↔ (n / d : ℚ) ≤ 1 / 2 := by
  have hpos : (0 : ℚ) < d := Nat.cast_pos.2 hd
  have hhalf : (n / d : ℚ) ≤ 1 / 2 ↔ n * 2 ≤ d := by
    rw [div_le_div_iff₀ hpos two_pos, one_mul]
    exact_mod_cast Iff.rfl
  rw [hhalf]
  constructor
  · intro hzero
    have hbelow := le_two_mul_roundQuotient (n := n) hd
    rw [hzero] at hbelow
    omega
  · intro hle
    have hlt : n < d := by omega
    rw [roundQuotient, Nat.div_eq_of_lt hlt, Nat.mod_eq_of_lt hlt]
    split
    · rfl
    · rw [if_neg (by omega)]

namespace Refresh

variable {rate : Binary64}

/-- The bound of the period's seconds as a bound of the rate. -/
theorem reciprocal_fits_iff (h : rate.isPositive = true) :
    (rate.reciprocal.isFinite = true ∧
      rate.reciprocal.numerator < UInt64.size * rate.reciprocal.denominator) ↔
      1 / 2 ^ 64 < rate.toRat := by
  have hden : (0 : ℚ) < rate.reciprocal.denominator :=
    Nat.cast_pos.2 rate.reciprocal.denominator_pos
  have hfits : rate.reciprocal.numerator < UInt64.size * rate.reciprocal.denominator ↔
      rate.reciprocal.toRat < 2 ^ 64 := by
    rw [Binary64.toRat_reciprocal h, div_lt_iff₀ hden]
    exact_mod_cast Iff.rfl
  rw [hfits]
  constructor
  · rintro ⟨hfinite, hlt⟩
    exact lt_of_not_ge fun hle =>
      absurd ((Binary64.le_toRat_reciprocal_iff h hfinite).2 hle) (not_le.2 hlt)
  · intro hgt
    have hinv : 1 / rate.toRat < 2 ^ 64 := (one_div_lt (by positivity) (Binary64.toRat_pos h)).1 hgt
    have hrange : (2 : ℚ) ^ 64 ≤ 2 ^ (1023 : ℤ) := by
      exact_mod_cast pow_le_pow_right₀ (a := (2 : ℚ)) one_le_two (by decide : 64 ≤ 1023)
    have hfinite := Binary64.isFinite_reciprocal h (hinv.trans_le hrange)
    exact ⟨hfinite, lt_of_not_ge fun hle =>
      absurd ((Binary64.le_toRat_reciprocal_iff h hfinite).1 hle) (not_le.2 hgt)⟩

/-- The period of a rate whose reciprocal fits. -/
def timeOf (rate : Binary64) : Duration :=
  ⟨roundQuotient (rate.reciprocal.numerator * 1000000000) rate.reciprocal.denominator⟩

theorem period_of_isPositive (h : rate.isPositive = true) :
    (timed rate).period =
      if 1 / 2 ^ 64 < rate.toRat then .ok (some (timeOf rate)) else .error .durationRange := by
  rw [period, if_pos h, durationOfSeconds]
  simp only [reciprocal_fits_iff h]
  split <;> rfl

/-! ## The time between two refreshes -/

theorem toRat_reciprocal_mul (h : rate.isPositive = true) :
    rate.reciprocal.toRat * 10 ^ 9 =
      (rate.reciprocal.numerator * 1000000000 : Nat) / rate.reciprocal.denominator := by
  rw [Binary64.toRat_reciprocal h]
  push_cast
  ring

theorem abs_timeOf_sub_le (h : rate.isPositive = true) :
    |((timeOf rate).nanos : ℚ) - rate.reciprocal.toRat * 10 ^ 9| ≤ 1 / 2 := by
  rw [toRat_reciprocal_mul h]
  exact abs_roundQuotient_sub_le rate.reciprocal.denominator_pos

theorem timeOf_eq_zero_iff (h : rate.isPositive = true)
    (hfinite : rate.reciprocal.isFinite = true) :
    (timeOf rate).nanos = 0 ↔ 2 * 10 ^ 9 < rate.toRat := by
  rw [timeOf, roundQuotient_eq_zero_iff rate.reciprocal.denominator_pos, ← toRat_reciprocal_mul h,
    ← Binary64.toRat_reciprocal_le_iff h hfinite, ← le_div_iff₀ (by norm_num)]
  norm_num

/-- Rounded twice, the period is half a nanosecond and the rounding of the reciprocal away from the
exact time. -/
theorem abs_timeOf_sub_div_le (h : rate.isPositive = true)
    (hfinite : rate.reciprocal.isFinite = true) :
    |((timeOf rate).nanos : ℚ) - 10 ^ 9 / rate.toRat| ≤ 1 / 2 + 10 ^ 9 / rate.toRat / 2 ^ 53 := by
  have hpos := Binary64.toRat_pos h
  by_cases hfast : 2 * 10 ^ 9 < rate.toRat
  -- Then nothing is left of the exact time, which is less than half a nanosecond.
  · rw [(timeOf_eq_zero_iff h hfinite).2 hfast, Nat.cast_zero, zero_sub, abs_neg,
      abs_of_pos (by positivity)]
    have hhalf : 10 ^ 9 / rate.toRat ≤ 1 / 2 := by
      rw [div_le_div_iff₀ hpos two_pos]
      linarith
    exact hhalf.trans (le_add_of_nonneg_right (by positivity))
  · have hseconds := Binary64.abs_toRat_reciprocal_sub_le h hfinite (not_lt.1 hfast)
    have hexact : 10 ^ 9 / rate.toRat = 1 / rate.toRat * 10 ^ 9 := by ring
    calc |((timeOf rate).nanos : ℚ) - 10 ^ 9 / rate.toRat|
        ≤ |((timeOf rate).nanos : ℚ) - rate.reciprocal.toRat * 10 ^ 9| +
            |rate.reciprocal.toRat * 10 ^ 9 - 10 ^ 9 / rate.toRat| := abs_sub_le ..
      _ = |((timeOf rate).nanos : ℚ) - rate.reciprocal.toRat * 10 ^ 9| +
            |rate.reciprocal.toRat - 1 / rate.toRat| * 10 ^ 9 := by
          rw [hexact, abs_mul_sub_mul (by norm_num)]
      _ ≤ 1 / 2 + 1 / rate.toRat / 2 ^ 53 * 10 ^ 9 :=
          add_le_add (abs_timeOf_sub_le h) (mul_le_mul_of_nonneg_right hseconds (by norm_num))
      _ = 1 / 2 + 10 ^ 9 / rate.toRat / 2 ^ 53 := by ring

end Refresh

/-! ## What the program does with a rate -/

open CommandLine (Options)

/-- A screen with pixels that is refreshed at a rate. -/
structure Host.RunsAt (o : Options) (rate : Binary64) : Prop where
  width : 0 < o.width
  height : 0 < o.height
  immediate : o.immediate = false
  refreshRate : o.refreshRate = rate

theorem Host.check_of_runsAt {o : Options} {rate : Binary64} (h : RunsAt o rate) :
    check o = (Refresh.timed rate).period.map fun period =>
      if period.isNone then some (.badRate rate) else none := by
  obtain ⟨hwidth, hheight, himmediate, rfl⟩ := h
  exact check_of_timed hwidth hheight himmediate

/-- A rate that is not a positive number has no period, and the program says so. A positive one of
at most `2 ^ -64` has a period that does not fit, which stops the program. Every other one has a
period: the binary64 number nearest to the reciprocal of the rate, in seconds, rounded to the
nearest nanosecond. That is within half a nanosecond and the error of the reciprocal of the exact
time, and it is nothing at all for rates above two per nanosecond. -/
theorem Refresh.period_of_rate (rate : Binary64) :
    (¬ (rate.isFinite = true ∧ 0 < rate.toRat) →
      (timed rate).period = .ok none ∧
        ∀ o, Host.RunsAt o rate → Host.check o = .ok (some (.badRate rate))) ∧
    (rate.isFinite = true → 0 < rate.toRat → rate.toRat ≤ 1 / 2 ^ 64 →
      (timed rate).period = .error .durationRange ∧
        ∀ o, Host.RunsAt o rate → Host.check o = .error .durationRange) ∧
    (rate.isFinite = true → 1 / 2 ^ 64 < rate.toRat →
      ∃ period : Duration, (timed rate).period = .ok (some period) ∧
        (∀ o, Host.RunsAt o rate → Host.check o = .ok none) ∧
        rate.reciprocal.IsNearest (1 / rate.toRat) ∧
        (∀ k : ℤ, |(period.nanos : ℚ) - rate.reciprocal.toRat * 10 ^ 9| ≤
          |k - rate.reciprocal.toRat * 10 ^ 9|) ∧
        |(period.nanos : ℚ) - 10 ^ 9 / rate.toRat| ≤ 1 / 2 + 10 ^ 9 / rate.toRat / 2 ^ 53 ∧
        (period.nanos = 0 ↔ 2 * 10 ^ 9 < rate.toRat)) := by
  refine ⟨fun hnot => ?_, fun hfinite hpos hslow => ?_, fun hfinite hfits => ?_⟩
  · have hperiod : (timed rate).period = .ok none := by
      rw [← Binary64.isPositive_iff] at hnot
      exact if_neg hnot
    refine ⟨hperiod, fun o ho => ?_⟩
    rw [Host.check_of_runsAt ho, hperiod]
    rfl
  · have hperiod : (timed rate).period = .error .durationRange := by
      rw [period_of_isPositive (Binary64.isPositive_iff.2 ⟨hfinite, hpos⟩), if_neg (not_lt.2 hslow)]
    refine ⟨hperiod, fun o ho => ?_⟩
    rw [Host.check_of_runsAt ho, hperiod]
    rfl
  · have hpositive : rate.isPositive = true :=
      Binary64.isPositive_iff.2 ⟨hfinite, lt_trans (by positivity) hfits⟩
    have hperiod : (timed rate).period = .ok (some (timeOf rate)) := by
      rw [period_of_isPositive hpositive, if_pos hfits]
    have hreciprocal := ((reciprocal_fits_iff hpositive).2 hfits).1
    refine ⟨timeOf rate, hperiod, fun o ho => ?_,
      Binary64.isNearest_reciprocal hpositive hreciprocal, fun k => ?_,
      abs_timeOf_sub_div_le hpositive hreciprocal, timeOf_eq_zero_iff hpositive hreciprocal⟩
    · rw [Host.check_of_runsAt ho, hperiod]
      rfl
    · have hnearest := abs_mul_sub_le_abs (m := (timeOf rate).nanos) (u := 1)
        (by simpa using abs_timeOf_sub_le hpositive) k
      simpa using hnearest

/-- A rate of `2 ^ -64` stops the program, and one of ten per nanosecond has no time between two
refreshes. Without a rate that is a number the options are refused. -/
theorem Refresh.period_at_bounds :
    (timed ⟨4318952042648305664⟩).period = .error .durationRange ∧
    (timed ⟨4756540486875873280⟩).period = .ok (some ⟨0⟩) ∧
    (timed (.nan false)).period = .ok none ∧
    Host.check { Options.initial with refreshRate := .nan false } =
      .ok (some (.badRate (.nan false))) := by
  obtain ⟨-, hslow, -⟩ := period_of_rate ⟨4318952042648305664⟩
  obtain ⟨-, -, hfast⟩ := period_of_rate ⟨4756540486875873280⟩
  obtain ⟨hnan, -, -⟩ := period_of_rate (.nan false)
  have hslowest : Binary64.toRat ⟨4318952042648305664⟩ = 1 / 2 ^ 64 := by
    have hnumerator : Binary64.numerator ⟨4318952042648305664⟩ = 2 ^ 52 := by decide
    have hdenominator : Binary64.denominator ⟨4318952042648305664⟩ = 2 ^ 116 := by decide
    rw [Binary64.toRat_of_isPositive (by decide), hnumerator, hdenominator]
    norm_num
  have hfastest : Binary64.toRat ⟨4756540486875873280⟩ = 10 ^ 10 := by
    have hnumerator : Binary64.numerator ⟨4756540486875873280⟩ = 10 ^ 10 * 2 ^ 19 := by decide
    have hdenominator : Binary64.denominator ⟨4756540486875873280⟩ = 2 ^ 19 := by decide
    rw [Binary64.toRat_of_isPositive (by decide), hnumerator, hdenominator]
    norm_num
  obtain ⟨⟨nanos⟩, hperiod, -, -, -, -, hzero⟩ := hfast (by decide) (by rw [hfastest]; norm_num)
  obtain rfl : nanos = 0 := hzero.2 (by rw [hfastest]; norm_num)
  obtain ⟨hnone, hcheck⟩ := hnan fun h => absurd h.1 (by decide)
  exact ⟨(hslow (by decide) (by rw [hslowest]; positivity) hslowest.le).1, hperiod, hnone,
    hcheck _ ⟨by decide, by decide, rfl, rfl⟩⟩

end Handheld
