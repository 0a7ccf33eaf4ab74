/-!
# Binary64 numbers

IEEE 754 double precision numbers by their bits, with exact arithmetic on natural numbers: the value
of a finite number is `significand * 2 ^ scale`, and `ofRatio` rounds an exact quotient to the
nearest number, ties to the even one.

* `two_mul_roundQuotient_le` and `le_two_mul_roundQuotient`: a rounded quotient is within half a
  unit of the exact one.
* `magnitude_ofMagnitude` and `isNegative_ofMagnitude`: a number is made of its sign and magnitude.
-/

namespace Handheld

/-- The integer nearest to `n / d`, and the even one of two at the same distance. -/
def roundQuotient (n d : Nat) : Nat :=
  let q := n / d
  let r := n % d
  if 2 * r < d then q else if d < 2 * r then q + 1 else q + q % 2

/-- A rounded quotient is at most half a unit above the exact one. -/
theorem two_mul_roundQuotient_le {n d : Nat} (hd : 0 < d) :
    2 * (roundQuotient n d * d) ≤ 2 * n + d := by
  have hn := Nat.div_add_mod n d
  have hr := Nat.mod_lt n hd
  unfold roundQuotient
  simp only
  rw [Nat.mul_comm d] at hn
  have hq : n / d % 2 < 2 := Nat.mod_lt _ (by omega)
  split
  · omega
  · split
    · rw [Nat.add_mul]; omega
    · rw [Nat.add_mul]
      have : n / d % 2 * d ≤ 1 * d := Nat.mul_le_mul_right _ (by omega)
      omega

/-- A rounded quotient is at most half a unit below the exact one. -/
theorem le_two_mul_roundQuotient {n d : Nat} (hd : 0 < d) :
    2 * n ≤ 2 * (roundQuotient n d * d) + d := by
  have hn := Nat.div_add_mod n d
  have hr := Nat.mod_lt n hd
  unfold roundQuotient
  simp only
  rw [Nat.mul_comm d] at hn
  split
  · omega
  · split
    · rw [Nat.add_mul]; omega
    · rw [Nat.add_mul]; omega

/-- The number of bits that `n / d` has before the binary point: the largest `k` with
`2 ^ k ≤ n / d`. -/
def log2Quotient (n d : Nat) : Int :=
  let k : Int := (n.log2 : Int) - d.log2
  if n <<< (-k).toNat < d <<< k.toNat then k - 1 else k

/-- A double precision number by its bits. -/
structure Binary64 where
  /-- Sign bit, eleven bits of exponent and fifty-two of fraction. -/
  bits : UInt64
deriving DecidableEq, Repr, Inhabited

namespace Binary64

/-- The place value of the sign bit. -/
def signPlace : Nat := 9223372036854775808

/-- The place value of the exponent field, and the number of fractions. -/
def exponentPlace : Nat := 4503599627370496

/-- The sign bit is set. -/
def isNegative (x : Binary64) : Bool := signPlace ≤ x.bits.toNat

/-- The bits without the sign, as a number: it grows with the magnitude. -/
def magnitude (x : Binary64) : Nat := x.bits.toNat % signPlace

/-- The exponent field. -/
def exponent (x : Binary64) : Nat := x.magnitude / exponentPlace

/-- The fraction field. -/
def fraction (x : Binary64) : Nat := x.magnitude % exponentPlace

/-- The magnitude field of the infinities. -/
def infiniteMagnitude : Nat := 2047 * exponentPlace

/-- Neither infinite nor a NaN. -/
def isFinite (x : Binary64) : Bool := x.exponent < 2047

/-- Not a number. -/
def isNaN (x : Binary64) : Bool := infiniteMagnitude < x.magnitude

/-- Finite and greater than zero. -/
def isPositive (x : Binary64) : Bool := x.isFinite && !x.isNegative && 0 < x.magnitude

/-- The significand of a finite number, as an integer. -/
def significand (x : Binary64) : Nat :=
  if x.exponent = 0 then x.fraction else exponentPlace + x.fraction

/-- The power of two that scales the significand of a finite number. -/
def scale (x : Binary64) : Int := (max x.exponent 1 : Nat) - 1075

/-- Numerator of the magnitude of a finite number. -/
def numerator (x : Binary64) : Nat := x.significand <<< x.scale.toNat

/-- Denominator of the magnitude of a finite number. -/
def denominator (x : Binary64) : Nat := 1 <<< (-x.scale).toNat

/-- The magnitude field of the number nearest to `n / d`, ties to even, infinite if that is too
large. The last place of the result is worth `2 ^ e`, and `e` is never below `-1074`. -/
def magnitudeOfRatio (n d : Nat) : Nat :=
  if n = 0 then 0
  else
    let e : Int := max (log2Quotient n d - 52) (-1074)
    let m := roundQuotient (n <<< (-e).toNat) (d <<< e.toNat)
    -- The leading bit of a normal significand adds one to the exponent field, and so does a carry
    -- out of the rounding.
    min ((e + 1074).toNat * exponentPlace + m) infiniteMagnitude

/-- The number with a sign and a magnitude field. -/
def ofMagnitude (negative : Bool) (magnitude : Nat) : Binary64 :=
  ⟨UInt64.ofNat (magnitude + if negative then signPlace else 0)⟩

/-- A magnitude field that leaves the sign bit free is found again. -/
theorem magnitude_ofMagnitude (negative : Bool) {m : Nat} (h : m < signPlace) :
    (ofMagnitude negative m).magnitude = m := by
  unfold signPlace at h
  unfold magnitude ofMagnitude
  -- The sign bit alone lies above the magnitude, and both together fit into the word.
  cases negative <;> simp only [signPlace, UInt64.toNat_ofNat', if_true, Bool.false_eq_true,
    if_false] <;> omega

/-- The sign is found again. -/
theorem isNegative_ofMagnitude (negative : Bool) {m : Nat} (h : m < signPlace) :
    (ofMagnitude negative m).isNegative = negative := by
  unfold signPlace at h
  unfold isNegative ofMagnitude
  cases negative <;> simp only [signPlace, UInt64.toNat_ofNat', if_true, Bool.false_eq_true,
    if_false, decide_eq_true_eq, decide_eq_false_iff_not] <;> omega

/-- The number nearest to `n / d`, with a sign. -/
def ofRatio (negative : Bool) (n d : Nat) : Binary64 := ofMagnitude negative (magnitudeOfRatio n d)

/-- A natural number, rounded. -/
def ofNat (n : Nat) : Binary64 := ofRatio false n 1

/-- An infinity. -/
def infinity (negative : Bool) : Binary64 := ofMagnitude negative infiniteMagnitude

/-- The usual NaN, with a sign. -/
def nan (negative : Bool) : Binary64 := ofMagnitude negative (infiniteMagnitude + exponentPlace / 2)

/-- The number nearest to one divided by a positive number. -/
def reciprocal (x : Binary64) : Binary64 := ofRatio false x.denominator x.numerator

end Binary64

end Handheld
