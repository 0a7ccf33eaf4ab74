import Handheld.Number.Binary64
import Handheld.Number.Checked

/-!
# Decimal text of numbers

Reading: unsigned and signed integers, and binary64 numbers by their decimal digits, each rounded
once from the exact value. Writing: the fewest digits that read back, the nearest to the exact value
among those, and the larger one of two at the same distance; always positional.
-/

namespace Handheld.Decimal

/-- The value of a string of digits: `none` if it is empty or holds anything but digits. -/
def digitsValue? (cs : List Char) : Option Nat :=
  if cs.isEmpty || !cs.all Char.isDigit then none
  else some (cs.foldl (fun n c => 10 * n + (c.toNat - '0'.toNat)) 0)

/-- An integer, with a sign or none. Zero may have either sign. -/
def integer? : List Char → Option Int
  | '-' :: rest => (digitsValue? rest).map fun n => -(n : Int)
  | '+' :: rest => (digitsValue? rest).map fun n => (n : Int)
  | cs => (digitsValue? cs).map fun n => (n : Int)

/-- A signed 32-bit word. -/
def word32? (cs : List Char) : Option Int := (integer? cs).filter fun n => Word32.Fits n

/-- An unsigned 32-bit word. As any integer it may have a sign, so a negative zero is one too. -/
def unsigned32? (cs : List Char) : Option Nat :=
  (integer? cs).bind fun n => if 0 ≤ n ∧ n < UInt32.size then some n.toNat else none

/-- The number of decimal digits of a number. -/
def digitCount (n : Nat) : Nat := (Nat.toDigits 10 n).length

/-- A power of ten. -/
def tenTo (exponent : Nat) : Nat := Nat.pow 10 exponent

/-- The number nearest to `digits * 10 ^ exponent`. Magnitudes that are certainly too large or too
small for any finite number other than zero are decided by the number of digits alone. -/
def toBinary64 (negative : Bool) (digits : Nat) (exponent : Int) : Binary64 :=
  if digits = 0 then .ofMagnitude negative 0
  else
    let top := digitCount digits + exponent
    if 310 < top then .infinity negative
    else if top < -330 then .ofMagnitude negative 0
    else .ofRatio negative (digits * tenTo exponent.toNat) (tenTo (-exponent).toNat)

/-- A magnitude in decimal: digits with a point or none, at least one digit, and an exponent or
none. -/
def magnitude? (negative : Bool) (cs : List Char) : Option Binary64 :=
  let whole := cs.takeWhile Char.isDigit
  let afterWhole := cs.dropWhile Char.isDigit
  let fraction := match afterWhole with
    | '.' :: rest => rest.takeWhile Char.isDigit
    | _ => []
  let afterFraction := match afterWhole with
    | '.' :: rest => rest.dropWhile Char.isDigit
    | _ => afterWhole
  let exponent := match afterFraction with
    | [] => some 0
    | c :: rest => if c = 'e' ∨ c = 'E' then integer? rest else none
  match digitsValue? (whole ++ fraction), exponent with
  | some digits, some e => some (toBinary64 negative digits (e - fraction.length))
  | _, _ => none

/-- A magnitude in decimal or by name, in any case. -/
def unsigned? (negative : Bool) (cs : List Char) : Option Binary64 :=
  match String.ofList (cs.map Char.toLower) with
  | "nan" => some (.nan negative)
  | "inf" => some (.infinity negative)
  | "infinity" => some (.infinity negative)
  | _ => magnitude? negative cs

/-- A binary64 number in decimal or by name, with a sign or none. -/
def binary64? : List Char → Option Binary64
  | '-' :: rest => unsigned? true rest
  | '+' :: rest => unsigned? false rest
  | cs => unsigned? false cs

/-- The integer `p` with `10 ^ (p - 1) ≤ n / d < 10 ^ p`, for a positive quotient. -/
def decimalPoint (n d : Nat) : Int :=
  let e : Int := (digitCount n : Int) - digitCount d
  if n * tenTo (-e).toNat < d * tenTo e.toNat then e else e + 1

/-- The better of the two neighbours of `n / d` on the grid of step `10 ^ step` that read back as
the magnitude `m`, if one does. -/
def onGrid? (m n d : Nat) (step : Int) : Option Nat :=
  let below := n * tenTo (-step).toNat / (d * tenTo step.toNat)
  let readsBack := fun c : Nat => (toBinary64 false c step).magnitude = m
  let nearerBelow := 2 * (n * tenTo (-step).toNat) < (2 * below + 1) * (d * tenTo step.toNat)
  -- At equal distance the upper neighbour is taken.
  if readsBack below ∧ (nearerBelow ∨ ¬ readsBack (below + 1)) then some below
  else if readsBack (below + 1) then some (below + 1)
  else none

/-- The first of the coming grids, each ten times finer, with a point that reads back. -/
def firstGrid (m n d : Nat) (step : Int) : Nat → Nat × Int
  | 0 => (n * tenTo (-step).toNat / (d * tenTo step.toNat), step)
  | fuel + 1 =>
    match onGrid? m n d step with
    | some c => (c, step)
    | none => firstGrid m n d (step - 1) fuel

/-- The shortest decimal `c * 10 ^ step` that reads back as a finite positive number. Seventeen
digits always suffice. -/
def shortest (x : Binary64) : Nat × Int :=
  let (c, step) :=
    firstGrid x.magnitude x.numerator x.denominator
      (decimalPoint x.numerator x.denominator - 1) 17
  if c % 10 = 0 then (c / 10, step + 1) else (c, step)

/-- The positional text of `c * 10 ^ step`. -/
def positional (c : Nat) (step : Int) : List Char :=
  let digits := Nat.toDigits 10 c
  if 0 ≤ step then digits ++ List.replicate step.toNat '0'
  else
    let places := (-step).toNat
    let padded := List.replicate (places + 1 - digits.length) '0' ++ digits
    padded.take (padded.length - places) ++ '.' :: padded.drop (padded.length - places)

/-- The text of a number. A zero keeps its sign, and a NaN shows none. -/
def text (x : Binary64) : String :=
  if x.isNaN then "NaN"
  else
    let sign := if x.isNegative then ['-'] else []
    let digits :=
      if !x.isFinite then ['i', 'n', 'f']
      else if x.magnitude = 0 then ['0']
      else positional (shortest x).1 (shortest x).2
    String.ofList (sign ++ digits)

end Handheld.Decimal
