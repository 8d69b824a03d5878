import Interview.Number.Power
/-
Finite binary64 numbers, kept as the integers they are made of.

A number is `± mantissa · 2 ^ exponent`. The pair is canonical: the mantissa has 53
bits, or the exponent is the least one, `-1074`. Nothing here is a machine float, so
every operation is arithmetic on `Nat` and `Int` and can be computed with in proofs.

There are two halves. Reading goes from a quotient of naturals to the nearest number,
ties to even. Writing goes the other way, to the fewest decimal digits that read back
as the same number: for one digit, two digits, and so on, the two neighbours of the
number on that decimal grid are tried, and the first grid with a neighbour inside the
rounding interval wins.
-/

set_option autoImplicit false

namespace Interview

/-- A finite binary64 number: `± mantissa · 2 ^ exponent`. -/
structure Binary64 where
  negative : Bool
  mantissa : Nat
  exponent : Int
deriving DecidableEq, Repr, Inhabited

namespace Binary64

/-! ## Equality of values

The two zeros are different numbers to print and the same number to compare. -/

/-- Equality of values: the sign of zero does not count. -/
def same (x y : Binary64) : Bool :=
  if x.mantissa == 0 && y.mantissa == 0 then true else x == y

theorem same_refl (x : Binary64) : same x x = true := by
  unfold same
  split <;> simp

/-! ## Rounding a quotient -/

/-- Positive zero. -/
def zero : Binary64 := ⟨false, 0, -1074⟩

/-- Number of binary digits. -/
def bitLength (n : Nat) : Nat :=
  if n = 0 then 0 else Nat.log2 n + 1

/-- The quotient `n / d` as a natural number, rounded to nearest, ties to even. -/
def roundDiv (n d : Nat) : Nat :=
  let q := n / d
  let r := n % d
  if 2 * r < d then q
  else if d < 2 * r then q + 1
  else if q % 2 = 0 then q else q + 1

/-- The number nearest to `n / d`, ties to even; nothing when it would be infinite. -/
def ofQuotient? (negative : Bool) (n d : Nat) : Option Binary64 :=
  if n = 0 || d = 0 then some { zero with negative }
  else
    -- an exponent for which the quotient has 53 or 54 bits, but not below the least
    let guess : Int := (bitLength n : Int) - (bitLength d : Int) - 53
    let scaled (e : Int) : Nat × Nat :=
      if 0 ≤ e then (n, d * twoPow e.toNat) else (n * twoPow (-e).toNat, d)
    let high (e : Int) : Bool :=
      let (a, b) := scaled e
      twoPow 53 ≤ a / b
    let e0 := if high guess then guess + 1 else guess
    let e := max e0 (-1074)
    let (a, b) := scaled e
    let m := roundDiv a b
    let (m, e) := if m = twoPow 53 then (twoPow 52, e + 1) else (m, e)
    if 971 < e then none else some ⟨negative, m, e⟩

/-- Numerator and denominator of the absolute value. -/
def quotient (x : Binary64) : Nat × Nat :=
  if 0 ≤ x.exponent then (x.mantissa * twoPow x.exponent.toNat, 1)
  else (x.mantissa, twoPow (-x.exponent).toNat)

/-- Product, rounded to nearest. -/
def mul? (x y : Binary64) : Option Binary64 :=
  let (a, b) := x.quotient
  let (c, d) := y.quotient
  ofQuotient? (x.negative != y.negative) (a * c) (b * d)

/-- Quotient, rounded to nearest. A zero divisor gives zero. -/
def div? (x y : Binary64) : Option Binary64 :=
  let (a, b) := x.quotient
  let (c, d) := y.quotient
  ofQuotient? (x.negative != y.negative) (a * d) (b * c)

/-! ## Reading a decimal

A decimal is read in two roundings: its digits become a number, and that number is
multiplied or divided by a power of ten, which is itself a rounded number. Powers
beyond `10 ^ 308` are divided out in steps. -/

/-- The power of ten, rounded, for exponents up to 308. -/
def pow10 (n : Nat) : Binary64 :=
  (ofQuotient? false (tenPow n) 1).getD zero

/-- Division by `10 ^ n`, in steps of at most 308. -/
def divPow10 (x : Binary64) (n : Nat) : Binary64 :=
  if _h : n ≤ 308 then (div? x (pow10 n)).getD zero
  else if x.mantissa = 0 then x
  else divPow10 ((div? x (pow10 308)).getD zero) (n - 308)
termination_by n

/-- The number written `± digits · 10 ^ exponent`; nothing when it is out of range. -/
def ofDecimal? (negative : Bool) (digits : Nat) (exponent : Int) : Option Binary64 := do
  let x ← ofQuotient? false digits 1
  let y ←
    if exponent < 0 then some (divPow10 x (-exponent).toNat)
    else if x.mantissa = 0 then some x
    else if 308 < exponent then none
    else mul? x (pow10 exponent.toNat)
  return { y with negative }

/-! ## The fewest digits -/

/-- The ends of the interval of quotients that round to the number, over a common
denominator, with the number itself between them: `(low, value, high, denominator)`. -/
def roundingInterval (x : Binary64) : Nat × Nat × Nat × Nat :=
  let m := x.mantissa
  -- below a power of two the numbers lie twice as dense
  let step := if m = twoPow 52 && -1074 < x.exponent then 1 else 2
  let (a, b) := quotient { x with mantissa := 1 }
  ((4 * m - step) * a, 4 * m * a, (4 * m + 2) * a, 4 * b)

/-- Whether `d · 10 ^ k` lies in the rounding interval. -/
def roundsBack (x : Binary64) (d : Nat) (k : Int) : Bool :=
  let (lo, _, hi, den) := roundingInterval x
  let (p, q) := if 0 ≤ k then (d * tenPow k.toNat * den, 1) else (d * den, tenPow (-k).toNat)
  if x.mantissa % 2 = 0 then lo * q ≤ p && p ≤ hi * q else lo * q < p && p < hi * q

/-- The two neighbours of the number on the grid of multiples of `10 ^ k`: the greatest
one not above it, and twice the remainder with the grid's step, to tell which is nearer. -/
def gridBelow (x : Binary64) (k : Int) : Nat × Nat × Nat :=
  let (a, b) := x.quotient
  let (a, b) := if 0 ≤ k then (a, b * tenPow k.toNat) else (a * tenPow (-k).toNat, b)
  (a / b, 2 * (a % b), b)

/-- The nearest multiple of `10 ^ k` that reads back, if one of the two neighbours does. -/
def onGrid? (x : Binary64) (k : Int) : Option Nat :=
  let (d, r, step) := gridBelow x k
  let below := roundsBack x d k
  let above := roundsBack x (d + 1) k
  match below, above with
  | true, true =>
    some (if r < step then d else if step < r then d + 1 else if d % 2 = 0 then d else d + 1)
  | true, false => some d
  | false, true => some (d + 1)
  | false, false => none

/-- Number of decimal digits. -/
def decimalLength (n : Nat) : Nat :=
  (Nat.toDigits 10 n).length

/-- The decimal exponent of the leading digit of a non-zero number. -/
def leadingPlace (x : Binary64) : Int :=
  let (a, b) := x.quotient
  if b ≤ a then (decimalLength (a / b) : Int) - 1
  else
    -- the quotient is below one: count the zeros after the point
    let places : Nat := decimalLength (b / a)
    if a * tenPow (places - 1) < b then -(places : Int) else 1 - (places : Int)

/-- The first grid, from coarse to fine, on which a neighbour reads back. -/
def firstGrid (x : Binary64) : Nat → Int → Nat × Int
  | 0, k => ((x.onGrid? k).getD 0, k)
  | n + 1, k =>
    match x.onGrid? k with
    | some d => (d, k)
    | none => firstGrid x n (k - 1)

/-- Digits and exponent of the shortest decimal that reads back, without trailing zeros. -/
def shortest (x : Binary64) : Nat × Int :=
  if x.mantissa = 0 then (0, 0)
  else
    let (d, k) := firstGrid x 17 (x.leadingPlace + 1)
    let rec strip (fuel : Nat) (d : Nat) (k : Int) : Nat × Int :=
      match fuel with
      | 0 => (d, k)
      | fuel + 1 => if d ≠ 0 && d % 10 = 0 then strip fuel (d / 10) (k + 1) else (d, k)
    strip 20 d k

end Binary64

end Interview
