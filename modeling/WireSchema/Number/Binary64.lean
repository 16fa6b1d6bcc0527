/-!
# Binary64 numbers

A floating-point number is kept as its 64 bits and read by exact integer arithmetic: a number `x`
that is not a NaN stands for the integer `x.scaled` divided by `2 ^ 1074`, the infinities being
`± 2 ^ 1024`. So comparison is comparison of integers, and a mixed comparison rounds the integer
first (`scaledOfInt`).
-/

namespace WireSchema

/-- A binary64 number, by its bits. -/
structure Binary64 where
  bits : UInt64
deriving DecidableEq, Repr

namespace Binary64

/-! ## Fields -/

def isNegative (x : Binary64) : Bool := Nat.pow 2 63 ≤ x.bits.toNat
def biasedExponent (x : Binary64) : Nat := x.bits.toNat / Nat.pow 2 52 % Nat.pow 2 11
def fraction (x : Binary64) : Nat := x.bits.toNat % Nat.pow 2 52

def isFinite (x : Binary64) : Bool := x.biasedExponent != 2047
def isNaN (x : Binary64) : Bool := x.biasedExponent == 2047 && x.fraction != 0
def isInfinite (x : Binary64) : Bool := x.biasedExponent == 2047 && x.fraction == 0

/-- The number with the given sign, biased exponent and fraction. -/
def ofFields (negative : Bool) (biased fraction : Nat) : Binary64 :=
  ⟨UInt64.ofNat ((if negative then Nat.pow 2 63 else 0) + biased * Nat.pow 2 52 + fraction)⟩

/-! ## Value -/

def significand (x : Binary64) : Nat :=
  if x.biasedExponent = 0 then x.fraction else x.fraction + Nat.pow 2 52

/-- The exponent of the last place, counted from `2 ^ -1074`. -/
def lastPlace (x : Binary64) : Nat := x.biasedExponent - 1

/-- The absolute value times `2 ^ 1074`. -/
def magnitude (x : Binary64) : Nat := x.significand * Nat.pow 2 x.lastPlace

/-- The value times `2 ^ 1074`. -/
def scaled (x : Binary64) : Int := if x.isNegative then -(x.magnitude : Int) else x.magnitude

/-- Order by value; a NaN is incomparable. -/
def compare (x y : Binary64) : Option Ordering :=
  if x.isNaN || y.isNaN then none else some (Ord.compare x.scaled y.scaled)

/-- Whether the value is a whole number; the infinities and NaN are none. -/
def isIntegral (x : Binary64) : Bool := x.isFinite && x.magnitude % Nat.pow 2 1074 == 0

/-! ## Rounding and widening -/

/-- The number nearest to `n` that has 53 significant bits; a tie goes to the even one. -/
def roundNat (n : Nat) : Nat :=
  let unit := Nat.pow 2 (n.log2 - 52)
  let q := n / unit
  let r := n % unit
  if unit < 2 * r || (2 * r == unit && q % 2 == 1) then (q + 1) * unit else q * unit

/-- The value of an integer rounded to binary64, times `2 ^ 1074`. -/
def scaledOfInt (i : Int) : Int := i.sign * (roundNat i.natAbs * Nat.pow 2 1074 : Nat)

/-- The binary32 number with these bits, exactly. -/
def ofBinary32 (w : UInt32) : Binary64 :=
  let negative : Bool := Nat.pow 2 31 ≤ w.toNat
  let e := w.toNat / Nat.pow 2 23 % Nat.pow 2 8
  let f := w.toNat % Nat.pow 2 23
  if e = 255 then ofFields negative 2047 (if f = 0 then 0 else (f ||| Nat.pow 2 22) * Nat.pow 2 29)
  else if e = 0 then
    if f = 0 then ofFields negative 0 0
    else ofFields negative (f.log2 + 874) ((f - Nat.pow 2 f.log2) * Nat.pow 2 (52 - f.log2))
  else ofFields negative (e + 896) (f * Nat.pow 2 29)

end Binary64
end WireSchema
