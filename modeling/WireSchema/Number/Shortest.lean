import WireSchema.Number.Binary64
import WireSchema.Number.Decimal

/-!
# The shortest decimal of a number

Among all decimals that read back as a given binary64 number, `Binary64.shortest` takes one with
the fewest digits, and among those the nearest. The decimals that read back are the reals between
the two half-way points around the number, ends included when its significand is even. The search
walks the grids of the powers of ten from coarse to fine; the first grid with a point in that
interval wins, and only the two grid points around the number can be the nearest.
-/

namespace WireSchema

/-- Where a number half-way between two shortest decimals goes. -/
inductive Tie where
  | up
  | even
deriving DecidableEq, Repr

namespace Binary64

/-- Four times the magnitude, so that the half-way points around it are whole. -/
def quadruple (x : Binary64) : Nat := 4 * x.magnitude

/-- The distance down to the half-way point, on the scale of `quadruple`: half as far at a power of
two, where the numbers below lie closer. -/
def gapBelow (x : Binary64) : Nat :=
  (if x.fraction = 0 && 1 < x.biasedExponent then 1 else 2) * Nat.pow 2 x.lastPlace

def gapAbove (x : Binary64) : Nat := 2 * Nat.pow 2 x.lastPlace

/-- The point nearest to `x` on the grid of `10 ^ place` that still reads back as `x`. -/
def gridPoint? (tie : Tie) (x : Binary64) (place : Int) : Option Nat :=
  let finer := Nat.pow 10 (-place).toNat
  let unit := Nat.pow 2 1076 * Nat.pow 10 place.toNat
  let value := x.quadruple * finer
  let low := value - x.gapBelow * finer
  let high := value + x.gapAbove * finer
  let inside (c : Nat) : Bool :=
    if x.significand % 2 = 0 then low ≤ c * unit && c * unit ≤ high
    else low < c * unit && c * unit < high
  let c := value / unit
  let rest := value % unit
  let preferUpper : Bool :=
    unit < 2 * rest || (2 * rest == unit && (tie == .up || c % 2 == 1))
  match inside c, inside (c + 1) with
  | true, true => some (if preferUpper then c + 1 else c)
  | true, false => some c
  | false, true => some (c + 1)
  | false, false => none

/-- The shortest decimal of the magnitude of a finite number. -/
def shortest (tie : Tie) (x : Binary64) : Decimal :=
  if x.magnitude = 0 then ⟨0, 0⟩
  else
    ((List.range 660).findSome? fun (i : Nat) =>
      (gridPoint? tie x (309 - i)).map fun c => ⟨c, 309 - i⟩).getD ⟨0, 0⟩

/-- The sign, then the text of the magnitude. -/
def withSign (x : Binary64) (text : String) : String := if x.isNegative then "-" ++ text else text

end Binary64
end WireSchema
