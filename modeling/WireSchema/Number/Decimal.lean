/-!
# Decimal texts

A decimal is a whole number times a power of ten. It is written positionally, with as many zeros as
it takes, or with its first digit before the point and an exponent.
-/

namespace WireSchema

/-- The number `digits * 10 ^ exponent`. -/
structure Decimal where
  digits : Nat
  exponent : Int
deriving DecidableEq, Repr

namespace Decimal

def digitChars (d : Decimal) : List Char := (toString d.digits).toList

/-- The power of ten of the first digit. -/
def firstPlace (d : Decimal) : Int := d.exponent + d.digitChars.length - 1

def zeros (n : Nat) : List Char := List.replicate n '0'

/-- The decimal without an exponent; a whole number has a fraction `.0` if `keepFraction`. -/
def positional (keepFraction : Bool) (d : Decimal) : String :=
  let ds := d.digitChars
  if 0 ≤ d.exponent then
    String.ofList (ds ++ zeros d.exponent.toNat ++ if keepFraction then ['.', '0'] else [])
  else
    let places := (-d.exponent).toNat
    if places < ds.length then
      String.ofList (ds.take (ds.length - places) ++ '.' :: ds.drop (ds.length - places))
    else String.ofList ('0' :: '.' :: zeros (places - ds.length) ++ ds)

/-- The decimal with one digit before the point and a signed exponent. -/
def scientific (d : Decimal) : String :=
  let head := match d.digitChars with
    | [] => []
    | [c] => [c]
    | c :: cs => c :: '.' :: cs
  let sign := if 0 ≤ d.firstPlace then '+' else '-'
  String.ofList (head ++ 'e' :: sign :: (toString d.firstPlace.natAbs).toList)

end Decimal
end WireSchema
