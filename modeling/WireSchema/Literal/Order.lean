import WireSchema.Literal.Basic

/-!
# The order of literals

`Literal.compare` orders two literals where that makes sense: integers exactly whatever their
signedness, a number and a float after rounding both to binary64, texts and byte strings
lexicographically, and `seconds`/`nanos` aggregates chronologically. All other pairs, and a NaN
with anything, are incomparable.
-/

namespace WireSchema.Literal

/-- The value of a number rounded to binary64, times `2 ^ 1074`. -/
def rounded? : Literal → Option Int
  | int v => some (Binary64.scaledOfInt v)
  | uint v => some (Binary64.scaledOfInt v)
  | float x => if x.isNaN then none else some x.scaled
  | _ => none

/-- The integer `seconds` and `nanos` of an aggregate. -/
def moment? (v : Literal) : Option (Int × Int) := do
  let seconds ← (v.get? "seconds").bind integer?
  let nanos ← (v.get? "nanos").bind integer?
  some (seconds, nanos)

def compareMoments (a b : Int × Int) : Ordering :=
  (Ord.compare a.1 b.1).then (Ord.compare a.2 b.2)

/-- Byte strings in lexicographic order, a proper beginning first. -/
def compareBytes : List UInt8 → List UInt8 → Ordering
  | [], [] => .eq
  | [], _ :: _ => .lt
  | _ :: _, [] => .gt
  | a :: as, b :: bs => (Ord.compare a b).then (compareBytes as bs)

/-- The order of two literals, if they are comparable. -/
def compare (a b : Literal) : Option Ordering :=
  match a, b with
  | string s, string t => some (Ord.compare s t)
  | bytes s, bytes t => some (compareBytes s t)
  | message _, message _ => do some (compareMoments (← a.moment?) (← b.moment?))
  | _, _ =>
    match a.integer?, b.integer? with
    | some x, some y => some (Ord.compare x y)
    | _, _ => do some (Ord.compare (← a.rounded?) (← b.rounded?))

/-- Equal values, or literals that compare as equal. -/
def agrees (a b : Literal) : Bool := a.same b || a.compare b == some .eq

end WireSchema.Literal
