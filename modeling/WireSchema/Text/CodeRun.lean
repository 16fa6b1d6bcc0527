/-!
# Runs of code points

Character properties are tables of runs: every code point, or every second one, between two ends.
Neighbouring capitals and small letters alternate in many scripts, so runs of step two keep the
tables short.
-/

namespace WireSchema.Text

/-- The code points `first`, `first + step`, … up to `last`. -/
structure CodeRun where
  first : Nat
  last : Nat
  step : Nat

namespace CodeRun

def has (r : CodeRun) (code : Nat) : Bool :=
  r.first ≤ code && code ≤ r.last && (code - r.first) % r.step == 0

/-- Some run of the table has the character. -/
def anyHas (runs : List CodeRun) (c : Char) : Bool := runs.any fun r => r.has c.toNat

end CodeRun
end WireSchema.Text
