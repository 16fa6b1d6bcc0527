import WireSchema.Literal.Basic
import WireSchema.Number.Shortest
import WireSchema.Text.Quoted

/-!
# Literals as text

A literal has two written forms that differ in floats only: `render` is the form of a proto file,
`describe` the form of a report.
-/

namespace WireSchema

/-- The shortest decimal without exponent; a tie goes up. -/
def Binary64.plain (keepFraction : Bool) (x : Binary64) : String :=
  x.withSign ((x.shortest .up).positional keepFraction)

namespace Literal

/-- Floats in reports. -/
def describeFloat (x : Binary64) : String :=
  if x.isNaN then "NaN"
  else if x.isInfinite then x.withSign "inf"
  else x.plain false

/-- Floats in proto files: a whole number below `10 ^ 15` keeps a fraction. -/
def renderFloat (x : Binary64) : String :=
  if x.isNaN then "nan"
  else if x.isInfinite then x.withSign "inf"
  else x.plain (x.isIntegral && x.magnitude < Nat.pow 10 15 * Nat.pow 2 1074)

mutual
/-- The text of a literal whose floats are written by `float`. -/
def text (float : Binary64 → String) : Literal → String
  | .bool v => if v then "true" else "false"
  | .int v => toString v
  | .uint v => toString v
  | .float x => float x
  | .string s => Text.quote s
  | .bytes bs => Text.quoteBytes bs
  | .ident name => name
  | .list items => "[" ++ ", ".intercalate (itemTexts float items) ++ "]"
  | .message fields => "\x7b" ++ ", ".intercalate (fieldTexts float fields) ++ "\x7d"

def itemTexts (float : Binary64 → String) : List Literal → List String
  | [] => []
  | v :: vs => text float v :: itemTexts float vs

def fieldTexts (float : Binary64 → String) : List (String × Literal) → List String
  | [] => []
  | (name, v) :: vs => (name ++ ": " ++ text float v) :: fieldTexts float vs
end

def describe (v : Literal) : String := v.text describeFloat
def render (v : Literal) : String := v.text renderFloat

end Literal
end WireSchema
