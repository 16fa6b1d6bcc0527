import WireSchema.Literal.Basic

/-!
# Rules

A rule is one validation constraint: a literal at an address inside the validation extension, such
as `string.min_len` or `repeated.items.int32.gt`.
-/

namespace WireSchema

structure Rule where
  path : List String
  value : Literal

namespace Rule

/-- The rule addressed beneath `outer`. -/
def wrapped (outer : List String) (r : Rule) : Rule := { r with path := outer ++ r.path }

/-- The address with dots between its segments. -/
def dotted (r : Rule) : String := ".".intercalate r.path

/-- The addresses of several rules, for reports. -/
def names (rules : List Rule) : String := ", ".intercalate (rules.map dotted)

/-- A switch that is turned on. -/
def flag (path : List String) : Rule := ⟨path, .bool true⟩

end Rule

/-- A constraint in the Common Expression Language. -/
structure Constraint where
  id : String
  message : String
  expression : String

namespace Constraint

def toLiteral (c : Constraint) : Literal :=
  .message [("id", .string c.id), ("message", .string c.message),
    ("expression", .string c.expression)]

def rule (c : Constraint) : Rule := ⟨["cel"], c.toLiteral⟩

end Constraint
end WireSchema
