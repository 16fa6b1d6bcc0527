import WireSchema.Literal.Order
import WireSchema.Literal.Text
import WireSchema.Rule
import WireSchema.Violation

/-!
# Limits on values

Rules that several kinds of field share: bounds, allow and deny lists, and sizes. Each has the
violations it contains and the rules it turns into; both follow the same fixed order.
-/

namespace WireSchema

/-! ## Bounds -/

/-- Upper and lower bounds, of each pair at most one. -/
structure Bounds (α : Type) where
  lt : Option α := none
  lte : Option α := none
  gt : Option α := none
  gte : Option α := none

namespace Bounds

variable {α β : Type}

def map (f : α → β) (b : Bounds α) : Bounds β :=
  ⟨b.lt.map f, b.lte.map f, b.gt.map f, b.gte.map f⟩

/-- The bounds that are set, by their rule names. -/
def named (b : Bounds α) : List (String × α) :=
  [("lt", b.lt), ("lte", b.lte), ("gt", b.gt), ("gte", b.gte)].filterMap fun (name, v) =>
    v.map fun v => (name, v)

def isEmpty (b : Bounds α) : Bool := b.named.isEmpty

def upper? (b : Bounds α) : Option (String × α) :=
  match b.lt, b.lte with
  | some v, _ => some ("lt", v)
  | none, some v => some ("lte", v)
  | none, none => none

def lower? (b : Bounds α) : Option (String × α) :=
  match b.gt, b.gte with
  | some v, _ => some ("gt", v)
  | none, some v => some ("gte", v)
  | none, none => none

def isNaN : Literal → Bool
  | .float x => x.isNaN
  | _ => false

/-- The lower bound does not lie below the upper bound. -/
def inverted (b : Bounds Literal) : List Violation :=
  match b.lower?, b.upper? with
  | some (lowerName, lower), some (upperName, upper) =>
    match lower.compare upper with
    | some .gt | some .eq =>
      [.invertedRange (lowerName ++ " " ++ lower.describe) (upperName ++ " " ++ upper.describe)]
    | _ => []
  | _, _ => []

def violations (b : Bounds Literal) : List Violation :=
  ((b.named.filter fun (_, v) => isNaN v).map fun (name, _) => .nanBound name)
    ++ (if b.lt.isSome && b.lte.isSome then [.conflictingRules "lt" "lte"] else [])
    ++ (if b.gt.isSome && b.gte.isSome then [.conflictingRules "gt" "gte"] else [])
    ++ b.inverted

def rules (group : String) (b : Bounds Literal) : List Rule :=
  b.named.map fun (name, v) => ⟨[group, name], v⟩

end Bounds

/-! ## Allow and deny lists -/

/-- The values a field may hold, if any are listed, and those it may not. -/
structure Members (α : Type) where
  allowed : List α := []
  denied : List α := []

namespace Members

variable {α β : Type}

def map (f : α → β) (m : Members α) : Members β := ⟨m.allowed.map f, m.denied.map f⟩

/-- The list with more allowed values. -/
def allow (m : Members α) (values : List α) : Members α := { m with allowed := m.allowed ++ values }

/-- The list with more denied values. -/
def deny (m : Members α) (values : List α) : Members α := { m with denied := m.denied ++ values }

def isEmpty (m : Members α) : Bool := m.allowed.isEmpty && m.denied.isEmpty

/-- The listed values, by their rule names. -/
def named (m : Members α) : List (String × α) :=
  m.allowed.map (fun v => ("in", v)) ++ m.denied.map (fun v => ("not_in", v))

/-- The allowed values that are denied too. -/
def shared (m : Members Literal) : List Literal :=
  m.allowed.filter fun a => m.denied.any fun b => a.agrees b

def violations (m : Members Literal) : List Violation :=
  if m.shared.isEmpty then []
  else [.overlappingMembership (", ".intercalate (m.shared.map Literal.describe))]

def rules (group : String) (m : Members Literal) : List Rule :=
  (if m.allowed.isEmpty then [] else [⟨[group, "in"], .list m.allowed⟩])
    ++ (if m.denied.isEmpty then [] else [⟨[group, "not_in"], .list m.denied⟩])

end Members

/-! ## Sizes -/

/-- The names of the minimum and the maximum of a measured quantity. -/
structure SizeNames where
  min : String
  max : String

/-- The least and the greatest size. -/
structure Size where
  min : Option Nat := none
  max : Option Nat := none

namespace Size

def violations (names : SizeNames) (s : Size) : List Violation :=
  match s.min, s.max with
  | some lo, some hi =>
    if hi < lo then [.minExceedsMax names.min (toString lo) names.max (toString hi)] else []
  | _, _ => []

def rules (group : String) (names : SizeNames) (s : Size) : List Rule :=
  (s.min.map fun n => ⟨[group, names.min], .uint n⟩).toList
    ++ (s.max.map fun n => ⟨[group, names.max], .uint n⟩).toList

end Size

/-- The names of the rules on a length. -/
structure LengthNames extends SizeNames where
  exact : String

/-- A size that may be given exactly instead. -/
structure Length extends Size where
  exact : Option Nat := none

namespace Length

def isEmpty (l : Length) : Bool := l.min.isNone && l.max.isNone && l.exact.isNone

def violations (names : LengthNames) (l : Length) : List Violation :=
  (if l.exact.isSome && l.min.isSome then [.conflictingRules names.min names.exact] else [])
    ++ (if l.exact.isSome && l.max.isSome then [.conflictingRules names.max names.exact] else [])
    ++ l.toSize.violations names.toSizeNames

def rules (group : String) (names : LengthNames) (l : Length) : List Rule :=
  (l.exact.map fun n => ⟨[group, names.exact], .uint n⟩).toList
    ++ l.toSize.rules group names.toSizeNames

/-- Lengths in characters of a text, or in bytes of a byte string. -/
def units : LengthNames := { min := "min_len", max := "max_len", exact := "len" }

/-- Lengths in bytes of a text. -/
def bytes : LengthNames := { min := "min_bytes", max := "max_bytes", exact := "len_bytes" }

end Length

namespace Size

def items : SizeNames := ⟨"min_items", "max_items"⟩
def pairs : SizeNames := ⟨"min_pairs", "max_pairs"⟩

end Size
end WireSchema
