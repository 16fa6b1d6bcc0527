import WireSchema.Message.Basic
import WireSchema.Numbering

/-!
# Numbers and names of a message

Over regular fields and oneof choices together, numbers are valid and unique, names are unique, and
neither is reserved. A number that several fields claim belongs to the first of them.
-/

namespace WireSchema.FlatMessage

/-- The numbers and names of all fields in the order of their declaration. -/
def slots (m : FlatMessage) : List (Nat × String) := m.allFields.map fun (n, f) => (n, f.name)

/-- What is wrong with the slots that follow `earlier`. -/
def slotViolations (earlier : List (Nat × String)) : List (Nat × String) → List Violation
  | [] => []
  | (number, name) :: rest =>
    numberViolations earlier number name
      ++ (if earlier.any (·.2 == name) then [.duplicateName name] else [])
      ++ slotViolations (earlier ++ [(number, name)]) rest

def rangeViolations (slots : List (Nat × String)) (r : ReservedRange) : List Violation :=
  if r.last < r.first then [.invalidReservedRange r.first r.last]
  else
    (([r.first, r.last].filter fun n => !(1 ≤ n && n ≤ maxFieldNumber)).map
        Violation.invalidFieldNumber)
      ++ (slots.filter (r.contains ·.1)).map fun (n, name) => .reservedNumberInUse n name

def reservedNameViolations (slots : List (Nat × String)) (name : String) : List Violation :=
  if slots.any (·.2 == name) then [.reservedNameInUse name] else []

def numberingViolations (m : FlatMessage) : List Violation :=
  slotViolations [] m.slots
    ++ m.reservedRanges.flatMap (rangeViolations m.slots)
    ++ m.reservedNames.flatMap (reservedNameViolations m.slots)

end WireSchema.FlatMessage
