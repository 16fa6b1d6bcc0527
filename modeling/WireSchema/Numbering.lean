import WireSchema.Violation

/-!
# Field numbers

Which numbers a field may have, and what is wrong with one field among those declared before it.
-/

namespace WireSchema

/-- The greatest field number. -/
def maxFieldNumber : Nat := 536870911

/-- Inside the range of field numbers and outside the part the implementation reserves. -/
def isValidFieldNumber (n : Nat) : Bool :=
  1 ≤ n && n ≤ maxFieldNumber && !(19000 ≤ n && n ≤ 19999)

/-- The name that holds a number first. -/
def holder? (fields : List (Nat × String)) (number : Nat) : Option String := fields.lookup number

/-- An invalid number, and a number that an earlier field holds. -/
def numberViolations (earlier : List (Nat × String)) (number : Nat) (name : String) :
    List Violation :=
  (if isValidFieldNumber number then [] else [.invalidFieldNumber number])
    ++ (match holder? earlier number with
      | some first => [.duplicateFieldNumber number first name]
      | none => [])

end WireSchema
