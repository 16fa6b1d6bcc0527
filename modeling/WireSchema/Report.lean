import WireSchema.Text.Lines
import WireSchema.Text.Quoted
import WireSchema.Violation

/-!
# Reports

A report lists every violation of one build in the order of discovery, each with the scopes that
lead to it, outermost first. A scope that builds several parts puts its own name in front of what
they report (`Report.under`), so a whole report reads from the package down to the field.

`Report.text` writes a scope once for all neighbouring findings that share it.
-/

namespace WireSchema

/-- The scope of a named declaration. -/
def scopeOf (what name : String) : String := what ++ " " ++ Text.quote name

/-- A violation and the scopes it was found in, outermost first. -/
structure Finding where
  path : List String
  violation : Violation
deriving DecidableEq, Repr

namespace Finding

def under (scope : String) (f : Finding) : Finding := { f with path := scope :: f.path }

/-- The finding on one line. -/
def line (f : Finding) : String :=
  String.join (f.path.map (· ++ ": ")) ++ f.violation.message

end Finding

/-- Everything found in one build, in order. -/
abbrev Report := List Finding

namespace Report

/-- Violations found in the current scope. -/
def ofViolations (vs : List Violation) : Report := vs.map fun v => ⟨[], v⟩

/-- The report with every finding moved beneath `scope`. -/
def under (scope : String) (r : Report) : Report := r.map (Finding.under scope)

def violations (r : Report) : List Violation := r.map Finding.violation

/-- `value` if nothing was reported. -/
def toExcept {α : Type} (r : Report) (value : α) : Except Report α :=
  if r.isEmpty then .ok value else .error r

/-! ## Text -/

/-- The number of scopes two paths share from the outside. -/
def sharedDepth : List String → List String → Nat
  | a :: as, b :: bs => if a = b then sharedDepth as bs + 1 else 0
  | _, _ => 0

/-- A heading line for each scope, the first at the given depth. -/
def headings (depth : Nat) : List String → List String
  | [] => []
  | scope :: scopes => (Text.blanks (2 * depth) ++ scope ++ ":") :: headings (depth + 1) scopes

/-- The lines of a report that follow a finding at `previous`. -/
def linesAfter (previous : List String) : Report → List String
  | [] => []
  | f :: r =>
    let shared := sharedDepth previous f.path
    headings shared (f.path.drop shared)
      ++ (Text.blanks (2 * f.path.length) ++ "- " ++ f.violation.message) :: linesAfter f.path r

def lines (r : Report) : List String := linesAfter [] r

def text (r : Report) : String := Text.ofLines r.lines

end Report
end WireSchema
