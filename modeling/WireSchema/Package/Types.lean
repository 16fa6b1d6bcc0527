import WireSchema.File

/-!
# The types of a package

The registry of a package holds the declarations of all its files in their order. The first
declaration of a name stays; every later one is a violation.
-/

namespace WireSchema

namespace Registry

/-- Registers declarations in order, with a violation for each name that is taken already. -/
def registerAll (r : Registry) : List (String × Declaration) → Registry × List Violation
  | [] => (r, [])
  | (name, d) :: rest =>
    match r.register name d with
    | .ok grown => grown.registerAll rest
    | .error first =>
      let (grown, violations) := r.registerAll rest
      (grown, .duplicateType name first.file d.file :: violations)

end Registry

/-- Every type that the files declare, in order. -/
def declaredTypes (files : List File) : List (String × Declaration) :=
  files.flatMap fun f => f.declarations.map fun (name, kind) => (name, ⟨f.name, kind⟩)

/-- The registry of these files, with its duplicate declarations. -/
def Registry.ofFiles (files : List File) : Registry × List Violation :=
  Registry.registerAll ∅ (declaredTypes files)

end WireSchema
