import WireSchema.Registry
import WireSchema.TypeName
import WireSchema.Violation

/-!
# Scopes

Where a declaration stands: the registry of its package, its file, and the names of the messages
around it. References are resolved from there.
-/

namespace WireSchema

structure Scope where
  registry : Registry
  /-- The file being built. -/
  file : String
  /-- The file that declares the validation extension. -/
  validateImport : String
  /-- The names of the enclosing messages, outermost first. -/
  path : List String

namespace Scope

/-- The scope inside the message of this name. -/
def enter (s : Scope) (name : String) : Scope := { s with path := s.path ++ [name] }

/-- The scope around the innermost message. -/
def leave (s : Scope) : Scope := { s with path := s.path.dropLast }

@[simp] theorem leave_enter (s : Scope) (name : String) : (s.enter name).leave = s := by
  simp [leave, enter]

@[simp] theorem validateImport_enter (s : Scope) (name : String) :
    (s.enter name).validateImport = s.validateImport := rfl

/-- The name relative to the package of something declared here. -/
def qualify (s : Scope) (name : String) : String := ".".intercalate (s.path ++ [name])

/-- What a reference to a type of the given kind stands for. -/
def resolve (s : Scope) (expected : DeclKind) (target : TypeName) : Except Violation TypeRef :=
  match target with
  | .external name path => .ok ⟨name, name, none, some path⟩
  | .wellKnown w => .ok ⟨w.fullName, w.fullName, some w, some w.importPath⟩
  | .declared name =>
    match s.registry.resolve? s.path name with
    | some (fullName, d) =>
      if d.kind = expected then
        .ok ⟨name, fullName, none, if d.file = s.file then none else some d.file⟩
      else .error (.unresolvedType name)
    | none => .error (.unresolvedType name)

end Scope
end WireSchema
