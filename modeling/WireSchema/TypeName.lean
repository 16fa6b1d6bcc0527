import WireSchema.Name
import WireSchema.WellKnown

/-!
# References to types

A `TypeName` is a reference as an author writes it, a `TypeRef` what it resolved to.
-/

namespace WireSchema

/-- A reference to a message or an enum. -/
inductive TypeName where
  /-- A type of this package, looked up from the place of the reference outwards. -/
  | declared (name : String)
  /-- A type of another package and the file that declares it. -/
  | external (name importPath : String)
  | wellKnown (type : WellKnown)
deriving DecidableEq, Repr

namespace TypeName

def name : TypeName → String
  | declared n => n
  | external n _ => n
  | wellKnown w => w.fullName

/-- The last segment of the name, which is what host code calls the type. -/
def simpleName (t : TypeName) : String := Text.lastPiece '.' t.name

def wellKnown? : TypeName → Option WellKnown
  | wellKnown w => some w
  | _ => none

/-- A reference to a type of this package. -/
def ofName (name : String) : Except InvalidName TypeName := do
  Name.typeName "referenced" name
  return declared name

/-- A reference to a type declared in the file at `importPath`. -/
def ofExternal (name importPath : String) : Except InvalidName TypeName := do
  Name.typeName "external" name
  return external name importPath

end TypeName

/-- A resolved reference. -/
structure TypeRef where
  /-- The name as written in the file. -/
  protoName : String
  /-- The name relative to the package, or the full name of a type outside it. -/
  fullName : String
  wellKnown : Option WellKnown
  /-- The file declaring the type, when it is not the referring file. -/
  importPath : Option String
deriving DecidableEq, Repr

def TypeRef.simpleName (t : TypeRef) : String := Text.lastPiece '.' t.protoName

end WireSchema
