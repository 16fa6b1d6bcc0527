import WireSchema.Name

/-!
# Settings

What a package is generated with: its name, the module of the generated types, and the names of the
file with the conversions and of the validation extension. Settings that could only produce broken
output are refused.
-/

namespace WireSchema

structure Config where
  /-- The package that every file declares. -/
  package : String := ""
  /-- The module path of the generated types. -/
  generatedModule : String := "crate::pb"
  /-- The file that holds the conversions. -/
  converterFile : String := "convert.rs"
  /-- The file that declares the validation extension. -/
  validateImport : String := "buf/validate/validate.proto"
deriving DecidableEq, Repr

namespace Config

/-- Why settings are refused. -/
inductive Refusal where
  | noPackage
  | package (name : String)
  | noOutput
deriving DecidableEq, Repr

def Refusal.message : Refusal → String
  | noPackage => "package must not be empty"
  | package name => "package " ++ Text.quote name ++ " is not a dotted identifier"
  | noOutput => "generated_module and converter_file must not be empty"

/-- Every piece of the package name between dots is an identifier. -/
def hasDottedPackage (c : Config) : Bool :=
  (Text.pieces '.' c.package.toList).all Name.identifierChars

def check (c : Config) : Except Refusal Unit :=
  if c.package.isEmpty then .error .noPackage
  else if !c.hasDottedPackage then .error (.package c.package)
  else if c.generatedModule.isEmpty || c.converterFile.isEmpty then .error .noOutput
  else .ok ()

end Config
end WireSchema
