import WireSchema.Config
import WireSchema.Json.Basic
import WireSchema.Json.Token

/-!
# Settings as JSON

Settings are an object of texts with the members `package`, `generated_module`, `converter_file` and
`validate_import`, each at most once, or a list of such texts in that order. What is missing takes
its default; anything else is refused.
-/

namespace WireSchema

namespace Json.Token

/-- The texts of the items in a list after its bracket, up to the end. -/
def items? : List Token → Option (List String)
  | [.mark ']'] => some []
  | [.string s, .mark ']'] => some [String.ofList s]
  | .string s :: .mark ',' :: .string t :: rest =>
    (items? (.string t :: rest)).map (String.ofList s :: ·)
  | _ => none

/-- The members of an object after its bracket, up to the end. -/
def members? : List Token → Option (List (String × String))
  | [.mark '\x7d'] => some []
  | [.string k, .mark ':', .string v, .mark '\x7d'] => some [(String.ofList k, String.ofList v)]
  | .string k :: .mark ':' :: .string v :: .mark ',' :: .string l :: rest =>
    (members? (.string l :: rest)).map ((String.ofList k, String.ofList v) :: ·)
  | _ => none

end Json.Token

namespace Config

/-- The names of the settings in their order. -/
def keys : List String := ["package", "generated_module", "converter_file", "validate_import"]

/-- The settings with these values; a setting without one has its default. -/
def ofValues (values : List (String × String)) : Config :=
  let default : Config := {}
  { package := (values.lookup "package").getD default.package
    generatedModule := (values.lookup "generated_module").getD default.generatedModule
    converterFile := (values.lookup "converter_file").getD default.converterFile
    validateImport := (values.lookup "validate_import").getD default.validateImport }

/-- Settings from members with known and distinct names. -/
def ofMembers? (members : List (String × String)) : Option Config :=
  let names := members.map Prod.fst
  if names.all keys.contains && names.eraseDups.length == names.length then
    some (ofValues members)
  else none

/-- Settings from their values in order. -/
def ofItems? (items : List String) : Option Config :=
  if items.length ≤ keys.length then some (ofValues (keys.zip items)) else none

def ofTokens? : List Json.Token → Option Config
  | .mark '\x7b' :: rest => (Json.Token.members? rest).bind ofMembers?
  | .mark '[' :: rest => (Json.Token.items? rest).bind ofItems?
  | _ => none

/-- Settings as they are written, unchecked. -/
def parse? (text : String) : Option Config := (Json.Token.scan? text.toList).bind ofTokens?

/-- Why no settings could be read. -/
inductive ReadError where
  | malformed
  | refused (r : Refusal)
deriving DecidableEq, Repr

/-- Reads settings and checks them. -/
def ofJson (text : String) : Except ReadError Config :=
  match parse? text with
  | none => .error .malformed
  | some c =>
    match c.check with
    | .ok () => .ok c
    | .error r => .error (.refused r)

def toJson (c : Config) : Json :=
  .object
    [("package", .string c.package), ("generated_module", .string c.generatedModule),
     ("converter_file", .string c.converterFile), ("validate_import", .string c.validateImport)]

end Config
end WireSchema
