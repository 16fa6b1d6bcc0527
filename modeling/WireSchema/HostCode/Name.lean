import WireSchema.Text.Casing

/-!
# Names in host code

Host code is Rust. A field keeps its name unless it is a keyword; a type lives in a module path made
of the messages around it, so `Order.Line` is the type `Line` of the module `order`.
-/

namespace WireSchema.HostCode

/-- The keywords that cannot be escaped. -/
def pathKeywords : List String := ["self", "Self", "super", "crate"]

def keywords : List String :=
  ["as", "async", "await", "break", "const", "continue", "crate", "dyn", "else", "enum", "extern",
   "false", "fn", "for", "if", "impl", "in", "let", "loop", "match", "mod", "move", "mut", "pub",
   "ref", "return", "self", "Self", "static", "struct", "super", "trait", "true", "type", "unsafe",
   "use", "where", "while"]

/-- The name as an identifier: a keyword in its raw form, or with an underscore if it has none. -/
def identifier (name : String) : String :=
  if pathKeywords.contains name then name ++ "_"
  else if keywords.contains name then "r#" ++ name
  else name

/-- The field of a generated message. -/
def messageField (name : String) : String := identifier (Text.toSnakeCase name)

/-- The path with one more segment. -/
def inModule (module name : String) : String := module ++ "::" ++ name

/-- The generated type of a message or an enum, by its name relative to the package. -/
def typePath (module fullName : String) : String :=
  let segments := Text.piecesOf '.' fullName
  inModule ((segments.dropLast.map Text.toSnakeCase).foldl inModule module)
    (Text.toPascalCase (segments.getLast?.getD fullName))

/-- The characters before and after the last `::`, if there is one. -/
def splitLastSegment? : List Char → Option (List Char × List Char)
  | [] => none
  | c :: cs =>
    match splitLastSegment? cs with
    | some (before, after) => some (c :: before, after)
    | none => if [':', ':'].isPrefixOf (c :: cs) then some ([], cs.drop 1) else none

/-- The module that a generated message keeps its nested types in. -/
def nestedModule (generated : String) : String :=
  match splitLastSegment? generated.toList with
  | some ([], name) => Text.toSnakeCase (String.ofList name)
  | some (parent, name) => inModule (String.ofList parent) (Text.toSnakeCase (String.ofList name))
  | none => Text.toSnakeCase generated

/-- The generated type of a oneof. -/
def oneofPath (generated oneof : String) : String :=
  inModule (nestedModule generated) (Text.toPascalCase oneof)

end WireSchema.HostCode
