import WireSchema.Descriptor.Package
import WireSchema.Json.Converter

/-!
# Descriptors as JSON

Every descriptor is an object whose members have fixed names in a fixed order. A value with several
forms names its form in the member `kind`, which comes first.
-/

namespace WireSchema

/-! ## Literals, rules and options -/

namespace Literal

mutual
def toJson : Literal → Json
  | bool b => .tagged "bool" [("value", .bool b)]
  | int i => .tagged "int" [("value", .int i)]
  | uint n => .tagged "u_int" [("value", .int n)]
  | float x => .tagged "float" [("value", .float x)]
  | string s => .tagged "string" [("value", .string s)]
  | bytes bs => .tagged "bytes" [("value", .ofList (fun b => .int b.toNat) bs)]
  | ident name => .tagged "ident" [("value", .string name)]
  | list items => .tagged "list" [("value", .array (itemsJson items))]
  | message fields => .tagged "message" [("value", .array (fieldsJson fields))]

def itemsJson : List Literal → List Json
  | [] => []
  | v :: vs => toJson v :: itemsJson vs

/-- Each field of a message as a pair. -/
def fieldsJson : List (String × Literal) → List Json
  | [] => []
  | (name, v) :: vs => .array [.string name, toJson v] :: fieldsJson vs
end

end Literal

def Rule.toJson (r : Rule) : Json :=
  .object [("path", .strings r.path), ("value", r.value.toJson)]

def OptionEntry.toJson (o : OptionEntry) : Json :=
  .object [("name", .string o.name), ("value", o.value.toJson)]

def StringSet.toJson (s : StringSet) : Json := .strings s.toList

/-! ## Types -/

def NumericKind.jsonName : NumericKind → String
  | .double => "double"
  | .float => "float"
  | .int32 => "int32"
  | .int64 => "int64"
  | .uint32 => "u_int32"
  | .uint64 => "u_int64"
  | .sint32 => "s_int32"
  | .sint64 => "s_int64"
  | .fixed32 => "fixed32"
  | .fixed64 => "fixed64"
  | .sfixed32 => "s_fixed32"
  | .sfixed64 => "s_fixed64"

def ScalarKind.jsonName : ScalarKind → String
  | .numeric k => k.jsonName
  | .bool => "bool"
  | .string => "string"
  | .bytes => "bytes"

def ScalarKind.toJson (k : ScalarKind) : Json := .string k.jsonName

def WellKnown.jsonName : WellKnown → String
  | .timestamp => "timestamp"
  | .duration => "duration"
  | .any => "any"
  | .fieldMask => "field_mask"
  | .struct => "struct"
  | .empty => "empty"

def WellKnown.toJson (w : WellKnown) : Json := .string w.jsonName

def ExtensionTarget.jsonName : ExtensionTarget → String
  | .file => "file"
  | .message => "message"
  | .field => "field"
  | .service => "service"
  | .oneof => "oneof"

def ExtensionTarget.toJson (t : ExtensionTarget) : Json := .string t.jsonName

def TypeRef.toJson (t : TypeRef) : Json :=
  .object
    [("proto_name", .string t.protoName), ("full_name", .string t.fullName),
     ("simple_name", .string t.simpleName), ("well_known", .ofOption WellKnown.toJson t.wellKnown),
     ("import", .ofOption .string t.importPath)]

/-! ## Fields -/

/-- The object of a field whose kind is `kindJson`. -/
def FieldDescriptor.jsonWith (kindJson : Json) (d : FieldDescriptor) : Json :=
  .object
    [("name", .string d.name), ("number", .int d.number), ("kind", kindJson),
     ("proto_type", .string d.protoType), ("target_type", .string d.hostType),
     ("optional", .bool d.optional), ("repeated", .bool d.repeated), ("map", .bool d.map),
     ("constant", .bool d.constant), ("oneof", .ofOption .string d.oneof),
     ("rules", .ofList Rule.toJson d.rules), ("options", .ofList OptionEntry.toJson d.options),
     ("imports", d.imports.toJson)]

def WireKind.toJson : WireKind → Json
  | .scalar k => .tagged "scalar" [("scalar", k.toJson)]
  | .enum t => .tagged "enum" [("target", t.toJson)]
  | .message t => .tagged "message" [("target", t.toJson)]
  | .repeated ⟨traits, item⟩ =>
    .tagged "repeated" [("item", FieldDescriptor.jsonWith item.toJson ⟨traits, item⟩)]
  | .map ⟨keyTraits, key⟩ ⟨valueTraits, value⟩ =>
    .tagged "map"
      [("key", FieldDescriptor.jsonWith key.toJson ⟨keyTraits, key⟩),
       ("value", FieldDescriptor.jsonWith value.toJson ⟨valueTraits, value⟩)]

def FieldDescriptor.toJson (d : FieldDescriptor) : Json := d.jsonWith d.kind.toJson

/-! ## Declarations -/

def OneofDescriptor.toJson (d : OneofDescriptor) : Json :=
  .object
    [("name", .string d.name), ("fields", .ofList FieldDescriptor.toJson d.fields),
     ("rules", .ofList Rule.toJson d.rules), ("options", .ofList OptionEntry.toJson d.options)]

def ReservedRange.toJson (r : ReservedRange) : Json :=
  .object [("start", .int r.first), ("end", .int r.last)]

/-- Ranges of enum numbers are pairs. -/
def ReservedNumbers.toJson (r : ReservedNumbers) : Json := .array [.int r.first, .int r.last]

def EnumValueDescriptor.toJson (v : EnumValueDescriptor) : Json :=
  .object
    [("name", .string v.name), ("number", .int v.number),
     ("options", .ofList OptionEntry.toJson v.options)]

def EnumDescriptor.toJson (d : EnumDescriptor) : Json :=
  .object
    [("name", .string d.name), ("full_name", .string d.fullName),
     ("values", .ofList EnumValueDescriptor.toJson d.values),
     ("reserved_ranges", .ofList ReservedNumbers.toJson d.reservedRanges),
     ("reserved_names", .strings d.reservedNames),
     ("options", .ofList OptionEntry.toJson d.options)]

def HostRecord.toJson (h : HostRecord) : Json :=
  .object
    [("type_path", .string h.typePath),
     ("fields", .ofList
       (fun f => .object [("name", .string f.name), ("ty", .string f.type)]) h.fields)]

/-- The object of a message with these nested messages. -/
def FlatMessageDescriptor.jsonWith (messages : List Json) (d : FlatMessageDescriptor) : Json :=
  .object
    [("name", .string d.name), ("full_name", .string d.fullName),
     ("fields", .ofList FieldDescriptor.toJson d.fields),
     ("oneofs", .ofList OneofDescriptor.toJson d.oneofs),
     ("messages", .array messages),
     ("enums", .ofList EnumDescriptor.toJson d.enums),
     ("reserved_ranges", .ofList ReservedRange.toJson d.reservedRanges),
     ("reserved_names", .strings d.reservedNames),
     ("rules", .ofList Rule.toJson d.rules), ("options", .ofList OptionEntry.toJson d.options),
     ("host", .ofOption HostRecord.toJson d.host)]

namespace MessageDescriptor

mutual
def toJson : MessageDescriptor → Json
  | ⟨d, nested⟩ => d.jsonWith (listJson nested)

def listJson : List MessageDescriptor → List Json
  | [] => []
  | d :: ds => toJson d :: listJson ds
end

end MessageDescriptor

def MethodDescriptor.toJson (d : MethodDescriptor) : Json :=
  .object
    [("name", .string d.name), ("input", d.input.toJson), ("output", d.output.toJson),
     ("client_streaming", .bool d.clientStreaming), ("server_streaming", .bool d.serverStreaming),
     ("options", .ofList OptionEntry.toJson d.options)]

def ServiceDescriptor.toJson (d : ServiceDescriptor) : Json :=
  .object
    [("name", .string d.name), ("methods", .ofList MethodDescriptor.toJson d.methods),
     ("options", .ofList OptionEntry.toJson d.options)]

def ExtensionDescriptor.toJson (d : ExtensionDescriptor) : Json :=
  .object
    [("target", d.target.toJson), ("fields", .ofList FieldDescriptor.toJson d.fields)]

def FileDescriptor.toJson (d : FileDescriptor) : Json :=
  .object
    [("name", .string d.name), ("package", .string d.package), ("imports", d.imports.toJson),
     ("options", .ofList OptionEntry.toJson d.options),
     ("messages", .ofList MessageDescriptor.toJson d.messages),
     ("enums", .ofList EnumDescriptor.toJson d.enums),
     ("services", .ofList ServiceDescriptor.toJson d.services),
     ("extensions", .ofList ExtensionDescriptor.toJson d.extensions)]

/-! ## Packages -/

def PackageDescriptor.toJson (d : PackageDescriptor) : Json :=
  .object
    [("package", .string d.package), ("files", .ofList FileDescriptor.toJson d.files),
     ("converters", d.converters.toJson)]

/-- The indented JSON text of a package descriptor. -/
def PackageDescriptor.jsonText (d : PackageDescriptor) : String := d.toJson.text

end WireSchema
