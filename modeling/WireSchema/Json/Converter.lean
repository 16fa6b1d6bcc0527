import WireSchema.Descriptor.Converter
import WireSchema.Json.Basic

/-!
# Converter descriptors as JSON

`toJson` writes an object with a fixed order of members; `ofJson?` reads the members in any order.
-/

namespace WireSchema

namespace Conversion

def toJson : Conversion → Json
  | direct => .tagged "direct" []
  | wellKnown => .tagged "well_known" []
  | timestamp => .tagged "timestamp" []
  | duration => .tagged "duration" []
  | enum path => .tagged "enum" [("path", .string path)]
  | message path host => .tagged "message" [("path", .string path), ("host", .ofOption .string host)]
  | optional inner => .tagged "optional" [("inner", inner.toJson)]
  | repeated inner => .tagged "repeated" [("inner", inner.toJson)]
  | map value => .tagged "map" [("value", value.toJson)]

/-- The conversion that `j` describes, given those that its members describe. -/
def ofParts? (j : Json) (parts : List (String × Conversion)) : Option Conversion := do
  match ← j.text? "kind" with
  | "direct" => some direct
  | "well_known" => some wellKnown
  | "timestamp" => some timestamp
  | "duration" => some duration
  | "enum" => some (enum (← j.text? "path"))
  | "message" => some (message (← j.text? "path") (← j.optionalText? "host"))
  | "optional" => some (optional (← parts.lookup "inner"))
  | "repeated" => some (repeated (← parts.lookup "inner"))
  | "map" => some (map (← parts.lookup "value"))
  | _ => none

mutual
def ofJson? : Json → Option Conversion
  | .object members => ofParts? (.object members) (partsOf members)
  | _ => none

/-- The members that describe conversions. -/
def partsOf : List (String × Json) → List (String × Conversion)
  | [] => []
  | (name, v) :: rest =>
    match ofJson? v with
    | some c => (name, c) :: partsOf rest
    | none => partsOf rest
end

end Conversion

namespace FieldConversion

def toJson (f : FieldConversion) : Json :=
  .object
    [("host_field", .string f.hostField), ("message_field", .string f.messageField),
     ("conversion", f.conversion.toJson), ("oneof", .ofOption .string f.oneof)]

def ofJson? (j : Json) : Option FieldConversion := do
  some ⟨← j.text? "host_field", ← j.text? "message_field",
    ← (j.member? "conversion").bind Conversion.ofJson?, ← j.optionalText? "oneof"⟩

end FieldConversion

namespace MessageConverter

def toJson (m : MessageConverter) : Json :=
  .object
    [("message", .string m.message), ("generated", .string m.generated), ("host", .string m.host),
     ("fields", .ofList FieldConversion.toJson m.fields), ("defaulted", .strings m.defaulted)]

def ofJson? (j : Json) : Option MessageConverter := do
  some ⟨← j.text? "message", ← j.text? "generated", ← j.text? "host",
    ← j.listOf? FieldConversion.ofJson? "fields", ← j.listOf? Json.string? "defaulted"⟩

end MessageConverter

namespace ConverterDescriptor

def toJson (c : ConverterDescriptor) : Json :=
  .object
    [("package", .string c.package), ("generated_module", .string c.generatedModule),
     ("messages", .ofList MessageConverter.toJson c.messages)]

def ofJson? (j : Json) : Option ConverterDescriptor := do
  some ⟨← j.text? "package", ← j.text? "generated_module",
    ← j.listOf? MessageConverter.ofJson? "messages"⟩

end ConverterDescriptor
end WireSchema
