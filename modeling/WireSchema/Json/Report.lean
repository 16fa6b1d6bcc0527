import WireSchema.Json.Basic
import WireSchema.Report

/-!
# Reports as JSON
-/

namespace WireSchema

namespace Violation

/-- The name of the broken rule, and the data of the violation. -/
def jsonForm : Violation → String × List (String × Json)
  | conflictingRules first second =>
    ("conflicting_rules", [("first", .string first), ("second", .string second)])
  | invertedRange lower upper =>
    ("inverted_range", [("lower", .string lower), ("upper", .string upper)])
  | overlappingMembership values => ("overlapping_membership", [("values", .string values)])
  | constWithRules rules => ("const_with_rules", [("rules", .string rules)])
  | constOptional => ("const_optional", [])
  | minExceedsMax min minValue max maxValue =>
    ("min_exceeds_max",
      [("min", .string min), ("min_value", .string minValue), ("max", .string max),
       ("max_value", .string maxValue)])
  | multipleFormats formats => ("multiple_formats", [("formats", .string formats)])
  | invalidPattern pattern reason =>
    ("invalid_pattern", [("pattern", .string pattern), ("reason", .string reason)])
  | nanBound rule => ("nan_bound", [("rule", .string rule)])
  | durationOutOfRange rule value =>
    ("duration_out_of_range", [("rule", .string rule), ("value", .string value)])
  | finiteOnNonFloat kind => ("finite_on_non_float", [("kind", .string kind)])
  | boundTypeMismatch rule value kind =>
    ("bound_type_mismatch",
      [("rule", .string rule), ("value", .string value), ("kind", .string kind)])
  | nestedCollection outer inner =>
    ("nested_collection", [("outer", .string outer), ("inner", .string inner)])
  | uniqueOnNonScalar kind => ("unique_on_non_scalar", [("kind", .string kind)])
  | invalidMapKey kind => ("invalid_map_key", [("kind", .string kind)])
  | collectionInOneof kind => ("collection_in_oneof", [("kind", .string kind)])
  | duplicateFieldNumber number first second =>
    ("duplicate_field_number",
      [("number", .int number), ("first", .string first), ("second", .string second)])
  | duplicateName name => ("duplicate_name", [("name", .string name)])
  | invalidFieldNumber number => ("invalid_field_number", [("number", .int number)])
  | reservedNumberInUse number field =>
    ("reserved_number_in_use", [("number", .int number), ("field", .string field)])
  | reservedNameInUse name => ("reserved_name_in_use", [("name", .string name)])
  | invalidReservedRange first last =>
    ("invalid_reserved_range", [("start", .int first), ("end", .int last)])
  | unresolvedType name => ("unresolved_type", [("name", .string name)])
  | duplicateType name first second =>
    ("duplicate_type",
      [("name", .string name), ("first", .string first), ("second", .string second)])
  | enumMissingZero => ("enum_missing_zero", [])
  | duplicateEnumNumber number first second =>
    ("duplicate_enum_number",
      [("number", .int number), ("first", .string first), ("second", .string second)])
  | duplicateMethod name => ("duplicate_method", [("name", .string name)])
  | missingSchemaField name => ("missing_schema_field", [("name", .string name)])
  | missingHostField name => ("missing_host_field", [("name", .string name)])
  | hostTypeMismatch name host schema =>
    ("host_type_mismatch",
      [("name", .string name), ("host", .string host), ("schema", .string schema)])
  | ambiguousHostField name count =>
    ("ambiguous_host_field", [("name", .string name), ("count", .int count)])

def toJson (v : Violation) : Json :=
  .object (("violation", .string v.jsonForm.1) :: v.jsonForm.2)

/-- The violation that a JSON object stands for. -/
def ofJson? (j : Json) : Option Violation := do
  let text (name : String) : Option String := j.text? name
  let int (name : String) : Option Int := (j.member? name).bind Json.int?
  let nat (name : String) : Option Nat := (j.member? name).bind Json.nat?
  match ← text "violation" with
  | "conflicting_rules" => some (conflictingRules (← text "first") (← text "second"))
  | "inverted_range" => some (invertedRange (← text "lower") (← text "upper"))
  | "overlapping_membership" => some (overlappingMembership (← text "values"))
  | "const_with_rules" => some (constWithRules (← text "rules"))
  | "const_optional" => some constOptional
  | "min_exceeds_max" =>
    some (minExceedsMax (← text "min") (← text "min_value") (← text "max") (← text "max_value"))
  | "multiple_formats" => some (multipleFormats (← text "formats"))
  | "invalid_pattern" => some (invalidPattern (← text "pattern") (← text "reason"))
  | "nan_bound" => some (nanBound (← text "rule"))
  | "duration_out_of_range" => some (durationOutOfRange (← text "rule") (← text "value"))
  | "finite_on_non_float" => some (finiteOnNonFloat (← text "kind"))
  | "bound_type_mismatch" =>
    some (boundTypeMismatch (← text "rule") (← text "value") (← text "kind"))
  | "nested_collection" => some (nestedCollection (← text "outer") (← text "inner"))
  | "unique_on_non_scalar" => some (uniqueOnNonScalar (← text "kind"))
  | "invalid_map_key" => some (invalidMapKey (← text "kind"))
  | "collection_in_oneof" => some (collectionInOneof (← text "kind"))
  | "duplicate_field_number" =>
    some (duplicateFieldNumber (← nat "number") (← text "first") (← text "second"))
  | "duplicate_name" => some (duplicateName (← text "name"))
  | "invalid_field_number" => some (invalidFieldNumber (← nat "number"))
  | "reserved_number_in_use" => some (reservedNumberInUse (← int "number") (← text "field"))
  | "reserved_name_in_use" => some (reservedNameInUse (← text "name"))
  | "invalid_reserved_range" => some (invalidReservedRange (← int "start") (← int "end"))
  | "unresolved_type" => some (unresolvedType (← text "name"))
  | "duplicate_type" =>
    some (duplicateType (← text "name") (← text "first") (← text "second"))
  | "enum_missing_zero" => some enumMissingZero
  | "duplicate_enum_number" =>
    some (duplicateEnumNumber (← int "number") (← text "first") (← text "second"))
  | "duplicate_method" => some (duplicateMethod (← text "name"))
  | "missing_schema_field" => some (missingSchemaField (← text "name"))
  | "missing_host_field" => some (missingHostField (← text "name"))
  | "host_type_mismatch" =>
    some (hostTypeMismatch (← text "name") (← text "host") (← text "schema"))
  | "ambiguous_host_field" => some (ambiguousHostField (← text "name") (← nat "count"))
  | _ => none

end Violation

def Finding.toJson (f : Finding) : Json :=
  .object [("path", .strings f.path), ("kind", f.violation.toJson)]

def Report.toJson (r : Report) : Json := .ofList Finding.toJson r

end WireSchema
