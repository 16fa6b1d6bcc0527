/-!
# Violations

Everything that can be wrong with a schema, with the data its wording needs.
-/

namespace WireSchema

/-- One broken rule. -/
inductive Violation where
  | conflictingRules (first second : String)
  | invertedRange (lower upper : String)
  | overlappingMembership (values : String)
  | constWithRules (rules : String)
  | constOptional
  | minExceedsMax (min minValue max maxValue : String)
  | multipleFormats (formats : String)
  | invalidPattern (pattern reason : String)
  | nanBound (rule : String)
  | durationOutOfRange (rule value : String)
  | finiteOnNonFloat (kind : String)
  | boundTypeMismatch (rule value kind : String)
  | nestedCollection (outer inner : String)
  | uniqueOnNonScalar (kind : String)
  | invalidMapKey (kind : String)
  | collectionInOneof (kind : String)
  | duplicateFieldNumber (number : Nat) (first second : String)
  | duplicateName (name : String)
  | invalidFieldNumber (number : Nat)
  | reservedNumberInUse (number : Int) (field : String)
  | reservedNameInUse (name : String)
  | invalidReservedRange (first last : Int)
  | unresolvedType (name : String)
  | duplicateType (name first second : String)
  | enumMissingZero
  | duplicateEnumNumber (number : Int) (first second : String)
  | duplicateMethod (name : String)
  | missingSchemaField (name : String)
  | missingHostField (name : String)
  | hostTypeMismatch (name host schema : String)
  | ambiguousHostField (name : String) (count : Nat)
deriving DecidableEq, Repr

namespace Violation

/-- The wording of a violation in a report. -/
def message : Violation → String
  | conflictingRules first second => first ++ " and " ++ second ++ " are mutually exclusive"
  | invertedRange lower upper =>
    "lower bound " ++ lower ++ " must be below upper bound " ++ upper
  | overlappingMembership values => "in and not_in share " ++ values
  | constWithRules rules => "a constant field cannot carry other rules (" ++ rules ++ ")"
  | constOptional => "a constant field cannot be optional"
  | minExceedsMax min minValue max maxValue =>
    min ++ " (" ++ minValue ++ ") exceeds " ++ max ++ " (" ++ maxValue ++ ")"
  | multipleFormats formats => "at most one format is allowed, found " ++ formats
  | invalidPattern pattern reason => "pattern " ++ pattern ++ " does not compile: " ++ reason
  | nanBound rule => rule ++ " bound is NaN"
  | durationOutOfRange rule value =>
    rule ++ " value " ++ value ++ " is outside the range of google.protobuf.Duration"
  | finiteOnNonFloat kind => "finite is only valid on float and double fields, not " ++ kind
  | boundTypeMismatch rule value kind =>
    rule ++ " value " ++ value ++ " does not fit a " ++ kind ++ " field"
  | nestedCollection outer inner =>
    outer ++ " cannot directly contain a " ++ inner ++ " field; wrap it in a message"
  | uniqueOnNonScalar kind => "unique items require a scalar item type, not " ++ kind
  | invalidMapKey kind => kind ++ " is not a valid map key type"
  | collectionInOneof kind => "oneof choice cannot be " ++ kind
  | duplicateFieldNumber number first second =>
    "field number " ++ toString number ++ " is used by both " ++ first ++ " and " ++ second
  | duplicateName name => "name " ++ name ++ " is declared more than once"
  | invalidFieldNumber number =>
    "field number " ++ toString number
      ++ " is outside 1..=536870911 or inside the reserved 19000..=19999"
  | reservedNumberInUse number field =>
    "reserved number " ++ toString number ++ " is used by field " ++ field
  | reservedNameInUse name => "reserved name " ++ name ++ " is used by a field"
  | invalidReservedRange first last =>
    "reserved range " ++ toString first ++ "..=" ++ toString last ++ " is inverted"
  | unresolvedType name => "type " ++ name ++ " is not declared in this package"
  | duplicateType name first second =>
    "type " ++ name ++ " is declared in both " ++ first ++ " and " ++ second
  | enumMissingZero => "the first enum value must be zero"
  | duplicateEnumNumber number first second =>
    "enum number " ++ toString number ++ " is used by both " ++ first ++ " and " ++ second
      ++ "; set allow_alias to permit this"
  | duplicateMethod name => "method " ++ name ++ " is declared more than once"
  | missingSchemaField name => "host field " ++ name ++ " has no matching schema field"
  | missingHostField name => "schema field " ++ name ++ " has no matching host field"
  | hostTypeMismatch name host schema =>
    "host field " ++ name ++ " is " ++ host ++ " but the schema resolves to " ++ schema
  | ambiguousHostField name count =>
    "host field " ++ name ++ " matches " ++ toString count ++ " schema fields"

end Violation
end WireSchema
