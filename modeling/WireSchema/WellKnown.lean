/-!
# Well-known types

The standard message types of `google.protobuf`, each declared in a file of its own.
-/

namespace WireSchema

inductive WellKnown where
  | timestamp
  | duration
  | any
  | fieldMask
  | struct
  | empty
deriving DecidableEq, Repr

namespace WellKnown

def fullName : WellKnown → String
  | timestamp => "google.protobuf.Timestamp"
  | duration => "google.protobuf.Duration"
  | any => "google.protobuf.Any"
  | fieldMask => "google.protobuf.FieldMask"
  | struct => "google.protobuf.Struct"
  | empty => "google.protobuf.Empty"

def importPath : WellKnown → String
  | timestamp => "google/protobuf/timestamp.proto"
  | duration => "google/protobuf/duration.proto"
  | any => "google/protobuf/any.proto"
  | fieldMask => "google/protobuf/field_mask.proto"
  | struct => "google/protobuf/struct.proto"
  | empty => "google/protobuf/empty.proto"

/-- The type a host record declares for such a field. -/
def hostType : WellKnown → String
  | timestamp => "SystemTime"
  | duration => "Duration"
  | any => "prost_types::Any"
  | fieldMask => "prost_types::FieldMask"
  | struct => "prost_types::Struct"
  | empty => "()"

/-- The rule group in the validation extension, for the types that have one. -/
def ruleGroup? : WellKnown → Option String
  | timestamp => some "timestamp"
  | duration => some "duration"
  | any => some "any"
  | _ => none

end WellKnown
end WireSchema
