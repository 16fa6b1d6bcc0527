import WireSchema.Descriptor.Field
import WireSchema.Host

/-!
# Descriptors of declarations

What the declarations of a file become once they are checked: oneofs, enums, messages, services,
extension blocks and the file itself.
-/

namespace WireSchema

structure OneofDescriptor where
  name : String
  fields : List FieldDescriptor
  rules : List Rule
  options : List OptionEntry

/-- An inclusive range of reserved field numbers. -/
structure ReservedRange where
  first : Nat
  last : Nat
deriving DecidableEq, Repr

def ReservedRange.contains (r : ReservedRange) (number : Nat) : Bool :=
  r.first ≤ number && number ≤ r.last

/-- An inclusive range of reserved enum numbers. -/
structure ReservedNumbers where
  first : Int
  last : Int
deriving DecidableEq, Repr

def ReservedNumbers.contains (r : ReservedNumbers) (number : Int) : Bool :=
  r.first ≤ number && number ≤ r.last

structure EnumValueDescriptor where
  name : String
  number : Int
  options : List OptionEntry

structure EnumDescriptor where
  name : String
  fullName : String
  values : List EnumValueDescriptor
  reservedRanges : List ReservedNumbers
  reservedNames : List String
  options : List OptionEntry

/-- A message descriptor without the messages nested in it. -/
structure FlatMessageDescriptor where
  name : String
  fullName : String
  /-- The regular fields in ascending order of their numbers. -/
  fields : List FieldDescriptor
  oneofs : List OneofDescriptor
  enums : List EnumDescriptor
  reservedRanges : List ReservedRange
  reservedNames : List String
  rules : List Rule
  options : List OptionEntry
  host : Option HostRecord

structure MessageDescriptor extends FlatMessageDescriptor where
  messages : List MessageDescriptor

structure MethodDescriptor where
  name : String
  input : TypeRef
  output : TypeRef
  clientStreaming : Bool
  serverStreaming : Bool
  options : List OptionEntry

structure ServiceDescriptor where
  name : String
  methods : List MethodDescriptor
  options : List OptionEntry

/-- The options message that an extension block extends. -/
inductive ExtensionTarget where
  | file
  | message
  | field
  | service
  | oneof
deriving DecidableEq, Repr

namespace ExtensionTarget

def extendee : ExtensionTarget → String
  | file => "google.protobuf.FileOptions"
  | message => "google.protobuf.MessageOptions"
  | field => "google.protobuf.FieldOptions"
  | service => "google.protobuf.ServiceOptions"
  | oneof => "google.protobuf.OneofOptions"

/-- The targets in the order of their blocks in a file. -/
def all : List ExtensionTarget := [file, message, field, service, oneof]

end ExtensionTarget

/-- The file that declares the options messages. -/
def descriptorImport : String := "google/protobuf/descriptor.proto"

structure ExtensionDescriptor where
  target : ExtensionTarget
  fields : List FieldDescriptor

structure FileDescriptor where
  name : String
  package : String
  imports : StringSet
  options : List OptionEntry
  messages : List MessageDescriptor
  enums : List EnumDescriptor
  services : List ServiceDescriptor
  extensions : List ExtensionDescriptor

end WireSchema
