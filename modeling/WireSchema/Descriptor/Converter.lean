/-!
# Converter descriptors

How the fields of a bound message map onto the fields of its host record, and back.
-/

namespace WireSchema

/-- How one host field becomes one field of the generated message, and back. -/
inductive Conversion where
  | direct
  /-- A well-known message that the host holds in its generated form. -/
  | wellKnown
  | timestamp
  | duration
  /-- The generated type of an enum. -/
  | enum (path : String)
  /-- The generated type of a message and the host record it is bound to; without one the host
  holds the generated type itself. -/
  | message (path : String) (host : Option String)
  | optional (inner : Conversion)
  | repeated (inner : Conversion)
  | map (value : Conversion)
deriving DecidableEq, Repr

structure FieldConversion where
  /-- The field of the host record. -/
  hostField : String
  /-- The field of the generated message. -/
  messageField : String
  conversion : Conversion
  /-- The oneof that the generated field is a choice of. -/
  oneof : Option String
deriving DecidableEq, Repr

structure MessageConverter where
  message : String
  /-- The path of the generated type. -/
  generated : String
  /-- The path of the host type. -/
  host : String
  fields : List FieldConversion
  /-- Host fields without a schema counterpart, which take their default on the way back. -/
  defaulted : List String
deriving DecidableEq, Repr

/-- The conversions of every bound message in a package. -/
structure ConverterDescriptor where
  package : String
  generatedModule : String
  messages : List MessageConverter
deriving DecidableEq, Repr

end WireSchema
