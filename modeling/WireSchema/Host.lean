/-!
# Host records

An explicit description of a record type outside the schema that a message stands for.
-/

namespace WireSchema

/-- A field of a host record: its serialized name and its type tag. -/
structure HostField where
  name : String
  type : String
deriving DecidableEq, Repr

structure HostRecord where
  /-- The path of the type in the host program. -/
  typePath : String
  fields : List HostField
deriving DecidableEq, Repr

/-- The first field of this name. -/
def HostRecord.get? (h : HostRecord) (name : String) : Option HostField :=
  h.fields.find? (·.name == name)

end WireSchema
