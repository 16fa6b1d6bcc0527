import WireSchema.Message.Basic
import WireSchema.Text.Blank

/-!
# Drift

A message bound to a host record must agree with it field for field: each host field has exactly
one schema field of its name and of its type, and each schema field has a host field. White space
in type tags does not count; names the message ignores are passed over.
-/

namespace WireSchema.FlatMessage

/-- The names of all fields with the host types they expect; a oneof choice may be absent. -/
def expectedTypes (m : FlatMessage) : List (String × String) :=
  m.fields.map (fun (_, f) => (f.name, f.hostType))
    ++ (m.oneofs.flatMap Oneof.choices).map fun (_, f) => (f.name, optionalType f.hostType)

/-- Whether two type tags agree apart from white space. -/
def sameType (a b : String) : Bool := Text.stripBlanks a == Text.stripBlanks b

/-- What is wrong with one host field. -/
def hostFieldDrift (expected : List (String × String)) (f : HostField) : List Violation :=
  match (expected.filter (·.1 == f.name)).map Prod.snd with
  | [] => [.missingSchemaField f.name]
  | [type] => if sameType type f.type then [] else [.hostTypeMismatch f.name f.type type]
  | types => [.ambiguousHostField f.name types.length]

/-- Drift against a host record: by host fields in their order, then by schema names in ascending
order. -/
def driftFrom (m : FlatMessage) (host : HostRecord) : List Violation :=
  ((host.fields.filter fun f => !m.ignored.contains f.name).flatMap
      (hostFieldDrift m.expectedTypes))
    ++ (((StringSet.ofList (m.expectedTypes.map Prod.fst)).toList.filter fun name =>
        (host.get? name).isNone && !m.ignored.contains name).map .missingHostField)

/-- Drift between the message and the record it is bound to, if it is checked. -/
def drift (m : FlatMessage) : List Violation :=
  match m.host with
  | some host => if m.skipHostCheck then [] else m.driftFrom host
  | none => []

end WireSchema.FlatMessage
