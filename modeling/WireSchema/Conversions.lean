import WireSchema.Descriptor.Package
import WireSchema.HostCode.Name

/-!
# Conversions

For every message bound to a host record: how each host field becomes a field of the generated
message. Bound messages come in the order of the files, each before the messages nested in it.
-/

namespace WireSchema

/-- The host types of the bound messages, by message name in the order of the files. -/
abbrev Hosts := List (String × String)

/-- The host type of a message; of several messages of the name the last one counts. -/
def Hosts.find? (hosts : Hosts) (message : String) : Option String := hosts.reverse.lookup message

namespace Conversion

/-- The conversion of a value of this kind. -/
def ofKind (module : String) (hosts : Hosts) : WireKind → Conversion
  | .scalar _ => direct
  | .enum t => enum (HostCode.typePath module t.fullName)
  | .message t =>
    match t.wellKnown with
    | some .timestamp => timestamp
    | some .duration => duration
    | some _ => wellKnown
    | none => message (HostCode.typePath module t.fullName) (hosts.find? t.fullName)
  | .repeated ⟨_, item⟩ => repeated (ofKind module hosts item)
  | .map _ ⟨_, value⟩ => map (ofKind module hosts value)

/-- The conversion of a field: what may be absent is optional on the host side. -/
def ofField (module : String) (hosts : Hosts) (d : FieldDescriptor) : Conversion :=
  if d.optional || d.oneof.isSome then optional (ofKind module hosts d.kind)
  else ofKind module hosts d.kind

end Conversion

/-- The regular fields of a message, then the choices of its oneofs. -/
def FlatMessageDescriptor.allFields (m : FlatMessageDescriptor) : List FieldDescriptor :=
  m.fields ++ m.oneofs.flatMap OneofDescriptor.fields

namespace MessageConverter

/-- The conversions of the fields that the host record has. -/
def conversions (module : String) (hosts : Hosts) (m : FlatMessageDescriptor) (host : HostRecord) :
    List FieldConversion :=
  (m.allFields.filter fun d => (host.get? d.name).isSome).map fun d =>
    ⟨d.name, d.name, .ofField module hosts d, d.oneof⟩

/-- The converter of a message bound to `host`. -/
def ofBound (module : String) (hosts : Hosts) (m : FlatMessageDescriptor) (host : HostRecord) :
    MessageConverter :=
  let fields := conversions module hosts m host
  { message := m.fullName
    generated := HostCode.typePath module m.fullName
    host := host.typePath
    fields
    defaulted := (host.fields.map HostField.name).filter fun name =>
      !fields.any (·.hostField == name) }

/-- The converter of a message, if it is bound. -/
def ofMessage? (module : String) (hosts : Hosts) (m : FlatMessageDescriptor) :
    Option MessageConverter :=
  m.host.map (ofBound module hosts m)

end MessageConverter

namespace MessageDescriptor

mutual
/-- A message and everything nested in it, each message before those it nests. -/
def flatten : MessageDescriptor → List FlatMessageDescriptor
  | ⟨m, nested⟩ => m :: flattenAll nested

def flattenAll : List MessageDescriptor → List FlatMessageDescriptor
  | [] => []
  | m :: ms => flatten m ++ flattenAll ms
end

end MessageDescriptor

namespace ConverterDescriptor

def hosts (messages : List FlatMessageDescriptor) : Hosts :=
  messages.filterMap fun m => m.host.map fun host => (m.fullName, host.typePath)

/-- The conversions of every bound message in these files. -/
def ofFiles (package module : String) (files : List FileDescriptor) : ConverterDescriptor :=
  let messages := files.flatMap fun f => MessageDescriptor.flattenAll f.messages
  ⟨package, module, messages.filterMap (MessageConverter.ofMessage? module (hosts messages))⟩

end ConverterDescriptor
end WireSchema
