import WireSchema.StringSet
import WireSchema.OptionEntry
import WireSchema.Rule
import WireSchema.Scalar
import WireSchema.TypeName

/-!
# Field descriptors

A field after its checks: its number, how it is laid out on the wire, its validation rules, options
and imports. What the kind determines (the type token in the file, the host type) is computed from
it.
-/

namespace WireSchema

/-- What a field descriptor holds besides its kind. -/
structure FieldTraits where
  name : String
  number : Nat
  optional : Bool
  /-- The field is pinned to one value. -/
  constant : Bool
  /-- The oneof that the field is a choice of. -/
  oneof : Option String
  rules : List Rule
  options : List OptionEntry
  /-- The imports that the field and everything it wraps require. -/
  imports : StringSet

mutual
/-- How a field is laid out on the wire. Scalars, enums and messages are leaves; repeated and map
fields wrap the descriptors of their elements. -/
inductive WireKind where
  | scalar (kind : ScalarKind)
  | enum (target : TypeRef)
  | message (target : TypeRef)
  | repeated (item : FieldDescriptor)
  | map (key value : FieldDescriptor)

structure FieldDescriptor extends FieldTraits where
  kind : WireKind
end

/-- `inner` wrapped in `Option<..>`, unless it already is. -/
def optionalType (inner : String) : String :=
  if "Option<".toList.isPrefixOf inner.toList then inner else "Option<" ++ inner ++ ">"

namespace WireKind

def isLeaf : WireKind → Bool
  | repeated _ | map _ _ => false
  | _ => true

def isRepeated : WireKind → Bool
  | repeated _ => true
  | _ => false

def isMap : WireKind → Bool
  | map _ _ => true
  | _ => false

def scalar? : WireKind → Option ScalarKind
  | scalar k => some k
  | _ => none

/-- The type token before the field name; a repeated field has the token of its items. -/
def protoType : WireKind → String
  | scalar k => k.protoName
  | enum t | message t => t.protoName
  | repeated ⟨_, item⟩ => item.protoType
  | map ⟨_, key⟩ ⟨_, value⟩ => "map<" ++ key.protoType ++ ", " ++ value.protoType ++ ">"

/-- The type a host record must declare for a value of this kind. -/
def hostType : WireKind → String
  | scalar k => k.hostType
  | enum t => t.simpleName
  | message t =>
    match t.wellKnown with
    | some w => w.hostType
    | none => t.simpleName
  | repeated ⟨traits, item⟩ => "Vec<" ++ wrap traits.optional item.hostType ++ ">"
  | map ⟨keyTraits, key⟩ ⟨valueTraits, value⟩ =>
    "HashMap<" ++ wrap keyTraits.optional key.hostType ++ ", "
      ++ wrap valueTraits.optional value.hostType ++ ">"
where
  wrap (optional : Bool) (type : String) : String := if optional then optionalType type else type

end WireKind

namespace FieldDescriptor

def repeated (d : FieldDescriptor) : Bool := d.kind.isRepeated
def map (d : FieldDescriptor) : Bool := d.kind.isMap
def protoType (d : FieldDescriptor) : String := d.kind.protoType

/-- The type a host record must declare for the field. -/
def hostType (d : FieldDescriptor) : String :=
  if d.optional then optionalType d.kind.hostType else d.kind.hostType

end FieldDescriptor
end WireSchema
