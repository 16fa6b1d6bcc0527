import WireSchema.Descriptor.Field
import WireSchema.Field.Format
import WireSchema.Field.Limits
import WireSchema.Pattern

/-!
# Fields

A field as its author declares it: a single value of some leaf type, a repeated field around one
item, or a map. Each leaf type carries just the rules that make sense for it, with values of its
own type. Only leaves can be optional or pinned to a constant.
-/

namespace WireSchema

/-! ## Rules of the leaf types -/

/-- A value the field is pinned to, and values that document it. -/
structure Samples (α : Type) where
  constant : Option α := none
  examples : List α := []

namespace Samples

variable {α β : Type}

def map (f : α → β) (s : Samples α) : Samples β := ⟨s.constant.map f, s.examples.map f⟩

/-- The sample values, by their rule names. -/
def named (s : Samples α) : List (String × α) :=
  s.constant.toList.map (fun v => ("const", v)) ++ s.examples.map (fun v => ("example", v))

end Samples

structure NumberRules where
  range : Bounds Literal := {}
  members : Members Literal := {}
  samples : Samples Literal := {}
  finite : Bool := false

/-- A pattern and fixed parts that a value must have. -/
structure Affixes (α : Type) where
  pattern : Option Pattern := none
  leading : Option α := none
  trailing : Option α := none
  contains : Option α := none
  notContains : Option α := none

def Affixes.map {α β : Type} (f : α → β) (a : Affixes α) : Affixes β :=
  ⟨a.pattern, a.leading.map f, a.trailing.map f, a.contains.map f, a.notContains.map f⟩

structure StringRules where
  length : Length := {}
  bytes : Length := {}
  members : Members String := {}
  affixes : Affixes String := {}
  /-- The formats named, in order. -/
  formats : List Format := []
  samples : Samples String := {}

structure BytesRules where
  length : Length := {}
  members : Members (List UInt8) := {}
  affixes : Affixes (List UInt8) := {}
  formats : List Format := []
  samples : Samples (List UInt8) := {}

structure EnumRules where
  definedOnly : Bool := false
  members : Members Int := {}
  samples : Samples Int := {}

structure TimestampRules where
  range : Bounds Instant := {}
  /-- The value must lie in the past at validation time. -/
  ltNow : Bool := false
  /-- The value must lie in the future at validation time. -/
  gtNow : Bool := false
  /-- The value must lie within this span of the current time. -/
  within : Option Span := none
  samples : Samples Instant := {}

structure DurationRules where
  range : Bounds Span := {}
  members : Members Span := {}
  samples : Samples Span := {}

/-! ## Fields -/

/-- The type of a single value, with its rules. -/
inductive LeafType where
  | number (kind : NumericKind) (rules : NumberRules)
  | bool (samples : Samples Bool)
  | string (rules : StringRules)
  | bytes (rules : BytesRules)
  | enum (target : TypeName) (rules : EnumRules)
  | message (target : TypeName)
  | timestamp (rules : TimestampRules)
  | duration (rules : DurationRules)
  /-- A message of any type, limited by the type URLs it may hold. -/
  | any (members : Members String)

/-- What every field carries whatever its type. -/
structure FieldHead where
  name : String
  required : Bool := false
  constraints : List Constraint := []
  options : List OptionEntry := []
  /-- Files that declare custom options of the field. -/
  imports : StringSet := ∅

namespace FieldHead

def ofName (name : String) : Except InvalidName FieldHead := do
  Name.identifier "field" name
  return { name }

/-- A change that every kind of field allows. -/
inductive Edit where
  | required
  | option (edit : OptionEdit)
  | optionImport (path : String)
  | constraint (c : Constraint)

def Edit.deprecated : Edit := option .deprecated
def Edit.jsonName (name : String) : Edit := option (.assign "json_name" (.string name))

def edit (h : FieldHead) : Edit → Except InvalidName FieldHead
  | .required => return { h with required := true }
  | .option e => return { h with options := ← e.applyChecked h.options }
  | .optionImport path => return { h with imports := h.imports.insert path }
  | .constraint c => return { h with constraints := h.constraints ++ [c] }

end FieldHead

structure LeafField where
  head : FieldHead
  optional : Bool := false
  type : LeafType

inductive Field where
  | leaf (field : LeafField)
  | repeated (head : FieldHead) (item : Field) (count : Size) (unique : Bool)
  | map (head : FieldHead) (key value : Field) (pairs : Size)

/-! ## Views -/

namespace LeafType

def scalar? : LeafType → Option ScalarKind
  | number k _ => some (.numeric k)
  | bool _ => some .bool
  | string _ => some .string
  | bytes _ => some .bytes
  | _ => none

/-- A short name of the type, for reports. -/
def kindName : LeafType → String
  | number k _ => k.protoName
  | bool _ => ScalarKind.bool.protoName
  | string _ => ScalarKind.string.protoName
  | bytes _ => ScalarKind.bytes.protoName
  | enum t _ => "enum " ++ t.name
  | message t => "message " ++ t.name
  | timestamp _ => WellKnown.timestamp.fullName
  | duration _ => WellKnown.duration.fullName
  | any _ => WellKnown.any.fullName

/-- The type a host record declares for a value, known without resolving the reference. -/
def hostType : LeafType → String
  | number k _ => k.hostType
  | bool _ => ScalarKind.bool.hostType
  | string _ => ScalarKind.string.hostType
  | bytes _ => ScalarKind.bytes.hostType
  | enum t _ => t.simpleName
  | message t =>
    match t.wellKnown? with
    | some w => w.hostType
    | none => t.simpleName
  | timestamp _ => WellKnown.timestamp.hostType
  | duration _ => WellKnown.duration.hostType
  | any _ => WellKnown.any.hostType

end LeafType

namespace Field

def head : Field → FieldHead
  | leaf f => f.head
  | repeated h _ _ _ => h
  | map h _ _ _ => h

def name (f : Field) : String := f.head.name

def withHead (f : Field) (h : FieldHead) : Field :=
  match f with
  | leaf f => leaf { f with head := h }
  | repeated _ item count unique => repeated h item count unique
  | map _ key value pairs => map h key value pairs

/-- The field after a change to its head. -/
def edit (f : Field) (e : FieldHead.Edit) : Except InvalidName Field :=
  return f.withHead (← f.head.edit e)

def isOptional : Field → Bool
  | leaf f => f.optional
  | _ => false

/-- The field without its presence: entries of collections and choices of oneofs have none. -/
def withoutPresence : Field → Field
  | leaf f => leaf { f with optional := false }
  | f => f

def isCollection : Field → Bool
  | leaf _ => false
  | _ => true

def scalar? : Field → Option ScalarKind
  | leaf f => f.type.scalar?
  | _ => none

def kindName : Field → String
  | leaf f => f.type.kindName
  | repeated _ _ _ _ => "repeated"
  | map _ _ _ _ => "map"

/-- The host type of the field apart from its own presence. -/
def baseType : Field → String
  | leaf f => f.type.hostType
  | repeated _ item _ _ => "Vec<" ++ item.baseType ++ ">"
  | map _ key value _ => "HashMap<" ++ key.baseType ++ ", " ++ value.baseType ++ ">"

/-- The type a host record must declare for the field. -/
def hostType (f : Field) : String :=
  if f.isOptional then optionalType f.baseType else f.baseType

end Field
end WireSchema
