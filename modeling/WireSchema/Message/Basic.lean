import WireSchema.Enum
import WireSchema.Host
import WireSchema.Oneof

/-!
# Messages

A message declares fields, oneofs, nested messages and enums, reserves numbers and names, and may
be bound to a host record.
-/

namespace WireSchema

/-- A message without the messages nested in it. -/
structure FlatMessage where
  name : String
  fields : List (Nat × Field) := []
  oneofs : List Oneof := []
  enums : List Enum := []
  reservedRanges : List ReservedRange := []
  reservedNames : List String := []
  constraints : List Constraint := []
  options : List OptionEntry := []
  host : Option HostRecord := none
  /-- The names that the drift check passes over. -/
  ignored : StringSet := ∅
  /-- The binding serves converters only. -/
  skipHostCheck : Bool := false

structure Message extends FlatMessage where
  messages : List Message := []

namespace Message

/-- One line of a message declaration. -/
inductive Item where
  | field (number : Nat) (field : Field)
  | oneof (o : Oneof)
  | message (m : Message)
  | enum (e : Enum)
  | reserved (range : ReservedRange)
  | reservedName (name : String)
  | constraint (c : Constraint)
  | option (edit : OptionEdit)
  | bind (host : HostRecord)
  | ignore (name : String)
  | skipHostCheck

def ofName (name : String) : Except InvalidName Message := do
  Name.identifier "message" name
  return { name }

def add (m : Message) : Item → Except InvalidName Message
  | .field number f => return { m with fields := m.fields ++ [(number, f)] }
  | .oneof o => return { m with oneofs := m.oneofs ++ [o] }
  | .message n => return { m with messages := m.messages ++ [n] }
  | .enum e => return { m with enums := m.enums ++ [e] }
  | .reserved r => return { m with reservedRanges := m.reservedRanges ++ [r] }
  | .reservedName n => do
    Name.identifier "reserved" n
    return { m with reservedNames := m.reservedNames ++ [n] }
  | .constraint c => return { m with constraints := m.constraints ++ [c] }
  | .option e => return { m with options := ← e.applyChecked m.options }
  | .bind h => return { m with host := some h }
  | .ignore n => return { m with ignored := m.ignored.insert n }
  | .skipHostCheck => return { m with skipHostCheck := true }

end Message

/-- The regular fields, then the choices of the oneofs, with their numbers. -/
def FlatMessage.allFields (m : FlatMessage) : List (Nat × Field) :=
  m.fields ++ m.oneofs.flatMap Oneof.choices

end WireSchema
