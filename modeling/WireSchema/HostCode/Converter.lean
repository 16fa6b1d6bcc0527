import WireSchema.Banner
import WireSchema.Descriptor.Converter
import WireSchema.HostCode.Name
import WireSchema.Text.Lines
import WireSchema.Text.Quoted

/-!
# Conversions as host code

`HostCode.ofConverters` writes, for every bound message, a conversion from the host record to the
generated message and one back, after the error type that they share. The fields of a message
become struct fields; the choices of a oneof become one field of the generated message, and each of
them an optional field of the host record.
-/

namespace WireSchema

namespace Conversion

/-- The value moves across unchanged. -/
def isPlain : Conversion → Bool
  | direct | wellKnown | message _ none => true
  | optional inner | repeated inner => inner.isPlain
  | map value => value.isPlain
  | _ => false

/-- A single value of this kind may be absent from the generated message. -/
def isMessageLike : Conversion → Bool
  | wellKnown | timestamp | duration | message _ _ => true
  | _ => false

/-- The conversion of the value inside an optional field. -/
def inner : Conversion → Conversion
  | optional c => c
  | c => c

end Conversion

namespace HostCode

/-! ## Expressions -/

/-- The way a value goes. -/
inductive Direction where
  | toMessage
  | toHost
deriving DecidableEq, Repr

/-- A fallible conversion into `type`; failure means a value out of range. -/
def inRange (type value field : String) : String :=
  type ++ "::try_from(" ++ value ++ ").map_err(|_| ConvertError::OutOfRange(" ++ Text.quote field
    ++ "))?"

/-- A fallible conversion into `type` that passes the error on. -/
def passing (type value : String) : String := "<" ++ type ++ ">::try_from(" ++ value ++ ")?"

/-- A closure around a fallible conversion of what it is given. -/
def closure (parameter result : String) : String :=
  "|" ++ parameter ++ "| -> Result<_, ConvertError> \x7b Ok(" ++ result ++ ") \x7d"

/-- The expression that converts `value`, a part of the field `field`. Elements are converted
inside closures, so an error leaves every depth the same way. -/
def convert (way : Direction) (field : String) (c : Conversion) (value : String) : String :=
  if c.isPlain then value
  else
    match c with
    | .direct | .wellKnown => value
    | .timestamp =>
      match way with
      | .toMessage => "prost_types::Timestamp::from(" ++ value ++ ")"
      | .toHost => inRange "std::time::SystemTime" value field
    | .duration =>
      match way with
      | .toMessage => inRange "prost_types::Duration" value field
      | .toHost => inRange "std::time::Duration" value field
    | .enum path =>
      match way with
      | .toMessage => "i32::from(" ++ value ++ ")"
      | .toHost =>
        path ++ "::try_from(" ++ value ++ ").map_err(|_| ConvertError::InvalidEnum \x7b field: "
          ++ Text.quote field ++ ", value: " ++ value ++ " \x7d)?"
    | .message path host =>
      match way, host with
      | .toMessage, _ => passing path value
      | .toHost, some host => passing host value
      | .toHost, none => value
    | .optional inner =>
      value ++ ".map(" ++ closure "v" (convert way field inner "v") ++ ").transpose()?"
    | .repeated inner =>
      value ++ ".into_iter().map(" ++ closure "v" (convert way field inner "v")
        ++ ").collect::<Result<Vec<_>, _>>()?"
    | .map inner =>
      value ++ ".into_iter().map("
        ++ closure "(k, v)" ("(k, " ++ convert way field inner "v" ++ ")")
        ++ ").collect::<Result<std::collections::HashMap<_, _>, _>>()?"

/-! ## Oneofs -/

/-- The oneofs of a message in the order of their first choices. -/
def oneofs (m : MessageConverter) : List String := (m.fields.filterMap (·.oneof)).eraseDups

/-- The choices of a oneof. -/
def choices (m : MessageConverter) (oneof : String) : List FieldConversion :=
  m.fields.filter (·.oneof == some oneof)

/-- The variant of a choice. -/
def variant (m : MessageConverter) (oneof : String) (f : FieldConversion) : String :=
  inModule (oneofPath m.generated oneof) (Text.toPascalCase f.messageField)

/-- The local that holds a choice until the host record is put together. -/
def choiceLocal (f : FieldConversion) : String := "oneof_" ++ f.hostField

def convertChoice (way : Direction) (f : FieldConversion) : String :=
  convert way f.messageField f.conversion.inner "v"

/-! ## Implementations -/

/-- A conversion from `source` to `target` that runs `steps` and fills in `fields`. -/
def implementation (source target : String) (steps fields : List String) : List String :=
  Text.block 4 ("impl TryFrom<" ++ source ++ "> for " ++ target)
    ("type Error = ConvertError;" :: ""
      :: Text.block 4 ("fn try_from(value: " ++ source ++ ") -> Result<Self, Self::Error>")
        (steps ++ Text.block 4 "Ok(Self" fields ")") "") ""

def fieldLine (name value : String) : String := name ++ ": " ++ value ++ ","

/-- A field of the generated message that is no choice. -/
def messageLine (f : FieldConversion) : String :=
  let value := convert .toMessage f.messageField f.conversion ("value." ++ identifier f.hostField)
  fieldLine (messageField f.messageField)
    (if f.conversion.isMessageLike then "Some(" ++ value ++ ")" else value)

/-- One branch for each choice, the first one after `lead`. -/
def branches (m : MessageConverter) (oneof lead : String) : List FieldConversion → List String
  | [] => []
  | f :: fs =>
    (lead ++ "if let Some(v) = value." ++ identifier f.hostField ++ " \x7b")
      :: Text.indentLine 4
        ("Some(" ++ variant m oneof f ++ "(" ++ convertChoice .toMessage f ++ "))")
      :: branches m oneof "\x7d else " fs

/-- The field of the generated message that holds a oneof: the first choice the host has. -/
def oneofLines (m : MessageConverter) (oneof : String) : List String :=
  branches m oneof (messageField oneof ++ ": ") (choices m oneof)
    ++ ["\x7d else \x7b", Text.indentLine 4 "None", "\x7d,"]

def intoMessage (m : MessageConverter) : List String :=
  implementation m.host m.generated []
    ((m.fields.filter (·.oneof.isNone)).map messageLine ++ (oneofs m).flatMap (oneofLines m)
      ++ ["..Default::default()"])

/-- The arm that takes a choice out of its oneof. -/
def arm (m : MessageConverter) (oneof : String) (f : FieldConversion) : String :=
  "Some(" ++ variant m oneof f ++ "(v)) => " ++ choiceLocal f ++ " = Some("
    ++ convertChoice .toHost f ++ "),"

/-- Takes the choices of a oneof apart into locals. -/
def unpackOneof (m : MessageConverter) (oneof : String) : List String :=
  (choices m oneof).map (fun f => "let mut " ++ choiceLocal f ++ " = None;")
    ++ Text.block 4 ("match value." ++ messageField oneof)
      ((choices m oneof).map (arm m oneof) ++ ["_ => \x7b\x7d"]) ""

/-- The value of a host field. -/
def hostValue (f : FieldConversion) : String :=
  if f.oneof.isSome then choiceLocal f
  else
    let field := "value." ++ messageField f.messageField
    convert .toHost f.messageField f.conversion
      (if f.conversion.isMessageLike then
        field ++ ".ok_or(ConvertError::MissingField(" ++ Text.quote f.messageField ++ "))?"
      else field)

/-- The fields of the host record with their values. -/
def hostInitializers (m : MessageConverter) : List (String × String) :=
  m.fields.map (fun f => (f.hostField, hostValue f))
    ++ m.defaulted.map fun name => (name, "Default::default()")

/-- The lines of the fields; a record without fields leaves a blank line. -/
def hostLines (m : MessageConverter) : List String :=
  if (hostInitializers m).isEmpty then [""]
  else (hostInitializers m).map fun (name, value) => fieldLine (identifier name) value

def intoHost (m : MessageConverter) : List String :=
  implementation m.generated m.host ((oneofs m).flatMap (unpackOneof m)) (hostLines m)

/-! ## Files -/

/-- The error type of all conversions. -/
def errorType : List String :=
  ["/// Why a generated message could not become its host record.",
   "#[derive(Debug, Clone, PartialEq, Eq)]",
   "pub enum ConvertError \x7b",
   "    /// A singular message field was not set.",
   "    MissingField(&'static str),",
   "    /// An enum field held a number the enum does not define.",
   "    InvalidEnum \x7b field: &'static str, value: i32 \x7d,",
   "    /// A timestamp or duration does not fit the other side's type.",
   "    OutOfRange(&'static str),",
   "\x7d",
   "",
   "impl std::fmt::Display for ConvertError \x7b",
   "    fn fmt(&self, f: &mut std::fmt::Formatter<'_>) -> std::fmt::Result \x7b",
   "        match self \x7b",
   "            ConvertError::MissingField(field) => write!(f, \"missing required field \x7b\x7d\", field),",
   "            ConvertError::InvalidEnum \x7b field, value \x7d => write!(f, \"field \x7b\x7d holds unknown enum value \x7b\x7d\", field, value),",
   "            ConvertError::OutOfRange(field) => write!(f, \"field \x7b\x7d is out of range\", field),",
   "        \x7d",
   "    \x7d",
   "\x7d",
   "",
   "impl std::error::Error for ConvertError \x7b\x7d",
   "",
   "impl From<std::convert::Infallible> for ConvertError \x7b",
   "    fn from(never: std::convert::Infallible) -> Self \x7b",
   "        match never \x7b\x7d",
   "    \x7d",
   "\x7d"]

def lines (c : ConverterDescriptor) : List String :=
  Text.sections
    ([[banner, "// package: " ++ c.package], errorType]
      ++ c.messages.flatMap fun m => [intoMessage m, intoHost m])

/-- The conversions of a package as one source file. -/
def ofConverters (c : ConverterDescriptor) : String := Text.ofLines (lines c)

end HostCode
end WireSchema
