import WireSchema.Banner
import WireSchema.Descriptor.File
import WireSchema.Literal.Text
import WireSchema.Text.Lines

/-!
# Schema files as text

`ProtoText.ofFile` writes a file descriptor in the proto3 language. A declaration is a block of
lines, indented once for each block around it; the sections of a file and of a message are set
apart by blank lines. A rule is an option of the validation extension, and a rule with a list of
values is one assignment for each value.
-/

namespace WireSchema.ProtoText

/-! ## Options -/

def assignment (name : String) (value : Literal) : String := name ++ " = " ++ value.render

/-- The assignments of a rule beneath the option `extension`. -/
def ruleAssignments (extension : String) (r : Rule) : List String :=
  let name := "(" ++ extension ++ ")." ++ r.dotted
  match r.value with
  | .list items => items.map (assignment name)
  | v => [assignment name v]

/-- The options of a declaration, then its rules. -/
def assignments (extension : String) (options : List OptionEntry) (rules : List Rule) :
    List String :=
  options.map (fun o => assignment o.name o.value) ++ rules.flatMap (ruleAssignments extension)

/-- Each assignment as a statement. -/
def statements (assignments : List String) : List String :=
  assignments.map fun a => "option " ++ a ++ ";"

def optionStatements (options : List OptionEntry) : List String :=
  statements (assignments "" options [])

/-- A declaration with its assignments in brackets: none, one on the same line, or one a line. -/
def withOptions (head : String) : List String → List String
  | [] => [head ++ ";"]
  | [a] => [head ++ " [" ++ a ++ "];"]
  | as => (head ++ " [") :: Text.indent 2 (Text.commaLines as) ++ ["];"]

/-! ## Declarations -/

def declaration (head : String) (body : List String) : List String := Text.block 2 head body ""

/-- The word in front of the type; a choice of a oneof has none. -/
def label (d : FieldDescriptor) : String :=
  if d.repeated then "repeated "
  else if d.optional && d.oneof.isNone then "optional "
  else ""

def ofField (d : FieldDescriptor) : List String :=
  withOptions (label d ++ d.protoType ++ " " ++ d.name ++ " = " ++ toString d.number)
    (assignments "buf.validate.field" d.options d.rules)

/-- An inclusive range, or the number alone. -/
def rangeText (first last : String) : String :=
  if first = last then first else first ++ " to " ++ last

/-- The statements that reserve ranges, given by the texts of their ends, and names. -/
def reserved (ranges : List (String × String)) (names : List String) : List String :=
  (if ranges.isEmpty then []
    else ["reserved " ++ ", ".intercalate (ranges.map fun (a, b) => rangeText a b) ++ ";"])
    ++ (if names.isEmpty then []
      else ["reserved " ++ ", ".intercalate (names.map Text.quote) ++ ";"])

def ofOneof (d : OneofDescriptor) : List String :=
  declaration ("oneof " ++ d.name)
    (statements (assignments "buf.validate.oneof" d.options d.rules) ++ d.fields.flatMap ofField)

def ofEnumValue (v : EnumValueDescriptor) : List String :=
  withOptions (v.name ++ " = " ++ toString v.number) (assignments "" v.options [])

def ofEnum (d : EnumDescriptor) : List String :=
  declaration ("enum " ++ d.name)
    (optionStatements d.options ++ d.values.flatMap ofEnumValue
      ++ reserved (d.reservedRanges.map fun r => (toString r.first, toString r.last))
        d.reservedNames)

/-- The sections of a message in front of the messages nested in it. -/
def messageSections (m : FlatMessageDescriptor) : List (List String) :=
  [statements (assignments "buf.validate.message" m.options m.rules),
    reserved (m.reservedRanges.map fun r => (toString r.first, toString r.last)) m.reservedNames,
    m.fields.flatMap ofField]
    ++ m.oneofs.map ofOneof
    ++ m.enums.map ofEnum

mutual
def ofMessage : MessageDescriptor → List String
  | ⟨m, nested⟩ =>
    declaration ("message " ++ m.name) (Text.sections (messageSections m ++ ofMessages nested))

def ofMessages : List MessageDescriptor → List (List String)
  | [] => []
  | m :: ms => ofMessage m :: ofMessages ms
end

/-- A message type that may come as a stream. -/
def streamText (streaming : Bool) (type : TypeRef) : String :=
  (if streaming then "stream " else "") ++ type.protoName

def ofMethod (m : MethodDescriptor) : List String :=
  let signature := "rpc " ++ m.name ++ "(" ++ streamText m.clientStreaming m.input ++ ") returns ("
    ++ streamText m.serverStreaming m.output ++ ")"
  if m.options.isEmpty then [signature ++ ";"]
  else declaration signature (optionStatements m.options)

def ofService (d : ServiceDescriptor) : List String :=
  declaration ("service " ++ d.name) (optionStatements d.options ++ d.methods.flatMap ofMethod)

def ofExtension (d : ExtensionDescriptor) : List String :=
  declaration ("extend " ++ d.target.extendee) (d.fields.flatMap ofField)

/-! ## Files -/

def importLines (imports : StringSet) : List String :=
  imports.toList.map fun path => "import " ++ Text.quote path ++ ";"

/-- The sections of a file, the comment with its name first. -/
def fileSections (name : String) (d : FileDescriptor) : List (List String) :=
  [[banner, "// source: " ++ name],
    ["syntax = \"proto3\";"],
    ["package " ++ d.package ++ ";"],
    importLines d.imports,
    optionStatements d.options]
    ++ d.enums.map ofEnum
    ++ ofMessages d.messages
    ++ d.services.map ofService
    ++ d.extensions.map ofExtension

def lines (name : String) (d : FileDescriptor) : List String :=
  Text.sections (fileSections name d)

/-- The text of a file under the given name. -/
def ofFile (name : String) (d : FileDescriptor) : String := Text.ofLines (lines name d)

end WireSchema.ProtoText
