import WireSchema.Message.Build
import WireSchema.Service

/-!
# Files

A file declares messages, enums, services and extensions of the standard options messages. It
imports what its declarations ask for and what its author names, but never itself; the numbers of
the extensions of one target are distinct.
-/

namespace WireSchema

/-- A custom option, declared as a field of an options message. -/
structure Extension where
  target : ExtensionTarget
  number : Nat
  field : Field

structure File where
  name : String
  options : List OptionEntry := []
  messages : List Message := []
  enums : List Enum := []
  services : List Service := []
  extensions : List Extension := []
  /-- Files to import that no reference reveals. -/
  imports : StringSet := ∅

namespace File

/-- One line of a file. -/
inductive Item where
  | message (m : Message)
  | enum (e : Enum)
  | service (s : Service)
  | extend (e : Extension)
  | importing (path : String)
  | option (edit : OptionEdit)

def ofName (name : String) : Except InvalidName File := do
  Name.file name
  return { name }

def add (f : File) : Item → Except InvalidName File
  | .message m => return { f with messages := f.messages ++ [m] }
  | .enum e => return { f with enums := f.enums ++ [e] }
  | .service s => return { f with services := f.services ++ [s] }
  | .extend e => return { f with extensions := f.extensions ++ [e] }
  | .importing path => return { f with imports := f.imports.insert path }
  | .option e => return { f with options := ← e.applyChecked f.options }

/-- The names of the types of the file relative to the package: enums first, then each message
with what it nests. -/
def declarations (f : File) : List (String × DeclKind) :=
  f.enums.map (fun e => (e.name, .enum)) ++ Message.declarationsAll [] f.messages

/-! ## Extensions -/

/-- The fields that extend one target, in ascending order of their numbers. -/
def extending (f : File) (target : ExtensionTarget) : List (Nat × Field) :=
  byNumber ((f.extensions.filter (·.target = target)).map fun e => (e.number, e.field))

/-- The extended targets in the order of their blocks. -/
def extended (f : File) : List ExtensionTarget :=
  ExtensionTarget.all.filter fun target => !(f.extending target).isEmpty

/-- Builds the fields of a block that follow `earlier`. -/
def buildExtending (s : Scope) (earlier : List (Nat × String)) :
    List (Nat × Field) → Built (List FieldDescriptor)
  | [] => pure []
  | (number, f) :: rest =>
    (fun _ d ds => d :: ds)
      <$> (Built.check (.ofViolations (numberViolations earlier number f.name))).under
        (scopeOf "field" f.name)
      <*> (f.build s number).under (scopeOf "field" f.name)
      <*> buildExtending s (earlier ++ [(number, f.name)]) rest

def buildExtension (s : Scope) (f : File) (target : ExtensionTarget) : Built ExtensionDescriptor :=
  ((fun fields => ⟨target, fields⟩) <$> buildExtending s [] (f.extending target)).importing
    (.singleton descriptorImport)

/-! ## Building -/

/-- The built declarations of a file. -/
structure Declarations where
  messages : List MessageDescriptor
  enums : List EnumDescriptor
  services : List ServiceDescriptor
  extensions : List ExtensionDescriptor

def buildDeclarations (s : Scope) (f : File) : Built Declarations :=
  Declarations.mk
    <$> Message.buildAll s f.messages
    <*> FlatMessage.buildEnums s f.enums
    <*> .list (f.services.map fun v => (v.build s).under (scopeOf "service" v.name))
    <*> .list (f.extended.map fun target =>
      (buildExtension s f target).under ("extend " ++ target.extendee))

/-- The scope that the declarations of the file stand in. -/
def scope (registry : Registry) (validateImport : String) (f : File) : Scope where
  registry := registry
  file := f.name
  validateImport := validateImport
  path := []

/-- Builds the file as part of a package whose types are registered. -/
def build (package : String) (registry : Registry) (validateImport : String) (f : File) :
    Built FileDescriptor :=
  let declarations := f.buildDeclarations (f.scope registry validateImport)
  (fun d : Declarations =>
    { name := f.name, package, imports := (declarations.imports ∪ f.imports).erase f.name,
      options := f.options, messages := d.messages, enums := d.enums, services := d.services,
      extensions := d.extensions }) <$> declarations

end File
end WireSchema
