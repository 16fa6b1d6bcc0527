import WireSchema.Built
import WireSchema.Descriptor.File
import WireSchema.Repeats
import WireSchema.Scope
import WireSchema.Sorting
import WireSchema.Text.Letter

/-!
# Services

A service lists its methods in the order of handlers: those that create, get, update and delete
first, then the others by name. Method names are distinct, and both types of a method resolve to
messages; when neither does, both are reported.
-/

namespace WireSchema

structure Method where
  name : String
  input : TypeName
  output : TypeName
  clientStreaming : Bool := false
  serverStreaming : Bool := false
  options : List OptionEntry := []

structure Service where
  name : String
  methods : List Method := []
  options : List OptionEntry := []

namespace Method

/-- One line of a method declaration. -/
inductive Item where
  | clientStreaming
  | serverStreaming
  | option (edit : OptionEdit)

/-- A method that takes one message and returns one message. -/
def ofName (name : String) (input output : TypeName) : Except InvalidName Method := do
  Name.identifier "method" name
  return { name, input, output }

def add (m : Method) : Item → Except InvalidName Method
  | .clientStreaming => return { m with clientStreaming := true }
  | .serverStreaming => return { m with serverStreaming := true }
  | .option e => return { m with options := ← e.applyChecked m.options }

/-! ## Order -/

/-- The verbs of handlers in their order. -/
def verbs : List String := ["Create", "Get", "Update", "Delete"]

/-- The name is the verb, or a capital follows it there: `GetUser` and not `Getaway`. -/
def startsWith (verb name : String) : Bool :=
  verb.toList.isPrefixOf name.toList
    && (name.toList.drop verb.toList.length).head?.all Text.isUppercase

/-- The position of the verb of a name, after all verbs if it has none. -/
def rank (name : String) : Nat := verbs.findIdx fun verb => startsWith verb name

/-- By verb, then by name. -/
def precedes (a b : Method) : Bool :=
  rank a.name < rank b.name || (rank a.name == rank b.name && a.name ≤ b.name)

/-! ## Building -/

/-- The message a method takes or returns, with the import it asks for. -/
def buildReference (s : Scope) (target : TypeName) : Built TypeRef :=
  match s.resolve .message target with
  | .ok type => (pure type : Built TypeRef).importing (.ofList type.importPath.toList)
  | .error v => .reject (.ofViolations [v]) (by simp [Report.ofViolations])

def build (s : Scope) (m : Method) : Built MethodDescriptor :=
  (fun input output =>
      ⟨m.name, input, output, m.clientStreaming, m.serverStreaming, m.options⟩)
    <$> buildReference s m.input <*> buildReference s m.output

end Method

namespace Service

/-- One line of a service declaration. -/
inductive Item where
  | method (m : Method)
  | option (edit : OptionEdit)

def ofName (name : String) : Except InvalidName Service := do
  Name.identifier "service" name
  return { name }

def add (s : Service) : Item → Except InvalidName Service
  | .method m => return { s with methods := s.methods ++ [m] }
  | .option e => return { s with options := ← e.applyChecked s.options }

/-! ## Building -/

def violations (s : Service) : List Violation :=
  (repeats (s.methods.map Method.name)).map .duplicateMethod

def buildMethods (scope : Scope) (s : Service) : Built (List MethodDescriptor) :=
  .list ((stableSort Method.precedes s.methods).map fun m =>
    (m.build scope).under (scopeOf "method" m.name))

def build (scope : Scope) (s : Service) : Built ServiceDescriptor :=
  (fun _ methods => ⟨s.name, methods, s.options⟩)
    <$> Built.check (.ofViolations s.violations) <*> s.buildMethods scope

end Service
end WireSchema
