import WireSchema.Message.Drift
import WireSchema.Message.Numbers

/-!
# Building messages

A message reports its drift, then its numbers and names, then what its fields (in ascending order
of their numbers), oneofs, nested messages and nested enums report, each under its own scope.
Everything is built and checked even after a failure.
-/

namespace WireSchema

namespace FlatMessage

def rules (m : FlatMessage) : List Rule := m.constraints.map Constraint.rule

def buildFields (s : Scope) (m : FlatMessage) : Built (List FieldDescriptor) :=
  .list ((byNumber m.fields).map fun (n, f) => (f.build s n).under (scopeOf "field" f.name))

def buildOneofs (s : Scope) (m : FlatMessage) : Built (List OneofDescriptor) :=
  .list (m.oneofs.map fun o => (o.build s).under (scopeOf "oneof" o.name))

def buildEnums (s : Scope) (enums : List Enum) : Built (List EnumDescriptor) :=
  .list (enums.map fun e => (e.build s).under (scopeOf "enum" e.name))

/-- The checks of the message itself. -/
def checks (m : FlatMessage) : Built Unit :=
  .check (.ofViolations (m.drift ++ m.numberingViolations))

/-- The imports the rules of the message itself ask for. -/
def ownImports (s : Scope) (m : FlatMessage) : StringSet :=
  if m.rules.isEmpty then ∅ else .singleton s.validateImport

/-- The descriptor around built parts. -/
def assemble (s : Scope) (m : FlatMessage) (fields : List FieldDescriptor)
    (oneofs : List OneofDescriptor) (messages : List MessageDescriptor)
    (enums : List EnumDescriptor) : MessageDescriptor where
  name := m.name
  fullName := s.qualify m.name
  fields := fields
  oneofs := oneofs
  messages := messages
  enums := enums
  reservedRanges := m.reservedRanges
  reservedNames := m.reservedNames
  rules := m.rules
  options := m.options
  host := m.host

end FlatMessage

namespace Message

mutual
def build (s : Scope) : Message → Built MessageDescriptor
  | ⟨m, nested⟩ =>
    let inner := s.enter m.name
    ((fun _ => m.assemble s) <$> m.checks <*> m.buildFields inner <*> m.buildOneofs inner
      <*> buildAll inner nested <*> FlatMessage.buildEnums inner m.enums).importing (m.ownImports s)

/-- Builds messages that stand side by side, each under its own scope. -/
def buildAll (s : Scope) : List Message → Built (List MessageDescriptor)
  | [] => pure []
  | m :: ms => List.cons <$> (build s m).under (scopeOf "message" m.name) <*> buildAll s ms
end

mutual
/-- The names of a message and of everything nested in it, relative to the package. -/
def declarations (outer : List String) : Message → List (String × DeclKind)
  | ⟨m, nested⟩ =>
    let path := outer ++ [m.name]
    (".".intercalate path, .message)
      :: m.enums.map (fun e => (".".intercalate (path ++ [e.name]), .enum))
      ++ declarationsAll path nested

def declarationsAll (outer : List String) : List Message → List (String × DeclKind)
  | [] => []
  | m :: ms => declarations outer m ++ declarationsAll outer ms
end

end Message
end WireSchema
